import Mathlib.Logic.Relation
import TokenGrammar.Proofs.Leaves
import TokenGrammar.Proofs.Provenance.Rules
import TokenGrammar.Reader

namespace TokenGrammar

/-- The tokens that an action brings along. -/
def Action.brings : Action → List Token
  | .wrap opening closing => [opening, closing]
  | _ => []

/-- Whether an action writes what a function of a caller returns. -/
def Action.isCallers : Action → Bool
  | .transform _ | .convert _ => true
  | _ => false

namespace Token

variable {token inner : Token} {tokens members : List Token}

/-- The token that a wrapper is put around. -/
def wrapped? : Token → Option Token
  | .annotated _ token _ | .indexed _ token _ | .shadow _ token => some token
  | _ => none

/-- The tokens right inside of a token: what it is put around or composed of. -/
def parts : Token → List Token
  | .simple _ | .escaped .. => []
  | .group _ _ members => members
  | .annotated _ token _ | .indexed _ token _ | .shadow _ token => [token]

/-- A token holds itself and what is right inside of the tokens that it holds. -/
def Holds : Token → Token → Prop := Relation.ReflTransGen fun outer inner => inner ∈ outer.parts

/-- The tokens that can be obtained: what factories make of a text or of such tokens, what such tokens have inside, what
a reader reads, and what an action makes of such tokens or hands out. What a function of a caller returns has to be
obtained in one of these ways too. -/
inductive Composed : Token → Prop
  | word {definition : Definition} {value : Text} {position : Position} {token : Token}
      (made : ofWord definition value position = .ok token) : Composed token
  | escape {value : Text} {position : Position} {definition : Option Definition} {token : Token}
      (made : ofEscape value position definition = .ok token) : Composed token
  | group {members : List Token} {definition : Option Definition} {token : Token}
      (composed : ∀ member ∈ members, Composed member) (made : ofGroup members definition = .ok token) : Composed token
  | annotated {token : Token} (composed : Composed token) (metadata : Fields) : Composed (token.annotate metadata)
  | numbered {token made : Token} {ordinal : Number} (composed : Composed token)
      (numbers : token.number ordinal = .ok made) : Composed made
  | hidden {token : Token} (composed : Composed token) : Composed token.hide
  | typed {token : Token} (composed : Composed token) (types : List TokenType) : Composed (token.withTypes types)
  | part {token inner : Token} (composed : Composed token) (inside : inner ∈ token.parts) : Composed inner
  | read {reader : TokenReader} {text : Text} {tokens : List Token} {token : Token}
      (reads : reader.read text = .ok tokens) (member : token ∈ tokens) : Composed token
  | edited {action : Action} {store : RuleStore} {captures : Captures} {found : Match} {edit : Edit} {token : Token}
      (given : ∀ token ∈ found.tokens, Composed token) (brought : ∀ token ∈ action.brings, Composed token)
      (supplied : action.isCallers = true → ∀ token ∈ edit.tokens ++ edit.extracted, Composed token)
      (edits : action.apply store captures found = .ok edit) (member : token ∈ edit.tokens ++ edit.extracted) :
      Composed token

/-- A token is well made when its definition accepts its value, and it has the types of what it is put around or enough
members. -/
structure WellMade (token : Token) : Prop where
  accepted : token.definition.accepts token.value = true
  types : ∀ inner, token.wrapped? = some inner → inner.types ⊆ token.types
  several : ∀ members, token.members? = some members → 2 ≤ members.length

/-- A token is sound when all that it holds is well made. -/
def Sound (token : Token) : Prop := ∀ inner, token.Holds inner → inner.WellMade

theorem Sound.here (sound : token.Sound) : token.WellMade := sound token .refl

theorem Sound.of_mem_parts (sound : token.Sound) (inside : inner ∈ token.parts) : inner.Sound :=
  fun held holds => sound held (.head inside holds)

theorem sound_of_parts (here : token.WellMade) (parts : ∀ inner ∈ token.parts, inner.Sound) : token.Sound := by
  intro held holds
  rcases Relation.ReflTransGen.cases_head holds with rfl | ⟨inner, inside, rest⟩
  · exact here
  · exact parts inner inside held rest

theorem sound_of_ofWord {definition : Definition} {value : Text} {position : Position}
    (made : ofWord definition value position = .ok token) : token.Sound := by
  obtain ⟨accepted, made⟩ := check_bind_eq_ok_iff.mp made
  obtain ⟨endPosition, -, made⟩ := bind_eq_ok_iff.mp made
  cases made
  exact sound_of_parts ⟨by rwa [value_simple], nofun, nofun⟩ nofun

theorem sound_of_ofEscape {value : Text} {position : Position} {definition : Option Definition}
    (made : ofEscape value position definition = .ok token) : token.Sound := by
  unfold ofEscape at made
  split at made
  · obtain ⟨accepted, made⟩ := check_bind_eq_ok_iff.mp made
    obtain ⟨endPosition, -, made⟩ := bind_eq_ok_iff.mp made
    cases made
    exact sound_of_parts ⟨by rwa [value_escaped], nofun, nofun⟩ nofun
  · cases made

theorem sound_of_ofGroup {definition : Option Definition} (sound : ∀ member ∈ members, member.Sound)
    (made : ofGroup members definition = .ok token) : token.Sound := by
  obtain ⟨several, made⟩ := check_bind_eq_ok_iff.mp made
  obtain ⟨accepted, made⟩ := check_bind_eq_ok_iff.mp made
  cases made
  refine sound_of_parts ⟨accepted, nofun, fun _ same => ?_⟩ sound
  cases same
  exact of_decide_eq_true several

/-- What is put around a sound token and has its types is sound. -/
theorem Sound.wrapped {outer : Token} (sound : token.Sound) (wraps : outer.wrapped? = some token)
    (types_eq : outer.types = token.types) : outer.Sound := by
  have types (inner : Token) (same : outer.wrapped? = some inner) : inner.types ⊆ outer.types := by
    cases wraps.symm.trans same
    exact types_eq ▸ List.Subset.refl _
  cases outer with
  | annotated | indexed | shadow =>
    cases wraps
    exact sound_of_parts ⟨sound.here.accepted, types, nofun⟩ (List.forall_mem_singleton.mpr sound)
  | simple | escaped | group => cases wraps

theorem Sound.hide (sound : token.Sound) : token.hide.Sound := by
  cases token with
  | shadow => exact sound
  | _ => exact sound.wrapped rfl rfl

theorem subset_addTypes (present types : List TokenType) : present ⊆ addTypes present types := by
  induction types generalizing present with
  | nil => exact List.Subset.refl present
  | cons type rest ih =>
    refine List.Subset.trans ?_ (ih _)
    split
    · exact List.Subset.refl present
    · exact List.subset_append_left present [type]

theorem definition_withTypeList (token : Token) (types : List TokenType) :
    (token.withTypeList types).definition = token.definition := by
  cases token <;> rfl

theorem wrapped?_withTypeList (token : Token) (types : List TokenType) :
    (token.withTypeList types).wrapped? = token.wrapped? := by
  cases token <;> rfl

theorem members?_withTypeList (token : Token) (types : List TokenType) :
    (token.withTypeList types).members? = token.members? := by
  cases token <;> rfl

theorem parts_withTypeList (token : Token) (types : List TokenType) : (token.withTypeList types).parts = token.parts := by
  cases token <;> rfl

/-- More types can be added to a sound token. -/
theorem Sound.withTypes (sound : token.Sound) (types : List TokenType) : (token.withTypes types).Sound := by
  refine sound_of_parts ⟨?_, ?_, ?_⟩ ?_
  · rw [Token.withTypes, definition_withTypeList, value_withTypeList]
    exact sound.here.accepted
  · intro inner wraps
    rw [Token.withTypes, wrapped?_withTypeList] at wraps
    rw [Token.withTypes, types_withTypeList]
    exact List.Subset.trans (sound.here.types inner wraps) (subset_addTypes _ _)
  · rw [Token.withTypes, members?_withTypeList]
    exact sound.here.several
  · rw [Token.withTypes, parts_withTypeList]
    exact fun inner inside => sound.of_mem_parts inside

/-- Every token that is read was made as a word or as an escape. -/
theorem sound_of_readFrom {reader : TokenReader} {text rest : List Nat} {place : Place} {word : Option OpenWord}
    (reads : reader.readFrom text place word rest = .ok tokens) : ∀ token ∈ tokens, token.Sound := by
  have finished {word : Option OpenWord} {made : List Token} (finishes : TokenReader.finish word = .ok made) :
      ∀ token ∈ made, token.Sound := by
    cases word with
    | none =>
      cases finishes
      exact nofun
    | some word =>
      obtain ⟨token, makes, single⟩ := bind_eq_ok_iff.mp finishes
      cases single
      exact List.forall_mem_singleton.mpr (sound_of_ofWord makes)
  have separated {code : Nat} {place : Place} {made : List Token}
      (separates : reader.ofSeparator code place = .ok made) : ∀ token ∈ made, token.Sound := by
    simp only [TokenReader.ofSeparator] at separates
    split at separates
    · cases separates
      exact nofun
    · obtain ⟨token, makes, single⟩ := bind_eq_ok_iff.mp separates
      cases single
      exact List.forall_mem_singleton.mpr (sound_of_ofWord makes)
  induction place, word, rest using TokenReader.readFrom.induct reader generalizing tokens with
  | case1 place word =>
    rw [TokenReader.readFrom] at reads
    exact finished reads
  | case2 place word rest ih =>
    rw [TokenReader.readFrom, if_pos rfl] at reads
    obtain ⟨before, finishes, reads⟩ := bind_eq_ok_iff.mp reads
    cases rest with
    | nil => cases reads
    | cons escaped rest =>
      obtain ⟨token, makes, reads⟩ := bind_eq_ok_iff.mp reads
      obtain ⟨behind, readsRest, joins⟩ := bind_eq_ok_iff.mp reads
      cases joins
      simp only [List.forall_mem_append, List.forall_mem_cons]
      exact ⟨finished finishes, sound_of_ofEscape makes, ih readsRest⟩
  | case3 place word code rest plain separates ih =>
    rw [TokenReader.readFrom, if_neg plain, if_pos separates] at reads
    obtain ⟨before, finishes, reads⟩ := bind_eq_ok_iff.mp reads
    obtain ⟨here, separator, reads⟩ := bind_eq_ok_iff.mp reads
    obtain ⟨behind, readsRest, joins⟩ := bind_eq_ok_iff.mp reads
    cases joins
    simp only [List.forall_mem_append]
    exact ⟨⟨finished finishes, separated separator⟩, ih readsRest⟩
  | case4 place word code rest plain separates allowed ih =>
    rw [TokenReader.readFrom, if_neg plain, if_neg separates, if_pos allowed] at reads
    exact ih reads
  | case5 place word code rest plain separates allowed =>
    rw [TokenReader.readFrom, if_neg plain, if_neg separates, if_neg allowed] at reads
    cases reads

mutual

theorem sound_of_mem_leavesWithin {outer leaf : Token} (outerSound : outer.Sound) :
    (token : Token) → token.Sound → leaf ∈ leavesWithin outer token → leaf.Sound
  | .group _ _ members, sound, member => sound_of_mem_allLeaves members (fun _ inside => sound.of_mem_parts inside) member
  | .annotated _ token _, sound, member =>
    sound_of_mem_leavesWithin outerSound token (sound.of_mem_parts (List.mem_singleton.mpr rfl)) member
  | .indexed _ token _, sound, member =>
    sound_of_mem_leavesWithin outerSound token (sound.of_mem_parts (List.mem_singleton.mpr rfl)) member
  | .simple _, _, member => List.mem_singleton.mp member ▸ outerSound
  | .escaped .., _, member => List.mem_singleton.mp member ▸ outerSound
  | .shadow .., _, member => List.mem_singleton.mp member ▸ outerSound

/-- The leaves of sound tokens are sound. -/
theorem sound_of_mem_allLeaves {leaf : Token} :
    (tokens : List Token) → (∀ token ∈ tokens, token.Sound) → leaf ∈ allLeaves tokens → leaf.Sound
  | token :: rest, sound, member => by
    obtain ⟨head, tail⟩ := List.forall_mem_cons.mp sound
    rcases List.mem_append.mp member with inside | behind
    · exact sound_of_mem_leavesWithin head token head inside
    · exact sound_of_mem_allLeaves rest tail behind

end

/-- The actions of the library make sound tokens of sound tokens. -/
theorem sound_preserved {action : Action} (brought : ∀ token ∈ action.brings, token.Sound)
    (own : action.isCallers = false) : action.Preserves Sound := by
  cases action with
  | identity | filter | skip | extract => trivial
  | transform | convert => cases own
  | grouping mode definition =>
    intro tokens made sound groups
    rcases Action.eq_or_exists_of_group groups with rfl | ⟨members, whole, chosen, makes, rfl⟩
    · exact sound
    · have membersSound : ∀ member ∈ members, member.Sound := by
        rcases chosen with rfl | rfl
        · exact sound
        · rw [← allLeaves_eq_flatMap]
          exact fun leaf => sound_of_mem_allLeaves tokens sound
      exact List.forall_mem_singleton.mpr (sound_of_ofGroup membersSound makes)
  | wrap opening closing => exact ⟨brought opening (by simp [Action.brings]), brought closing (by simp [Action.brings])⟩
  | split separator =>
    intro token made sound splits
    simp only [Action.splitToken] at splits
    split at splits
    · cases splits
      exact List.forall_mem_singleton.mpr sound
    · intro piece member
      obtain ⟨part, -, makes⟩ := exists_of_mem_mapM splits piece member
      obtain ⟨position, -, makes⟩ := bind_eq_ok_iff.mp makes
      exact sound_of_ofWord makes
  | annotate metadata => exact fun token sound => sound.wrapped rfl rfl
  | classify classifier => exact fun token sound => sound.withTypes _
  | index start =>
    intro token ordinal made sound numbers
    obtain ⟨-, wrapped⟩ := check_bind_eq_ok_iff.mp numbers
    cases wrapped
    exact sound.wrapped rfl rfl

/-- Whatever is composed is sound. -/
theorem Composed.sound (composed : token.Composed) : token.Sound := by
  induction composed with
  | word made => exact sound_of_ofWord made
  | escape made => exact sound_of_ofEscape made
  | group _ made ih => exact sound_of_ofGroup ih made
  | annotated _ metadata ih => exact ih.wrapped rfl rfl
  | numbered _ numbers ih =>
    obtain ⟨-, wrapped⟩ := check_bind_eq_ok_iff.mp numbers
    cases wrapped
    exact ih.wrapped rfl rfl
  | hidden _ ih => exact ih.hide
  | typed _ types ih => exact ih.withTypes types
  | part _ inside ih => exact ih.of_mem_parts inside
  | read reads member => exact sound_of_readFrom reads _ member
  | @edited action store captures found edit token _ _ _ edits member given brought supplied =>
    -- What a caller's function returned has been obtained before; all else the library makes itself.
    cases own : action.isCallers with
    | true => exact supplied own token member
    | false => exact (sound_preserved brought own).keeps store captures found edit given edits token member

theorem units_joinedValue (tokens : List Token) :
    (joinedValue tokens).units = tokens.flatMap fun token => token.value.units := by
  induction tokens with
  | nil => rfl
  | cons token rest ih =>
    rw [joinedValue_cons, List.flatMap_cons, ← ih]
    rfl

mutual

theorem isGroup_unwrap_of_mem_leavesWithin {outer leaf : Token} :
    (token : Token) → outer.unwrap = token.unwrap → leaf ∈ leavesWithin outer token → leaf.unwrap.isGroup = false
  | .group _ _ members, _, member => isGroup_unwrap_of_mem_allLeaves members member
  | .annotated _ token _, same, member => isGroup_unwrap_of_mem_leavesWithin token same member
  | .indexed _ token _, same, member => isGroup_unwrap_of_mem_leavesWithin token same member
  | .simple _, same, member => by rw [List.mem_singleton.mp member, same]; rfl
  | .escaped .., same, member => by rw [List.mem_singleton.mp member, same]; rfl
  | .shadow .., same, member => by rw [List.mem_singleton.mp member, same]; rfl

/-- Inside of its annotations and numbers no leaf is a group. -/
theorem isGroup_unwrap_of_mem_allLeaves {leaf : Token} :
    (tokens : List Token) → leaf ∈ allLeaves tokens → leaf.unwrap.isGroup = false
  | token :: rest, member => by
    rcases List.mem_append.mp member with inside | behind
    · exact isGroup_unwrap_of_mem_leavesWithin token rfl inside
    · exact isGroup_unwrap_of_mem_allLeaves rest behind

end

mutual

theorem head?_leavesWithin {outer : Token} :
    (token : Token) → token.Sound → outer.position = token.position →
      (leavesWithin outer token).head?.map position = some token.position
  | .group _ _ members, sound, _ => by
    refine head?_allLeaves members ?_ fun _ inside => sound.of_mem_parts inside
    exact List.ne_nil_of_length_pos (Nat.lt_of_lt_of_le Nat.zero_lt_two (sound.here.several members rfl))
  | .annotated _ token _, sound, same =>
    head?_leavesWithin token (sound.of_mem_parts (List.mem_singleton.mpr rfl)) same
  | .indexed _ token _, sound, same =>
    head?_leavesWithin token (sound.of_mem_parts (List.mem_singleton.mpr rfl)) same
  | .simple _, _, same => congrArg some same
  | .escaped .., _, same => congrArg some same
  | .shadow .., _, same => congrArg some same

/-- The leaves of sound tokens begin where the tokens do. -/
theorem head?_allLeaves : (tokens : List Token) → tokens ≠ [] → (∀ token ∈ tokens, token.Sound) →
    (allLeaves tokens).head?.map position = some (firstPosition tokens)
  | token :: rest, _, sound => by
    have first := head?_leavesWithin token (sound token (List.mem_cons_self ..)) rfl
    obtain ⟨leaf, leads, same⟩ := Option.map_eq_some_iff.mp first
    rw [allLeaves, List.head?_append, leads]
    exact congrArg some same

end

mutual

theorem getLast?_leavesWithin {outer : Token} :
    (token : Token) → token.Sound → outer.endPosition = token.endPosition →
      (leavesWithin outer token).getLast?.map endPosition = some token.endPosition
  | .group _ _ members, sound, _ => by
    refine getLast?_allLeaves members ?_ fun _ inside => sound.of_mem_parts inside
    exact List.ne_nil_of_length_pos (Nat.lt_of_lt_of_le Nat.zero_lt_two (sound.here.several members rfl))
  | .annotated _ token _, sound, same =>
    getLast?_leavesWithin token (sound.of_mem_parts (List.mem_singleton.mpr rfl)) same
  | .indexed _ token _, sound, same =>
    getLast?_leavesWithin token (sound.of_mem_parts (List.mem_singleton.mpr rfl)) same
  | .simple _, _, same => congrArg some same
  | .escaped .., _, same => congrArg some same
  | .shadow .., _, same => congrArg some same

/-- The leaves of sound tokens end where the tokens do. -/
theorem getLast?_allLeaves : (tokens : List Token) → tokens ≠ [] → (∀ token ∈ tokens, token.Sound) →
    (allLeaves tokens).getLast?.map endPosition = some (lastEndPosition tokens)
  | [token], _, sound => by
    have last := getLast?_leavesWithin token (sound token (List.mem_cons_self ..)) rfl
    rwa [allLeaves, allLeaves, List.append_nil]
  | token :: next :: rest, _, sound => by
    have last := getLast?_allLeaves (next :: rest) (List.cons_ne_nil _ _) (List.forall_mem_cons.mp sound).2
    obtain ⟨leaf, ends, same⟩ := Option.map_eq_some_iff.mp last
    rw [allLeaves, List.getLast?_append, ends]
    exact congrArg some same

end

end Token

end TokenGrammar
