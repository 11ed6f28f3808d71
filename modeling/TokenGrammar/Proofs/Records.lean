import TokenGrammar.Proofs.Composed
import TokenGrammar.TokenRecord

namespace TokenGrammar

namespace Token

/-- What a token has of its own or from what is inside of it. -/
def own (token : Token) : Leaf := ⟨token.definition, token.value, token.position, token.endPosition, token.types⟩

mutual

/-- The token as it is kept, with all that it has written out. -/
def record : Token → TokenRecord
  | .simple leaf => .simple leaf
  | .escaped leaf character => .escaped leaf character
  | .group definition types members => .group (own (.group definition types members)) (records members)
  | .annotated types token metadata => .annotated (own (.annotated types token metadata)) (record token) metadata
  | .indexed types token ordinal => .indexed (own (.indexed types token ordinal)) (record token) ordinal
  | .shadow types token => .shadow (own (.shadow types token)) (record token)

def records : List Token → List TokenRecord
  | [] => []
  | token :: rest => record token :: records rest

end

end Token

namespace TokenRecord

mutual

/-- What remains of a kept token when the copies are dropped. -/
def token : TokenRecord → Token
  | .simple own => .simple own
  | .escaped own character => .escaped own character
  | .group own members => .group own.definition own.types (allTokens members)
  | .annotated own token metadata => .annotated own.types (TokenRecord.token token) metadata
  | .indexed own token ordinal => .indexed own.types (TokenRecord.token token) ordinal
  | .shadow own token => .shadow own.types (TokenRecord.token token)

def allTokens : List TokenRecord → List Token
  | [] => []
  | token :: rest => TokenRecord.token token :: allTokens rest

end

/-- What a token has of its own agrees with what is inside of it, on every level. -/
def Faithful (kept : TokenRecord) : Prop := kept.token.record = kept

end TokenRecord

namespace Token

open TokenRecord

variable {token inner : Token} {tokens members : List Token}

theorem records_eq (tokens : List Token) : records tokens = tokens.map record := by
  induction tokens with
  | nil => rfl
  | cons token rest ih => rw [records, ih, List.map_cons]

@[simp] theorem own_record (token : Token) : token.record.own = token.own := by
  cases token with
  | simple leaf | escaped leaf => simp [record, TokenRecord.own, own, definition, position, endPosition, types]
  | _ => rfl

@[simp] theorem definition_record (token : Token) : token.record.definition = token.definition :=
  congrArg Leaf.definition token.own_record

@[simp] theorem value_record (token : Token) : token.record.value = token.value :=
  congrArg Leaf.value token.own_record

@[simp] theorem position_record (token : Token) : token.record.position = token.position :=
  congrArg Leaf.position token.own_record

@[simp] theorem endPosition_record (token : Token) : token.record.endPosition = token.endPosition :=
  congrArg Leaf.endPosition token.own_record

@[simp] theorem types_record (token : Token) : token.record.types = token.types :=
  congrArg Leaf.types token.own_record

mutual

/-- Nothing of a token is lost when it is written out. -/
theorem token_record : (token : Token) → token.record.token = token
  | .simple _ => rfl
  | .escaped .. => rfl
  | .group definition types members => congrArg (group definition types) (allTokens_records members)
  | .annotated types token metadata => congrArg (annotated types · metadata) (token_record token)
  | .indexed types token ordinal => congrArg (indexed types · ordinal) (token_record token)
  | .shadow types token => congrArg (shadow types) (token_record token)

theorem allTokens_records : (tokens : List Token) → allTokens (records tokens) = tokens
  | [] => rfl
  | token :: rest => by rw [records, allTokens, token_record token, allTokens_records rest]

end

theorem faithful_record (token : Token) : token.record.Faithful := congrArg record token.token_record

theorem ofWord_record (definition : Definition) (value : Text) (position : Position) :
    TokenRecord.ofWord definition value position = (ofWord definition value position).map record := by
  rw [TokenRecord.ofWord, ofWord]
  cases checkAccepted definition value with
  | error fault => rfl
  | ok accepted =>
    cases position.endOf value with
    | error fault => rfl
    | ok endPosition => rfl

theorem ofEscape_record (value : Text) (position : Position) (definition : Option Definition) :
    TokenRecord.ofEscape value position definition = (ofEscape value position definition).map record := by
  rw [TokenRecord.ofEscape, ofEscape]
  cases escapedCharacter? value with
  | none => rfl
  | some character =>
    simp only
    cases checkAccepted (definition.getD (.escaped character)) value with
    | error fault => rfl
    | ok accepted =>
      cases position.endOf value with
      | error fault => rfl
      | ok endPosition => rfl

theorem joinedValue_record (tokens : List Token) :
    TokenRecord.joinedValue (tokens.map record) = joinedValue tokens := by
  rw [TokenRecord.joinedValue, List.flatMap_map]
  simp only [value_record, ← units_joinedValue]

theorem lastEndPosition_cons (token : Token) (rest : List Token) :
    lastEndPosition (token :: rest) = ((token :: rest).getLast (List.cons_ne_nil token rest)).endPosition := by
  induction rest generalizing token with
  | nil => rfl
  | cons next rest ih => rw [lastEndPosition, ih next, List.getLast_cons_cons]

/-- A group of kept tokens begins with the first of them and ends with the last. -/
theorem ofGroup_record (members : List Token) (definition : Option Definition) :
    TokenRecord.ofGroup (members.map record) definition = (ofGroup members definition).map record := by
  match members with
  | [] | [_] => rfl
  | first :: second :: rest =>
    have last : ((second.record :: rest.map record).getLast (List.cons_ne_nil _ _)).endPosition =
        lastEndPosition (first :: second :: rest) := by
      have mapped : ((second :: rest).map record).getLast (List.cons_ne_nil _ _) =
          ((second :: rest).getLast (List.cons_ne_nil second rest)).record := List.getLast_map ..
      rw [lastEndPosition, lastEndPosition_cons, ← endPosition_record, ← mapped]
      rfl
    have joins := joinedValue_record (first :: second :: rest)
    simp only [List.map_cons] at joins
    have several : check (2 ≤ (first :: second :: rest).length) (.groupTooSmall (first :: second :: rest).length) =
        .ok () := if_pos (by simp)
    simp only [List.map_cons, TokenRecord.ofGroup, ofGroup, several, joins, last, position_record]
    cases checkAccepted (definition.getD (.exactly (joinedValue (first :: second :: rest))))
        (joinedValue (first :: second :: rest)) with
    | error fault => rfl
    | ok accepted =>
      simp only [bind, Except.bind, pure, Except.pure, Except.map, record, records_eq, List.map_cons]
      rfl

theorem copied_record (token : Token) : token.record.copied = token.own := by
  simp [TokenRecord.copied, own]

theorem annotate_record (token : Token) (metadata : Fields) :
    token.record.annotate metadata = (token.annotate metadata).record := by
  rw [TokenRecord.annotate, copied_record]
  rfl

theorem number_record (token : Token) (ordinal : Number) :
    token.record.number ordinal = (token.number ordinal).map record := by
  rw [TokenRecord.number, number, copied_record]
  cases check ordinal.toNat?.isSome (.badOrdinal ordinal) <;> rfl

theorem shadow_copied (token : Token) :
    TokenRecord.shadow token.record.copied token.record = (shadow token.types token).record := by
  rw [copied_record]
  rfl

theorem hide_record (token : Token) : token.record.hide = token.hide.record := by
  cases token with
  | shadow => rfl
  | _ => exact shadow_copied _

theorem withTypeList_record (token : Token) (types : List TokenType) :
    token.record.withTypeList types = (token.withTypeList types).record := by
  cases token <;> rfl

theorem addTypes_of_all {present types : List TokenType} (all : types.all present.contains = true) :
    addTypes present types = present := by
  induction types with
  | nil => rfl
  | cons type rest ih =>
    obtain ⟨here, others⟩ := Bool.and_eq_true_iff.mp all
    rw [addTypes, if_pos here, ih others]

theorem withTypeList_types (token : Token) : token.withTypeList token.types = token := by
  cases token <;> rfl

/-- A kept token that has the types already is not copied. -/
theorem withTypes_record (token : Token) (types : List TokenType) :
    token.record.withTypes types = (token.withTypes types).record := by
  rw [TokenRecord.withTypes, withTypes, types_record]
  split
  · rename_i all
    rw [addTypes_of_all all, withTypeList_types]
  · exact withTypeList_record _ _

mutual

theorem leavesWithin_record {outer : Token} :
    (token : Token) → TokenRecord.leavesWithin outer.record token.record = (leavesWithin outer token).map record
  | .group _ _ members => allLeaves_records members
  | .annotated _ token _ => leavesWithin_record token
  | .indexed _ token _ => leavesWithin_record token
  | .simple _ => rfl
  | .escaped .. => rfl
  | .shadow .. => rfl

theorem allLeaves_records :
    (tokens : List Token) → TokenRecord.allLeaves (records tokens) = (allLeaves tokens).map record
  | [] => rfl
  | token :: rest => by
    rw [records, TokenRecord.allLeaves, allLeaves, leavesWithin_record token, allLeaves_records rest, List.map_append]

end

theorem leaves_record (token : Token) : token.record.leaves = token.leaves.map record := leavesWithin_record token

theorem unwrap_record : (token : Token) → token.record.unwrap = token.unwrap.record
  | .annotated _ token _ => unwrap_record token
  | .indexed _ token _ => unwrap_record token
  | .simple _ => rfl
  | .escaped .. => rfl
  | .group .. => rfl
  | .shadow .. => rfl

theorem isGroup_record (token : Token) : token.record.isGroup = token.isGroup := by
  cases token <;> rfl

theorem wrapped?_record (token : Token) : token.record.wrapped? = token.wrapped?.map record := by
  cases token <;> rfl

theorem members?_record (token : Token) : token.record.members? = token.members?.map (List.map record) := by
  cases token with
  | group definition types members => exact congrArg some (records_eq members)
  | _ => rfl

theorem parts_record (token : Token) : token.record.parts = token.parts.map record := by
  cases token with
  | group definition types members => exact records_eq members
  | _ => rfl

theorem mapM_map_except {α β γ δ : Type} {into : α → γ} {out : β → δ} {change : α → Except Fault β}
    {other : γ → Except Fault δ} (same : ∀ value, other (into value) = (change value).map out) (values : List α) :
    (values.map into).mapM other = (values.mapM change).map (List.map out) := by
  induction values with
  | nil => rfl
  | cons first rest ih =>
    rw [List.map_cons, List.mapM_cons, List.mapM_cons, ih, same]
    cases change first with
    | error fault => rfl
    | ok changed => cases rest.mapM change <;> rfl

theorem ofPart_record (token : Token) (part : Action.Part) :
    token.record.ofPart part = (Action.ofPart token part).map record := by
  simp only [TokenRecord.ofPart, Action.ofPart, definition_record, position_record, value_record]
  cases token.position.shift token.value (.ofNat part.offset) with
  | error fault => rfl
  | ok place => exact ofWord_record ..

theorem splitToken_record (separator : Pattern) (token : Token) :
    TokenRecord.splitToken separator token.record = (Action.splitToken separator token).map (List.map record) := by
  simp only [TokenRecord.splitToken, Action.splitToken, value_record]
  split
  · rfl
  · have parts : ((Action.parts separator token.value).map id).mapM token.record.ofPart = _ :=
      mapM_map_except (ofPart_record token) (Action.parts separator token.value)
    rwa [List.map_id] at parts

theorem numberFrom_record (start : Number) (place : Nat) (tokens : List Token) :
    TokenRecord.numberFrom start place (tokens.map record) =
      (Action.numberFrom start place tokens).map (List.map record) := by
  induction tokens generalizing place with
  | nil => rfl
  | cons token rest ih =>
    rw [List.map_cons, TokenRecord.numberFrom, Action.numberFrom, number_record, ih]
    cases token.number (start + .ofNat place) with
    | error fault => rfl
    | ok numbered => cases Action.numberFrom start (place + 1) rest <;> rfl

theorem merge_record (mode : GroupingMode) (definition : Option Definition) (tokens : List Token) :
    TokenRecord.merge mode definition (tokens.map record) =
      (Action.group mode definition tokens).map (List.map record) := by
  have flattened : (tokens.map record).flatMap TokenRecord.leaves = (tokens.flatMap leaves).map record := by
    simp only [List.flatMap_map, List.map_flatMap, leaves_record]
  have grouped (members : List Token) :
      (do if (members.map record).length < 2 then return tokens.map record
          else return [← TokenRecord.ofGroup (members.map record) definition]) =
        (do if members.length < 2 then return tokens else return [← ofGroup members definition]).map (List.map record) := by
    rw [List.length_map, ofGroup_record]
    split
    · rfl
    · cases ofGroup members definition <;> rfl
  cases mode with
  | matched => exact grouped tokens
  | all =>
    rw [TokenRecord.merge, flattened]
    exact grouped (tokens.flatMap leaves)

end Token

namespace RecordAction

open TokenRecord

/-- The tokens that are written and handed out, as they are kept. -/
def recorded (edit : Edit) : TokenRecord.Edit where
  tokens := edit.tokens.map Token.record
  extracted := edit.extracted.map Token.record

/-- The action on tokens that does what an action does on kept ones. -/
def dropped : RecordAction → Action
  | .identity => .identity
  | .transform transformer => .transform fun _ _ found =>
    (transformer (found.tokens.map Token.record)).map (List.map TokenRecord.token)
  | .convert converter => .convert fun token => (converter token.record).map TokenRecord.token
  | .filter accepts => .filter fun token => accepts token.record
  | .skip accepts => .skip fun token => accepts token.record
  | .extract accepts => .extract fun token => accepts token.record
  | .grouping mode definition => .grouping mode definition
  | .wrap opening closing => .wrap opening.token closing.token
  | .split separator => .split separator
  | .annotate metadata => .annotate metadata
  | .classify classifier => .classify fun token => classifier token.record
  | .index start => .index start

variable {action : RecordAction}

theorem isCallers_dropped (action : RecordAction) : action.dropped.isCallers = action.isCallers := by
  cases action <;> rfl

theorem exists_of_mem_brings {token : Token} (inside : token ∈ action.dropped.brings) :
    ∃ kept ∈ action.brings, kept.token = token := by
  cases action with
  | wrap opening closing => exact List.mem_map.mp inside
  | _ => cases inside

/-- An action of the library does on kept tokens what it does on tokens; what it brings along has to be kept right. -/
theorem apply_record (store : RuleStore) (captures : Captures) (own : action.isCallers = false)
    (brought : ∀ token ∈ action.brings, token.Faithful) (found : Match) :
    action.apply (found.tokens.map Token.record) = (action.dropped.apply store captures found).map recorded := by
  cases action with
  | identity => rfl
  | transform | convert => cases own
  | filter accepts | skip accepts | extract accepts =>
    simp only [apply, dropped, Action.apply, List.filter_map]
    rfl
  | grouping mode definition =>
    simp only [apply, dropped, Action.apply, Token.merge_record]
    cases Action.group mode definition found.tokens <;> rfl
  | wrap opening closing =>
    have opens : opening.token.record = opening := brought opening (by simp [brings])
    have closes : closing.token.record = closing := brought closing (by simp [brings])
    simp only [apply, dropped, Action.apply, pure, Except.pure, Except.map, recorded, List.map_append, List.map_cons,
      List.map_nil, opens, closes]
  | split separator =>
    simp only [apply, dropped, Action.apply, Token.mapM_map_except (Token.splitToken_record separator)]
    cases found.tokens.mapM (Action.splitToken separator) with
    | error fault => rfl
    | ok pieces =>
      simp only [bind, Except.bind, pure, Except.pure, Except.map, recorded, List.map_flatten, List.map_nil]
  | annotate metadata =>
    simp only [apply, dropped, Action.apply, List.map_map, Function.comp_def, Token.annotate_record]
    simp only [pure, Except.pure, Except.map, recorded, List.map_map, Function.comp_def, List.map_nil]
  | classify classifier =>
    simp only [apply, dropped, Action.apply, List.map_map, Function.comp_def, Token.withTypes_record]
    simp only [pure, Except.pure, Except.map, recorded, List.map_map, Function.comp_def, List.map_nil]
  | index start =>
    simp only [apply, dropped, Action.apply, Token.numberFrom_record]
    cases Action.numberFrom start 0 found.tokens <;> rfl

end RecordAction

namespace TokenRecord

variable {kept inner : TokenRecord}

/-- The tokens that can be obtained: what factories make of a text or of such tokens, what such tokens have inside, what
a reader reads, and what an action makes of such tokens or hands out. What a function of a caller returns has to be
obtained in one of these ways too. -/
inductive Composed : TokenRecord → Prop
  | word {definition : Definition} {value : Text} {position : Position} {made : TokenRecord}
      (makes : ofWord definition value position = .ok made) : Composed made
  | escape {value : Text} {position : Position} {definition : Option Definition} {made : TokenRecord}
      (makes : ofEscape value position definition = .ok made) : Composed made
  | group {members : List TokenRecord} {definition : Option Definition} {made : TokenRecord}
      (composed : ∀ member ∈ members, Composed member) (makes : ofGroup members definition = .ok made) : Composed made
  | annotated {token : TokenRecord} (composed : Composed token) (metadata : Fields) : Composed (token.annotate metadata)
  | numbered {token made : TokenRecord} {ordinal : Number} (composed : Composed token)
      (numbers : token.number ordinal = .ok made) : Composed made
  | hidden {token : TokenRecord} (composed : Composed token) : Composed token.hide
  | typed {token : TokenRecord} (composed : Composed token) (types : List TokenType) : Composed (token.withTypes types)
  | part {token inner : TokenRecord} (composed : Composed token) (inside : inner ∈ token.parts) : Composed inner
  -- A reader makes words and escapes, which keep the same in either form.
  | read {reader : TokenReader} {text : Text} {tokens : List Token} {token : Token}
      (reads : reader.read text = .ok tokens) (member : token ∈ tokens) : Composed token.record
  | edited {action : RecordAction} {tokens : List TokenRecord} {edit : Edit} {token : TokenRecord}
      (given : ∀ token ∈ tokens, Composed token) (brought : ∀ token ∈ action.brings, Composed token)
      (supplied : action.isCallers = true → ∀ token ∈ edit.tokens ++ edit.extracted, Composed token)
      (edits : action.apply tokens = .ok edit) (member : token ∈ edit.tokens ++ edit.extracted) : Composed token

/-- A token holds itself and what is right inside of the tokens that it holds. -/
def Holds : TokenRecord → TokenRecord → Prop := Relation.ReflTransGen fun outer inner => inner ∈ outer.parts

/-- How a token represents what is inside of it. -/
structure Represents (kept : TokenRecord) : Prop where
  accepted : kept.definition.accepts kept.value = true
  wraps : ∀ inner, kept.wrapped? = some inner → kept.definition = inner.definition ∧ kept.value = inner.value ∧
    kept.position = inner.position ∧ kept.endPosition = inner.endPosition ∧ inner.types ⊆ kept.types
  several : ∀ members, kept.members? = some members → 2 ≤ members.length
  spells : kept.value.units = kept.leaves.flatMap fun leaf => leaf.value.units
  ungrouped : ∀ leaf ∈ kept.leaves, leaf.unwrap.isGroup = false
  begins : kept.leaves.head?.map position = some kept.position
  ends : kept.leaves.getLast?.map endPosition = some kept.endPosition

/-- A kept token that a composed token becomes when all that it has is written out. -/
def Mirrors (kept : TokenRecord) : Prop := ∃ token : Token, token.Composed ∧ token.record = kept

theorem exists_of_mirrors {tokens : List TokenRecord} (mirrors : ∀ kept ∈ tokens, kept.Mirrors) :
    ∃ sources : List Token, (∀ token ∈ sources, token.Composed) ∧ sources.map Token.record = tokens := by
  induction tokens with
  | nil => exact ⟨[], fun token member => absurd member List.not_mem_nil, rfl⟩
  | cons kept rest ih =>
    obtain ⟨⟨token, composed, rfl⟩, others⟩ := List.forall_mem_cons.mp mirrors
    obtain ⟨sources, all, rfl⟩ := ih others
    exact ⟨token :: sources, List.forall_mem_cons.mpr ⟨composed, all⟩, rfl⟩

theorem mirrors_of_made {result : Except Fault Token} (makes : result.map Token.record = .ok kept)
    (composed : ∀ token, result = .ok token → token.Composed) : kept.Mirrors := by
  cases result with
  | error fault => cases makes
  | ok token =>
    cases makes
    exact ⟨token, composed token rfl, rfl⟩

theorem Mirrors.faithful (mirrors : kept.Mirrors) : kept.Faithful := by
  obtain ⟨token, -, rfl⟩ := mirrors
  exact token.faithful_record

/-- However tokens are composed, what they keep for themselves is what they have inside. -/
theorem Composed.mirrors (composed : kept.Composed) : kept.Mirrors := by
  induction composed with
  | word makes =>
    rw [Token.ofWord_record] at makes
    exact mirrors_of_made makes fun token made => .word made
  | escape makes =>
    rw [Token.ofEscape_record] at makes
    exact mirrors_of_made makes fun token made => .escape made
  | group _ makes ih =>
    obtain ⟨sources, all, rfl⟩ := exists_of_mirrors ih
    rw [Token.ofGroup_record] at makes
    exact mirrors_of_made makes fun token made => .group all made
  | annotated _ metadata ih =>
    obtain ⟨token, composed, rfl⟩ := ih
    exact ⟨_, .annotated composed metadata, (token.annotate_record metadata).symm⟩
  | numbered _ numbers ih =>
    obtain ⟨token, composed, rfl⟩ := ih
    rw [Token.number_record] at numbers
    exact mirrors_of_made numbers fun made numbers => .numbered composed numbers
  | hidden _ ih =>
    obtain ⟨token, composed, rfl⟩ := ih
    exact ⟨_, .hidden composed, token.hide_record.symm⟩
  | typed _ types ih =>
    obtain ⟨token, composed, rfl⟩ := ih
    exact ⟨_, .typed composed types, (token.withTypes_record types).symm⟩
  | part _ inside ih =>
    obtain ⟨token, composed, rfl⟩ := ih
    rw [Token.parts_record] at inside
    obtain ⟨inner, within, rfl⟩ := List.mem_map.mp inside
    exact ⟨inner, .part composed within, rfl⟩
  | @read reader text tokens token reads member => exact ⟨token, .read reads member, rfl⟩
  | @edited action tokens edit token _ _ _ edits member given brought supplied =>
    cases own : action.isCallers with
    | true => exact supplied own token member
    | false =>
      obtain ⟨sources, all, rfl⟩ := exists_of_mirrors given
      let found : Match := ⟨0, 0, sources, .always⟩
      have does := RecordAction.apply_record {} .empty own
        (fun token inside => (brought token inside).faithful) found
      rw [edits] at does
      cases wrote : action.dropped.apply {} .empty found with
      | error fault =>
        rw [wrote] at does
        cases does
      | ok written =>
        rw [wrote] at does
        cases does
        rw [RecordAction.recorded, ← List.map_append] at member
        obtain ⟨source, among, rfl⟩ := List.mem_map.mp member
        refine ⟨source, .edited all (fun token inside => ?_) (fun callers => ?_) wrote among, rfl⟩
        · obtain ⟨kept, brings, rfl⟩ := RecordAction.exists_of_mem_brings inside
          obtain ⟨token, composed, rfl⟩ := brought kept brings
          rwa [Token.token_record]
        · rw [RecordAction.isCallers_dropped, own] at callers
          cases callers

/-- Whatever is inside of what is composed is composed. -/
theorem Composed.of_holds (composed : kept.Composed) (holds : kept.Holds inner) : inner.Composed := by
  induction holds with
  | refl => exact composed
  | tail _ inside ih => exact .part ih inside

/-- A sound token, written out, represents what is inside of it. -/
theorem represents_record {token : Token} (sound : token.Sound) : token.record.Represents where
  accepted := by
    rw [Token.definition_record, Token.value_record]
    exact sound.here.accepted
  wraps inner wraps := by
    rw [Token.wrapped?_record] at wraps
    obtain ⟨source, within, rfl⟩ := Option.map_eq_some_iff.mp wraps
    have types := sound.here.types source within
    simp only [Token.definition_record, Token.value_record, Token.position_record, Token.endPosition_record,
      Token.types_record]
    cases token with
    | annotated | indexed | shadow =>
      cases within
      exact ⟨rfl, rfl, rfl, rfl, types⟩
    | simple | escaped | group => cases within
  several members same := by
    rw [Token.members?_record] at same
    obtain ⟨sources, within, rfl⟩ := Option.map_eq_some_iff.mp same
    rw [List.length_map]
    exact sound.here.several sources within
  spells := by
    have joins := Token.units_joinedValue token.leaves
    rw [Token.leaves, Token.joinedValue_leavesWithin token rfl] at joins
    simp only [Token.leaves_record, List.flatMap_map, Token.value_record]
    exact joins
  ungrouped leaf member := by
    rw [Token.leaves_record] at member
    obtain ⟨source, within, rfl⟩ := List.mem_map.mp member
    rw [Token.unwrap_record, Token.isGroup_record]
    exact Token.isGroup_unwrap_of_mem_leavesWithin token rfl within
  begins := by
    have begins := Token.head?_leavesWithin token sound rfl
    rw [Token.leaves_record, List.head?_map, Option.map_map, Token.position_record, ← begins]
    exact congrArg (Option.map · _) (funext Token.position_record)
  ends := by
    have ends := Token.getLast?_leavesWithin token sound rfl
    rw [Token.leaves_record, List.getLast?_map, Option.map_map, Token.endPosition_record, ← ends]
    exact congrArg (Option.map · _) (funext Token.endPosition_record)

/-- On every level, composed tokens represent what is inside of them. -/
theorem represents_of_composed (composed : kept.Composed) (holds : kept.Holds inner) : inner.Represents := by
  obtain ⟨token, composed, rfl⟩ := (composed.of_holds holds).mirrors
  exact represents_record composed.sound

/-- A pair of brackets as a single token. -/
def pair : TokenRecord := (Token.group (.exactly ⟨[40, 41]⟩) [] [Brackets.opening, Brackets.closing]).record

theorem pair_composed : pair.Composed := by
  have opens : ofWord .word ⟨[40]⟩ .unpositioned = .ok Brackets.opening.record := rfl
  have closes : ofWord .word ⟨[41]⟩ .unpositioned = .ok Brackets.closing.record := rfl
  have groups : ofGroup [Brackets.opening.record, Brackets.closing.record] none = .ok pair := rfl
  exact .group (List.forall_mem_cons.mpr ⟨.word opens, List.forall_mem_singleton.mpr (.word closes)⟩) groups

/-- The group that a pass makes of an annotated pair of brackets and a pair of brackets, and the annotated pair in it,
represent what is inside of them. -/
theorem grouped_record_represents :
    ∃ outer annotated : TokenRecord, outer.Composed ∧ outer.Holds annotated ∧ outer.leaves.length = 4 ∧
      outer.Represents ∧ annotated.Represents := by
  let members := [pair.annotate [], pair]
  let outer := TokenRecord.group ⟨.exactly ⟨[40, 41, 40, 41]⟩, ⟨[40, 41, 40, 41]⟩, .unpositioned, .unpositioned, []⟩ members
  have edits : (RecordAction.grouping .matched none).apply members = .ok { tokens := [outer] } := rfl
  have given : ∀ member ∈ members, member.Composed :=
    List.forall_mem_cons.mpr ⟨.annotated pair_composed [], List.forall_mem_singleton.mpr pair_composed⟩
  have composed : outer.Composed :=
    .edited given (List.forall_mem_nil _) (fun own => Bool.noConfusion own) edits (List.mem_singleton.mpr rfl)
  have holds : outer.Holds (pair.annotate []) := .single (List.mem_cons_self ..)
  exact ⟨outer, _, composed, holds, rfl, represents_of_composed composed .refl, represents_of_composed composed holds⟩

end TokenRecord

end TokenGrammar
