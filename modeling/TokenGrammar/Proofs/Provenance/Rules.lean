import TokenGrammar.Proofs.Provenance.Runs

namespace TokenGrammar

/-- A rule that a caller supplies draws on its stream when its matches take tokens of the stream only. -/
def ExternalRule.DrawsOnStream (external : ExternalRule) : Prop :=
  ∀ start captures found, (external.behave start captures).result = .ok (some found) → found.tokens ⊆ start.tokens

namespace Rule

variable {world : World} {rule : Rule} {each : Rule → Run} {tokens : List Token} {fuel : Nat}

/-- Whether a rule makes up no tokens, if it is supplied by a caller. -/
def IsHonest (world : World) : Rule → Prop
  | .external number => ∀ supplied ∈ world.store.external? number, supplied.DrawsOnStream
  | _ => True

/-- A rule is honest when none of the rules that it reaches makes up tokens. -/
def Honest (world : World) (rule : Rule) : Prop := rule.Throughout world (IsHonest world)

theorem BuiltIn.honest (builtIn : rule.BuiltIn world) : rule.Honest world := by
  intro inner reaches
  have made := builtIn inner reaches
  cases inner with
  | external number => exact made.elim
  | _ => trivial

/-- What a rule does on its copy of the stream draws on the stream if the rules do that it refers to. -/
theorem body_draws (all : ∀ inner, rule.Refers world inner → (each inner).DrawsOnStream) :
    Draws tokens (TakenFrom tokens) (rule.body world fuel each) := by
  cases rule with
  | capture key inner =>
    have inside : Draws tokens (TakenFrom tokens) (each inner) := all inner (.shown (by simp)) tokens
    refine (draws_confining.delegate inside).bind fun answer inside => ?_
    cases answer with
    | none => exact draws_confining.noMatch
    | some found =>
      have kept (captures : Captures) : Draws tokens (fun _ => True) (Attempt.ofResult (captures.capture key found.tokens)) :=
        draws_confining.ofResult fun _ _ => trivial
      exact Draws.captures.bind fun captures _ => (kept captures).bind fun _ _ => Draws.setCaptures.bind fun _ _ =>
        .pure inside
  | _ => exact draws_confining.body nofun all

theorem leaveToCaller_draws {external : ExternalRule} (draws : external.DrawsOnStream) :
    (Run.leaveToCaller external).DrawsOnStream := by
  intro tokens situation answer after among answers
  have still (index : Nat) : (situation.stream.seek index).tokens = tokens := by
    unfold TokenStream.seek
    split <;> simp [among]
  unfold Run.leaveToCaller at answers
  cases outcome : (external.behave situation.stream situation.memory.captures).result with
  | error fault => simp [outcome] at answers
  | ok result =>
    simp only [outcome] at answers
    cases answers
    refine ⟨still _, fun found member => ?_⟩
    rw [Option.mem_def.mp member] at outcome
    exact among ▸ draws situation.stream situation.memory.captures found outcome

/-- What an honest rule answers is taken from the stream that it was given. -/
theorem run_draws (honest : rule.Honest world) (fuel : Nat) : (rule.run world fuel).DrawsOnStream := by
  induction fuel generalizing rule with
  | zero => exact fun tokens => .exhaust
  | succ fuel ih =>
    intro tokens
    have body : Draws tokens (TakenFrom tokens) (rule.body world fuel (run world fuel)) :=
      body_draws fun inner refers => ih (honest.of_refers refers)
    cases rule with
    | external number =>
      have honestly := honest.here
      simp only [run, step]
      cases supplied : world.store.external? number with
      | none => exact draws_confining.noMatch
      | some external => exact leaveToCaller_draws (honestly external supplied) tokens
    | _ => exact draws_confining.settle body

end Rule

/-- A property of tokens holds of a piece when it holds of all that is written and handed out for the piece. -/
def Piece.All (property : Token → Prop) (piece : Piece) : Prop := ∀ token ∈ piece.output ++ piece.extracted, property token

/-- An action keeps a property of tokens when it makes tokens with the property of tokens with the property. -/
def Action.Keeps (property : Token → Prop) (action : Action) : Prop :=
  ∀ store captures found edit, (∀ token ∈ found.tokens, property token) →
    action.apply store captures found = .ok edit → ∀ token ∈ edit.tokens ++ edit.extracted, property token

/-- What a change that may fail makes of things, it makes of one of them. -/
theorem exists_of_mem_mapM {α β : Type} {change : α → Except Fault β} {given : List α} {made : List β}
    (changes : given.mapM change = .ok made) : ∀ result ∈ made, ∃ value ∈ given, change value = .ok result := by
  induction given generalizing made with
  | nil =>
    cases changes
    exact nofun
  | cons first rest ih =>
    rw [List.mapM_cons] at changes
    obtain ⟨head, changed, others⟩ := bind_eq_ok_iff.mp changes
    obtain ⟨tail, changesRest, joins⟩ := bind_eq_ok_iff.mp others
    cases joins
    refine List.forall_mem_cons.mpr ⟨⟨first, List.mem_cons_self .., changed⟩, fun result member => ?_⟩
    obtain ⟨value, among, changed⟩ := ih changesRest result member
    exact ⟨value, List.mem_cons_of_mem _ among, changed⟩

namespace Action

variable {property : Token → Prop} {action : Action} {tokens : List Token}

/-- What an action does with single tokens preserves a property of tokens, and so does what it does with several. -/
def Preserves (property : Token → Prop) : Action → Prop
  | .identity | .filter _ | .skip _ | .extract _ => True
  | .transform transformer => ∀ store captures found made, (∀ token ∈ found.tokens, property token) →
      transformer store captures found = .ok made → ∀ token ∈ made, property token
  | .convert converter => ∀ token made, property token → converter token = .ok made → property made
  | .grouping mode definition => ∀ tokens made, (∀ token ∈ tokens, property token) →
      group mode definition tokens = .ok made → ∀ token ∈ made, property token
  | .wrap opening closing => property opening ∧ property closing
  | .split separator => ∀ token made, property token → splitToken separator token = .ok made →
      ∀ piece ∈ made, property piece
  | .annotate metadata => ∀ token, property token → property (token.annotate metadata)
  | .classify classifier => ∀ token, property token → property (token.withTypes (classifier token))
  | .index _ => ∀ token ordinal made, property token → token.number ordinal = .ok made → property made

theorem numberFrom_preserves (preserves : ∀ token ordinal made, property token → token.number ordinal = .ok made →
    property made) {start : Number} {place : Nat} {numbered : List Token} (given : ∀ token ∈ tokens, property token)
    (numbers : numberFrom start place tokens = .ok numbered) : ∀ token ∈ numbered, property token := by
  induction tokens generalizing place numbered with
  | nil =>
    cases numbers
    exact nofun
  | cons token rest ih =>
    obtain ⟨head, tail⟩ := List.forall_mem_cons.mp given
    obtain ⟨first, number, others⟩ := bind_eq_ok_iff.mp numbers
    obtain ⟨later, numbersRest, made⟩ := bind_eq_ok_iff.mp others
    cases made
    exact List.forall_mem_cons.mpr ⟨preserves token _ first head number, ih tail numbersRest⟩

/-- What preserves a property is kept by the action as a whole, in what it writes and in what it hands out. -/
theorem Preserves.keeps (preserves : action.Preserves property) : action.Keeps property := by
  intro store captures found edit given edits
  cases action with
  | identity =>
    cases edits
    simpa using given
  | transform transformer =>
    obtain ⟨made, transforms, edited⟩ := bind_eq_ok_iff.mp edits
    cases edited
    simpa using preserves store captures found made given transforms
  | convert converter =>
    obtain ⟨made, converts, edited⟩ := bind_eq_ok_iff.mp edits
    cases edited
    simp only [List.append_nil]
    intro token member
    obtain ⟨whole, among, changed⟩ := exists_of_mem_mapM converts token member
    exact preserves whole token (given whole among) changed
  | filter accepts | skip accepts =>
    cases edits
    simp only [List.append_nil]
    exact fun token member => given token (List.mem_of_mem_filter member)
  | extract accepts =>
    cases edits
    intro token member
    rcases List.mem_append.mp member with member | member <;> exact given token (List.mem_of_mem_filter member)
  | grouping mode definition =>
    obtain ⟨made, grouped, edited⟩ := bind_eq_ok_iff.mp edits
    cases edited
    simpa using preserves found.tokens made given grouped
  | wrap opening closing =>
    cases edits
    simp only [List.append_nil, List.cons_append, List.forall_mem_cons, List.forall_mem_append]
    exact ⟨preserves.1, given, preserves.2, nofun⟩
  | split separator =>
    obtain ⟨made, splits, edited⟩ := bind_eq_ok_iff.mp edits
    cases edited
    simp only [List.append_nil]
    intro token member
    obtain ⟨pieces, among, member⟩ := List.mem_flatten.mp member
    obtain ⟨whole, inside, split⟩ := exists_of_mem_mapM splits pieces among
    exact preserves whole pieces (given whole inside) split token member
  | annotate metadata =>
    cases edits
    simp only [List.append_nil, List.forall_mem_map]
    exact fun token member => preserves token (given token member)
  | classify classifier =>
    cases edits
    simp only [List.append_nil, List.forall_mem_map]
    exact fun token member => preserves token (given token member)
  | index start =>
    obtain ⟨numbered, numbers, edited⟩ := bind_eq_ok_iff.mp edits
    cases edited
    simpa using numberFrom_preserves preserves given numbers

end Action

namespace Engine

variable {world : World} {bindings : List RuleBinding} {tokens : List Token} {property : Token → Prop} {fuel : Nat}

theorem read?_draws : Draws tokens (fun answer => ∀ token ∈ answer, token ∈ tokens) Attempt.read? := by
  refine Draws.stream.bind fun start among => ?_
  cases read : start.read? with
  | none => exact .pure nofun
  | some next =>
    obtain ⟨member, behind⟩ := TokenStream.among_of_read? read
    exact (Draws.goTo (behind.trans among)).bind fun _ _ => .pure (by simpa [← among] using member)

theorem firstMatch_draws (honest : ∀ binding ∈ bindings, binding.rule.Honest world) :
    Draws tokens (fun answer => ∀ first ∈ answer, first.1 ∈ bindings ∧ first.2.tokens ⊆ tokens)
      (firstMatch (Rule.run world fuel) bindings) := by
  induction bindings with
  | nil => exact .pure fun first member => absurd member (Option.not_mem_none first)
  | cons binding rest ih =>
    obtain ⟨head, tail⟩ := List.forall_mem_cons.mp honest
    refine (draws_confining.tried (Rule.run_draws head fuel tokens)).bind fun answer inside => ?_
    cases answer with
    | some found => exact .pure (by simpa using takenFrom_some_iff.mp inside)
    | none =>
      refine (ih tail).mono fun answer drawn first member => ?_
      obtain ⟨among, taken⟩ := drawn first member
      exact ⟨List.mem_cons_of_mem _ among, taken⟩

theorem copyToken_draws {piece : Token → Piece} (all : ∀ token ∈ tokens, (piece token).All property) :
    Draws tokens (fun written => ∀ piece ∈ written, piece.All property) (copyToken piece) := by
  refine read?_draws.bind fun answer member => .pure ?_
  cases answer with
  | none => simp
  | some token => simpa using all token (member token rfl)

section Keeps

variable (given : ∀ token ∈ tokens, property token)
include given

theorem editMatch_draws {binding : RuleBinding} {found : Match} (keeps : binding.action.Keeps property)
    (inside : found.tokens ⊆ tokens) :
    Draws tokens (fun written => ∀ piece ∈ written, piece.All property) (editMatch world binding found) := by
  refine Draws.notice.bind fun _ _ => Draws.captures.bind fun captures _ => ?_
  have edited : Draws tokens (fun edit : Edit => ∀ token ∈ edit.tokens ++ edit.extracted, property token)
      (Attempt.ofResult (binding.action.apply world.store captures found)) :=
    draws_confining.ofResult fun edit edits => keeps _ captures found edit (fun token member => given token (inside member)) edits
  refine edited.bind fun edit fine => ?_
  split
  · refine copyToken_draws fun token member => ?_
    simp only [Piece.All, Piece.output, Piece.extracted, List.mem_append, List.mem_singleton] at fine ⊢
    rintro other ((written | rfl) | handed)
    · exact fine other (.inl written)
    · exact given _ member
    · exact fine other (.inr handed)
  · exact Draws.stream.bind fun start among => (draws_confining.moveTo among).bind fun place arrived =>
      (Draws.goTo arrived).bind fun _ _ => .pure (List.forall_mem_singleton.mpr fine)

theorem piecesFrom_draws (honest : ∀ binding ∈ bindings, binding.rule.Honest world)
    (keeps : ∀ binding ∈ bindings, binding.action.Keeps property) {steps : Nat} :
    Draws tokens (fun written => ∀ piece ∈ written, piece.All property)
      (piecesFrom world (Rule.run world fuel) bindings steps) := by
  induction steps with
  | zero => exact .exhaust
  | succ steps ih =>
    refine Draws.stream.bind fun start among => ?_
    have hidden : (Piece.shadows start.shadows).All property := by
      intro token member
      have passedOver : token ∈ start.shadows := by simpa [Piece.output, Piece.extracted] using member
      have ahead : token ∈ start.remaining := (List.takeWhile_prefix _).subset passedOver
      exact given token (among ▸ List.mem_append_right _ ahead)
    have skipped : start.skipShadows.tokens = tokens := (TokenStream.tokens_forward ..).trans among
    refine (Draws.goTo skipped).bind fun _ _ => ?_
    split
    · refine (firstMatch_draws honest).bind fun answer drawn => ?_
      have goesOn {made : List Piece} (fine : ∀ piece ∈ made, piece.All property) :
          Draws tokens (fun written => ∀ piece ∈ written, piece.All property)
            (piecesFrom world (Rule.run world fuel) bindings steps >>= fun rest =>
              pure ([Piece.shadows start.shadows] ++ made ++ rest)) :=
        ih.bind fun rest others => .pure (List.forall_mem_append.mpr ⟨List.forall_mem_cons.mpr ⟨hidden, fine⟩, others⟩)
      cases answer with
      | none =>
        have unmatched : ∀ token ∈ tokens, (Piece.unmatched token).All property := fun token member => by
          simpa [Piece.All, Piece.output, Piece.extracted] using given token member
        exact (copyToken_draws unmatched).bind fun _ fine => goesOn fine
      | some first =>
        obtain ⟨member, inside⟩ := drawn first rfl
        exact (editMatch_draws given (keeps first.1 member) inside).bind fun _ fine => goesOn fine
    · exact .pure (by simpa using hidden)

end Keeps

/-- What a pass writes and hands out has a property of the tokens that it was given if its actions keep the property and
its rules make up no tokens. -/
theorem process_keeps {engine : Engine} {written : List Piece}
    (honest : ∀ binding ∈ engine.bindings, binding.rule.Honest world)
    (keeps : ∀ binding ∈ engine.bindings, binding.action.Keeps property) (given : ∀ token ∈ tokens, property token)
    (returns : (engine.process world fuel tokens).result = .ok written) :
    ∀ token ∈ Passage.output written ++ Passage.extracted written, property token := by
  match outcome : pieces world fuel engine.bindings { stream := .ofTokens tokens, memory := {} } with
  | .error stop after =>
    rw [process, outcome] at returns
    cases returns
  | .ok made after =>
    rw [process, outcome] at returns
    cases returns
    obtain ⟨-, all⟩ := piecesFrom_draws given honest keeps _ _ after (TokenStream.tokens_ofTokens tokens) outcome
    intro token member
    rcases List.mem_append.mp member with member | member <;> obtain ⟨piece, among, member⟩ := List.mem_flatMap.mp member
    · exact all piece among token (List.mem_append_left _ member)
    · exact all piece among token (List.mem_append_right _ member)

end Engine

end TokenGrammar
