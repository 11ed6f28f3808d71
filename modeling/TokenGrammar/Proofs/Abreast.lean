import TokenGrammar.Proofs.Notices
import TokenGrammar.Proofs.Decomposition
import TokenGrammar.Proofs.Shadows

namespace TokenGrammar

/-- What an action makes of a match depends on the tokens of the match and on the captures only. -/
def Action.DependsOnTokens (store : RuleStore) (action : Action) : Prop :=
  ∀ captures (found found' : Match), found.tokens = found'.tokens →
    action.apply store captures found = action.apply store captures found'

/-- Of the actions only transformations can look at more than the tokens. -/
theorem Action.dependsOnTokens_of_ne_transform (store : RuleStore) {action : Action}
    (regular : ∀ transformer, action ≠ .transform transformer) : action.DependsOnTokens store := by
  intro captures found found' same
  cases action with
  | transform transformer => exact absurd rfl (regular transformer)
  | _ => simp only [apply, same]

namespace TokenStream

variable {start start' : TokenStream}

theorem filter_shadows (start : TokenStream) : start.shadows.filter Token.isVisible = [] := by
  rw [List.filter_eq_nil_iff]
  intro token member
  have hidden : token.isShadow = true := List.mem_takeWhile_imp member
  simp [Token.isVisible, hidden]

/-- Shadows that are passed over change nothing about the visible tokens around a place. -/
theorem AlikeBesidesShadows.skipShadows (alike : AlikeBesidesShadows start start') :
    AlikeBesidesShadows start.skipShadows start'.skipShadows := by
  have same (place : TokenStream) : AlikeBesidesShadows place.skipShadows place := by
    have covers := place.covers_shadows
    constructor
    · rw [covers.passed_eq, List.filter_append, List.filter_reverse, filter_shadows, List.reverse_nil, List.nil_append]
    · rw [covers.remaining_eq, List.filter_append, filter_shadows, List.nil_append]
  exact ⟨by rw [(same start).1, (same start').1, alike.1], by rw [(same start).2, (same start').2, alike.2]⟩

/-- The same tokens read at alike places lead to alike places. -/
theorem AlikeBesidesShadows.finish {finish finish' : TokenStream} {tokens : List Token}
    (alike : AlikeBesidesShadows start start') (reads : start.Reads tokens finish) (reads' : start'.Reads tokens finish') :
    AlikeBesidesShadows finish finish' := by
  have place : (Likeness.besidesShadows {}).place start start' := alike
  exact Likeness.finish_alike place reads reads' rfl

end TokenStream

namespace Engine

open TokenStream (AlikeBesidesShadows)

/-- Two situations are abreast when they are among the same visible tokens with the same captures. -/
structure Abreast (situation situation' : Situation) : Prop where
  place : AlikeBesidesShadows situation.stream situation'.stream
  captures : situation.memory.captures = situation'.memory.captures

/-- Two outcomes go together when both answer, with related answers and in situations abreast, or both stop for the
same reason. -/
inductive Together {α : Type} (related : α → α → Prop) : Outcome α → Outcome α → Prop
  | answers {answer answer' : α} {after after' : Situation} (answered : related answer answer')
      (abreast : Abreast after after') : Together related (.ok answer after) (.ok answer' after')
  | stops (stop : Stop) {after after' : Situation} : Together related (.error stop after) (.error stop after')

/-- Attempts that go together are followed by attempts that go together. -/
theorem Together.bind {α β : Type} {related : α → α → Prop} {related' : β → β → Prop} {attempt attempt' : Attempt α}
    {next next' : α → Attempt β} {situation situation' : Situation}
    (first : Together related (attempt situation) (attempt' situation'))
    (second : ∀ {answer after answer' after'}, attempt situation = .ok answer after →
      attempt' situation' = .ok answer' after' → related answer answer' → Abreast after after' →
      Together related' (next answer after) (next' answer' after')) :
    Together related' ((attempt >>= next) situation) ((attempt' >>= next') situation') := by
  rw [Stateful.bind_apply, Stateful.bind_apply]
  generalize outcome : attempt situation = result at first
  generalize outcome' : attempt' situation' = result' at first
  cases first with
  | answers answered abreast => exact second outcome outcome' answered abreast
  | stops stop => exact .stops stop

theorem Together.mono {α : Type} {related weaker : α → α → Prop} {outcome outcome' : Outcome α}
    (together : Together related outcome outcome') (weaken : ∀ answer answer', related answer answer' → weaker answer answer') :
    Together weaker outcome outcome' := by
  cases together with
  | answers answered abreast => exact .answers (weaken _ _ answered) abreast
  | stops stop => exact .stops stop

/-- Two matches from two places take the same tokens, each on the way from its place. -/
structure SameTokens (start start' : TokenStream) (found found' : Match) : Prop where
  tokens_eq : found.tokens = found'.tokens
  spans : ∃ finish, found.Spans start finish
  spans' : ∃ finish, found'.Spans start' finish

theorem SameTokens.isZeroWidth_eq {start start' : TokenStream} {found found' : Match}
    (same : SameTokens start start' found found') : found.isZeroWidth = found'.isZeroWidth := by
  obtain ⟨_, spans⟩ := same.spans
  obtain ⟨_, spans'⟩ := same.spans'
  rw [spans.isZeroWidth_eq, spans'.isZeroWidth_eq, same.tokens_eq]

variable {world : World} {bindings : List RuleBinding} {situation situation' middle middle' : Situation}

/-- A built-in rule does abreast the same, whatever was noticed before. -/
theorem run_together {rule : Rule} (builtIn : rule.BuiltIn world) (fuel : Nat) (abreast : Abreast situation situation') :
    Together (Option.Rel (SameTokens situation.stream situation'.stream)) (rule.run world fuel situation)
      (rule.run world fuel situation') := by
  obtain ⟨stream, captures, notices⟩ := situation
  obtain ⟨stream', captures', notices'⟩ := situation'
  obtain ⟨place, same⟩ := abreast
  cases same
  -- Without what was noticed before, the situations are alike.
  let fresh : Situation := ⟨stream, captures, []⟩
  let fresh' : Situation := ⟨stream', captures, []⟩
  have alike : (Likeness.besidesShadows world).Alike fresh fresh' := ⟨place, rfl, rfl⟩
  have ignores : rule.run world fuel ⟨stream, captures, notices⟩ = Outcome.withEarlier (rule.run world fuel fresh) notices :=
    Rule.run_ignoresNotices world rule fuel fresh notices
  have ignores' : rule.run world fuel ⟨stream', captures, notices'⟩ =
      Outcome.withEarlier (rule.run world fuel fresh') notices' := Rule.run_ignoresNotices world rule fuel fresh' notices'
  have settles := Rule.run_sound builtIn fuel fresh
  have settles' := Rule.run_sound builtIn fuel fresh'
  rw [ignores, ignores']
  rcases Rule.run_agree builtIn (fun _ _ => trivial) alike fuel with
    ⟨_, _, exhausted, exhausted'⟩ | ⟨found, after, found', after', answers, answers', together, alikeAfter⟩
  · rw [exhausted, exhausted']
    exact .stops .exhausted
  · rw [answers] at settles ⊢
    rw [answers'] at settles' ⊢
    have settles : Run.Settles stream found after := settles
    have settles' : Run.Settles stream' found' after' := settles'
    refine .answers ?_ ⟨alikeAfter.place, alikeAfter.captures⟩
    cases together with
    | none => exact .none
    | some matched =>
      have tokens_eq := List.forall₂_eq_eq_eq ▸ matched.1
      exact .some ⟨tokens_eq, ⟨after.stream, settles⟩, ⟨after'.stream, settles'⟩⟩

/-- Two first matches are of the same binding and take the same tokens. -/
def SameFirst (bindings : List RuleBinding) (start start' : TokenStream) (first first' : RuleBinding × Match) : Prop :=
  first.1 = first'.1 ∧ first.1 ∈ bindings ∧ SameTokens start start' first.2 first'.2

theorem stream_of_apart {α : Type} {view : TokenStream → TokenStream} {attempt : Attempt α} {answer : α}
    (answers : Attempt.apart view attempt situation = .ok answer middle) : middle.stream = situation.stream := by
  rw [Attempt.apart_apply] at answers
  split at answers <;> cases answers
  rfl

theorem firstMatch_together (builtIn : ∀ binding ∈ bindings, binding.rule.BuiltIn world) (fuel : Nat)
    (abreast : Abreast situation situation') :
    Together (Option.Rel (SameFirst bindings situation.stream situation'.stream))
      (firstMatch (Rule.run world fuel) bindings situation) (firstMatch (Rule.run world fuel) bindings situation') := by
  induction bindings generalizing situation situation' with
  | nil => exact .answers .none abreast
  | cons binding rest ih =>
    have tried : Together (Option.Rel (SameTokens situation.stream situation'.stream))
        (Attempt.apart id (binding.rule.run world fuel) situation)
        (Attempt.apart id (binding.rule.run world fuel) situation') := by
      have together := run_together (builtIn binding (List.mem_cons_self ..)) fuel abreast
      rw [Attempt.apart_apply, Attempt.apart_apply]
      simp only [id_eq]
      generalize binding.rule.run world fuel situation = outcome at together
      generalize binding.rule.run world fuel situation' = outcome' at together
      cases together with
      | answers answered after => exact .answers answered ⟨abreast.place, after.captures⟩
      | stops stop => exact .stops stop
    apply tried.bind
    intro found after found' after' answers answers' together abreast
    cases together with
    | some same => exact .answers (.some ⟨rfl, List.mem_cons_self .., same⟩) abreast
    | none =>
      have others := ih (fun other member => builtIn other (List.mem_cons_of_mem _ member)) abreast
      rw [stream_of_apart answers, stream_of_apart answers'] at others
      apply others.mono
      intro first first' together
      cases together with
      | none => exact .none
      | some same => exact .some ⟨same.1, List.mem_cons_of_mem _ same.2.1, same.2.2⟩

/-- The visible tokens that are written, and the tokens that are handed out, are the same. -/
structure SameOutput (made made' : List Piece) : Prop where
  output_eq : (Passage.output made).filter Token.isVisible = (Passage.output made').filter Token.isVisible
  extracted_eq : Passage.extracted made = Passage.extracted made'

theorem SameOutput.append {made made' rest rest' : List Piece} (first : SameOutput made made')
    (second : SameOutput rest rest') : SameOutput (made ++ rest) (made' ++ rest') where
  output_eq := by
    simp only [Passage.output, List.flatMap_append, List.filter_append]
    exact congrArg₂ _ first.output_eq second.output_eq
  extracted_eq := by
    simp only [Passage.extracted, List.flatMap_append]
    exact congrArg₂ _ first.extracted_eq second.extracted_eq

/-- Shadows are written to no effect. -/
theorem SameOutput.shadows (start start' : TokenStream) : SameOutput [.shadows start.shadows] [.shadows start'.shadows] where
  output_eq := by simp [Passage.output, Piece.output, TokenStream.filter_shadows]
  extracted_eq := rfl

theorem copyToken_together {piece piece' : Token → Piece} (same : ∀ token, SameOutput [piece token] [piece' token])
    (abreast : Abreast situation situation') :
    Together SameOutput (copyToken piece situation) (copyToken piece' situation') := by
  have together := abreast.place.reads
  unfold copyToken Attempt.read?
  simp only [bind_assoc, Attempt.stream_bind_apply]
  generalize situation.stream.read? = next at together ⊢
  generalize situation'.stream.read? = next' at together ⊢
  cases together with
  | none => exact .answers ⟨rfl, rfl⟩ abreast
  | @some next next' both =>
    obtain ⟨token, behind⟩ := next
    obtain ⟨token', behind'⟩ := next'
    obtain ⟨rfl, place⟩ := both
    exact .answers (same token) ⟨place, abreast.captures⟩

/-- From places abreast matches of the same tokens are written alike. -/
theorem writePieces_together {answer answer' : Option (RuleBinding × Match)}
    (depends : ∀ binding ∈ bindings, binding.action.DependsOnTokens world.store) (abreast : Abreast situation situation')
    (together : Option.Rel (SameFirst bindings situation.stream situation'.stream) answer answer') :
    Together SameOutput (writePieces world answer situation) (writePieces world answer' situation') := by
  cases together with
  | none => exact copyToken_together (fun _ => ⟨rfl, rfl⟩) abreast
  | @some first first' same =>
    obtain ⟨binding, found⟩ := first
    obtain ⟨binding', found'⟩ := first'
    obtain ⟨rfl, member, same⟩ := same
    have edited : binding.action.apply world.store situation.memory.captures found =
        binding.action.apply world.store situation'.memory.captures found' := by
      rw [abreast.captures]
      exact depends binding member _ found found' same.tokens_eq
    have behind : Abreast (noticed world binding found situation) (noticed world binding found' situation') :=
      ⟨abreast.place, abreast.captures⟩
    cases edits : binding.action.apply world.store situation.memory.captures found with
    | error fault =>
      have edits' := edited.symm.trans edits
      rw [writePieces, editMatch, editMatchTelling, Attempt.notice_bind_apply, Attempt.captures_bind_apply, edits, writePieces,
        editMatch, editMatchTelling, Attempt.notice_bind_apply, Attempt.captures_bind_apply, edits']
      exact .stops (.fault fault)
    | ok edit =>
      rw [writePieces_some edits, writePieces_some (edited.symm.trans edits), same.isZeroWidth_eq]
      split
      · exact copyToken_together (fun _ => ⟨rfl, rfl⟩) behind
      · obtain ⟨finish, spans⟩ := same.spans
        obtain ⟨finish', spans'⟩ := same.spans'
        have reads' := same.tokens_eq ▸ spans'.reads
        rw [spans.finish_eq, spans'.finish_eq, spans.reads.moveTo_eq, spans'.reads.moveTo_eq]
        exact .answers ⟨rfl, rfl⟩ ⟨abreast.place.finish spans.reads reads', abreast.captures⟩

theorem piecesFrom_together (builtIn : ∀ binding ∈ bindings, binding.rule.BuiltIn world)
    (depends : ∀ binding ∈ bindings, binding.action.DependsOnTokens world.store) (enough fuel : Nat)
    (abreast : Abreast situation situation') :
    Together SameOutput (piecesFrom world (Rule.run world enough) bindings fuel situation)
      (piecesFrom world (Rule.run world enough) bindings fuel situation') := by
  induction fuel generalizing situation situation' with
  | zero => exact .stops .exhausted
  | succ fuel ih =>
    have skipped : Abreast { situation with stream := situation.stream.skipShadows }
        { situation' with stream := situation'.stream.skipShadows } := ⟨abreast.place.skipShadows, abreast.captures⟩
    rw [piecesFrom_succ, piecesFrom_succ, abreast.place.hasMore]
    split
    · refine (firstMatch_together builtIn enough skipped).bind fun answers answers' together abreast => ?_
      have together : Option.Rel (SameFirst bindings _ _) _ _ := together
      rw [← stream_of_firstMatch answers, ← stream_of_firstMatch answers'] at together
      refine (writePieces_together depends abreast together).bind fun _ _ made abreast => ?_
      refine (ih abreast).bind fun _ _ rest abreast => ?_
      exact .answers (((SameOutput.shadows _ _).append made).append rest) abreast
    · exact .answers (.shadows _ _) skipped

/-- A pass over tokens and a pass over the visible ones of them stop for the same reason or both write, and then they
write the same visible tokens and hand out the same tokens. -/
theorem process_besides_shadows (engine : Engine) (tokens : List Token) (fuel : Nat)
    (builtIn : ∀ binding ∈ engine.bindings, binding.rule.BuiltIn world)
    (depends : ∀ binding ∈ engine.bindings, binding.action.DependsOnTokens world.store) :
    (∃ written written',
      (engine.process world fuel tokens).result = .ok written ∧
      (engine.process world fuel (tokens.filter Token.isVisible)).result = .ok written' ∧
      (Passage.output written).filter Token.isVisible = (Passage.output written').filter Token.isVisible ∧
      Passage.extracted written = Passage.extracted written') ∨
    ∃ stop, (engine.process world fuel tokens).result = .error stop ∧
      (engine.process world fuel (tokens.filter Token.isVisible)).result = .error stop := by
  have abreast : Abreast { stream := .ofTokens tokens, memory := {} }
      { stream := .ofTokens (tokens.filter Token.isVisible), memory := {} } :=
    ⟨⟨rfl, by simp [TokenStream.ofTokens]⟩, rfl⟩
  have together := piecesFrom_together builtIn depends fuel fuel abreast
  unfold process pieces
  generalize piecesFrom world _ _ fuel { stream := .ofTokens tokens, memory := {} } = outcome at together ⊢
  generalize piecesFrom world _ _ fuel { stream := .ofTokens (tokens.filter Token.isVisible), memory := {} } = outcome'
    at together ⊢
  cases together with
  | answers same _ => exact .inl ⟨_, _, rfl, rfl, same.output_eq, same.extracted_eq⟩
  | stops stop => exact .inr ⟨stop, rfl, rfl⟩

theorem process_alike_without_comment :
    (∀ binding ∈ Brackets.engine.bindings, binding.rule.BuiltIn Brackets.world) ∧
      (∀ binding ∈ Brackets.engine.bindings, binding.action.DependsOnTokens Brackets.world.store) ∧
      ∃ written written',
        (Brackets.engine.process Brackets.world 14 Brackets.stream.tokens).result = .ok written ∧
          (Brackets.engine.process Brackets.world 14 (Brackets.stream.tokens.filter Token.isVisible)).result = .ok written' ∧
          (Passage.output written).filter Token.isVisible = (Passage.output written').filter Token.isVisible := by
  have builtIn : ∀ binding ∈ Brackets.engine.bindings, binding.rule.BuiltIn Brackets.world := by
    intro binding member
    rw [List.mem_singleton.mp member]
    exact Brackets.nested_builtIn
  have depends : ∀ binding ∈ Brackets.engine.bindings, binding.action.DependsOnTokens Brackets.world.store := by
    intro binding member
    rw [List.mem_singleton.mp member]
    exact Action.dependsOnTokens_of_ne_transform _ nofun
  refine ⟨builtIn, depends, ?_⟩
  have answers : (Brackets.engine.process Brackets.world 14 Brackets.stream.tokens).result.toOption.isSome = true := by
    decide +kernel
  rcases process_besides_shadows Brackets.engine Brackets.stream.tokens 14 builtIn depends with
    ⟨written, written', writes, writes', same, -⟩ | ⟨stop, stops, -⟩
  · exact ⟨written, written', writes, writes', same⟩
  · rw [stops] at answers
    cases answers

end Engine

end TokenGrammar
