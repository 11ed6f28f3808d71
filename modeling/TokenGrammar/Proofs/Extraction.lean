import TokenGrammar.Proofs.Refinement
import TokenGrammar.Proofs.Returns

namespace TokenGrammar

/-- Two lists are merged into one when each element of it is the next one of one of the two. -/
inductive Merges {α : Type} : List α → List α → List α → Prop
  | nil : Merges [] [] []
  | first {element : α} {first second merged : List α} (rest : Merges first second merged) :
      Merges (element :: first) second (element :: merged)
  | second {element : α} {first second merged : List α} (rest : Merges first second merged) :
      Merges first (element :: second) (element :: merged)

/-- What a test rejects and what it accepts are merged into the list that is tested. -/
theorem merges_filter {α β : Type} (test : α → Bool) (project : α → β) (elements : List α) :
    Merges ((elements.filter fun element => !test element).map project) ((elements.filter test).map project)
      (elements.map project) := by
  induction elements with
  | nil => exact .nil
  | cons element rest ih =>
    cases accepted : test element with
    | false => simpa [accepted] using ih.first
    | true => simpa [accepted] using ih.second

/-- A token that a pass goes over, and whether the rule of a binding takes it. -/
structure Visit where
  token : Token
  taken : Bool

/-- Whether a token is taken and passes a test. -/
def Visit.selected (test : Token → Bool) (visit : Visit) : Bool := visit.taken && test visit.token

namespace Segment

/-- Whether the tokens of a segment are taken. -/
def isTaken : Segment → Bool
  | .replacement .. => true
  | .shadows _ | .unmatched _ | .insertion .. => false

/-- The tokens of a segment, taken or not. -/
def visits (segment : Segment) : List Visit := segment.source.map (Visit.mk · segment.isTaken)

theorem map_token_visits (segment : Segment) : segment.visits.map Visit.token = segment.source := by
  rw [visits, List.map_map]
  exact List.map_id _

theorem filter_visits (segment : Segment) (test : Visit → Bool) :
    (segment.visits.filter test).map Visit.token = segment.source.filter fun token => test ⟨token, segment.isTaken⟩ := by
  rw [visits, List.filter_map, List.map_map]
  exact List.map_id _

end Segment

namespace Action

/-- An action sorts the tokens of a match by two tests when it writes those that it keeps and hands out the others that
are to be handed out. -/
def Sorts (action : Action) (kept handed : Token → Bool) : Prop :=
  ∀ store captures found, action.apply store captures found =
    .ok { tokens := found.tokens.filter kept, extracted := found.tokens.filter handed }

variable {action : Action} {kept handed : Token → Bool}

theorem Sorts.isTotal (sorts : action.Sorts kept handed) (store : RuleStore) : action.IsTotal store :=
  fun captures found => ⟨_, sorts store captures found⟩

theorem extract_sorts (accepts : Token → Bool) : (extract accepts).Sorts (fun token => !accepts token) accepts :=
  fun _ _ _ => rfl

theorem skip_sorts (accepts : Token → Bool) : (skip accepts).Sorts (fun token => !accepts token) fun _ => false := by
  intro store captures found
  simp [apply, pure, Except.pure]

theorem filter_sorts (accepts : Token → Bool) : (filter accepts).Sorts accepts fun _ => false := by
  intro store captures found
  simp [apply, pure, Except.pure]

end Action

/-- Rules do not look at what was noticed, and yield the same in every situation of the same scene. -/
theorem Rule.Yields.of_sameScene {world : World} {rule : Rule} {situation situation' after : Situation}
    {answer : Option Match} (yields : rule.Yields world situation answer after) (same : situation.SameScene situation') :
    ∃ after', rule.Yields world situation' answer after' ∧ after.SameScene after' := by
  obtain ⟨fuel, answers⟩ := yields
  obtain ⟨_, after', answers', rfl, sameAfter⟩ := (run_ignoresNotices world rule fuel).refinedBy same answers
  exact ⟨after', ⟨fuel, answers'⟩, sameAfter⟩

namespace Engine

variable {world : World} {rule : Rule} {action action' : Action} {kept handed : Token → Bool} {tokens : List Token}
  {situation situation' start start' after finish : Situation} {answer : Option (RuleBinding × Match)}
  {segment : Segment} {segments : List Segment}

/-- Whatever is done with its matches, a rule has the same first match. -/
theorem FirstMatch.of_sameScene (first : FirstMatch world [⟨rule, action⟩] situation answer after)
    (same : situation.SameScene situation') (action' : Action) :
    ∃ after', FirstMatch world [⟨rule, action'⟩] situation' (answer.map fun first => (⟨rule, action'⟩, first.2)) after' ∧
      after.SameScene after' := by
  cases first with
  | later refuses others =>
    cases others
    obtain ⟨middle, refuses', sameMiddle⟩ := refuses.of_sameScene same
    exact ⟨_, .later refuses' (.nil _), same.stream_eq, sameMiddle.captures_eq⟩
  | here yields =>
    obtain ⟨middle, yields', sameMiddle⟩ := yields.of_sameScene same
    exact ⟨_, .here yields', same.stream_eq, sameMiddle.captures_eq⟩

/-- Whatever total action is taken, the segment at a place has the same tokens, and the same ones of them are taken. -/
theorem Step.of_sameScene (step : Step world [⟨rule, action⟩] situation segment after)
    (same : situation.SameScene situation') (total : action'.IsTotal world.store) :
    ∃ segment' after', Step world [⟨rule, action'⟩] situation' segment' after' ∧ segment'.visits = segment.visits ∧
      after.SameScene after' := by
  have place := same.stream_eq
  cases step with
  | shadows covers filled hidden before behind =>
    rw [place] at covers before
    exact ⟨_, _, .shadows covers filled hidden before behind, rfl, rfl, same.captures_eq⟩
  | unmatched covers visible refused =>
    obtain ⟨middle, refused', sameMiddle⟩ := refused.of_sameScene same action'
    rw [place] at covers
    exact ⟨_, _, .unmatched covers visible refused', rfl, rfl, sameMiddle.captures_eq⟩
  | insertion covers visible first start_eq finish_eq edits =>
    obtain ⟨middle, first', sameMiddle⟩ := first.of_sameScene same action'
    obtain ⟨edit', edits'⟩ := total middle.memory.captures _
    rw [place] at covers start_eq finish_eq
    exact ⟨_, _, .insertion covers visible first' start_eq finish_eq edits', rfl, rfl, sameMiddle.captures_eq⟩
  | replacement covers visible first start_eq finish_eq edits =>
    obtain ⟨middle, first', sameMiddle⟩ := first.of_sameScene same action'
    obtain ⟨edit', edits'⟩ := total middle.memory.captures _
    rw [place] at covers start_eq
    exact ⟨_, _, .replacement covers visible first' start_eq finish_eq edits', rfl, rfl, sameMiddle.captures_eq⟩

theorem Steps.of_sameScene (steps : Steps world [⟨rule, action⟩] start segments finish) (same : start.SameScene start')
    (total : action'.IsTotal world.store) :
    ∃ segments' finish', Steps world [⟨rule, action'⟩] start' segments' finish' ∧
      segments'.flatMap Segment.visits = segments.flatMap Segment.visits ∧ finish.SameScene finish' := by
  induction steps generalizing start' with
  | nil => exact ⟨[], start', .nil start', rfl, same⟩
  | cons step _ ih =>
    obtain ⟨segment', next', step', visits_eq, sameNext⟩ := step.of_sameScene same total
    obtain ⟨segments', finish', steps', others_eq, sameFinish⟩ := ih sameNext
    exact ⟨segment' :: segments', finish', .cons step' steps', by simp only [List.flatMap_cons, visits_eq, others_eq],
      sameFinish⟩

/-- With another total action the tokens decompose again, and the same ones of them are taken. -/
theorem Decomposes.with_action (decomposes : Decomposes world [⟨rule, action⟩] tokens segments)
    (total : action'.IsTotal world.store) :
    ∃ segments', Decomposes world [⟨rule, action'⟩] tokens segments' ∧
      segments'.flatMap Segment.visits = segments.flatMap Segment.visits := by
  obtain ⟨finish, steps, ends⟩ := decomposes
  obtain ⟨segments', finish', steps', visits_eq, sameFinish⟩ := steps.of_sameScene ⟨rfl, rfl⟩ total
  exact ⟨segments', ⟨finish', steps', sameFinish.stream_eq ▸ ends⟩, visits_eq⟩

section Sorting

variable (builtIn : rule.BuiltIn world) (sorts : action.Sorts kept handed)
include builtIn sorts

/-- Of a segment of visible tokens those are written that are not taken or kept, and those are handed out that are taken
and to be handed out. -/
theorem Step.sorted (step : Step world [⟨rule, action⟩] situation segment after)
    (visible : ∀ token ∈ segment.source, token.isVisible = true) :
    segment.output = (segment.visits.filter fun visit => !visit.selected fun token => !kept token).map Visit.token ∧
      segment.extracted = (segment.visits.filter (Visit.selected handed)).map Visit.token := by
  have builtIn : ∀ binding ∈ [RuleBinding.mk rule action], binding.rule.BuiltIn world := List.forall_mem_singleton.mpr builtIn
  rw [Segment.filter_visits, Segment.filter_visits]
  cases step with
  | shadows | unmatched => simp [Segment.output, Segment.extracted, Segment.source, Segment.isTaken, Visit.selected]
  | @insertion token place middle binding found edit _ _ first start_eq finish_eq edits =>
    obtain ⟨behind, spans⟩ := first.exists_spans builtIn
    have stays := Number.ofNat_injective (finish_eq.symm.trans spans.finish_eq)
    obtain rfl := List.mem_singleton.mp first.exists_yields.1
    rw [sorts, spans.reads.index_eq_iff.mp stays] at edits
    cases edits
    exact ⟨rfl, rfl⟩
  | @replacement token rest place middle binding found edit covers _ first start_eq finish_eq edits =>
    obtain ⟨behind, spans⟩ := first.exists_spans builtIn
    obtain ⟨piece, taken, tokens_eq, -⟩ := spans.reads.exists_covers
    have ends := Number.ofNat_injective (finish_eq.symm.trans spans.finish_eq)
    have all : found.tokens = token :: rest := by
      rw [tokens_eq, ← covers.eq_of_index taken ends]
      exact List.filter_eq_self.mpr visible
    obtain rfl := List.mem_singleton.mp first.exists_yields.1
    rw [sorts, all] at edits
    cases edits
    simp only [Segment.output, Segment.extracted, Segment.source, Segment.isTaken, Visit.selected, Bool.true_and,
      Bool.not_not, true_and]

theorem Steps.sorted (steps : Steps world [⟨rule, action⟩] start segments finish)
    (visible : ∀ token ∈ segments.flatMap Segment.source, token.isVisible = true) :
    segments.flatMap Segment.output =
        ((segments.flatMap Segment.visits).filter fun visit => !visit.selected fun token => !kept token).map Visit.token ∧
      segments.flatMap Segment.extracted =
        ((segments.flatMap Segment.visits).filter (Visit.selected handed)).map Visit.token := by
  induction steps with
  | nil => exact ⟨rfl, rfl⟩
  | cons step _ ih =>
    rw [List.flatMap_cons, List.forall_mem_append] at visible
    obtain ⟨output_eq, extracted_eq⟩ := step.sorted builtIn sorts visible.1
    obtain ⟨others_eq, later_eq⟩ := ih visible.2
    simp only [List.flatMap_cons, List.filter_append, List.map_append, output_eq, extracted_eq, others_eq, later_eq, and_self]

/-- With enough fuel a pass writes and hands out what its action sorts out of the tokens that its rule takes. -/
theorem Decomposes.sorted (decomposes : Decomposes world [⟨rule, action⟩] tokens segments)
    (visible : ∀ token ∈ tokens, token.isVisible = true) :
    ∃ enough, ∀ fuel, enough ≤ fuel → ∃ written,
      (process ⟨[⟨rule, action⟩]⟩ world fuel tokens).result = .ok written ∧
      Passage.output written =
        ((segments.flatMap Segment.visits).filter fun visit => !visit.selected fun token => !kept token).map Visit.token ∧
      Passage.extracted written = ((segments.flatMap Segment.visits).filter (Visit.selected handed)).map Visit.token := by
  obtain ⟨written, after, ⟨enough, writes⟩, -⟩ := decomposes.exists_pieces
  refine ⟨enough, fun fuel atLeast => ⟨written, ?_⟩⟩
  have returns : (process ⟨[⟨rule, action⟩]⟩ world fuel tokens).result = .ok written :=
    result_process ((pieces_grows _).eq_of_le writes atLeast)
  obtain ⟨others, decomposes', output_eq, extracted_eq⟩ :=
    exists_accounted_of_result (List.forall_mem_singleton.mpr builtIn) returns
  obtain rfl := decomposes_unique decomposes' decomposes
  have source_eq := decomposes.flatMap_source
  obtain ⟨finish, steps, -⟩ := decomposes
  rw [output_eq, extracted_eq]
  exact ⟨returns, steps.sorted builtIn sorts (by rwa [source_eq])⟩

end Sorting

/-- The tokens of a pass, with those of them that its only rule takes. -/
def Visits (world : World) (rule : Rule) (action : Action) (tokens : List Token) (visits : List Visit) : Prop :=
  ∃ segments, Decomposes world [⟨rule, action⟩] tokens segments ∧ segments.flatMap Segment.visits = visits

/-- A pass that extracts visible tokens loses none: what it hands out and what it writes are merged into what it was given,
and it hands out accepted tokens only, which are those among the taken ones. A pass that skips instead writes the same, and
one that filters instead writes all tokens but those that were taken and rejected. All three take the same tokens. -/
theorem process_extracts (builtIn : rule.BuiltIn world) (accepts : Token → Bool)
    (visible : ∀ token ∈ tokens, token.isVisible = true)
    (terminates : ∀ inner situation, Tries world [⟨rule, .extract accepts⟩] tokens inner situation →
      inner.Terminates world situation) :
    ∃ visits enough, visits.map Visit.token = tokens ∧ Visits world rule (.extract accepts) tokens visits ∧
      Visits world rule (.skip accepts) tokens visits ∧ Visits world rule (.filter accepts) tokens visits ∧
      ∀ fuel, enough ≤ fuel → ∃ extracting skipping filtering,
        (process ⟨[⟨rule, .extract accepts⟩]⟩ world fuel tokens).result = .ok extracting ∧
        (process ⟨[⟨rule, .skip accepts⟩]⟩ world fuel tokens).result = .ok skipping ∧
        (process ⟨[⟨rule, .filter accepts⟩]⟩ world fuel tokens).result = .ok filtering ∧
        Merges (Passage.output extracting) (Passage.extracted extracting) tokens ∧
        Passage.extracted extracting = (visits.filter (Visit.selected accepts)).map Visit.token ∧
        (∀ token ∈ Passage.extracted extracting, accepts token = true) ∧
        Passage.output skipping = Passage.output extracting ∧
        Passage.output filtering = (visits.filter fun visit => !visit.selected fun token => !accepts token).map Visit.token := by
  have extracts := Action.extract_sorts accepts
  have skips := Action.skip_sorts accepts
  have filters := Action.filter_sorts accepts
  obtain ⟨segments, finish, steps, ends⟩ : ∃ segments finish,
      Steps world [⟨rule, .extract accepts⟩] { stream := .ofTokens tokens, memory := {} } segments finish ∧
        finish.stream.remaining = [] :=
    exists_steps (List.forall_mem_singleton.mpr builtIn) (List.forall_mem_singleton.mpr (extracts.isTotal world.store))
      terminates (.nil _) (.inl (by simp [TokenStream.ofTokens]))
  have decomposes : Decomposes world [⟨rule, .extract accepts⟩] tokens segments := ⟨finish, steps, ends⟩
  obtain ⟨skipped, decomposes', skipped_eq⟩ := decomposes.with_action (skips.isTotal world.store)
  obtain ⟨filtered, decomposes'', filtered_eq⟩ := decomposes.with_action (filters.isTotal world.store)
  have visits_eq : (segments.flatMap Segment.visits).map Visit.token = tokens := by
    rw [List.map_flatMap, funext Segment.map_token_visits]
    exact decomposes.flatMap_source
  obtain ⟨enough, extracting⟩ := decomposes.sorted builtIn extracts visible
  obtain ⟨enough', skipping⟩ := decomposes'.sorted builtIn skips visible
  obtain ⟨enough'', filtering⟩ := decomposes''.sorted builtIn filters visible
  refine ⟨segments.flatMap Segment.visits, max enough (max enough' enough''), visits_eq, ⟨segments, decomposes, rfl⟩,
    ⟨skipped, decomposes', skipped_eq⟩, ⟨filtered, decomposes'', filtered_eq⟩, fun fuel atLeast => ?_⟩
  obtain ⟨first, returns, output_eq, extracted_eq⟩ := extracting fuel (by omega)
  obtain ⟨second, returns', output_eq', -⟩ := skipping fuel (by omega)
  obtain ⟨third, returns'', output_eq'', -⟩ := filtering fuel (by omega)
  simp only [Bool.not_not] at output_eq output_eq'
  refine ⟨first, second, third, returns, returns', returns'', ?_, extracted_eq, ?_, ?_, ?_⟩
  · have merged := merges_filter (Visit.selected accepts) Visit.token (segments.flatMap Segment.visits)
    rwa [← output_eq, ← extracted_eq, visits_eq] at merged
  · rw [extracted_eq]
    intro token member
    obtain ⟨visit, selected, rfl⟩ := List.mem_map.mp member
    exact (Bool.and_eq_true_iff.mp (List.mem_filter.mp selected).2).2
  · rw [output_eq, output_eq', skipped_eq]
  · rw [output_eq'', filtered_eq]

end Engine

namespace Brackets

/-- A pair of brackets and one closing bracket too many. -/
def overclosed : List Token := [opening, closing, closing]

/-- Whether a token is a closing bracket. -/
def closes (token : Token) : Bool := token.value = closing.value

theorem extracting_writes : ∃ written,
    (Engine.process ⟨[⟨nested, .extract closes⟩]⟩ world 12 overclosed).result = .ok written ∧
      (Passage.output written).length = 2 ∧ (Passage.extracted written).length = 1 := by
  have computed : (Engine.process ⟨[⟨nested, .extract closes⟩]⟩ world 12 overclosed).result.toOption.map
      (fun written => ((Passage.output written).length, (Passage.extracted written).length)) = some (2, 1) := by
    decide +kernel
  obtain ⟨written, evaluated, sizes⟩ := Option.map_eq_some_iff.mp computed
  exact ⟨written, eq_ok_of_toOption evaluated, congrArg Prod.fst sizes, congrArg Prod.snd sizes⟩

end Brackets

/-- Of two closing brackets one is taken and handed out, and the other one stays. -/
theorem Engine.one_closing_extracted :
    Brackets.nested.BuiltIn Brackets.world ∧ ∃ fuel extracting skipping,
      (process ⟨[⟨Brackets.nested, .extract Brackets.closes⟩]⟩ Brackets.world fuel Brackets.overclosed).result =
        .ok extracting ∧
      (process ⟨[⟨Brackets.nested, .skip Brackets.closes⟩]⟩ Brackets.world fuel Brackets.overclosed).result =
        .ok skipping ∧
      Merges (Passage.output extracting) (Passage.extracted extracting) Brackets.overclosed ∧
      (Passage.output extracting).length = 2 ∧ (Passage.extracted extracting).length = 1 ∧
      Passage.output skipping = Passage.output extracting := by
  have visible : ∀ token ∈ Brackets.overclosed, token.isVisible = true := by
    simp [Brackets.overclosed, Brackets.opening, Brackets.closing, Brackets.word, Token.isVisible, Token.isShadow]
  have terminates : ∀ inner situation,
      Tries Brackets.world [⟨Brackets.nested, .extract Brackets.closes⟩] Brackets.overclosed inner situation →
        inner.Terminates Brackets.world situation := by
    rintro inner situation ⟨_, _, before, binding, rest, -, -, split, rfl, -⟩
    have member : binding ∈ [RuleBinding.mk Brackets.nested (.extract Brackets.closes)] := by simp [split]
    rw [List.mem_singleton.mp member]
    exact Rule.brackets_isProductive.terminates (List.mem_cons_self ..) situation
  obtain ⟨visits, enough, -, -, -, -, passes⟩ :=
    process_extracts Brackets.nested_builtIn Brackets.closes visible terminates
  obtain ⟨extracting, skipping, _, returns, returns', -, merges, -, -, same, -⟩ := passes (max enough 12) (by omega)
  obtain ⟨written, writes, kept, handed⟩ := Brackets.extracting_writes
  have writes := result_process_of_le writes (Nat.le_max_right enough 12)
  rw [returns] at writes
  cases writes
  exact ⟨Brackets.nested_builtIn, _, extracting, skipping, returns, returns', merges, kept, handed, same⟩

end TokenGrammar
