import TokenGrammar.Proofs.Shortening.Loops

namespace TokenGrammar

namespace Grade

/-- The grade that is asked of what is repeated. -/
def throughout : Grade → Grade
  | .mild => .loose
  | .loose | .firm => .firm

/-- The grade that is asked of what members of a group have to match. -/
def inside : Grade → Grade
  | .mild => .mild
  | .loose | .firm => .loose

theorem refuses_throughout (grade : Grade) : grade.throughout.refuses = true := by cases grade <;> rfl

theorem gives_throughout (grade : Grade) : grade.throughout.gives = grade.refuses := by cases grade <;> rfl

theorem refuses_inside (grade : Grade) : grade.inside.refuses = grade.refuses := by cases grade <;> rfl

theorem gives_eq_false {grade : Grade} (notFirm : grade ≠ .firm) : grade.gives = false := by
  cases grade <;> first | rfl | exact absurd rfl notFirm

end Grade

/-- A range contains what lies between one of its counts and its end. -/
theorem Range.contains_of_le {range : Range} {count more : Nat} (contained : range.contains count = true)
    (atLeast : count ≤ more) (atMost : ∀ most, range.most = some most → more ≤ most) : range.contains more = true := by
  simp only [Range.contains, Range.admits, Bool.and_eq_true, decide_eq_true_eq, Option.all_eq_true] at contained ⊢
  exact ⟨Nat.le_trans contained.1 atLeast, atMost⟩

namespace Rule

open Run

/-- Whether a rule takes one token whenever it matches. -/
def takesOne : Rule → Bool
  | .matcher .. | .group _ => true
  | _ => false

/-- What the rules that a rule runs have to satisfy so that the rule has a grade. -/
def Admits (world : World) (holds : Grade → Rule → Prop) (grade : Grade) : Rule → Prop
  | .always | .never | .matcher .. => True
  | .sequence rules | .allOf rules => InOrder holds grade.before grade rules
  | .anyOf alternatives =>
    if grade = .firm then ∀ alternative ∈ alternatives, alternative.takesOne = true ∧ holds .firm alternative
    else InOrder holds .loose grade alternatives
  | .optional rule negated => grade ≠ .firm ∧ holds .loose (rule.attempted negated)
  | .repeated rule _ negated => grade ≠ .firm ∧ negated = false ∧ holds grade.throughout rule
  | .lookaround _ rule negative => grade = .mild ∧ negative = true ∧ holds .loose rule
  | .anchor place negated => grade = .mild ∧ negated = false ∧ (place = .startDocument ∨ place = .endDocument)
  | .boundary opening closing => grade ≠ .firm ∧ holds grade.before opening ∧ holds .loose closing
  | .filledBoundary opening body closing =>
    grade ≠ .firm ∧ holds grade.before opening ∧ holds grade.before body ∧ holds .loose closing
  | .named name => ∀ target, world.bindings.rule? name = some target → holds grade target
  | .selfReferring cell | .lazy cell => ∀ target, world.store.content? cell = some target → holds grade target
  | .group rule => holds grade.inside rule
  | .capture _ rule => holds grade rule
  | .reference key kind => kind = .rule ∧ ∀ target, world.bindings.rule? key = some target → holds grade target
  | .not _ | .external _ => False

/-- Grades are had together when every rule that has one admits it. -/
def HasGrade (world : World) (grade : Grade) (rule : Rule) : Prop :=
  ∃ holds : Grade → Rule → Prop, holds grade rule ∧ ∀ grade rule, holds grade rule → rule.Admits world holds grade

variable {world : World} {rule : Rule} {grade : Grade} {each : Rule → Run} {fuel : Nat}

theorem Admits.mono {holds more : Grade → Rule → Prop} (weaken : ∀ grade rule, holds grade rule → more grade rule)
    (admits : rule.Admits world holds grade) : rule.Admits world more grade := by
  have ordered {rules : List Rule} {early late : Grade} (inOrder : InOrder holds early late rules) :
      InOrder more early late rules := inOrder.mono fun grade member _ => weaken grade member
  cases rule with
  | always | never | matcher => trivial
  | sequence rules | allOf rules => exact ordered admits
  | anyOf alternatives =>
    by_cases firm : grade = .firm
    · rw [Admits, if_pos firm] at admits ⊢
      exact fun alternative inside => ⟨(admits alternative inside).1, weaken _ _ (admits alternative inside).2⟩
    · rw [Admits, if_neg firm] at admits ⊢
      exact ordered admits
  | optional => exact ⟨admits.1, weaken _ _ admits.2⟩
  | repeated | lookaround => exact ⟨admits.1, admits.2.1, weaken _ _ admits.2.2⟩
  | anchor => exact admits
  | boundary => exact ⟨admits.1, weaken _ _ admits.2.1, weaken _ _ admits.2.2⟩
  | filledBoundary =>
    exact ⟨admits.1, weaken _ _ admits.2.1, weaken _ _ admits.2.2.1, weaken _ _ admits.2.2.2⟩
  | named | selfReferring | lazy => exact fun target found => weaken _ _ (admits target found)
  | group | capture => exact weaken _ _ admits
  | reference => exact ⟨admits.1, fun target bound => weaken _ _ (admits.2 target bound)⟩
  | not | external => exact admits

/-- A rule has a grade exactly when it admits it with the grades that the others have. -/
theorem hasGrade_iff : rule.HasGrade world grade ↔ rule.Admits world (fun grade rule => rule.HasGrade world grade) grade := by
  constructor
  · intro given
    obtain ⟨holds, here, closed⟩ := given
    exact (closed grade rule here).mono fun _ _ other => ⟨holds, other, closed⟩
  · intro admits
    refine ⟨fun grade' rule' => (grade' = grade ∧ rule' = rule) ∨ rule'.HasGrade world grade', .inl ⟨rfl, rfl⟩, ?_⟩
    intro grade' rule' either
    rcases either with ⟨rfl, rfl⟩ | ⟨holds, here, closed⟩
    · exact admits.mono fun _ _ other => .inr other
    · exact (closed grade' rule' here).mono fun _ _ other => .inr ⟨holds, other, closed⟩

theorem run_of_ended {situation : Situation} (one : rule.takesOne = true) (read : situation.stream.read? = none) :
    rule.run world (fuel + 1) situation = .ok none situation := by
  cases rule with
  | matcher test negated => exact settle_none (ofTest_of_ended read)
  | group rule => exact settle_none (insideGroup_of_ended read)
  | _ => cases one

theorem length_of_takesOne {situation after : Situation} {found : Match} (builtIn : rule.BuiltIn world)
    (one : rule.takesOne = true) (answers : rule.run world fuel situation = .ok (some found) after) :
    found.tokens.length = 1 := by
  cases fuel with
  | zero => cases answers
  | succ fuel =>
    rw [builtIn.traced.run_succ, settle_eq_ok_iff (builtIn.traced.traces fuel situation)] at answers
    obtain ⟨middle, inner, -⟩ := answers
    cases rule with
    | matcher test negated => exact length_of_ofTest inner
    | group rule => exact length_of_insideGroup inner
    | _ => cases one

/-- Where no token is left, no choice of rules that take one matches. -/
theorem firstOf_of_ended {rules : List Rule} {situation : Situation} (all : ∀ member ∈ rules, member.takesOne = true)
    (read : situation.stream.read? = none) : firstOf (run world (fuel + 1)) rules situation = .ok none situation := by
  induction rules with
  | nil => rfl
  | cons rule rest ih =>
    rw [firstOf, Stateful.bind_apply, Attempt.apart_apply]
    simp only [id_eq, run_of_ended (all rule (List.mem_cons_self ..)) read]
    exact ih fun member inside => all member (List.mem_cons_of_mem _ inside)

theorem firstOf_firm {rules : List Rule} (builtIn : ∀ member ∈ rules, member.BuiltIn world)
    (all : ∀ member ∈ rules, member.takesOne = true ∧ Shortens .firm (run world fuel member)) :
    Shortens .firm (firstOf (run world fuel) rules) := by
  induction rules with
  | nil => exact noMatch_shortens
  | cons rule rest ih =>
    have first := all rule (List.mem_cons_self ..)
    have others : ∀ member ∈ rest, member.takesOne = true ∧ Shortens .firm (run world fuel member) :=
      fun member inside => all member (List.mem_cons_of_mem _ inside)
    refine firstOf_cons_shortens first.2 (ih (fun member inside => builtIn member (List.mem_cons_of_mem _ inside)) others)
      (fun _ => rfl) (.inl rfl) fun _ => ⟨rfl, ?_⟩
    intro situation found after answers place short
    rw [length_of_takesOne (builtIn rule (List.mem_cons_self ..)) first.1 answers, Nat.lt_one_iff,
      List.length_eq_zero_iff] at short
    cases fuel with
    | zero => cases answers
    | succ fuel =>
      exact ⟨place, firstOf_of_ended (fun member inside => (others member inside).1)
        (TokenStream.read?_eq_none_iff_filter.mpr short)⟩

section Bodies

variable {rules : List Rule}

theorem sequence_shortens (sound : ∀ member ∈ rules, (each member).Sound)
    (inOrder : InOrder (fun grade member => (each member).Shortens grade) grade.before grade rules) :
    Shortens grade ((Rule.sequence rules).body world fuel each) := by
  intro situation situation' cut
  have body_eq (situation : Situation) : (Rule.sequence rules).body world fuel each situation =
      (inTurn each rules >>= tokensSince situation.stream.index (.sequence rules)) situation := by
    rw [body, Attempt.stream_bind_apply]
    refine congrFun (bind_congr fun tokens => ?_) situation
    cases tokens <;> rfl
  rw [body_eq, body_eq]
  exact tokensSince_shortened (fun _ => inTurn_collects sound) (inTurn_shortens sound inOrder) cut _

theorem allOf_shortens (sound : ∀ member ∈ rules, (each member).Sound)
    (inOrder : InOrder (fun grade member => (each member).Shortens grade) grade.before grade rules) :
    Shortens grade ((Rule.allOf rules).body world fuel each) := fun _ _ cut =>
  farthestOf_shortened sound inOrder cut .unknown

theorem anyOf_shortens
    (inOrder : InOrder (fun grade member => (each member).Shortens grade) .loose grade rules)
    (never : grade.gives = false) : Shortens grade (firstOf each rules) := by
  induction rules with
  | nil => exact noMatch_shortens
  | cons rule rest ih =>
    have given {stronger : Prop} (gives : grade.gives = true) : stronger := by
      cases never.symm.trans gives
    cases rest with
    | nil => exact firstOf_cons_shortens inOrder noMatch_shortens id (.inr rfl) given
    | cons next rest =>
      exact firstOf_cons_shortens inOrder.1 (ih inOrder.2) (fun _ => rfl) (.inl rfl) given

/-- An optional rule takes nothing where it took nothing. -/
theorem optional_shortens {negated : Bool} (sound : (each (rule.attempted negated)).Sound)
    (shortens : (each (rule.attempted negated)).Shortens .loose) (never : grade.gives = false) :
    Shortens grade ((Rule.optional rule negated).body world fuel each) := by
  have takesNothing {situation after : Situation} (fails : each (rule.attempted negated) situation = .ok none after) :
      (Rule.optional rule negated).body world fuel each situation =
        .ok (some (.between situation.stream situation.stream [] (.optional rule negated))) after := by
    rw [body, Attempt.stream_bind_apply, Stateful.bind_apply, fails]
    simp only [Match.empty_ofNat, Attempt.ofResult_ok, pure_bind, Attempt.pure_apply]
  have takes {situation after : Situation} {found : Match}
      (answers : each (rule.attempted negated) situation = .ok (some found) after) :
      (Rule.optional rule negated).body world fuel each situation =
        .ok (some (.between situation.stream after.stream found.tokens (.optional rule negated))) after := by
    have settles := sound situation
    rw [answers] at settles
    have spans : found.Spans situation.stream after.stream := settles
    rw [body, Attempt.stream_bind_apply, Stateful.bind_apply, answers]
    simp only [spans.create_eq, Attempt.ofResult_ok, pure_bind, Attempt.pure_apply]
  intro situation situation' cut
  have tries := shortens situation situation' cut
  generalize outcome : each (rule.attempted negated) situation = result at tries
  generalize outcome' : each (rule.attempted negated) situation' = result' at tries
  cases tries with
  | stops =>
    rw [body, Attempt.stream_bind_apply, Stateful.bind_apply, outcome]
    exact .stops _
  | fails also =>
    obtain ⟨after', fails'⟩ := also rfl
    rw [takesNothing outcome, takesNothing (outcome'.trans fails')]
    exact .fits (Nat.zero_le _) rfl
  | fits enough same =>
    rw [takes outcome, takes outcome']
    exact .fits enough same
  | exceeds long =>
    rw [takes outcome]
    exact .exceeds long fun given => absurd (never.symm.trans given) Bool.false_ne_true

/-- There are enough repetitions now if there were, and too few if there were too few. -/
theorem repeated_shortens {range : Range} (sound : (each rule).Sound) (shortens : (each rule).Shortens grade.throughout)
    (never : grade.gives = false) : Shortens grade ((Rule.repeated rule range false).body world fuel each) := by
  have body_of {situation after : Situation} {counted : Nat × List Token}
      (repeats : repeating (each rule) range.least range.most fuel 0 situation = .ok counted after) :
      (Rule.repeated rule range false).body world fuel each situation =
        .ok (if range.contains counted.1 then
          some (.between situation.stream after.stream counted.2 (.repeated rule range false)) else none) after := by
    have reads : Meets (repeating (each rule) range.least range.most fuel 0 situation) fun counted after =>
        situation.stream.Reads counted.2 after.stream := sound.repeating_reads fuel 0
    rw [repeats] at reads
    rw [body, Attempt.stream_bind_apply, if_neg Bool.false_ne_true, Stateful.bind_apply, repeats]
    dsimp only
    rw [Bool.bne_false]
    split
    · exact since_apply reads
    · rfl
  have given {stronger : Prop} (gives : grade.gives = true) : stronger := by
    cases never.symm.trans gives
  intro situation situation' cut
  cases outcome : repeating (each rule) range.least range.most fuel 0 situation with
  | error stop after =>
    rw [body, Attempt.stream_bind_apply, if_neg Bool.false_ne_true, Stateful.bind_apply, outcome]
    exact .stops _
  | ok counted after =>
    have recounts := repeating_recounts range.ordered sound shortens grade.refuses_throughout cut
      (fun _ _ => Nat.zero_le _) outcome
    have counts := repeating_counts range.ordered sound situation fuel 0 fun _ _ => Nat.zero_le _
    rw [outcome] at counts
    rw [body_of outcome]
    cases contained : range.contains counted.1 with
    | true =>
      by_cases enough : counted.2.length ≤ situation'.stream.ahead.length
      · obtain ⟨after', repeats'⟩ := recounts.same enough
        rw [body_of repeats', contained]
        exact .fits enough rfl
      · exact .exceeds (Nat.lt_of_not_le enough) given
    | false =>
      refine .fails fun asked => ?_
      obtain ⟨others, after', repeats', atMost⟩ := recounts.notMore (grade.gives_throughout ▸ asked)
      have tooFew : range.contains others.1 = false := by
        cases contained' : range.contains others.1 with
        | false => rfl
        | true => exact absurd (range.contains_of_le contained' atMost counts.2) (by simp [contained])
      exact ⟨after', by rw [body_of repeats', tooFew]; rfl⟩

/-- What did not match before does not match now, so that a rule which asserts that still does. -/
theorem lookaround_shortens {direction : Direction} (shortens : (each rule).Shortens .loose) :
    Shortens .mild ((Rule.lookaround direction rule true).body world fuel each) := by
  intro situation situation' cut
  have seen : (viewOf direction situation.stream).CutTo (viewOf direction situation'.stream) := by
    cases direction with
    | ahead => exact cut
    | behind => exact cut.lookbehind
  have tries := shortens { situation with stream := viewOf direction situation.stream }
    { situation' with stream := viewOf direction situation'.stream } seen
  simp only [body, Run.succeeds, bind_assoc]
  rw [Stateful.bind_apply, Stateful.bind_apply, Attempt.apart_apply, Attempt.apart_apply]
  generalize each rule { situation with stream := viewOf direction situation.stream } = result at tries ⊢
  generalize each rule { situation' with stream := viewOf direction situation'.stream } = result' at tries ⊢
  cases tries with
  | stops => exact .stops _
  | fails also =>
    obtain ⟨after', rfl⟩ := also rfl
    exact here_shortened _
  | fits => exact .fails fun refuses => absurd refuses Bool.false_ne_true
  | exceeds => exact .fails fun refuses => absurd refuses Bool.false_ne_true

/-- A stream that begins or ends here still does where it is cut short. -/
theorem anchor_shortens {place : Anchor} (documented : place = .startDocument ∨ place = .endDocument) :
    Shortens .mild ((Rule.anchor place false).body world fuel each) := by
  intro situation situation' cut
  rw [body, Attempt.stream_bind_apply, Attempt.stream_bind_apply]
  apply hereIf_shortened
  simp only [Bool.bne_false]
  rcases documented with rfl | rfl
  · intro begins
    rw [Anchor.holds, Option.isNone_iff_eq_none, TokenStream.previous?_eq_none_iff] at begins ⊢
    exact List.prefix_nil.mp (begins ▸ cut.past)
  · intro ended
    simp only [Anchor.holds, Bool.not_eq_true'] at ended ⊢
    exact cut.hasMore_eq_false ended

theorem capture_shortens {key : Text} (filled : key ≠ "") (sound : (each rule).Sound)
    (shortens : (each rule).Shortens grade) : Shortens grade ((Rule.capture key rule).body world fuel each) := by
  refine shortens_of_handsOn (sound.delegate_shortens shortens (.capture key rule)) fun situation => ?_
  refine handsOn_bind sound.delegate_traces (fun _ => rfl) ?_
  intro found after _
  have kept : after.memory.captures.capture key found.tokens = .ok (after.memory.captures.keep key found.tokens) :=
    check_bind_eq_ok_iff.mpr ⟨decide_eq_true filled, rfl⟩
  simp only [Attempt.captures_bind_apply, kept, Attempt.ofResult_ok, pure_bind, Attempt.setCaptures_bind_apply]
  exact ⟨_, _, rfl, rfl⟩

theorem notice_shortens (notice : Notice) : Shortens grade (do Attempt.notice notice; noMatch) := fun _ _ _ =>
  .fails fun _ => ⟨_, rfl⟩

theorem reference_shortens {key : Text}
    (stands : ∀ target, world.bindings.rule? key = some target → (each target).Sound ∧ (each target).Shortens grade) :
    Shortens grade (followReference world each key .rule rule) := by
  simp only [followReference, followReferenceTelling]
  cases bound : world.bindings.rule? key with
  | some target => exact (stands target bound).1.delegate_shortens (stands target bound).2 rule
  | none => exact fun _ _ _ => .fails fun _ => ⟨_, rfl⟩

end Bodies

/-- A body has the grade that its rule admits, if the rules that it runs have theirs. -/
theorem body_shortens {holds : Grade → Rule → Prop} (builtIn : rule.BuiltIn world)
    (shortens : ∀ grade target, rule.Refers world target → holds grade target → Shortens grade (run world fuel target))
    (admits : rule.Admits world holds grade) : Shortens grade (rule.body world fuel (run world fuel)) := by
  have shown (part : Rule) (child : part ∈ rule.children world.store) : rule.Refers world part := .shown child
  have sound {target : Rule} (refers : rule.Refers world target) : (run world fuel target).Sound :=
    run_sound (builtIn.of_refers refers) fuel
  have ordered {rules : List Rule} {early late : Grade} (children : rule.children world.store = rules)
      (inOrder : InOrder holds early late rules) :
      InOrder (fun grade member => Shortens grade (run world fuel member)) early late rules :=
    inOrder.mono fun grade member inside => shortens grade member (shown member (children ▸ inside))
  cases rule with
  | always => exact fun _ situation' _ => here_shortened situation'.stream
  | never => exact noMatch_shortens
  | matcher test negated => exact ofTest_shortens _
  | sequence rules =>
    exact sequence_shortens (fun member inside => sound (shown member (by simpa using inside))) (ordered (by simp) admits)
  | anyOf alternatives =>
    by_cases firm : grade = .firm
    · subst firm
      rw [Admits, if_pos rfl] at admits
      refine firstOf_firm (fun member inside => builtIn.of_refers (shown member (by simpa using inside))) fun member inside => ?_
      exact ⟨(admits member inside).1, shortens .firm member (shown member (by simpa using inside)) (admits member inside).2⟩
    · rw [Admits, if_neg firm] at admits
      exact anyOf_shortens (ordered (by simp) admits) (Grade.gives_eq_false firm)
  | allOf rules =>
    exact allOf_shortens (fun member inside => sound (shown member (by simpa using inside))) (ordered (by simp) admits)
  | optional inner negated =>
    have refers := shown (inner.attempted negated) (by simp)
    exact optional_shortens (sound refers) (shortens _ _ refers admits.2) (Grade.gives_eq_false admits.1)
  | repeated inner range negated =>
    obtain ⟨notFirm, rfl, inside⟩ := admits
    have refers := shown inner (by simp)
    exact repeated_shortens (sound refers) (shortens _ _ refers inside) (Grade.gives_eq_false notFirm)
  | lookaround direction inner negative =>
    obtain ⟨rfl, rfl, inside⟩ := admits
    exact lookaround_shortens (shortens _ _ (shown inner (by simp)) inside)
  | anchor place negated =>
    obtain ⟨rfl, rfl, documented⟩ := admits
    exact anchor_shortens documented
  | boundary opening closing =>
    obtain ⟨notFirm, opens, closes⟩ := admits
    have first := shown opening (by simp)
    have last := shown closing (by simp)
    exact bounded_shortens (sound first) (sound last) (shortens _ _ first opens) (shortens _ _ last closes)
      tokenStep_steps (Grade.gives_eq_false notFirm) fuel _
  | filledBoundary opening inner closing =>
    obtain ⟨notFirm, opens, inside, closes⟩ := admits
    have first := shown opening (by simp)
    have middle := shown inner (by simp)
    have last := shown closing (by simp)
    exact bounded_shortens (sound first) (sound last) (shortens _ _ first opens) (shortens _ _ last closes)
      ((sound middle).bodyStep_steps (shortens _ _ middle inside)) (Grade.gives_eq_false notFirm) fuel _
  | named name =>
    rw [body, followNameTelling]
    cases bound : world.bindings.rule? name with
    | none => exact notice_shortens _
    | some target => exact (sound (.named bound)).delegate_shortens (shortens _ _ (.named bound) (admits target bound)) _
  | selfReferring cell =>
    rw [body]
    cases filled : world.store.content? cell with
    | none => exact noMatch_shortens
    | some target =>
      exact (sound (.selfReferring filled)).delegate_shortens
        (shortens _ _ (.selfReferring filled) (admits target filled)) _
  | lazy cell =>
    rw [body]
    cases filled : world.store.content? cell with
    | none => exact noMatch_shortens
    | some target => exact (sound (.lazy filled)).delegate_shortens (shortens _ _ (.lazy filled) (admits target filled)) _
  | group inner =>
    have refers := shown inner (by simp)
    exact (sound refers).insideGroup_shortens (shortens _ _ refers admits)
      (fun refuses => grade.refuses_inside ▸ refuses) _
  | capture key inner =>
    have refers := shown inner (by simp)
    exact capture_shortens builtIn.here (sound refers) (shortens _ _ refers admits)
  | reference key kind =>
    obtain ⟨rfl, stands⟩ := admits
    exact reference_shortens fun target bound =>
      have refers : Refers world (.reference key .rule) target := .reference ReferenceKind.noConfusion bound
      ⟨sound refers, shortens _ _ refers (stands target bound)⟩
  | not inner => exact admits.elim
  | external number => exact admits.elim

/-- Every run of a built-in rule that has a grade shortens with it. -/
theorem run_shortens (builtIn : rule.BuiltIn world) (hasGrade : rule.HasGrade world grade) (fuel : Nat) :
    Shortens grade (rule.run world fuel) := by
  obtain ⟨holds, here, closed⟩ := hasGrade
  -- The rules that have grades together are fixed; which of them runs changes with the fuel.
  induction fuel generalizing rule grade with
  | zero => exact fun _ _ _ => .stops _
  | succ fuel ih =>
    rw [builtIn.traced.run_succ]
    refine shortens_of_handsOn (body_shortens builtIn ?_ (closed grade rule here)) fun _ =>
      settle_handsOn (builtIn.traced.traces fuel _)
    exact fun grade target refers given => ih (builtIn.of_refers refers) given

end Rule

end TokenGrammar
