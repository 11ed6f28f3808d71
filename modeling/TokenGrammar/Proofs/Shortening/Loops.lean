import TokenGrammar.Proofs.Shortening.Runs

namespace TokenGrammar.Run

variable {grade early : Grade} {run : Run} {rule : Rule} {situation situation' : Situation}

/-- Repetitions go on from their count and stay below their limit. -/
theorem repeating_counts {least : Nat} {limit : Option Nat} (ordered : ∀ most, limit = some most → least ≤ most)
    (sound : run.Sound) (situation : Situation) (fuel count : Nat) (room : ∀ most, limit = some most → count ≤ most) :
    Meets (repeating run least limit fuel count situation) fun counted _ =>
      count ≤ counted.1 ∧ ∀ most, limit = some most → counted.1 ≤ most := by
  induction fuel generalizing situation count with
  | zero => trivial
  | succ fuel ih =>
    rw [repeating]
    split
    · exact ⟨Nat.le_refl _, room⟩
    · rename_i below
      have less (most : Nat) (same : limit = some most) : count + 1 ≤ most := by
        subst same
        simpa [Nat.succ_le_iff] using below
      apply Attempt.meets_bind (sound situation)
      intro found middle _
      cases found with
      | none => exact ⟨Nat.le_refl _, room⟩
      | some found =>
        dsimp only
        split
        · have more : count ≤ max (count + 1) least := Nat.le_trans (Nat.le_succ count) (Nat.le_max_left ..)
          exact ⟨more, fun most same => Nat.max_le.mpr ⟨less most same, ordered most same⟩⟩
        · apply Attempt.meets_bind (ih middle (count + 1) less)
          intro counted after counts
          exact ⟨Nat.le_of_succ_le counts.1, counts.2⟩

/-- What comes behind a match of a repetition that goes on. -/
def repeatBehind (run : Run) (least : Nat) (limit : Option Nat) (fuel count : Nat) : Option Match → Attempt (Nat × List Token)
  | none => return (count, [])
  | some found =>
    if found.isZeroWidth then return (max (count + 1) least, [])
    else do
      let (total, tokens) ← repeating run least limit fuel (count + 1)
      return (total, found.tokens ++ tokens)

theorem repeating_below {least : Nat} {limit : Option Nat} {fuel count : Nat}
    (below : (limit.any fun limit => limit ≤ count) = false) :
    repeating run least limit (fuel + 1) count = run >>= repeatBehind run least limit fuel count := by
  rw [repeating, below, if_neg Bool.false_ne_true]
  apply bind_congr
  intro found
  cases found <;> rfl

theorem repeatBehind_of_empty {least : Nat} {limit : Option Nat} {fuel count : Nat} {found : Match}
    {start finish : TokenStream} (spans : found.Spans start finish) (empty : found.tokens = []) :
    repeatBehind run least limit fuel count (some found) = pure (max (count + 1) least, []) := by
  rw [repeatBehind, spans.isZeroWidth_eq, decide_eq_true empty, if_pos rfl]

theorem repeatBehind_of_filled {least : Nat} {limit : Option Nat} {fuel count : Nat} {found : Match}
    {start finish : TokenStream} (spans : found.Spans start finish) (filled : found.tokens ≠ []) :
    repeatBehind run least limit fuel count (some found) =
      repeating run least limit fuel (count + 1) >>= fun counted => pure (counted.1, found.tokens ++ counted.2) := by
  rw [repeatBehind, spans.isZeroWidth_eq, decide_eq_false filled, if_neg Bool.false_ne_true]

/-- Where the stream is cut short, repetitions that take no more than is left are the same, and there are no more of them
if the rule gives way where it took too much. -/
structure Recounts (early : Grade) (short : TokenStream) (counted : Nat × List Token) (outcome : Outcome (Nat × List Token)) :
    Prop where
  same : counted.2.length ≤ short.ahead.length → ∃ after, outcome = .ok counted after
  notMore : early.gives = true → ∃ others after, outcome = .ok others after ∧ others.1 ≤ counted.1

theorem Recounts.of_eq {short : TokenStream} {counted : Nat × List Token} {outcome : Outcome (Nat × List Token)}
    {after : Situation} (answers : outcome = .ok counted after) : Recounts early short counted outcome where
  same _ := ⟨after, answers⟩
  notMore _ := ⟨counted, after, answers, Nat.le_refl _⟩

theorem Recounts.behind {short : TokenStream} {counted : Nat × List Token} {repeats : Attempt (Nat × List Token)}
    {front : List Token} {after : Situation} (reads : short.Reads front after.stream)
    (recounts : Recounts early after.stream counted (repeats after)) :
    Recounts early short (counted.1, front ++ counted.2)
      ((repeats >>= fun counted => pure (counted.1, front ++ counted.2)) after) where
  same enough := by
    have left := TokenStream.length_ahead_of_reads reads
    simp only [List.length_append] at enough
    obtain ⟨later, answers⟩ := recounts.same (by omega)
    exact ⟨later, Stateful.bind_eq_ok_iff.mpr ⟨counted, later, answers, rfl⟩⟩
  notMore given := by
    obtain ⟨others, later, answers, atMost⟩ := recounts.notMore given
    exact ⟨(others.1, front ++ others.2), later, Stateful.bind_eq_ok_iff.mpr ⟨others, later, answers, rfl⟩, atMost⟩

theorem repeating_recounts {least : Nat} {limit : Option Nat} {fuel count : Nat} {counted : Nat × List Token}
    {after : Situation} (ordered : ∀ most, limit = some most → least ≤ most) (sound : run.Sound)
    (shortens : run.Shortens early) (refuses : early.refuses = true) (cut : situation.stream.CutTo situation'.stream)
    (room : ∀ most, limit = some most → count ≤ most)
    (answers : repeating run least limit fuel count situation = .ok counted after) :
    Recounts early situation'.stream counted (repeating run least limit fuel count situation') := by
  induction fuel generalizing situation situation' count counted with
  | zero => cases answers
  | succ fuel ih =>
    have counts := repeating_counts ordered sound situation (fuel + 1) count room
    rw [answers] at counts
    cases below : limit.any fun limit => limit ≤ count with
    | true =>
      have ends (situation : Situation) :
          repeating run least limit (fuel + 1) count situation = .ok (count, []) situation := by
        rw [repeating, below, if_pos rfl]
        rfl
      rw [ends] at answers
      cases answers
      exact .of_eq (ends situation')
    | false =>
      rw [repeating_below below] at answers ⊢
      obtain ⟨found?, middle, ran, goesOn⟩ := Stateful.bind_eq_ok_iff.mp answers
      have tries := shortens situation situation' cut
      have settles := sound situation
      have settles' := sound situation'
      rw [Stateful.bind_apply]
      rw [ran] at tries settles
      generalize run situation' = result' at tries settles' ⊢
      cases tries with
      | fails also =>
        obtain ⟨after', fails⟩ := also refuses
        cases goesOn
        rw [fails]
        exact .of_eq rfl
      | @fits found found' _ after' enough same =>
        have spans : found.Spans situation.stream middle.stream := settles
        have spans' : found'.Spans situation'.stream after'.stream := settles'
        have reads' : situation'.stream.Reads found.tokens after'.stream := same ▸ spans'.reads
        dsimp only
        by_cases empty : found.tokens = []
        · rw [repeatBehind_of_empty spans empty] at goesOn
          rw [repeatBehind_of_empty spans' (same.trans empty)]
          cases goesOn
          exact .of_eq rfl
        · rw [repeatBehind_of_filled spans empty] at goesOn
          rw [repeatBehind_of_filled spans' (same ▸ empty), same]
          obtain ⟨others, last, repeats, joins⟩ := Stateful.bind_eq_ok_iff.mp goesOn
          cases joins
          refine .behind reads' (ih (cut.onward spans.reads reads') (fun most limited => ?_) repeats)
          subst limited
          simpa [Nat.succ_le_iff] using below
      | @exceeds found _ _ long also =>
        have spans : found.Spans situation.stream middle.stream := settles
        have filled : found.tokens ≠ [] := fun empty => by simp [empty] at long
        rw [repeatBehind_of_filled spans filled] at goesOn
        obtain ⟨others, last, repeats, joins⟩ := Stateful.bind_eq_ok_iff.mp goesOn
        cases joins
        constructor
        · intro enough
          rw [List.length_append] at enough
          omega
        · intro given
          obtain ⟨after', fails⟩ := also given
          rw [fails]
          exact ⟨_, _, rfl, counts.1⟩

/-- What is asked of a step of a boundary: where tokens are left it takes at least one, and it shortens there. -/
structure Steps (grade : Grade) (step : Attempt (Option (List Token))) : Prop where
  collects : ∀ situation, situation.stream.hasMore = true →
    Meets (step situation) fun tokens after => Collects situation.stream tokens after ∧ tokens ≠ some []
  shortens : ∀ situation situation' : Situation, situation.stream.CutTo situation'.stream →
    situation'.stream.hasMore = true → Shortened grade situation'.stream id (step situation) (step situation')

theorem tokenStep_steps : Steps grade tokenStep where
  collects situation more := by
    obtain ⟨token, next, read⟩ := TokenStream.exists_read_of_hasMore more
    rw [tokenStep, Attempt.read_bind_apply _ read]
    exact ⟨TokenStream.Reads.single read, fun same => List.cons_ne_nil _ _ (Option.some.inj same)⟩
  shortens situation situation' cut more' := by
    obtain ⟨token, next', read'⟩ := TokenStream.exists_read_of_hasMore more'
    obtain ⟨next, read⟩ := cut.exists_read read'
    rw [tokenStep, Attempt.read_bind_apply _ read, Attempt.read_bind_apply _ read']
    refine .fits ?_ rfl
    rw [TokenStream.ahead_of_read? read']
    exact Nat.succ_le_succ (Nat.zero_le _)

theorem Sound.bodyStep_steps (sound : run.Sound) (shortens : run.Shortens grade) : Steps grade (bodyStep run) where
  collects situation _ := by
    refine sound.bodyStep_collects.and (Attempt.meets_bind (sound situation) fun found after settles => ?_)
    cases found with
    | none => exact nofun
    | some found =>
      have spans : found.Spans situation.stream after.stream := settles
      simp only [spans.isZeroWidth_eq, Attempt.pure_apply, meets_ok]
      split <;> simp_all
  shortens situation situation' cut _ := by
    have tries := shortens situation situation' cut
    have settles := sound situation
    have settles' := sound situation'
    rw [bodyStep, Stateful.bind_apply, Stateful.bind_apply]
    generalize run situation = result at tries settles ⊢
    generalize run situation' = result' at tries settles' ⊢
    cases tries with
    | stops => exact .stops _
    | fails also =>
      refine .fails fun asked => ?_
      obtain ⟨after', fails⟩ := also asked
      exact ⟨after', by rw [fails]; rfl⟩
    | @fits found found' after after' enough same =>
      have spans : found.Spans situation.stream after.stream := settles
      have spans' : found'.Spans situation'.stream after'.stream := settles'
      simp only [spans.isZeroWidth_eq, spans'.isZeroWidth_eq, same, Attempt.pure_apply]
      split
      · exact .fails fun _ => ⟨_, rfl⟩
      · exact .fits enough rfl
    | @exceeds found after _ long also =>
      have spans : found.Spans situation.stream after.stream := settles
      have filled : found.tokens ≠ [] := fun empty => by simp [empty] at long
      simp only [spans.isZeroWidth_eq, filled, decide_false, Attempt.pure_apply]
      refine .exceeds long fun given => ?_
      obtain ⟨after', fails⟩ := also given
      exact ⟨after', by rw [fails]; rfl⟩

/-- What comes behind a step of a boundary. -/
def untilClosedBehind (closing : Run) (step : Attempt (Option (List Token))) (fuel : Nat) :
    Option (List Token) → Attempt (Option (List Token))
  | none => return none
  | some tokens => putInFront tokens (untilClosed closing step fuel)

theorem untilClosed_of_ended {closing : Run} {step : Attempt (Option (List Token))} {fuel : Nat} {after : Situation}
    (notYet : closing situation = .ok none after) (ended : after.stream.hasMore = false) :
    untilClosed closing step (fuel + 1) situation = .ok none after := by
  rw [untilClosed, Stateful.bind_apply, notYet]
  simp only [Attempt.stream_bind_apply, ended]
  rfl

theorem untilClosed_of_open {closing : Run} {step : Attempt (Option (List Token))} {fuel : Nat} {after : Situation}
    (notYet : closing situation = .ok none after) (more : after.stream.hasMore = true) :
    untilClosed closing step (fuel + 1) situation = (step >>= untilClosedBehind closing step fuel) after := by
  rw [untilClosed, Stateful.bind_apply, notYet]
  simp only [Attempt.stream_bind_apply, more, if_true]
  refine congrFun (bind_congr fun tokens => ?_) after
  cases tokens <;> rfl

/-- Behind an opening that is not closed at once something is taken. -/
theorem Steps.ne_nil_of_untilClosed {closing : Run} {step : Attempt (Option (List Token))} {fuel : Nat}
    {after later : Situation} {tokens : List Token} (steps : Steps early step) (notYet : closing situation = .ok none after)
    (answers : untilClosed closing step (fuel + 1) situation = .ok (some tokens) later) : tokens ≠ [] := by
  cases more : after.stream.hasMore with
  | false =>
    rw [untilClosed_of_ended notYet more] at answers
    cases answers
  | true =>
    rw [untilClosed_of_open notYet more] at answers
    obtain ⟨front, middle, stepped, goesOn⟩ := Stateful.bind_eq_ok_iff.mp answers
    have collects := steps.collects after more
    rw [stepped] at collects
    cases front with
    | none => cases goesOn
    | some front =>
      have filled : front ≠ [] := fun empty => collects.2 (congrArg some empty)
      have longer := length_le_of_putInFront goesOn
      exact List.ne_nil_of_length_pos (Nat.lt_of_lt_of_le (List.length_pos_iff.mpr filled) longer)

/-- A boundary that was open up to a place is open up to it now, as far as the stream goes. -/
theorem untilClosed_shortens {closing : Run} {step : Attempt (Option (List Token))} (sound : closing.Sound)
    (closes : closing.Shortens .loose) (steps : Steps grade.before step) (never : grade.gives = false) (fuel : Nat) :
    Attempt.Shortens grade id (untilClosed closing step fuel) := by
  have collects (fuel : Nat) (situation : Situation) :
      Meets (untilClosed closing step fuel situation) (Collects situation.stream) :=
    untilClosed_collects sound (fun situation more => (steps.collects situation more).mono fun _ _ meets => meets.1) fuel
  induction fuel with
  | zero => exact fun _ _ _ => .stops _
  | succ fuel ih =>
    intro situation situation' cut
    have tries := closes situation situation' cut
    have settles := sound situation
    have settles' := sound situation'
    generalize outcome : closing situation = result at tries settles
    generalize outcome' : closing situation' = result' at tries settles'
    cases tries with
    | stops =>
      rw [untilClosed, Stateful.bind_apply, outcome]
      exact .stops _
    | fits enough same =>
      rw [untilClosed, Stateful.bind_apply, Stateful.bind_apply, outcome, outcome']
      exact .fits enough same
    | exceeds long also =>
      rw [untilClosed, Stateful.bind_apply, outcome]
      exact .exceeds long fun given => absurd (never.symm.trans given) Bool.false_ne_true
    | @fails after _ also =>
      obtain ⟨after', rfl⟩ := also rfl
      have stays : after.stream = situation.stream := settles
      have stays' : after'.stream = situation'.stream := settles'
      rw [← stays, ← stays'] at cut
      rw [← stays']
      cases more' : after'.stream.hasMore with
      | false =>
        rw [untilClosed_of_ended outcome' more']
        refine .of_none fun tokens later answers => ?_
        rw [TokenStream.hasMore_eq_false_iff.mp more']
        exact List.length_pos_iff.mpr (steps.ne_nil_of_untilClosed outcome answers)
      | true =>
        have more : after.stream.hasMore = true := by
          cases ended : after.stream.hasMore with
          | false => exact (more'.symm.trans (cut.hasMore_eq_false ended)).symm
          | true => rfl
        rw [untilClosed_of_open outcome more, untilClosed_of_open outcome' more']
        refine (steps.shortens after after' cut more').bindBefore (steps.collects after more)
          (steps.collects after' more') (fun _ => rfl) (fun _ => rfl) (fun _ answers => length_le_of_putInFront answers) ?_
        intro taken later taken' later' meets meets' enough same
        exact putInFront_shortened (collects fuel) ih cut meets.1 meets'.1 same

/-- What comes behind the opening of a boundary. -/
def closeBehind (closing : Run) (step : Attempt (Option (List Token))) (fuel : Nat) :
    Option Match → Attempt (Option (List Token))
  | none => return none
  | some found => putInFront found.tokens (untilClosed closing step fuel)

theorem bounded_apply {opening closing : Run} {step : Attempt (Option (List Token))} {fuel : Nat} :
    bounded opening closing step fuel rule situation =
      ((opening >>= closeBehind closing step fuel) >>= tokensSince situation.stream.index rule) situation := by
  rw [bounded, Attempt.stream_bind_apply, bind_assoc]
  refine congrFun (bind_congr fun found => ?_) situation
  cases found with
  | none => rfl
  | some found =>
    dsimp only [closeBehind, putInFront]
    rw [bind_assoc]
    apply bind_congr
    intro tokens
    cases tokens <;> rfl

theorem bounded_shortens {opening closing : Run} {step : Attempt (Option (List Token))} (opens : opening.Sound)
    (sound : closing.Sound) (first : opening.Shortens grade.before) (closes : closing.Shortens .loose)
    (steps : Steps grade.before step) (never : grade.gives = false) (fuel : Nat) (rule : Rule) :
    (bounded opening closing step fuel rule).Shortens grade := by
  have inside (situation : Situation) : Meets (untilClosed closing step fuel situation) (Collects situation.stream) :=
    untilClosed_collects sound (fun situation more => (steps.collects situation more).mono fun _ _ meets => meets.1) fuel
  have collects (situation : Situation) :
      Meets ((opening >>= closeBehind closing step fuel) situation) (Collects situation.stream) := by
    apply Attempt.meets_bind (opens situation)
    intro found middle settles
    cases found with
    | none => trivial
    | some found =>
      have spans : found.Spans situation.stream middle.stream := settles
      apply Attempt.meets_bind (inside middle)
      intro tokens after reads
      cases tokens with
      | none => trivial
      | some tokens => exact spans.reads.append reads
  intro situation situation' cut
  rw [bounded_apply, bounded_apply]
  refine tokensSince_shortened collects (fun situation situation' cut => ?_) cut rule
  refine (first situation situation' cut).bindBefore (opens situation) (opens situation') (fun _ => rfl) (fun _ => rfl)
    (fun _ answers => length_le_of_putInFront answers) ?_
  intro taken after taken' after' settles settles' enough same
  have spans : taken.Spans situation.stream after.stream := settles
  have spans' : taken'.Spans situation'.stream after'.stream := settles'
  exact putInFront_shortened inside (untilClosed_shortens sound closes steps never fuel) cut spans.reads spans'.reads same

end TokenGrammar.Run
