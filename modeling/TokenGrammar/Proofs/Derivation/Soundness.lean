import TokenGrammar.Proofs.Derivation
import TokenGrammar.Proofs.Laws.Bodies

namespace TokenGrammar.Rule

open Run

variable {world : World} {rule : Rule} {each : Rule → Run} {rules : List Rule} {run : Run} {situation : Situation}

/-- What a rule answers at a place is judged when the rule derives the end of the match, or failure without one. -/
def Judges (world : World) (rule : Rule) (place : TokenStream) : Option Match → Prop
  | none => Derives world rule place none
  | some found => ∃ finish, found.Spans place finish ∧ Derives world rule place (some finish)

/-- A run decides a rule when it is sound and all of its answers are judged. -/
def Decides (world : World) (rule : Rule) (run : Run) : Prop :=
  ∀ situation, Meets (run situation) fun found after =>
    Settles situation.stream found after ∧ Derives world rule situation.stream (found.map fun _ => after.stream)

theorem Decides.sound (decides : Decides world rule run) : run.Sound := fun situation =>
  (decides situation).mono fun _ _ settled => settled.1

theorem Decides.judges (decides : Decides world rule run) (situation : Situation) :
    Meets (run situation) fun found _ => Judges world rule situation.stream found := by
  refine (decides situation).mono fun found after ⟨settles, derives⟩ => ?_
  cases found with
  | none => exact derives
  | some found => exact ⟨after.stream, settles, derives⟩

theorem judges_apart (decides : Decides world rule run) :
    Meets (Attempt.apart id run situation) fun found after =>
      after.stream = situation.stream ∧ Judges world rule situation.stream found :=
  Attempt.meets_apart ((decides.judges situation).mono fun _ _ judged => ⟨rfl, judged⟩)

/-- A body whose answers are judged makes a run that decides the rule. -/
theorem decides_settle {kind : Text} {body : Run}
    (judges : ∀ situation, Meets (body situation) fun found _ => Judges world rule situation.stream found) :
    Decides world rule (settle kind body) := by
  intro situation
  have judged := judges situation
  match outcome : body situation, judged with
  | .ok none after, judged =>
    rw [settle_none outcome]
    exact ⟨rfl, judged⟩
  | .ok (some found) after, ⟨finish, spans, derives⟩ =>
    rw [settle_some outcome spans]
    exact ⟨spans, derives⟩
  | .error .exhausted after, _ =>
    rw [settle_error outcome]
    trivial

theorem since_judges {place : TokenStream} {tokens : List Token} (reads : place.Reads tokens situation.stream)
    (derives : Derives world rule place (some situation.stream)) :
    Meets (since place.index tokens rule situation) fun found _ => Judges world rule place found := by
  rw [since_apply reads]
  exact ⟨_, Match.spans_between reads rule, derives⟩

theorem hereIf_judges {condition : Bool}
    (derives : Derives world rule situation.stream (if condition then some situation.stream else none)) :
    Meets (hereIf condition rule situation) fun found _ => Judges world rule situation.stream found := by
  cases condition with
  | false => exact derives
  | true =>
    rw [hereIf, if_pos rfl, here_apply]
    exact ⟨_, Match.spans_between (.nil _) rule, derives⟩

theorem ofTest_judges {test : TokenTest} {negated : Bool} :
    Meets (ofTest (fun token => test.accepts token != negated) (.matcher test negated) situation) fun found _ =>
      Judges world (.matcher test negated) situation.stream found := by
  rw [ofTest, Attempt.stream_bind_apply]
  cases more : situation.stream.hasMore with
  | false => exact Derives.ended (TokenStream.read?_eq_none_iff.mpr more)
  | true =>
    obtain ⟨token, next, read⟩ := TokenStream.exists_read_of_hasMore more
    rw [if_pos rfl, Attempt.read_bind_apply _ read]
    by_cases same : test.accepts token = negated
    · simp only [same, bne_self_eq_false, Bool.false_eq_true, if_false]
      exact Derives.rejected read same
    · simp only [bne_iff_ne, ne_eq, same, not_false_eq_true, if_true]
      exact since_judges (.single read) (.accepted read same)

/-- Rules one after the other take what their sequence derives. -/
theorem inTurn_derives (decides : ∀ member ∈ rules, Decides world member (each member)) :
    Meets (inTurn each rules situation) fun taken after =>
      Derives world (.sequence rules) situation.stream (taken.map fun _ => after.stream) := by
  induction rules generalizing situation with
  | nil => exact Derives.sequenceDone
  | cons first rest ih =>
    apply Attempt.meets_bind (decides first (by simp) situation)
    intro found middle meets
    obtain ⟨settles, derives⟩ := meets
    cases found with
    | none => exact Derives.sequenceFails derives
    | some found =>
      apply Attempt.meets_bind (ih fun member inside => decides member (by simp [inside]))
      intro tokens after goesOn
      cases tokens with
      | none => exact Derives.sequenceNext derives goesOn
      | some tokens => exact Derives.sequenceNext derives goesOn

/-- The first match among alternatives is the one that the choice derives. -/
theorem firstOf_judges (decides : ∀ member ∈ rules, Decides world member (each member)) :
    Meets (firstOf each rules situation) fun found _ => Judges world (.anyOf rules) situation.stream found := by
  induction rules generalizing situation with
  | nil => exact Derives.choiceDone
  | cons first rest ih =>
    apply Attempt.meets_bind (judges_apart (decides first (by simp)))
    intro found after meets
    obtain ⟨stays, judged⟩ := meets
    cases found with
    | none =>
      have fails : Derives world first situation.stream none := judged
      have others : Meets (firstOf each rest after) fun found _ => Judges world (.anyOf rest) after.stream found :=
        ih fun member inside => decides member (by simp [inside])
      rw [stays] at others
      apply others.mono
      intro found _ judged
      cases found with
      | none => exact Derives.choiceNext fails judged
      | some found =>
        obtain ⟨finish, spans, derives⟩ := judged
        exact ⟨finish, spans, Derives.choiceNext fails derives⟩
    | some found =>
      obtain ⟨finish, spans, derives⟩ := judged
      exact ⟨finish, spans, Derives.choiceTakes derives⟩

theorem spans_farther {first second : Match} {place finish finish' : TokenStream} (spans : first.Spans place finish)
    (spans' : second.Spans place finish') : (farther first second).Spans place (finish.farther finish') := by
  have compare : first.finish.lessThan second.finish = decide (finish.index < finish'.index) := by
    rw [spans.finish_eq, spans'.finish_eq, Number.lessThan_ofNat]
  rw [farther, TokenStream.farther, compare]
  by_cases less : finish.index < finish'.index
  · simpa only [less, decide_true, if_true] using spans'
  · simpa only [less, decide_false, Bool.false_eq_true, if_false] using spans

theorem farther_places_assoc (first second third : TokenStream) :
    (first.farther second).farther third = first.farther (second.farther third) := by
  by_cases less : first.index < second.index <;>
    by_cases less' : second.index < third.index <;>
    by_cases less'' : first.index < third.index <;>
    simp only [TokenStream.farther, less, less', less'', if_true, if_false] <;> omega

/-- With a match known already, a conjunction answers the farther one of that match and its own. -/
theorem farthestOf_judges {next : Rule} {known : Match} {place : TokenStream}
    (spans : known.Spans situation.stream place)
    (decides : ∀ member ∈ next :: rules, Decides world member (each member)) :
    Meets (farthestOf each (some known) (next :: rules) situation) fun found _ =>
      match found with
      | none => Derives world (.allOf (next :: rules)) situation.stream none
      | some found => ∃ finish, found.Spans situation.stream (place.farther finish) ∧
          Derives world (.allOf (next :: rules)) situation.stream (some finish) := by
  induction rules generalizing next known place situation with
  | nil =>
    apply Attempt.meets_bind (judges_apart (decides next (by simp)))
    intro found after meets
    obtain ⟨stays, judged⟩ := meets
    cases found with
    | none => exact Derives.allOfLast judged
    | some found =>
      obtain ⟨finish, found_spans, derives⟩ := judged
      exact ⟨finish, spans_farther spans found_spans, Derives.allOfLast derives⟩
  | cons second rest ih =>
    apply Attempt.meets_bind (judges_apart (decides next (by simp)))
    intro found after meets
    obtain ⟨stays, judged⟩ := meets
    cases found with
    | none => exact Derives.allOfFails judged
    | some found =>
      obtain ⟨finish, found_spans, takes⟩ := judged
      have both := spans_farther spans found_spans
      rw [← stays] at both
      refine (ih both fun member inside => decides member (List.mem_cons_of_mem _ inside)).mono fun found _ judged => ?_
      rw [stays] at judged
      cases found with
      | none => exact Derives.allOfNext takes judged
      | some found =>
        obtain ⟨other, other_spans, others⟩ := judged
        rw [farther_places_assoc] at other_spans
        exact ⟨finish.farther other, other_spans, Derives.allOfNext takes others⟩

theorem allOf_judges {next : Rule} (decides : ∀ member ∈ next :: rules, Decides world member (each member)) :
    Meets (farthestOf each none (next :: rules) situation) fun found _ =>
      Judges world (.allOf (next :: rules)) situation.stream found := by
  apply Attempt.meets_bind (judges_apart (decides next (by simp)))
  cases rules with
  | nil =>
    intro found after meets
    obtain ⟨stays, judged⟩ := meets
    cases found with
    | none => exact Derives.allOfLast judged
    | some found =>
      obtain ⟨finish, spans, derives⟩ := judged
      exact ⟨finish, spans, Derives.allOfLast derives⟩
  | cons second rest =>
    intro found after meets
    obtain ⟨stays, judged⟩ := meets
    cases found with
    | none => exact Derives.allOfFails judged
    | some found =>
      obtain ⟨finish, spans, takes⟩ := judged
      rw [← stays] at spans
      refine (farthestOf_judges spans fun member inside => decides member (List.mem_cons_of_mem _ inside)).mono
        fun found _ judged => ?_
      rw [stays] at judged
      cases found with
      | none => exact Derives.allOfNext takes judged
      | some found =>
        obtain ⟨other, other_spans, others⟩ := judged
        exact ⟨finish.farther other, other_spans, Derives.allOfNext takes others⟩

/-- A count within the upper end is contained exactly when nothing is required any more. -/
theorem contains_iff {range : Range} {count : Nat} (admitted : range.admits count = true) :
    range.contains count = true ↔ (range.after count).least = 0 := by
  rw [Range.contains, admitted, Bool.and_true, decide_eq_true_iff, Range.after, Nat.sub_eq_zero_iff_le]

/-- What is left of a range is full exactly when no further count is admitted. -/
theorem most_after_eq_zero_iff {range : Range} {count : Nat} :
    (range.after count).most = some 0 ↔ (range.most.any fun limit => limit ≤ count) = true := by
  cases most : range.most with
  | none => simp [Range.after, most]
  | some limit => simp [Range.after, most, Nat.sub_eq_zero_iff_le]

theorem admits_zero (range : Range) : range.admits 0 = true := by
  rw [Range.admits]
  cases range.most <;> simp

theorem admits_succ {range : Range} {count : Nat} (room : ¬(range.most.any fun limit => limit ≤ count) = true) :
    range.admits (count + 1) = true := by
  rw [Range.admits]
  cases most : range.most with
  | none => rfl
  | some limit =>
    simp only [most, Option.any_some, decide_eq_true_iff, Nat.not_le] at room
    exact decide_eq_true room

/-- A repetition that takes nothing counts as all that are still required. -/
theorem contains_max {range : Range} {count : Nat} (admitted : range.admits count = true) :
    range.contains (max count range.least) = true := by
  rw [Range.contains, Bool.and_eq_true, decide_eq_true_iff]
  refine ⟨Nat.le_max_right .., ?_⟩
  rw [Range.admits] at admitted ⊢
  cases most : range.most with
  | none => rfl
  | some limit =>
    have ordered := range.ordered limit most
    simp only [most, Option.all_some, decide_eq_true_iff] at admitted ⊢
    omega

/-- After so many repetitions, the others are derived by what is left of the range. -/
theorem repeating_derives {range : Range} (decides : Decides world rule run) (fuel count : Nat)
    (admitted : range.admits count = true) :
    Meets (repeating run range.least range.most fuel count situation) fun counted after =>
      Derives world (.repeated rule (range.after count) false) situation.stream
        (if range.contains counted.1 then some after.stream else none) := by
  induction fuel generalizing situation count with
  | zero => trivial
  | succ fuel ih =>
    rw [repeating]
    split
    · rename_i full
      have contained : range.contains count = true := by
        rw [Range.contains, admitted, Bool.and_true, decide_eq_true_iff]
        cases most : range.most with
        | none => simp [most] at full
        | some limit =>
          have ordered := range.ordered limit most
          simp only [most, Option.any_some, decide_eq_true_iff] at full
          omega
      simp only [Attempt.pure_apply, meets_ok, contained, if_true]
      exact Derives.repeatedFull (most_after_eq_zero_iff.mpr full)
    · rename_i notFull
      have room : (range.after count).most ≠ some 0 := fun full => notFull (most_after_eq_zero_iff.mp full)
      apply Attempt.meets_bind (decides situation)
      intro found middle meets
      obtain ⟨settles, derives⟩ := meets
      cases found with
      | none =>
        have stays : middle.stream = situation.stream := settles
        simp only [Attempt.pure_apply, meets_ok, contains_iff admitted, stays]
        exact Derives.repeatedStops room derives
      | some found =>
        have spans : found.Spans situation.stream middle.stream := settles
        dsimp only
        split
        · rename_i zeroWidth
          have taken : found.tokens = [] := by simpa [spans.isZeroWidth_eq] using zeroWidth
          have reads := spans.reads
          rw [taken] at reads
          have stays := reads.eq_of_nil
          have takes : Derives world rule situation.stream (some middle.stream) := derives
          rw [stays] at takes
          have contained := contains_max (admits_succ notFull)
          simp only [Attempt.pure_apply, meets_ok, contained, if_true, stays]
          exact Derives.repeatedStays room takes
        · rename_i filled
          have moves : situation.stream.index < middle.stream.index := by
            refine Nat.lt_of_le_of_ne spans.reads.index_le fun same => filled ?_
            rw [spans.isZeroWidth_eq, decide_eq_true_iff]
            exact spans.reads.index_eq_iff.mp same
          -- The run goes on with the whole range and a higher count, the derivation with what is left of the range.
          apply Attempt.meets_bind (ih (count + 1) (admits_succ notFull))
          intro counted after goesOn
          obtain ⟨total, tokens⟩ := counted
          refine Derives.repeatedNext room derives moves ?_
          rw [Range.after_after]
          exact goesOn

/-- A run succeeds on a view exactly when a success is derived there. -/
theorem succeeds_derives {view : TokenStream → TokenStream} (decides : Decides world rule run) :
    Meets (succeeds view run situation) fun matched after => after.stream = situation.stream ∧
      ∃ result, Derives world rule (view situation.stream) result ∧ matched = result.isSome := by
  have apart : Meets (Attempt.apart view run situation) fun found after => after.stream = situation.stream ∧
      ∃ result, Derives world rule (view situation.stream) result ∧ found.isSome = result.isSome := by
    refine Attempt.meets_apart ((decides _).mono fun found after ⟨_, derives⟩ => ⟨rfl, _, derives, ?_⟩)
    rw [Option.isSome_map]
  exact Attempt.meets_bind apart fun _ _ settled => settled

/-- A match that is passed on is judged by the rule that passes it on. -/
theorem delegate_judges {target : Rule} (decides : Decides world target run)
    (derives : ∀ {result}, Derives world target situation.stream result → Derives world rule situation.stream result) :
    Meets (delegate run rule situation) fun found _ => Judges world rule situation.stream found := by
  rw [delegate, Attempt.stream_bind_apply]
  apply Attempt.meets_bind (decides situation)
  intro found after meets
  obtain ⟨settles, judged⟩ := meets
  cases found with
  | none => exact derives judged
  | some found =>
    have spans : found.Spans situation.stream after.stream := settles
    simp only [spans.create_eq, Attempt.ofResult_ok, pure_bind]
    exact ⟨_, Match.spans_between spans.reads _, derives judged⟩

/-- A group is taken as a whole exactly when its members derive a success. -/
theorem insideGroup_judges (decides : Decides world rule run) :
    Meets (insideGroup run (.group rule) situation) fun found _ =>
      Judges world (.group rule) situation.stream found := by
  rw [insideGroup, Attempt.stream_bind_apply, Attempt.stream_bind_apply]
  cases current : situation.stream.current? with
  | none =>
    rw [TokenStream.current?_eq, Option.map_eq_none_iff] at current
    exact Derives.groupEnded current
  | some token =>
    obtain ⟨next, read⟩ := TokenStream.exists_read_of_current current
    dsimp only
    cases grouped : token.unwrap.members? with
    | none => exact Derives.notGrouped read grouped
    | some members =>
      apply Attempt.meets_bind (succeeds_derives decides)
      intro matched after meets
      obtain ⟨stays, result, derives, rfl⟩ := meets
      have grouping := Derives.group read grouped derives
      cases result with
      | none => exact grouping
      | some finish =>
        have advanced : after.stream.advance 1 = .ok next := by
          rw [stays]
          exact TokenStream.advance_one_eq_ok_iff.mpr ⟨token, read⟩
        simp only [Option.isSome_some, if_true, Attempt.stream_bind_apply, advanced, Attempt.ofResult_ok, pure_bind,
          Attempt.goTo_bind_apply]
        exact since_judges (.single read) grouping

/-- An assertion is judged by what its rule derives on the view. -/
theorem asserts_judges {asserting : Rule} {view : TokenStream → TokenStream} {condition : Bool → Bool}
    (decides : Decides world rule run)
    (derives : ∀ {result}, Derives world rule (view situation.stream) result →
      Derives world asserting situation.stream (if condition result.isSome then some situation.stream else none)) :
    Meets ((succeeds view run >>= fun matched => hereIf (condition matched) asserting) situation) fun found _ =>
      Judges world asserting situation.stream found := by
  apply Attempt.meets_bind (succeeds_derives decides)
  intro matched after meets
  obtain ⟨stays, result, derived, rfl⟩ := meets
  have asserted := derives derived
  rw [← stays] at asserted ⊢
  exact hereIf_judges asserted

theorem sequence_judges {fuel : Nat} (decides : ∀ member ∈ rules, Decides world member (each member)) :
    Meets ((Rule.sequence rules).body world fuel each situation) fun found _ =>
      Judges world (.sequence rules) situation.stream found := by
  have collects : Meets (inTurn each rules situation) (Collects situation.stream) :=
    inTurn_collects fun member inside => (decides member inside).sound
  apply Attempt.meets_bind (collects.and (inTurn_derives decides))
  intro tokens after meets
  obtain ⟨reads, derives⟩ := meets
  cases tokens with
  | none => exact derives
  | some tokens => exact since_judges reads derives

theorem optional_judges {fuel : Nat} {negated : Bool}
    (decides : Decides world (rule.attempted negated) (each (rule.attempted negated))) :
    Meets ((Rule.optional rule negated).body world fuel each situation) fun found _ =>
      Judges world (.optional rule negated) situation.stream found := by
  apply Attempt.meets_bind (decides situation)
  intro found after meets
  obtain ⟨settles, derives⟩ := meets
  cases found with
  | none =>
    simp only [Match.empty_ofNat, Attempt.ofResult_ok, pure_bind]
    exact ⟨_, Match.spans_between (.nil situation.stream) _, Derives.optionalSkips derives⟩
  | some found =>
    have spans : found.Spans situation.stream after.stream := settles
    simp only [spans.create_eq, Attempt.ofResult_ok, pure_bind]
    exact ⟨_, Match.spans_between spans.reads _, Derives.optionalTakes derives⟩

/-- All repetitions together are judged by the whole range. -/
theorem repeated_judges {range : Range} (fuel : Nat) (decides : Decides world rule (each rule)) :
    Meets ((Rule.repeated rule range false).body world fuel each situation) fun found _ =>
      Judges world (.repeated rule range false) situation.stream found := by
  have admitted := admits_zero range
  apply Attempt.meets_bind ((decides.sound.repeating_reads fuel 0).and (repeating_derives decides fuel 0 admitted))
  intro counted after meets
  obtain ⟨count, tokens⟩ := counted
  obtain ⟨reads, derives⟩ := meets
  rw [Range.after_zero] at derives
  dsimp only at derives ⊢
  cases contained : range.contains count with
  | false =>
    rw [contained] at derives
    exact derives
  | true =>
    rw [contained] at derives
    exact since_judges reads derives

theorem not_judges {fuel : Nat} (decides : Decides world rule (each rule)) :
    Meets ((Rule.not rule).body world fuel each situation) fun found _ =>
      Judges world (.not rule) situation.stream found := by
  rw [body, Attempt.stream_bind_apply]
  cases more : situation.stream.hasMore with
  | false => exact Derives.notEnded more
  | true =>
    rw [if_pos rfl]
    apply asserts_judges decides
    intro result derived
    have asserted := Derives.not more derived
    cases result <;> exact asserted

/-- The body of an expression answers only what the expression derives, if the rules that it refers to are decided. -/
theorem body_judges (fuel : Nat) (made : rule.IsMade) (expression : rule.IsExpression)
    (decides : ∀ inner, rule.Refers world inner → Decides world inner (each inner)) :
    Meets (rule.body world fuel each situation) fun found _ => Judges world rule situation.stream found := by
  have shown : ∀ {part}, part ∈ rule.children world.store → Decides world part (each part) := fun child =>
    decides _ (.shown child)
  cases rule with
  | always =>
    rw [body, here_apply]
    exact ⟨_, Match.spans_between (.nil _) _, Derives.always⟩
  | never => exact Derives.never
  | matcher test negated => exact ofTest_judges
  | sequence rules => exact sequence_judges fun member inside => shown (by simpa using inside)
  | anyOf alternatives => exact firstOf_judges fun member inside => shown (by simpa using inside)
  | allOf rules =>
    cases rules with
    | nil => exact absurd rfl made
    | cons next rules => exact allOf_judges fun member inside => shown (by simpa using inside)
  | optional inner negated => exact optional_judges (shown (by simp))
  | repeated inner range negated =>
    have positive : negated = false := expression
    subst positive
    exact repeated_judges fuel (shown (by simp))
  | lookaround direction inner negative => exact asserts_judges (shown (by simp)) .lookaround
  | not inner => exact not_judges (shown (by simp))
  | group inner => exact insideGroup_judges (shown (by simp))
  | named name =>
    rw [body, followNameTelling]
    cases bound : world.bindings.rule? name with
    | none => exact Derives.unbound bound
    | some target => exact delegate_judges (decides target (.named bound)) (.named bound)
  | selfReferring cell =>
    rw [body]
    cases filled : world.store.content? cell with
    | none => exact Derives.unfilled filled
    | some target => exact delegate_judges (decides target (.selfReferring filled)) (.selfReferring filled)
  | _ => exact expression.elim

/-- Every run of an expression decides it, with whatever fuel. -/
theorem run_decides (builtIn : rule.BuiltIn world) (expression : rule.Throughout world IsExpression) (fuel : Nat) :
    Decides world rule (rule.run world fuel) := by
  induction fuel generalizing rule with
  | zero =>
    intro situation
    trivial
  | succ fuel ih =>
    rw [builtIn.traced.run_succ]
    exact decides_settle fun situation => body_judges fuel builtIn.here expression.here fun inner refers =>
      ih (builtIn.of_refers refers) (expression.of_refers refers)

end TokenGrammar.Rule
