import TokenGrammar.Proofs.Reach
import TokenGrammar.Proofs.Span

namespace TokenGrammar

namespace Run

variable {situation : Situation} {place : TokenStream} {rule : Rule} {run : Run}

theorem ofTest_traces {test : Token → Bool} :
    Meets (ofTest test rule situation) fun found _ => Traces situation.stream found := by
  rw [ofTest, Attempt.stream_bind_apply]
  cases more : situation.stream.hasMore with
  | false => trivial
  | true =>
    obtain ⟨token, behind, read⟩ := TokenStream.exists_read_of_hasMore more
    rw [if_pos rfl, Attempt.read_bind_apply _ read]
    cases test token with
    | false => trivial
    | true => exact since_traces (.single read)

theorem tokenStep_collects (more : situation.stream.hasMore = true) :
    Meets (tokenStep situation) (Collects situation.stream) := by
  obtain ⟨token, behind, read⟩ := TokenStream.exists_read_of_hasMore more
  rw [tokenStep, Attempt.read_bind_apply _ read]
  exact TokenStream.Reads.single read

/-- Comparing values with those of captured tokens reads as many visible tokens. -/
theorem readValues_collects (expected : List Token) :
    Meets (readValues expected situation) (Collects situation.stream) := by
  induction expected generalizing situation with
  | nil => exact TokenStream.Reads.nil _
  | cons wanted rest ih =>
    rw [readValues, Attempt.stream_bind_apply]
    cases current : situation.stream.current? with
    | none => trivial
    | some next =>
      by_cases same : next.value = wanted.value
      · obtain ⟨behind, read⟩ := TokenStream.exists_read_of_current current
        simp only [same, if_true, Attempt.read_bind_apply _ read]
        apply Attempt.meets_bind ih
        intro tokens after collects
        cases tokens with
        | none => trivial
        | some tokens => exact TokenStream.Reads.cons read collects
      · simp only [same, if_false]
        trivial

theorem sameValues_traces (expected : List Token) :
    Meets (sameValues expected rule situation) fun found _ => Traces situation.stream found := by
  rw [sameValues, Attempt.stream_bind_apply]
  apply Attempt.meets_bind (readValues_collects expected)
  intro tokens after collects
  cases tokens with
  | none => trivial
  | some tokens => exact since_traces collects

section Lists

variable {each : Rule → Run} {rules : List Rule}

/-- Runs one after the other read one stretch after the other. -/
theorem inTurn_collects (sound : ∀ member ∈ rules, (each member).Sound) :
    Meets (inTurn each rules situation) (Collects situation.stream) := by
  induction rules generalizing situation with
  | nil => exact TokenStream.Reads.nil _
  | cons first rest ih =>
    apply Attempt.meets_bind (sound first (by simp) situation)
    intro found middle settles
    cases found with
    | none => trivial
    | some found =>
      have spans : found.Spans situation.stream middle.stream := settles
      apply Attempt.meets_bind (ih fun member inside => sound member (by simp [inside]))
      intro tokens after collects
      cases tokens with
      | none => trivial
      | some tokens => exact spans.reads.append collects

theorem firstOf_traces (sound : ∀ member ∈ rules, (each member).Sound) :
    Meets (firstOf each rules situation) fun found _ => Traces situation.stream found := by
  induction rules generalizing situation with
  | nil => trivial
  | cons first rest ih =>
    apply Attempt.meets_bind (sound first (by simp)).apart_traces
    intro found after meets
    obtain ⟨stays, traced⟩ := meets
    cases found with
    | none =>
      rw [← stays]
      exact ih fun member inside => sound member (by simp [inside])
    | some found => exact traced

theorem farther_traces {first second : Match} (left : Traces place (some first)) (right : Traces place (some second)) :
    Traces place (some (farther first second)) := by
  unfold farther
  split
  · exact right
  · exact left

/-- The farthest match so far spans a stretch from the same place as the others. -/
theorem farthestOf_traces {farthest : Option Match} (known : Traces situation.stream farthest)
    (sound : ∀ member ∈ rules, (each member).Sound) :
    Meets (farthestOf each farthest rules situation) fun found _ => Traces situation.stream found := by
  induction rules generalizing situation farthest with
  | nil => exact known
  | cons first rest ih =>
    apply Attempt.meets_bind (sound first (by simp)).apart_traces
    intro found after meets
    obtain ⟨stays, traced⟩ := meets
    cases found with
    | none => trivial
    | some found =>
      rw [← stays] at known traced ⊢
      refine ih ?_ fun member inside => sound member (by simp [inside])
      cases farthest with
      | none => exact traced
      | some earlier => exact farther_traces known traced

end Lists

/-- Repetitions read one stretch after the other, and nothing when they end with an empty match. -/
theorem Sound.repeating_reads (sound : run.Sound) {least : Nat} {limit : Option Nat} (fuel count : Nat) :
    Meets (repeating run least limit fuel count situation) fun counted after =>
      situation.stream.Reads counted.2 after.stream := by
  induction fuel generalizing situation count with
  | zero => trivial
  | succ fuel ih =>
    rw [repeating]
    split
    · exact TokenStream.Reads.nil _
    · apply Attempt.meets_bind (sound situation)
      intro found middle settles
      cases found with
      | none =>
        have stays : middle.stream = situation.stream := settles
        simp only [Attempt.pure_apply, meets_ok, stays]
        exact TokenStream.Reads.nil _
      | some found =>
        have spans : found.Spans situation.stream middle.stream := settles
        dsimp only
        split
        · rename_i zeroWidth
          have taken : found.tokens = [] := by simpa [spans.isZeroWidth_eq] using zeroWidth
          have reads := spans.reads
          rw [taken] at reads
          exact reads
        · apply Attempt.meets_bind (ih (count + 1))
          intro counted after reads
          exact spans.reads.append reads

theorem Sound.bodyStep_collects (sound : run.Sound) :
    Meets (bodyStep run situation) (Collects situation.stream) := by
  apply Attempt.meets_bind (sound situation)
  intro found after settles
  cases found with
  | none => trivial
  | some found =>
    have spans : found.Spans situation.stream after.stream := settles
    simp only [Attempt.pure_apply, meets_ok]
    split
    · trivial
    · exact spans.reads

/-- What lies before a closing match is read with it. -/
theorem untilClosed_collects {closing : Run} {step : Attempt (Option (List Token))} (sound : closing.Sound)
    (collects : ∀ situation, situation.stream.hasMore = true → Meets (step situation) (Collects situation.stream))
    (fuel : Nat) : Meets (untilClosed closing step fuel situation) (Collects situation.stream) := by
  induction fuel generalizing situation with
  | zero => trivial
  | succ fuel ih =>
    apply Attempt.meets_bind (sound situation)
    intro found middle settles
    cases found with
    | none =>
      have stays : middle.stream = situation.stream := settles
      simp only [Attempt.stream_bind_apply]
      rw [← stays]
      split
      · rename_i more
        apply Attempt.meets_bind (collects middle more)
        intro tokens next taken
        cases tokens with
        | none => trivial
        | some tokens =>
          apply Attempt.meets_bind ih
          intro rest after others
          cases rest with
          | none => trivial
          | some rest => exact TokenStream.Reads.append taken others
      · trivial
    | some found =>
      have spans : found.Spans situation.stream middle.stream := settles
      exact spans.reads

theorem bounded_traces {opening closing : Run} {step : Attempt (Option (List Token))} (opens : opening.Sound)
    (closes : closing.Sound)
    (collects : ∀ situation, situation.stream.hasMore = true → Meets (step situation) (Collects situation.stream))
    (fuel : Nat) :
    Meets (bounded opening closing step fuel rule situation) fun found _ => Traces situation.stream found := by
  rw [bounded, Attempt.stream_bind_apply]
  apply Attempt.meets_bind (opens situation)
  intro found middle settles
  cases found with
  | none => trivial
  | some found =>
    have spans : found.Spans situation.stream middle.stream := settles
    apply Attempt.meets_bind (untilClosed_collects closes collects fuel)
    intro tokens after others
    cases tokens with
    | none => trivial
    | some tokens => exact since_traces (spans.reads.append others)

/-- Whatever happens inside of a group, the group itself is read as one token. -/
theorem Sound.insideGroup_traces (sound : run.Sound) :
    Meets (insideGroup run rule situation) fun found _ => Traces situation.stream found := by
  rw [insideGroup, Attempt.stream_bind_apply, Attempt.stream_bind_apply]
  cases current : situation.stream.current? with
  | none => trivial
  | some token =>
    dsimp only
    cases token.unwrap.members? with
    | none => trivial
    | some members =>
      apply Attempt.meets_bind (sound.succeeds_stays _)
      intro matched after stays
      cases matched with
      | false => trivial
      | true =>
        rw [← stays] at current ⊢
        -- The group was current before its members were tried, and the stream has not moved since.
        obtain ⟨behind, read⟩ := TokenStream.exists_read_of_current current
        have advanced := TokenStream.advance_one_eq_ok_iff.mpr ⟨token, read⟩
        simp only [if_true, Attempt.stream_bind_apply, advanced, Attempt.ofResult_ok, pure_bind,
          Attempt.goTo_bind_apply]
        exact since_traces (.single read)

end Run

namespace Rule

open Run

variable {world : World} {rule : Rule} {each : Rule → Run} {situation : Situation}

/-- A reference runs what it resolves to or reads the captured tokens again. -/
theorem followReference_traces {key : Text} {kind : ReferenceKind}
    (sound : ∀ target, Refers world (.reference key kind) target → (each target).Sound) :
    Meets (followReference world each key kind rule situation) fun found _ => Traces situation.stream found := by
  rw [followReference, followReferenceTelling]
  cases bound : if kind = .tokens then none else world.bindings.rule? key with
  | some target =>
    rw [Option.ite_none_left_eq_some] at bound
    exact (sound target (.reference bound.1 bound.2)).delegate_traces
  | none =>
    simp only [Attempt.captures_bind_apply]
    cases resolved : if kind = .dynamic then world.bindings.resolve? key situation.memory.captures else none with
    | some binding =>
      cases binding with
      | rule target =>
        rw [Option.ite_none_right_eq_some] at resolved
        obtain ⟨rfl, found⟩ := resolved
        exact (sound target (.resolved found)).delegate_traces
      | tokens expected => exact sameValues_traces expected
    | none =>
      cases if kind = .rule then none else situation.memory.captures.find? key with
      | some expected => exact sameValues_traces expected
      | none => trivial

theorem sequence_traces {fuel : Nat} {rules : List Rule} (sound : ∀ member ∈ rules, (each member).Sound) :
    Meets ((Rule.sequence rules).body world fuel each situation) fun found _ => Traces situation.stream found := by
  apply Attempt.meets_bind (inTurn_collects sound)
  intro tokens after collects
  cases tokens with
  | none => trivial
  | some tokens => exact since_traces collects

theorem repeated_traces {fuel : Nat} {range : Range} {negated : Bool} (sound : (each rule).Sound) :
    Meets ((Rule.repeated rule range negated).body world fuel each situation) fun found _ =>
      Traces situation.stream found := by
  apply Attempt.meets_bind (sound.repeating_reads fuel 0)
  intro counted after reads
  dsimp only
  split
  · exact since_traces reads
  · trivial

theorem optional_traces {fuel : Nat} {negated : Bool} (sound : (each (rule.attempted negated)).Sound) :
    Meets ((Rule.optional rule negated).body world fuel each situation) fun found _ =>
      Traces situation.stream found := by
  apply Attempt.meets_bind (sound situation)
  intro found after settles
  cases found with
  | none =>
    simp only [Match.empty_ofNat, Attempt.ofResult_ok, pure_bind]
    exact ⟨_, Match.spans_between (.nil situation.stream) _⟩
  | some found =>
    have spans : found.Spans situation.stream after.stream := settles
    simp only [spans.create_eq, Attempt.ofResult_ok, pure_bind]
    exact ⟨_, Match.spans_between spans.reads _⟩

/-- A key that is not empty can be captured. -/
theorem capture_traces {fuel : Nat} {key : Text} (filled : key ≠ "") (sound : (each rule).Sound) :
    Meets ((Rule.capture key rule).body world fuel each situation) fun found _ => Traces situation.stream found := by
  apply Attempt.meets_bind sound.delegate_traces
  intro found after traced
  cases found with
  | none => trivial
  | some found =>
    have kept : after.memory.captures.capture key found.tokens = .ok (after.memory.captures.keep key found.tokens) :=
      check_bind_eq_ok_iff.mpr ⟨decide_eq_true filled, rfl⟩
    simp only [Attempt.captures_bind_apply, kept, Attempt.ofResult_ok, pure_bind, Attempt.setCaptures_bind_apply]
    exact traced

/-- A body answers only matches from its place on, if the rules that the rule refers to run soundly. -/
theorem body_traces (fuel : Nat) (made : rule.IsMade) (sound : ∀ inner, rule.Refers world inner → (each inner).Sound) :
    Meets (rule.body world fuel each situation) fun found _ => Traces situation.stream found := by
  have shown {part : Rule} (child : part ∈ rule.children world.store) : (each part).Sound := sound part (.shown child)
  cases rule with
  | always => exact here_traces
  | never => trivial
  | matcher test negated => exact ofTest_traces
  | sequence rules => exact sequence_traces fun member inside => shown (by simpa using inside)
  | anyOf alternatives => exact firstOf_traces fun member inside => shown (by simpa using inside)
  | allOf rules => exact farthestOf_traces trivial fun member inside => shown (by simpa using inside)
  | optional inner negated => exact optional_traces (shown (by simp))
  | repeated inner range negated => exact repeated_traces (shown (by simp))
  | lookaround direction inner negative => exact (shown (by simp)).asserts_traces
  | anchor place negated => exact hereIf_traces
  | boundary opening closing =>
    exact bounded_traces (shown (by simp)) (shown (by simp)) (fun _ => tokenStep_collects) fuel
  | filledBoundary opening body closing =>
    exact bounded_traces (shown (by simp)) (shown (by simp)) (fun _ _ => (shown (by simp)).bodyStep_collects) fuel
  | named name =>
    rw [body, followNameTelling]
    cases bound : world.bindings.rule? name with
    | none => trivial
    | some target => exact (sound target (.named bound)).delegate_traces
  | selfReferring cell =>
    rw [body]
    cases filled : world.store.content? cell with
    | none => trivial
    | some target => exact (sound target (.selfReferring filled)).delegate_traces
  | lazy cell =>
    rw [body]
    cases filled : world.store.content? cell with
    | none => trivial
    | some target => exact (sound target (.lazy filled)).delegate_traces
  | group inner => exact (shown (by simp)).insideGroup_traces
  | capture key inner => exact capture_traces made (shown (by simp))
  | reference key kind => exact followReference_traces sound
  | not inner =>
    rw [body, Attempt.stream_bind_apply]
    split
    · exact (shown (by simp)).asserts_traces
    · trivial
  | external number => exact made.elim

/-- A step is sound when the rules that it may run are. -/
theorem step_sound (fuel : Nat) (made : rule.IsMade) (sound : ∀ inner, rule.Refers world inner → (each inner).Sound) :
    (rule.step world fuel each).Sound := by
  have settled : (settle (rule.kind world.store) (rule.body world fuel each)).Sound :=
    settle_sound fun _ => body_traces fuel made sound
  cases rule with
  | external number => exact made.elim
  | _ => exact settled

/-- Every run of a built-in rule is sound, with whatever fuel. -/
theorem run_sound (builtIn : rule.BuiltIn world) (fuel : Nat) : Run.Sound (rule.run world fuel) := by
  -- Rules may refer to each other in circles, so the induction is on the fuel and not on the rule.
  induction fuel generalizing rule with
  | zero =>
    intro situation
    trivial
  | succ fuel ih => exact step_sound fuel builtIn.here fun inner refers => ih (builtIn.of_refers refers)

end Rule

end TokenGrammar
