import TokenGrammar.Proofs.Likeness.Runs

namespace TokenGrammar

namespace Rule

open Run

variable {world : World} {likeness : Likeness world} {rule : Rule} {each : Rule → Run} {fuel : Nat}

theorem sequence_keeps {rules : List Rule} (keeps : ∀ member ∈ rules, likeness.Keeps (each member)) :
    likeness.Keeps ((Rule.sequence rules).body world fuel each) := by
  apply Likeness.Relates.stream.bind
  intro start start' _
  apply (Likeness.inTurn_related keeps).bind
  intro taken taken' together
  cases together with
  | none => exact Likeness.noMatch_keeps
  | some taken => exact Likeness.since_related taken

theorem optional_keeps {negated : Bool} (keeps : likeness.Keeps (each (rule.attempted negated))) :
    likeness.Keeps ((Rule.optional rule negated).body world fuel each) := by
  refine Likeness.Relates.stream.bind fun _ _ _ => keeps.bind fun _ _ together => ?_
  cases together with
  | none => exact (Likeness.create_related .nil).bind fun _ _ alike => .pure (.some alike)
  | some alike => exact (Likeness.create_related alike.1).bind fun _ _ alike => .pure (.some alike)

theorem repeated_keeps {range : Range} {negated : Bool} (sound : (each rule).Sound)
    (keeps : likeness.Keeps (each rule)) :
    likeness.Keeps ((Rule.repeated rule range negated).body world fuel each) := by
  apply Likeness.Relates.stream.bind
  intro start start' _
  apply (Likeness.repeating_related sound keeps fuel 0).bind
  intro counted counted' both
  obtain ⟨same, taken⟩ := both
  dsimp only
  rw [same]
  split
  · exact Likeness.since_related taken
  · exact Likeness.noMatch_keeps

theorem lookaround_keeps {direction : Direction} {negative : Bool}
    (admitted : likeness.admits (.lookaround direction rule negative)) (keeps : likeness.Keeps (each rule)) :
    likeness.Keeps ((Rule.lookaround direction rule negative).body world fuel each) := by
  have alikeViews : ∀ {start start'}, likeness.place start start' →
      likeness.place (viewOf direction start) (viewOf direction start') := by
    cases direction with
    | ahead => exact fun alike => alike
    | behind => exact fun alike => likeness.behind admitted alike
  exact keeps.asserts alikeViews

theorem capture_keeps {key : Text} (keeps : likeness.Keeps (each rule)) :
    likeness.Keeps ((Rule.capture key rule).body world fuel each) := by
  apply keeps.delegate.bind
  intro found found' together
  cases together with
  | none => exact Likeness.noMatch_keeps
  | @some found found' alike =>
    apply Likeness.Relates.captures.bind
    intro kept kept' alikeCaptures
    have keptAlike : likeness.Relates likeness.captures (Attempt.ofResult (kept.capture key found.tokens))
        (Attempt.ofResult (kept'.capture key found'.tokens)) := by
      apply Likeness.Relates.ofResult
      intro _ _ made made'
      obtain ⟨-, made⟩ := check_bind_eq_ok_iff.mp made
      obtain ⟨-, made'⟩ := check_bind_eq_ok_iff.mp made'
      cases made
      cases made'
      exact likeness.keep key alikeCaptures alike.1
    exact keptAlike.bind fun _ _ alikeKept => (Likeness.Relates.setCaptures alikeKept).bind fun _ _ _ =>
      .pure (.some alike)

theorem not_keeps (keeps : likeness.Keeps (each rule)) : likeness.Keeps ((Rule.not rule).body world fuel each) := by
  apply Likeness.Relates.stream.bind
  intro start start' alike
  rw [Likeness.hasMore_eq alike]
  split
  · exact keeps.asserts id
  · exact Likeness.noMatch_keeps

/-- A reference resolves alike with alike captures. -/
theorem followReference_keeps {key : Text} {kind : ReferenceKind} (admitted : likeness.admits (.reference key kind))
    (keeps : ∀ target, Refers world (.reference key kind) target → likeness.Keeps (each target)) :
    likeness.Keeps (followReference world each key kind rule) := by
  rw [followReference, followReferenceTelling]
  cases bound : if kind = .tokens then none else world.bindings.rule? key with
  | some target =>
    rw [Option.ite_none_left_eq_some] at bound
    exact (keeps target (.reference bound.1 bound.2)).delegate
  | none =>
    apply Likeness.Relates.captures.bind
    intro kept kept' alike
    have resolved : Option.Rel (DynamicBinding.Alike likeness.token)
        (if kind = .dynamic then world.bindings.resolve? key kept else none)
        (if kind = .dynamic then world.bindings.resolve? key kept' else none) := by
      split
      · rename_i dynamic
        subst dynamic
        exact likeness.resolve admitted alike
      · exact .none
    generalize found : (if kind = .dynamic then world.bindings.resolve? key kept else none) = binding at resolved ⊢
    generalize (if kind = .dynamic then world.bindings.resolve? key kept' else none) = binding' at resolved ⊢
    cases resolved with
    | some alikeBindings =>
      cases alikeBindings with
      | rule target =>
        rw [Option.ite_none_right_eq_some] at found
        obtain ⟨rfl, found⟩ := found
        exact (keeps target (.resolved found)).delegate
      | tokens expected => exact Likeness.sameValues_related expected
    | none =>
      have finds : Option.Rel (List.Forall₂ likeness.token) (if kind = .rule then none else kept.find? key)
          (if kind = .rule then none else kept'.find? key) := by
        split
        · exact .none
        · exact likeness.find key alike
      dsimp only
      generalize (if kind = .rule then none else kept.find? key) = expected at finds ⊢
      generalize (if kind = .rule then none else kept'.find? key) = expected' at finds ⊢
      cases finds with
      | some expected => exact Likeness.sameValues_related expected
      | none => exact (Likeness.Relates.notice _).bind fun _ _ _ => Likeness.noMatch_keeps

/-- The body of an admitted rule keeps a likeness, if the rules that the rule refers to keep it and run soundly. -/
theorem body_keeps (fuel : Nat) (made : rule.IsMade) (admitted : likeness.admits rule)
    (sound : ∀ inner, rule.Refers world inner → (each inner).Sound)
    (keeps : ∀ inner, rule.Refers world inner → likeness.Keeps (each inner)) :
    likeness.Keeps (rule.body world fuel each) := by
  have shownSound : ∀ {part}, part ∈ rule.children world.store → (each part).Sound := fun child =>
    sound _ (.shown child)
  have shown : ∀ {part}, part ∈ rule.children world.store → likeness.Keeps (each part) := fun child =>
    keeps _ (.shown child)
  cases rule with
  | always => exact Likeness.here_keeps
  | never => exact Likeness.noMatch_keeps
  | matcher test negated =>
    refine Likeness.ofTest_keeps fun seen => ?_
    rw [likeness.accepts admitted seen]
  | sequence rules => exact sequence_keeps fun member inside => shown (by simpa using inside)
  | anyOf alternatives => exact Likeness.firstOf_keeps fun member inside => shown (by simpa using inside)
  | allOf rules =>
    intro situation situation' alike
    exact Likeness.farthestOf_agree (fun member inside => shownSound (by simpa using inside))
      (fun member inside => shown (by simpa using inside)) alike trivial trivial .none
  | optional inner negated => exact optional_keeps (shown (by simp))
  | repeated inner range negated => exact repeated_keeps (shownSound (by simp)) (shown (by simp))
  | lookaround direction inner negative => exact lookaround_keeps admitted (shown (by simp))
  | anchor place negated =>
    apply Likeness.Relates.stream.bind
    intro start start' alike
    rw [likeness.holds admitted alike]
    exact Likeness.hereIf_keeps _
  | boundary opening closing =>
    exact Likeness.bounded_keeps (shown (by simp)) (shown (by simp)) Likeness.tokenStep_related fuel
  | filledBoundary opening inner closing =>
    exact Likeness.bounded_keeps (shown (by simp)) (shown (by simp))
      (Likeness.bodyStep_related (shownSound (by simp)) (shown (by simp))) fuel
  | named name =>
    rw [body, followNameTelling]
    cases bound : world.bindings.rule? name with
    | none => exact (Likeness.Relates.notice _).bind fun _ _ _ => Likeness.noMatch_keeps
    | some target => exact (keeps target (.named bound)).delegate
  | selfReferring cell =>
    rw [body]
    cases filled : world.store.content? cell with
    | none => exact Likeness.noMatch_keeps
    | some target => exact (keeps target (.selfReferring filled)).delegate
  | lazy cell =>
    rw [body]
    cases filled : world.store.content? cell with
    | none => exact Likeness.noMatch_keeps
    | some target => exact (keeps target (.lazy filled)).delegate
  | group inner => exact (shown (by simp)).insideGroup
  | capture key inner => exact capture_keeps (shown (by simp))
  | reference key kind => exact followReference_keeps admitted keeps
  | not inner => exact not_keeps (shown (by simp))
  | external number => exact made.elim

/-- Built-in rules that a likeness admits keep it, with whatever fuel. -/
theorem run_keeps (builtIn : rule.BuiltIn world) (admitted : rule.Throughout world likeness.admits) (fuel : Nat) :
    likeness.Keeps (rule.run world fuel) := by
  induction fuel generalizing rule with
  | zero => exact .exhaust
  | succ fuel ih =>
    have sound : ∀ inner, rule.Refers world inner → (inner.run world fuel).Sound := fun inner refers =>
      run_sound (builtIn.of_refers refers) fuel
    have keeps : likeness.Keeps (rule.body world fuel (run world fuel)) :=
      body_keeps fuel builtIn.here admitted.here sound fun inner refers =>
        ih (builtIn.of_refers refers) (admitted.of_refers refers)
    have settled : likeness.Keeps (settle (rule.kind world.store) (rule.body world fuel (run world fuel))) :=
      keeps.settle fun _ => body_traces fuel builtIn.here sound
    cases rule with
    | external number => exact builtIn.here.elim
    | _ => exact settled

variable {situation situation' after after' : Situation} {found found' : Option Match}

/-- In alike situations a rule runs out of fuel together or answers alike. -/
theorem run_agree (builtIn : rule.BuiltIn world) (admitted : rule.Throughout world likeness.admits)
    (alike : likeness.Alike situation situation') (fuel : Nat) :
    (∃ after after', rule.run world fuel situation = .error .exhausted after ∧
      rule.run world fuel situation' = .error .exhausted after') ∨
    ∃ found after found' after', rule.run world fuel situation = .ok found after ∧
      rule.run world fuel situation' = .ok found' after' ∧ Option.Rel likeness.Matches found found' ∧
        likeness.Alike after after' := by
  have agree := run_keeps builtIn admitted fuel situation situation' alike
  have meets := run_sound builtIn fuel situation
  have meets' := run_sound builtIn fuel situation'
  generalize rule.run world fuel situation = outcome at agree meets ⊢
  generalize rule.run world fuel situation' = outcome' at agree meets' ⊢
  -- Nothing is known of faults in alike situations, but sound runs have none.
  cases agree with
  | answers answered alikeAfter => exact .inr ⟨_, _, _, _, rfl, rfl, answered, alikeAfter⟩
  | exhausted => exact .inl ⟨_, _, rfl, rfl⟩
  | faultLeft => exact meets.elim
  | faultRight => exact meets'.elim

/-- What a rule yields in one situation it yields alike in an alike one. -/
theorem Yields.alike (builtIn : rule.BuiltIn world) (admitted : rule.Throughout world likeness.admits)
    (alike : likeness.Alike situation situation') (yields : rule.Yields world situation found after) :
    ∃ found' after', rule.Yields world situation' found' after' ∧ Option.Rel likeness.Matches found found' ∧
      likeness.Alike after after' := by
  obtain ⟨fuel, answers⟩ := yields
  rcases run_agree builtIn admitted alike fuel with ⟨_, _, exhausted, -⟩ | ⟨_, _, found', after', ran, answers', rest⟩
  · rw [answers] at exhausted
    cases exhausted
  · rw [answers] at ran
    cases ran
    exact ⟨found', after', ⟨fuel, answers'⟩, rest⟩

/-- What a rule yields in an alike situation it yields alike in this one. -/
theorem Yields.alike_symm (builtIn : rule.BuiltIn world) (admitted : rule.Throughout world likeness.admits)
    (alike : likeness.Alike situation situation') (yields : rule.Yields world situation' found' after') :
    ∃ found after, rule.Yields world situation found after ∧ Option.Rel likeness.Matches found found' ∧
      likeness.Alike after after' := by
  obtain ⟨fuel, answers⟩ := yields
  rcases run_agree builtIn admitted alike fuel with ⟨_, _, -, exhausted⟩ | ⟨found, after, _, _, answers', ran, rest⟩
  · rw [answers] at exhausted
    cases exhausted
  · rw [answers] at ran
    cases ran
    exact ⟨found, after, ⟨fuel, answers'⟩, rest⟩

end Rule

end TokenGrammar
