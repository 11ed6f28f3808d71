import TokenGrammar.Proofs.Laws.Around

namespace TokenGrammar

/-- What a match takes, whichever rule it is a match of: its ends and its tokens. -/
def Match.taken (found : Match) : Number × Number × List Token := (found.start, found.finish, found.tokens)

namespace Rule

open Run

/-- Whether a rule negates to an opposite of its own. -/
def hasOpposite : Rule → Bool
  | .always | .never | .matcher .. | .optional .. | .repeated .. | .lookaround .. | .anchor .. => true
  | _ => false

/-- The rules that callers can get hold of: those that factories make, and what negation in either form makes of
such rules. -/
inductive IsProduced : Rule → Prop
  | factory {rule : Rule} (made : rule.IsMade) (plain : rule.isNot = false) : IsProduced rule
  | complement {rule : Rule} (inner : IsProduced rule) : IsProduced rule.complement
  | negate {rule : Rule} (inner : IsProduced rule) : IsProduced rule.negate

/-- Two rules behave alike when from every situation both do not match or match the same stretch and tokens. -/
def BehavesAs (world : World) (first second : Rule) : Prop :=
  ∀ situation taken,
    (∃ found after, first.Yields world situation found after ∧ found.map Match.taken = taken) ↔
      ∃ found after, second.Yields world situation found after ∧ found.map Match.taken = taken

variable {world : World} {rule inner : Rule}

theorem BehavesAs.refl (world : World) (rule : Rule) : rule.BehavesAs world rule := fun _ _ => Iff.rfl

/-- Without an opposite of its own a rule negates to an assertion, and that assertion negates back. -/
theorem negate_of_hasOpposite_eq_false (without : rule.hasOpposite = false) (plain : rule.isNot = false) :
    rule.negate = .not rule := by
  cases rule <;> simp_all [hasOpposite, isNot, negate]

theorem negate_negate_of_isNot_eq_false (plain : rule.isNot = false) : rule.negate.negate = rule := by
  cases rule <;> simp_all [isNot, negate]

/-- No negation makes an assertion about an assertion. -/
theorem IsProduced.isNot_eq_false (produced : rule.IsProduced) (denies : rule = .not inner) :
    inner.isNot = false := by
  induction produced generalizing inner with
  | factory _ plain => simp [denies, isNot] at plain
  | @complement rule _ ih =>
    cases rule with
    | not denied =>
      have plain := ih rfl
      rw [Rule.complement] at denies
      simp [denies, isNot] at plain
    | _ =>
      cases denies
      rfl
  | @negate rule _ ih =>
    cases rule with
    | not denied =>
      have plain := ih rfl
      rw [Rule.negate] at denies
      simp [denies, isNot] at plain
    | always | never | matcher | optional | repeated | lookaround | anchor => cases denies
    | _ =>
      cases denies
      rfl

section Never

variable {situation : Situation}

theorem always_yields : Rule.always.Yields world situation
    (some (.between situation.stream situation.stream [] .always)) situation :=
  ⟨1, settle_some here_apply (Match.spans_between (.nil _) _)⟩

theorem never_yields : Rule.never.Yields world situation none situation := ⟨1, settle_none rfl⟩

/-- At the end nothing is denied. -/
theorem not_yields_of_ended (ended : situation.stream.hasMore = false) :
    (Rule.not rule).Yields world situation none situation := by
  refine ⟨1, settle_none ?_⟩
  rw [body, Attempt.stream_bind_apply, ended]
  rfl

/-- What always matches is denied nowhere. -/
theorem not_always_yields : (Rule.not .always).Yields world situation none situation := by
  cases more : situation.stream.hasMore with
  | false => exact not_yields_of_ended more
  | true =>
    have builtIn : Rule.always.BuiltIn world := builtIn_of_runsNone trivial rfl
    exact (yields_not_iff builtIn.denied more).mpr ⟨_, situation, always_yields, rfl, rfl⟩

theorem never_behavesAs_not_always (world : World) : Rule.never.BehavesAs world (.not .always) := by
  intro situation taken
  constructor
  · intro given
    obtain ⟨found, after, yields, rfl⟩ := given
    obtain ⟨rfl, -⟩ := yields.unique never_yields
    exact ⟨none, situation, not_always_yields, rfl⟩
  · intro given
    obtain ⟨found, after, yields, rfl⟩ := given
    obtain ⟨rfl, -⟩ := yields.unique not_always_yields
    exact ⟨none, situation, never_yields, rfl⟩

end Never

/-- Negating twice changes nothing about what a rule does, unless the rule denies a rule with an opposite of its own;
to deny what always matches is no exception. -/
theorem negate_negate_behavesAs (produced : rule.IsProduced)
    (regular : ∀ inner, rule = .not inner → inner.hasOpposite = true → inner = .always) (world : World) :
    rule.negate.negate.BehavesAs world rule := by
  cases rule with
  | not inner =>
    -- Negated once this is the rule that it denies, so only what that negates to decides.
    cases opposite : inner.hasOpposite with
    | true =>
      rw [regular inner rfl opposite]
      exact never_behavesAs_not_always world
    | false =>
      rw [Rule.negate, negate_of_hasOpposite_eq_false opposite (produced.isNot_eq_false rfl)]
      exact .refl world _
  | _ =>
    rw [negate_negate_of_isNot_eq_false rfl]
    exact .refl world _

theorem complement_pair_behavesAs :
    (complement Brackets.pair).IsProduced ∧
      (complement Brackets.pair).negate.negate.BehavesAs Brackets.world (complement Brackets.pair) := by
  have made : Brackets.pair.IsMade := List.cons_ne_nil _ _
  have produced : (complement Brackets.pair).IsProduced := .complement (.factory made rfl)
  refine ⟨produced, negate_negate_behavesAs produced ?_ Brackets.world⟩
  rintro inner same opposite
  cases same
  cases opposite

/-- The assertion that no opening bracket comes next takes no token, but negated twice it takes one. -/
theorem not_negate_negate_behavesAs :
    (complement (Brackets.taking Brackets.opening)).IsProduced ∧
      ¬ (complement (Brackets.taking Brackets.opening)).negate.negate.BehavesAs {}
        (complement (Brackets.taking Brackets.opening)) := by
  have made : (Brackets.taking Brackets.opening).IsMade := rfl
  refine ⟨.complement (.factory made rfl), fun behaves => ?_⟩
  obtain ⟨asserted, _, asserts, takesNone⟩ :=
    exists_yields_of_count {} (complement (Brackets.taking Brackets.opening)) 3 0 (.ofTokens [Brackets.closing])
      (by decide +kernel)
  obtain ⟨taking, _, takes, takesOne⟩ :=
    exists_yields_of_count {} (complement (Brackets.taking Brackets.opening)).negate.negate 3 1
      (.ofTokens [Brackets.closing]) (by decide +kernel)
  obtain ⟨found, _, yields, same⟩ := (behaves _ (some taking.taken)).mp ⟨some taking, _, takes, rfl⟩
  obtain ⟨rfl, -⟩ := yields.unique asserts
  have sameTokens : asserted.tokens = taking.tokens := by
    simp only [Option.map_some, Option.some.injEq, Match.taken, Prod.mk.injEq] at same
    exact same.2.2
  rw [sameTokens, takesOne] at takesNone
  cases takesNone

end Rule

end TokenGrammar
