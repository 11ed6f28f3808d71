import TokenGrammar.Proofs.Derivation.Completeness
import TokenGrammar.Proofs.DoubleNegation
import TokenGrammar.Proofs.Safety

namespace TokenGrammar.Rule

open Run

/-- Whether a rule asserts something about its place, so that its negation asserts the opposite anywhere. -/
def isAssertion : Rule → Bool
  | .always | .never | .lookaround .. | .anchor .. => true
  | _ => false

/-- Whether a rule tests a single token. -/
def isMatcher : Rule → Bool
  | .matcher .. => true
  | _ => false

/-- Whether a rule may try another one again or do without it; its negation does the same with the other one negated. -/
def isRepetition : Rule → Bool
  | .optional .. | .repeated .. => true
  | _ => false

variable {world : World} {rule other inner : Rule} {situation after : Situation} {found : Option Match}

/-- A rule matches from a situation when it yields a match. -/
def Matches (world : World) (rule : Rule) (situation : Situation) : Prop :=
  ∃ found after, rule.Yields world situation (some found) after

/-- A rule fails from a situation when it yields that there is no match. -/
def Fails (world : World) (rule : Rule) (situation : Situation) : Prop :=
  ∃ after, rule.Yields world situation none after

/-- One of two rules matches from a situation, and the other one fails. -/
def ExactlyOne (world : World) (rule other : Rule) (situation : Situation) : Prop :=
  (rule.Matches world situation ∧ other.Fails world situation) ∨
    (rule.Fails world situation ∧ other.Matches world situation)

/-- A rule matches where a condition holds and fails where it does not. -/
def MatchesWhen (world : World) (rule : Rule) (situation : Situation) (condition : Bool) : Prop :=
  if condition then rule.Matches world situation else rule.Fails world situation

theorem Yields.matchesWhen (yields : rule.Yields world situation found after) :
    rule.MatchesWhen world situation found.isSome := by
  cases found with
  | none => exact ⟨after, yields⟩
  | some found => exact ⟨found, after, yields⟩

theorem isSome_ite (condition : Bool) (found : Match) : (if condition then some found else none).isSome = condition := by
  cases condition <;> rfl

theorem matchesWhen_of_yields {condition : Bool} {found : Match}
    (yields : rule.Yields world situation (if condition then some found else none) after) :
    rule.MatchesWhen world situation condition :=
  isSome_ite condition found ▸ yields.matchesWhen

theorem not_matches_of_fails (fails : rule.Fails world situation) : ¬ rule.Matches world situation := by
  intro holds
  obtain ⟨_, _, yields⟩ := holds
  obtain ⟨_, stays⟩ := fails
  cases (yields.unique stays).1

theorem MatchesWhen.matches_iff {condition : Bool} (holds : rule.MatchesWhen world situation condition) :
    rule.Matches world situation ↔ condition = true := by
  cases condition with
  | false => exact iff_of_false (not_matches_of_fails holds) Bool.false_ne_true
  | true => exact iff_of_true holds rfl

theorem MatchesWhen.fails_iff {condition : Bool} (holds : rule.MatchesWhen world situation condition) :
    rule.Fails world situation ↔ condition = false := by
  cases condition with
  | false => exact iff_of_true holds rfl
  | true => exact iff_of_false (fun fails => not_matches_of_fails fails holds) Bool.true_eq_false.mp

theorem exactlyOne_of_matchesWhen {condition : Bool} (here : rule.MatchesWhen world situation condition)
    (there : other.MatchesWhen world situation !condition) : ExactlyOne world rule other situation := by
  cases condition with
  | false => exact .inr ⟨here, there⟩
  | true => exact .inl ⟨here, there⟩

theorem ExactlyOne.terminates (builtIn : rule.BuiltIn world) (one : ExactlyOne world rule other situation) :
    rule.Terminates world situation := by
  rcases one with ⟨⟨found, after, yields⟩, -⟩ | ⟨⟨after, yields⟩, -⟩
  · exact builtIn.terminates_iff.mpr ⟨_, after, yields⟩
  · exact builtIn.terminates_iff.mpr ⟨_, after, yields⟩

/-- A run whose body matches where a condition holds does so too. -/
theorem exists_settle_ite {body : Run} {kind : Text} {condition : Bool} {found : Match} {finish : TokenStream}
    (answers : body situation = .ok (if condition then some found else none) after)
    (spans : found.Spans situation.stream finish) :
    ∃ settled, settle kind body situation = .ok (if condition then some found else none) settled := by
  cases condition with
  | false => exact ⟨_, settle_none answers⟩
  | true => exact ⟨_, settle_some answers spans⟩

theorem anchor_yields (world : World) (place : Anchor) (negated : Bool) (situation : Situation) :
    ∃ after, (Rule.anchor place negated).Yields world situation
      (if place.holds situation.stream != negated then
        some (.between situation.stream situation.stream [] (.anchor place negated)) else none) after := by
  obtain ⟨after, settles⟩ := exists_settle_ite (hereIf_apply (place.holds situation.stream != negated) _)
    (Match.spans_between (.nil _) _)
  exact ⟨after, 1, settles⟩

theorem matcher_yields {test : TokenTest} {negated : Bool} {token : Token} {next : TokenStream}
    (read : situation.stream.read? = some (token, next)) : ∃ after, (Rule.matcher test negated).Yields world situation
      (if test.accepts token != negated then some (.between situation.stream next [token] (.matcher test negated))
        else none) after := by
  obtain ⟨after, settles⟩ := exists_settle_ite (ofTest_of_read read) (Match.spans_between (.single read) _)
  exact ⟨after, 1, settles⟩

theorem matcher_yields_of_ended {test : TokenTest} {negated : Bool} (ended : situation.stream.hasMore = false) :
    (Rule.matcher test negated).Yields world situation none situation :=
  ⟨1, settle_none (ofTest_of_ended (TokenStream.read?_eq_none_iff.mpr ended))⟩

/-- A test of a single token comes to an answer everywhere. -/
theorem exists_matcher_yields (world : World) (test : TokenTest) (negated : Bool) (situation : Situation) :
    ∃ found after, (Rule.matcher test negated).Yields world situation found after := by
  cases more : situation.stream.hasMore with
  | false => exact ⟨_, _, matcher_yields_of_ended more⟩
  | true =>
    obtain ⟨token, next, read⟩ := TokenStream.exists_read_of_hasMore more
    obtain ⟨after, yields⟩ := matcher_yields read
    exact ⟨_, after, yields⟩

theorem runsNone_terminates (builtIn : rule.BuiltIn world) (alone : rule.runsNone = true) (situation : Situation) :
    rule.Terminates world situation := by
  rw [builtIn.terminates_iff]
  cases rule with
  | always => exact ⟨_, _, always_yields⟩
  | never => exact ⟨_, _, never_yields⟩
  | anchor place negated => exact ⟨_, anchor_yields world place negated situation⟩
  | matcher test negated => exact exists_matcher_yields world test negated situation
  | _ => cases alone

theorem BuiltIn.negate (builtIn : rule.BuiltIn world) (once : rule.isRepetition = false) : rule.negate.BuiltIn world := by
  cases rule with
  | not inner => exact builtIn.of_refers (.shown (List.mem_singleton.mpr rfl))
  | optional | repeated => cases once
  | lookaround direction inner negative =>
    refine @Throughout.of_parts world IsMade (.lookaround direction inner !negative) trivial fun part refers => ?_
    cases refers with
    | shown child => exact builtIn.of_refers (.shown child)
  | always => exact builtIn_of_runsNone trivial rfl
  | never => exact builtIn_of_runsNone trivial rfl
  | anchor place negated => exact builtIn_of_runsNone trivial rfl
  | matcher test negated =>
    have made : (Rule.matcher test !negated).IsMade := by
      have made := builtIn.here
      cases test <;> exact made
    exact builtIn_of_runsNone made rfl
  | _ => exact builtIn.denied

/-- Wherever a rule comes to an answer, its negation comes to the opposite one, if a visible token is ahead or the rule
is an assertion. -/
theorem negate_matchesWhen (builtIn : rule.BuiltIn world) (once : rule.isRepetition = false)
    (place : situation.stream.hasMore = true ∨ rule.isAssertion = true)
    (yields : rule.Yields world situation found after) : rule.negate.MatchesWhen world situation !found.isSome := by
  have opposite := builtIn.negate once
  have ahead (other : rule.isAssertion = false) : situation.stream.hasMore = true :=
    place.resolve_right (by simp [other])
  cases rule with
  | always =>
    obtain ⟨rfl, -⟩ := yields.unique always_yields
    exact never_yields.matchesWhen
  | never =>
    obtain ⟨rfl, -⟩ := yields.unique never_yields
    exact always_yields.matchesWhen
  | anchor anchor negated =>
    obtain ⟨_, here⟩ := anchor_yields world anchor negated situation
    obtain ⟨_, there⟩ := anchor_yields world anchor (!negated) situation
    obtain ⟨rfl, -⟩ := yields.unique here
    rw [isSome_ite, ← Bool.bne_not]
    exact matchesWhen_of_yields there
  | matcher test negated =>
    obtain ⟨token, next, read⟩ := TokenStream.exists_read_of_hasMore (ahead rfl)
    obtain ⟨_, here⟩ := matcher_yields read
    obtain ⟨_, there⟩ := matcher_yields read
    obtain ⟨rfl, -⟩ := yields.unique here
    rw [isSome_ite, ← Bool.bne_not]
    exact matchesWhen_of_yields there
  | lookaround direction inner negative =>
    have inside : inner.BuiltIn world := builtIn.of_refers (.shown (by simp))
    obtain ⟨looked, middle, looks, -, rfl⟩ := (yields_lookaround_iff inside.isSound).mp yields
    rw [isSome_ite, ← Bool.bne_not]
    exact matchesWhen_of_yields ((yields_lookaround_iff inside.isSound).mpr ⟨looked, middle, looks, rfl, rfl⟩)
  | not inner =>
    obtain ⟨denied, middle, denies, -, rfl⟩ := (yields_not_iff builtIn (ahead rfl)).mp yields
    rw [isSome_ite, Bool.not_not]
    exact denies.matchesWhen
  | optional | repeated => cases once
  | _ => exact matchesWhen_of_yields ((yields_not_iff opposite (ahead rfl)).mpr ⟨found, after, yields, rfl, rfl⟩)

/-- A match of a single token goes through the next visible token and no farther. -/
theorem matcher_takes {test : TokenTest} {negated : Bool} {found : Match}
    (builtIn : (Rule.matcher test negated).BuiltIn world)
    (yields : (Rule.matcher test negated).Yields world situation (some found) after) :
    ∃ token, situation.stream.read? = some (token, after.stream) ∧ found.finish = .ofNat after.stream.index ∧
      found.tokens = [token] := by
  have spans : found.Spans situation.stream after.stream := builtIn.settles yields
  cases more : situation.stream.hasMore with
  | false =>
    obtain ⟨same, -⟩ := yields.unique (matcher_yields_of_ended more)
    cases same
  | true =>
    obtain ⟨token, next, read⟩ := TokenStream.exists_read_of_hasMore more
    obtain ⟨_, takes⟩ := matcher_yields read
    obtain ⟨same, -⟩ := yields.unique takes
    obtain ⟨-, same⟩ := Option.ite_none_right_eq_some.mp same.symm
    cases same
    have next_eq : after.stream = next := spans.reads.unique (.single read)
    exact ⟨token, next_eq ▸ read, spans.finish_eq, rfl⟩

theorem isZeroWidth_between (place : TokenStream) (rule : Rule) : (Match.between place place [] rule).isZeroWidth = true :=
  (Match.spans_between (.nil place) rule).isZeroWidth_eq

theorem isZeroWidth_of_ite {condition : Bool} {place : TokenStream} {found : Match}
    (same : some found = if condition then some (.between place place [] rule) else none) : found.isZeroWidth = true := by
  obtain ⟨-, same⟩ := Option.ite_none_right_eq_some.mp same.symm
  cases same
  exact isZeroWidth_between place rule

/-- Assertions of both forms take nothing. -/
theorem isZeroWidth_of_asserts {found : Match} (builtIn : rule.BuiltIn world)
    (asserts : rule.isAssertion = true ∨ rule.isNot = true) (yields : rule.Yields world situation (some found) after) :
    found.isZeroWidth = true := by
  cases rule with
  | always =>
    obtain ⟨same, -⟩ := yields.unique always_yields
    cases same
    exact isZeroWidth_between _ _
  | never =>
    obtain ⟨same, -⟩ := yields.unique never_yields
    cases same
  | anchor place negated =>
    obtain ⟨_, asserts⟩ := anchor_yields world place negated situation
    exact isZeroWidth_of_ite (yields.unique asserts).1
  | lookaround direction inner negative =>
    have inside : inner.BuiltIn world := builtIn.of_refers (.shown (by simp))
    obtain ⟨_, _, -, -, same⟩ := (yields_lookaround_iff inside.isSound).mp yields
    exact isZeroWidth_of_ite same
  | not inner =>
    cases more : situation.stream.hasMore with
    | false =>
      obtain ⟨same, -⟩ := yields.unique (not_yields_of_ended more)
      cases same
    | true =>
      obtain ⟨_, _, -, -, same⟩ := (yields_not_iff builtIn more).mp yields
      exact isZeroWidth_of_ite same
  | _ => simp [isAssertion, isNot] at asserts

theorem negate_asserts (once : rule.isRepetition = false) (several : rule.isMatcher = false) (plain : rule.isNot = false) :
    rule.negate.isAssertion = true ∨ rule.negate.isNot = true := by
  cases rule with
  | matcher => cases several
  | optional | repeated => cases once
  | not => cases plain
  | always | never | lookaround | anchor => exact .inl rfl
  | _ => exact .inr rfl

/-- What a rule and its negation come to, each of them tried from the same situation. -/
structure ExcludesMiddle (world : World) (rule : Rule) (situation : Situation) : Prop where
  exactlyOne : situation.stream.hasMore = true ∨ rule.isAssertion = true →
    (ExactlyOne world rule rule.negate situation ↔ rule.Terminates world situation)
  terminates : rule.runsNone = true → rule.Terminates world situation
  both_fail : situation.stream.hasMore = false → rule.isMatcher = true →
    rule.Fails world situation ∧ rule.negate.Fails world situation
  not_fails : situation.stream.hasMore = false → rule.isNot = true → rule.Fails world situation
  negate_fails : situation.stream.hasMore = false → rule.hasOpposite = false → rule.isNot = false →
    rule.negate.Fails world situation
  takes_next : rule.isMatcher = true → ∀ found after,
    (rule.Yields world situation (some found) after ∨ rule.negate.Yields world situation (some found) after) →
    ∃ token, situation.stream.read? = some (token, after.stream) ∧ found.finish = .ofNat after.stream.index ∧
      found.tokens = [token]
  takes_nothing : rule.isMatcher = false → rule.isNot = false → ∀ found after,
    rule.negate.Yields world situation (some found) after → found.isZeroWidth = true

/-- A built-in rule that is not a repetition excludes the middle everywhere. -/
theorem match_or_negate (builtIn : rule.BuiltIn world) (once : rule.isRepetition = false) (situation : Situation) :
    rule.ExcludesMiddle world situation where
  exactlyOne place := by
    refine ⟨fun one => one.terminates builtIn, fun terminates => ?_⟩
    obtain ⟨found, after, yields⟩ := builtIn.terminates_iff.mp terminates
    exact exactlyOne_of_matchesWhen yields.matchesWhen (negate_matchesWhen builtIn once place yields)
  terminates alone := runsNone_terminates builtIn alone situation
  both_fail ended single := by
    cases rule with
    | matcher test negated => exact ⟨⟨_, matcher_yields_of_ended ended⟩, ⟨_, matcher_yields_of_ended ended⟩⟩
    | _ => cases single
  not_fails ended denies := by
    cases rule with
    | not inner => exact ⟨_, not_yields_of_ended ended⟩
    | _ => cases denies
  negate_fails ended without plain := by
    rw [negate_of_hasOpposite_eq_false without plain]
    exact ⟨_, not_yields_of_ended ended⟩
  takes_next single found after either := by
    have opposite := builtIn.negate once
    cases rule with
    | matcher test negated =>
      rcases either with yields | yields
      · exact matcher_takes builtIn yields
      · exact matcher_takes opposite yields
    | _ => cases single
  takes_nothing several plain _ _ yields :=
    isZeroWidth_of_asserts (builtIn.negate once) (negate_asserts once several plain) yields

/-- Nested brackets are matched, and therefore not denied. -/
theorem nested_matches_and_negate_fails :
    Brackets.nested.BuiltIn Brackets.world ∧ Brackets.nested.isRepetition = false ∧
      Brackets.nested.ExcludesMiddle Brackets.world ⟨Brackets.stream, {}⟩ ∧
      Brackets.nested.Matches Brackets.world ⟨Brackets.stream, {}⟩ ∧
      Brackets.nested.negate.Fails Brackets.world ⟨Brackets.stream, {}⟩ := by
  have excludes := match_or_negate Brackets.nested_builtIn rfl ⟨Brackets.stream, {}⟩
  obtain ⟨found, after, yields, -⟩ :=
    exists_yields_of_count Brackets.world Brackets.nested 12 4 Brackets.stream (by decide +kernel)
  have terminates := Brackets.nested_builtIn.terminates_iff.mpr ⟨_, after, yields⟩
  refine ⟨Brackets.nested_builtIn, rfl, excludes, ?_⟩
  rcases (excludes.exactlyOne (.inl rfl)).mpr terminates with first | ⟨⟨_, fails⟩, -⟩
  · exact first
  · cases (fails.unique yields).1

end TokenGrammar.Rule
