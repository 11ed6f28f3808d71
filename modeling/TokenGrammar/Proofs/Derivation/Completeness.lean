import TokenGrammar.Proofs.Derivation.Soundness
import TokenGrammar.Proofs.Laws.Around
import TokenGrammar.Proofs.Laws.Lists
import TokenGrammar.Proofs.Laws.Repetitions

namespace TokenGrammar.Rule

open Run
open Attempt (Gives)

variable {world : World} {rule : Rule} {rules : List Rule} {place finish : TokenStream} {result : Option TokenStream}

/-- A rule performs a result at a place when it yields it with whatever memory. -/
def Performs (world : World) (rule : Rule) (place : TokenStream) : Option TokenStream → Prop
  | none => ∀ memory, ∃ after, rule.Yields world ⟨place, memory⟩ none after
  | some finish => ∀ memory, ∃ found memory', rule.Yields world ⟨place, memory⟩ (some found) ⟨finish, memory'⟩

/-- On the way through an expression a list of rules may be empty and a range used up. -/
def IsOnTheWay : Rule → Prop
  | .sequence _ | .anyOf _ | .allOf _ => True
  | .repeated _ _ negated => negated = false
  | rule => rule.IsMade ∧ rule.IsExpression

/-- A rule fits when it stands on the way through an expression and refers to expressions. -/
structure Fits (world : World) (rule : Rule) : Prop where
  shape : rule.IsOnTheWay
  parts : ∀ inner, rule.Refers world inner → inner.BuiltIn world ∧ inner.Throughout world IsExpression

/-- A built-in expression fits. -/
theorem fits_of_builtIn (builtIn : rule.BuiltIn world) (expression : rule.Throughout world IsExpression) :
    rule.Fits world where
  shape := by
    have made := builtIn.here
    have formed := expression.here
    cases rule with
    | sequence | anyOf | allOf => trivial
    | repeated => exact formed
    | _ => exact ⟨made, formed⟩
  parts _ refers := ⟨builtIn.of_refers refers, expression.of_refers refers⟩

theorem Fits.builtIn (fits : rule.Fits world) (made : rule.IsMade) : rule.BuiltIn world :=
  .of_parts made fun inner refers => (fits.parts inner refers).1

/-- What a fitting rule refers to fits. -/
theorem Fits.part (fits : rule.Fits world) {inner : Rule} (refers : rule.Refers world inner) : inner.Fits world :=
  fits_of_builtIn (fits.parts inner refers).1 (fits.parts inner refers).2

theorem Fits.members (fits : rule.Fits world) (children : rule.children world.store = rules) :
    ∀ member ∈ rules, member.BuiltIn world := fun member inside =>
  (fits.parts member (.shown (children ▸ inside))).1

theorem Fits.fewer {other : Rule} (fits : rule.Fits world) (shape : other.IsOnTheWay)
    (fewer : ∀ inner, other.Refers world inner → rule.Refers world inner) : other.Fits world where
  shape := shape
  parts inner refers := fits.parts inner (fewer inner refers)

/-- The rest of a sequence fits even when it is empty, which no factory makes. -/
theorem Fits.sequence_tail {first : Rule} (fits : (Rule.sequence (first :: rules)).Fits world) :
    (Rule.sequence rules).Fits world := by
  refine fits.fewer trivial fun inner refers => ?_
  cases refers with
  | shown child => exact .shown (by simp_all)

theorem Fits.anyOf_tail {first : Rule} (fits : (Rule.anyOf (first :: rules)).Fits world) :
    (Rule.anyOf rules).Fits world := by
  refine fits.fewer trivial fun inner refers => ?_
  cases refers with
  | shown child => exact .shown (by simp_all)

theorem Fits.allOf_tail {first : Rule} (fits : (Rule.allOf (first :: rules)).Fits world) :
    (Rule.allOf rules).Fits world := by
  refine fits.fewer trivial fun inner refers => ?_
  cases refers with
  | shown child => exact .shown (by simp_all)

theorem Fits.repeated_after {range : Range} (fits : (Rule.repeated rule range false).Fits world) (count : Nat) :
    (Rule.repeated rule (range.after count) false).Fits world := by
  refine fits.fewer rfl fun inner refers => ?_
  cases refers with
  | shown child => exact .shown (by simp_all)

theorem performs_of_body_none (traced : rule.Traced world)
    (answers : ∀ memory, ∃ middle, rule.bodyRun world 0 ⟨place, memory⟩ = .ok none middle) :
    rule.Performs world place none := by
  intro memory
  obtain ⟨middle, answered⟩ := answers memory
  exact ⟨_, (yields_none_iff traced).mpr ⟨middle, ⟨0, answered⟩, rfl⟩⟩

/-- One body that answers a spanning match is enough. -/
theorem performs_of_body_some {found : Match} (traced : rule.Traced world) (spans : found.Spans place finish)
    (answers : ∀ memory, ∃ middle, rule.bodyRun world 0 ⟨place, memory⟩ = .ok (some found) middle) :
    rule.Performs world place (some finish) := by
  intro memory
  obtain ⟨middle, answered⟩ := answers memory
  exact ⟨found, middle.memory, (yields_some_iff traced).mpr ⟨middle, ⟨0, answered⟩, spans, rfl⟩⟩

theorem ofTest_of_read {test : Token → Bool} {token : Token} {next : TokenStream} {memory : Memory}
    (read : place.read? = some (token, next)) :
    ofTest test rule ⟨place, memory⟩ =
      .ok (if test token then some (.between place next [token] rule) else none) ⟨next, memory⟩ := by
  have more : place.hasMore = true := by
    rw [← place.isSome_read?, read]
    rfl
  rw [ofTest, Attempt.stream_bind_apply, if_pos more, Attempt.read_bind_apply _ read]
  cases test token with
  | false => rfl
  | true =>
    have reads : place.Reads [token] (⟨next, memory⟩ : Situation).stream := .single read
    exact since_apply reads

theorem ofTest_of_ended {test : Token → Bool} {memory : Memory} (read : place.read? = none) :
    ofTest test rule ⟨place, memory⟩ = .ok none ⟨place, memory⟩ := by
  rw [ofTest, Attempt.stream_bind_apply, TokenStream.read?_eq_none_iff.mp read]
  rfl

theorem performs_accepted {test : TokenTest} {negated : Bool} {token : Token} {next : TokenStream}
    (builtIn : (Rule.matcher test negated).BuiltIn world) (read : place.read? = some (token, next))
    (passes : test.accepts token ≠ negated) : (Rule.matcher test negated).Performs world place (some next) := by
  have spans := Match.spans_between (.single read) (Rule.matcher test negated)
  refine performs_of_body_some builtIn.traced spans fun memory => ⟨⟨next, memory⟩, (ofTest_of_read read).trans ?_⟩
  rw [if_pos (bne_iff_ne.mpr passes)]

theorem performs_rejected {test : TokenTest} {negated : Bool} {token : Token} {next : TokenStream}
    (builtIn : (Rule.matcher test negated).BuiltIn world) (read : place.read? = some (token, next))
    (fails : test.accepts token = negated) : (Rule.matcher test negated).Performs world place none := by
  refine performs_of_body_none builtIn.traced fun memory => ⟨⟨next, memory⟩, (ofTest_of_read read).trans ?_⟩
  simp only [fails, bne_self_eq_false, Bool.false_eq_true, if_false]

theorem performs_sequence_nil : (Rule.sequence []).Performs world place (some place) := by
  intro memory
  have none_inside : ∀ member ∈ ([] : List Rule), member.IsSound world := by simp
  have nothing : Gives (fun fuel => inTurn (run world fuel) []) ⟨place, memory⟩ (some []) ⟨place, memory⟩ :=
    gives_inTurn_nil_iff.mpr ⟨rfl, rfl⟩
  exact ⟨_, memory, (yields_sequence_some_iff none_inside).mpr ⟨[], nothing, rfl⟩⟩

/-- A sequence performs what its rest performs behind its first rule. -/
theorem performs_sequence {first : Rule} {next : TokenStream}
    (sound : ∀ member ∈ first :: rules, member.IsSound world) (takes : first.Performs world place (some next))
    (goesOn : (Rule.sequence rules).Performs world next result) :
    (Rule.sequence (first :: rules)).Performs world place result := by
  have soundRest : ∀ member ∈ rules, member.IsSound world := fun member inside =>
    sound member (List.mem_cons_of_mem _ inside)
  cases result with
  | none =>
    intro memory
    obtain ⟨found, memory', yields⟩ := takes memory
    obtain ⟨after, remaining⟩ := goesOn memory'
    obtain ⟨middle, inner, -⟩ := (yields_sequence_none_iff soundRest).mp remaining
    exact ⟨_, (yields_sequence_none_iff sound).mpr
      ⟨middle, gives_inTurn_cons_iff.mpr (.inr ⟨found, _, yields, none, inner, rfl⟩), rfl⟩⟩
  | some finish =>
    intro memory
    obtain ⟨found, memory', yields⟩ := takes memory
    obtain ⟨others, memory'', remaining⟩ := goesOn memory'
    obtain ⟨tokens, inner, -⟩ := (yields_sequence_some_iff soundRest).mp remaining
    exact ⟨_, memory'', (yields_sequence_some_iff sound).mpr
      ⟨_, gives_inTurn_cons_iff.mpr (.inr ⟨found, _, yields, some tokens, inner, rfl⟩), rfl⟩⟩

theorem performs_sequence_none {first : Rule} (sound : ∀ member ∈ first :: rules, member.IsSound world)
    (fails : first.Performs world place none) : (Rule.sequence (first :: rules)).Performs world place none := by
  intro memory
  obtain ⟨after, yields⟩ := fails memory
  exact ⟨_, (yields_sequence_none_iff sound).mpr ⟨after, gives_inTurn_cons_iff.mpr (.inl ⟨yields, rfl⟩), rfl⟩⟩

theorem performs_anyOf_nil : (Rule.anyOf []).Performs world place none := by
  intro memory
  have none_inside : ∀ member ∈ ([] : List Rule), member.IsSound world := by simp
  have nothing : Gives (fun fuel => firstOf (run world fuel) []) ⟨place, memory⟩ none ⟨place, memory⟩ :=
    gives_firstOf_nil_iff.mpr ⟨rfl, rfl⟩
  exact ⟨_, (yields_none_iff (anyOf_traced none_inside)).mpr ⟨_, nothing, rfl⟩⟩

theorem performs_anyOf_some {first : Rule} (sound : ∀ member ∈ first :: rules, member.IsSound world)
    (takes : first.Performs world place (some finish)) :
    (Rule.anyOf (first :: rules)).Performs world place (some finish) := by
  intro memory
  obtain ⟨found, memory', yields⟩ := takes memory
  have spans : found.Spans place finish := (sound first (List.mem_cons_self ..)).settles yields
  exact ⟨found, memory', (yields_some_iff (anyOf_traced sound)).mpr
    ⟨_, gives_firstOf_cons_iff.mpr (.inl ⟨found, _, yields, rfl, rfl⟩), spans, rfl⟩⟩

/-- A choice performs what its other alternatives perform where the first one fails. -/
theorem performs_anyOf {first : Rule} (sound : ∀ member ∈ first :: rules, member.IsSound world)
    (fails : first.Performs world place none) (goesOn : (Rule.anyOf rules).Performs world place result) :
    (Rule.anyOf (first :: rules)).Performs world place result := by
  have soundRest : ∀ member ∈ rules, member.IsSound world := fun member inside =>
    sound member (List.mem_cons_of_mem _ inside)
  cases result with
  | none =>
    intro memory
    obtain ⟨after, yields⟩ := fails memory
    obtain ⟨later, remaining⟩ := goesOn after.memory
    obtain ⟨middle, inner, -⟩ := (yields_none_iff (anyOf_traced soundRest)).mp remaining
    exact ⟨_, (yields_none_iff (anyOf_traced sound)).mpr
      ⟨middle, gives_firstOf_cons_iff.mpr (.inr ⟨after, yields, inner⟩), rfl⟩⟩
  | some finish =>
    intro memory
    obtain ⟨after, yields⟩ := fails memory
    obtain ⟨found, memory', remaining⟩ := goesOn after.memory
    obtain ⟨middle, inner, spans, memory_eq⟩ := (yields_some_iff (anyOf_traced soundRest)).mp remaining
    exact ⟨found, memory', (yields_some_iff (anyOf_traced sound)).mpr
      ⟨middle, gives_firstOf_cons_iff.mpr (.inr ⟨after, yields, inner⟩), spans, memory_eq⟩⟩

theorem performs_allOf_last (sound : rule.IsSound world) (derives : rule.Performs world place result) :
    (Rule.allOf [rule]).Performs world place result := by
  have members : ∀ member ∈ [rule], member.IsSound world := by
    intro member inside
    rw [List.mem_singleton] at inside
    rw [inside]
    exact sound
  cases result with
  | none =>
    intro memory
    obtain ⟨after, yields⟩ := derives memory
    exact ⟨_, (yields_none_iff (allOf_traced members)).mpr
      ⟨_, gives_farthestOf_none_iff.mpr (.inl ⟨after, yields, rfl, rfl⟩), rfl⟩⟩
  | some finish =>
    intro memory
    obtain ⟨found, memory', yields⟩ := derives memory
    have alone : Gives (fun fuel => farthestOf (run world fuel) (some found) []) ⟨place, memory'⟩ (some found)
        ⟨place, memory'⟩ := gives_farthestOf_nil_iff.mpr ⟨rfl, rfl⟩
    exact ⟨found, memory', (yields_some_iff (allOf_traced members)).mpr
      ⟨_, gives_farthestOf_none_iff.mpr (.inr ⟨found, _, yields, alone⟩), sound.settles yields, rfl⟩⟩

theorem performs_allOf_none {first : Rule} (sound : ∀ member ∈ first :: rules, member.IsSound world)
    (fails : first.Performs world place none) : (Rule.allOf (first :: rules)).Performs world place none := by
  intro memory
  obtain ⟨after, yields⟩ := fails memory
  exact ⟨_, (yields_none_iff (allOf_traced sound)).mpr
    ⟨_, gives_farthestOf_none_iff.mpr (.inl ⟨after, yields, rfl, rfl⟩), rfl⟩⟩

/-- A conjunction performs the farther one of what its first rule and the others perform. -/
theorem performs_allOf {first second : Rule} {next : TokenStream}
    (sound : ∀ member ∈ first :: second :: rules, member.IsSound world)
    (takes : first.Performs world place (some next))
    (others : (Rule.allOf (second :: rules)).Performs world place result) :
    (Rule.allOf (first :: second :: rules)).Performs world place (result.map next.farther) := by
  have soundRest : ∀ member ∈ second :: rules, member.IsSound world := fun member inside =>
    sound member (List.mem_cons_of_mem _ inside)
  have spansOf {memory memory' : Memory} {found : Match}
      (yields : first.Yields world ⟨place, memory⟩ (some found) ⟨next, memory'⟩) : found.Spans place next :=
    (sound first (List.mem_cons_self ..)).settles yields
  cases result with
  | none =>
    intro memory
    obtain ⟨found, memory', yields⟩ := takes memory
    obtain ⟨later, remaining⟩ := others memory'
    obtain ⟨middle, inner, -⟩ := (yields_none_iff (allOf_traced soundRest)).mp remaining
    have known := (gives_farthestOf_some_iff soundRest (spansOf yields)).mpr ⟨none, inner, rfl⟩
    exact ⟨_, (yields_none_iff (allOf_traced sound)).mpr
      ⟨middle, gives_farthestOf_none_iff.mpr (.inr ⟨found, _, yields, known⟩), rfl⟩⟩
  | some finish =>
    intro memory
    obtain ⟨found, memory', yields⟩ := takes memory
    obtain ⟨other, memory'', remaining⟩ := others memory'
    obtain ⟨middle, inner, spans, memory_eq⟩ := (yields_some_iff (allOf_traced soundRest)).mp remaining
    have known := (gives_farthestOf_some_iff soundRest (spansOf yields)).mpr ⟨some other, inner, rfl⟩
    exact ⟨farther found other, memory'', (yields_some_iff (allOf_traced sound)).mpr
      ⟨middle, gives_farthestOf_none_iff.mpr (.inr ⟨found, _, yields, known⟩),
        spans_farther (spansOf yields) spans, memory_eq⟩⟩

theorem performs_optional {negated : Bool} (sound : (rule.attempted negated).IsSound world)
    (derives : (rule.attempted negated).Performs world place result) :
    (Rule.optional rule negated).Performs world place (some (result.getD place)) := by
  cases result with
  | none =>
    intro memory
    obtain ⟨after, yields⟩ := derives memory
    have stays : after.stream = place := sound.settles yields
    obtain ⟨stream, memory'⟩ := after
    subst stays
    exact ⟨_, memory', (yields_optional_iff sound).mpr (.inl ⟨yields, rfl⟩)⟩
  | some finish =>
    intro memory
    obtain ⟨found, memory', yields⟩ := derives memory
    exact ⟨_, memory', (yields_optional_iff sound).mpr (.inr ⟨found, yields, rfl⟩)⟩

/-- A rule that asserts something about another one performs nothing where it does, and failure elsewhere. -/
theorem performs_of_asserts {asserting : Rule} (view : TokenStream → TokenStream) (condition : Bool → Bool)
    (asserts : ∀ {memory answer after}, asserting.Yields world ⟨place, memory⟩ answer after ↔
      ∃ inner middle, rule.Yields world ⟨view place, memory⟩ inner middle ∧ after = ⟨place, middle.memory⟩ ∧
        answer = if condition inner.isSome then some (.between place place [] asserting) else none)
    (derives : rule.Performs world (view place) result) :
    asserting.Performs world place (if condition result.isSome then some place else none) := by
  have answers (memory : Memory) : ∃ memory', asserting.Yields world ⟨place, memory⟩
      (if condition result.isSome then some (.between place place [] asserting) else none) ⟨place, memory'⟩ := by
    cases result with
    | none =>
      obtain ⟨after, yields⟩ := derives memory
      exact ⟨after.memory, asserts.mpr ⟨none, after, yields, rfl, rfl⟩⟩
    | some finish =>
      obtain ⟨found, memory', yields⟩ := derives memory
      exact ⟨memory', asserts.mpr ⟨some found, _, yields, rfl, rfl⟩⟩
  cases asserted : condition result.isSome with
  | false =>
    simp only [asserted, Bool.false_eq_true, if_false] at answers ⊢
    exact fun memory => (answers memory).imp' (fun memory' => ⟨place, memory'⟩) fun _ yields => yields
  | true =>
    simp only [asserted, if_true] at answers ⊢
    exact fun memory => ⟨_, answers memory⟩

theorem performs_lookaround {direction : Direction} {negative : Bool} (sound : rule.IsSound world)
    (derives : rule.Performs world (viewOf direction place) result) :
    (Rule.lookaround direction rule negative).Performs world place
      (if result.isSome != negative then some place else none) :=
  performs_of_asserts (viewOf direction) (· != negative) (yields_lookaround_iff sound) derives

theorem performs_not (builtIn : (Rule.not rule).BuiltIn world) (more : place.hasMore = true)
    (derives : rule.Performs world place result) :
    (Rule.not rule).Performs world place (if result.isSome then none else some place) := by
  have performs := performs_of_asserts id (!·) (yields_not_iff builtIn more) derives
  cases result <;> exact performs

/-- A group rule performs the place behind the group, or failure, as its rule does on the members. -/
theorem performs_group {token : Token} {next : TokenStream} {members : List Token}
    (builtIn : (Rule.group rule).BuiltIn world) (read : place.read? = some (token, next))
    (grouped : token.unwrap.members? = some members) (derives : rule.Performs world (.ofTokens members) result) :
    (Rule.group rule).Performs world place (result.map fun _ => next) := by
  cases result with
  | none =>
    intro memory
    obtain ⟨after, yields⟩ := derives memory
    exact ⟨_, (yields_group_iff builtIn read grouped).mpr ⟨none, after, yields, .inl ⟨rfl, rfl, rfl⟩⟩⟩
  | some finish =>
    intro memory
    obtain ⟨found, memory', yields⟩ := derives memory
    exact ⟨_, memory', (yields_group_iff builtIn read grouped).mpr ⟨some found, _, yields, .inr ⟨rfl, rfl, rfl⟩⟩⟩

theorem performs_of_delegate {target : Rule} (builtIn : rule.BuiltIn world) (inner : target.BuiltIn world)
    (delegates : rule.bodyRun world = fun fuel => delegate (target.run world fuel) rule)
    (derives : target.Performs world place result) : rule.Performs world place result := by
  cases result with
  | none =>
    intro memory
    obtain ⟨after, yields⟩ := derives memory
    exact ⟨after, (yields_iff_of_delegate builtIn inner delegates).mpr ⟨none, yields, rfl⟩⟩
  | some finish =>
    intro memory
    obtain ⟨found, memory', yields⟩ := derives memory
    exact ⟨_, memory', (yields_iff_of_delegate builtIn inner delegates).mpr ⟨some found, yields, rfl⟩⟩

/-- A rule performs the place where it ends with whatever memory. -/
theorem performs_iff :
    rule.Performs world place result ↔ ∀ memory, ∃ answer after, rule.Yields world ⟨place, memory⟩ answer after ∧
      result = answer.map fun _ => after.stream := by
  cases result with
  | none =>
    refine forall_congr' fun memory => ?_
    constructor
    · intro fails
      obtain ⟨after, yields⟩ := fails
      exact ⟨none, after, yields, rfl⟩
    · intro ends
      obtain ⟨answer, after, yields, none_eq⟩ := ends
      obtain rfl := Option.map_eq_none_iff.mp none_eq.symm
      exact ⟨after, yields⟩
  | some finish =>
    constructor
    · intro performs memory
      obtain ⟨found, memory', yields⟩ := performs memory
      exact ⟨some found, _, yields, rfl⟩
    · intro ends memory
      obtain ⟨answer, ⟨stream, memory'⟩, yields, some_eq⟩ := ends memory
      obtain ⟨found, rfl, rfl⟩ := Option.map_eq_some_iff.mp some_eq.symm
      exact ⟨found, memory', yields⟩

/-- What repetitions come to decides what the repeated rule performs. -/
theorem performs_repeated_iff {range : Range} (sound : rule.IsSound world) :
    (Rule.repeated rule range false).Performs world place result ↔
      ∀ memory, ∃ counted middle,
        Gives (repetitions world rule range.least range.most) ⟨place, memory⟩ counted middle ∧
          result = if range.contains counted.1 then some middle.stream else none := by
  rw [performs_iff]
  exact forall_congr' fun _ => ends_repeated_iff sound

theorem contains_zero_iff (range : Range) : range.contains 0 = true ↔ range.least = 0 := by
  rw [contains_iff (admits_zero range), Range.after_zero]

theorem contains_max_one {range : Range} (room : range.most ≠ some 0) : range.contains (max 1 range.least) = true := by
  have notFull : ¬(range.most.any fun limit => limit ≤ 0) = true := by
    rw [← most_after_eq_zero_iff, Range.after_zero]
    exact room
  exact contains_max (admits_succ notFull)

theorem performs_repeated_full {range : Range} (sound : rule.IsSound world) (full : range.most = some 0) :
    (Rule.repeated rule range false).Performs world place (some place) := by
  have contained : range.contains 0 = true :=
    (contains_zero_iff range).mpr (Nat.le_zero.mp (range.ordered 0 full))
  refine (performs_repeated_iff sound).mpr fun memory => ⟨(0, []), ⟨place, memory⟩, ?_, (if_pos contained).symm⟩
  rw [full]
  exact gives_repetitions_of_limit_zero.mpr ⟨rfl, rfl⟩

/-- A repetition ends where its rule fails; it performs nothing or failure as the range asks. -/
theorem performs_repeated_none {range : Range} (sound : rule.IsSound world) (room : range.most ≠ some 0)
    (fails : rule.Performs world place none) :
    (Rule.repeated rule range false).Performs world place (if range.least = 0 then some place else none) := by
  apply (performs_repeated_iff sound).mpr
  intro memory
  obtain ⟨after, yields⟩ := fails memory
  have stays : after.stream = place := sound.settles yields
  refine ⟨(0, []), after, (gives_repetitions_iff room).mpr (.inl ⟨yields, rfl⟩), ?_⟩
  simp only [contains_zero_iff, stays]

theorem performs_repeated_empty {range : Range} (sound : rule.IsSound world) (room : range.most ≠ some 0)
    (stays : rule.Performs world place (some place)) :
    (Rule.repeated rule range false).Performs world place (some place) := by
  apply (performs_repeated_iff sound).mpr
  intro memory
  obtain ⟨found, memory', yields⟩ := stays memory
  have spans : found.Spans place place := sound.settles yields
  have zeroWidth : found.isZeroWidth = true := spans.isZeroWidth_iff.mpr rfl
  refine ⟨_, _, (gives_repetitions_iff room).mpr (.inr ⟨found, _, yields, .inl ⟨zeroWidth, rfl, rfl⟩⟩), ?_⟩
  exact (if_pos (contains_max_one room)).symm

/-- The counts of what is left behind one repetition are the counts of the range less one. -/
theorem contains_after_one {range : Range} (room : range.most ≠ some 0) (count : Nat) :
    (range.after 1).contains count = range.contains (count + 1) := by
  have least_eq : decide ((range.after 1).least ≤ count) = decide (range.least ≤ count + 1) :=
    decide_eq_decide.mpr Nat.sub_le_iff_le_add
  have most_eq : (range.after 1).admits count = range.admits (count + 1) := by
    simp only [Range.admits, Range.after]
    cases most : range.most with
    | none => rfl
    | some limit =>
      have positive : limit ≠ 0 := by
        intro full
        exact room (full ▸ most)
      have same : count ≤ limit - 1 ↔ count + 1 ≤ limit := by omega
      exact decide_eq_decide.mpr same
  rw [Range.contains, Range.contains, least_eq, most_eq]

/-- A repetition performs what the rest of it performs behind its first match. -/
theorem performs_repeated {range : Range} {next : TokenStream} (sound : rule.IsSound world)
    (room : range.most ≠ some 0) (takes : rule.Performs world place (some next)) (moves : place.index < next.index)
    (goesOn : (Rule.repeated rule (range.after 1) false).Performs world next result) :
    (Rule.repeated rule range false).Performs world place result := by
  apply (performs_repeated_iff sound).mpr
  intro memory
  obtain ⟨found, memory', yields⟩ := takes memory
  obtain ⟨others, middle, remaining, result_eq⟩ := (performs_repeated_iff sound).mp goesOn memory'
  have spans : found.Spans place next := sound.settles yields
  have filled : found.isZeroWidth = false := spans.isZeroWidth_eq_false_iff.mpr moves
  rw [contains_after_one room] at result_eq
  exact ⟨_, middle, (gives_repetitions_iff room).mpr (.inr ⟨found, _, yields, .inr ⟨filled, others, remaining, rfl⟩⟩),
    result_eq⟩

/-- What an expression derives it performs. -/
theorem Derives.performs (derives : rule.Derives world place result) (fits : rule.Fits world) :
    rule.Performs world place result := by
  -- Derivations pass through empty lists and ranges that are used up, which are not built in but fit.
  induction derives with
  | always =>
    have builtIn := fits.builtIn fits.shape.1
    exact performs_of_body_some builtIn.traced (Match.spans_between (.nil _) _) fun memory => ⟨_, here_apply⟩
  | never =>
    have builtIn := fits.builtIn fits.shape.1
    exact performs_of_body_none builtIn.traced fun memory => ⟨_, rfl⟩
  | accepted read passes => exact performs_accepted (fits.builtIn fits.shape.1) read passes
  | rejected read fails => exact performs_rejected (fits.builtIn fits.shape.1) read fails
  | ended read =>
    have builtIn := fits.builtIn fits.shape.1
    exact performs_of_body_none builtIn.traced fun memory => ⟨_, ofTest_of_ended read⟩
  | sequenceDone => exact performs_sequence_nil
  | sequenceFails fails ih =>
    exact performs_sequence_none (isSound_of_builtIn (fits.members (by simp))) (ih (fits.part (.shown (by simp))))
  | sequenceNext takes goesOn ih ihRest =>
    exact performs_sequence (isSound_of_builtIn (fits.members (by simp))) (ih (fits.part (.shown (by simp))))
      (ihRest fits.sequence_tail)
  | choiceDone => exact performs_anyOf_nil
  | choiceTakes takes ih =>
    exact performs_anyOf_some (isSound_of_builtIn (fits.members (by simp))) (ih (fits.part (.shown (by simp))))
  | choiceNext fails goesOn ih ihRest =>
    exact performs_anyOf (isSound_of_builtIn (fits.members (by simp))) (ih (fits.part (.shown (by simp))))
      (ihRest fits.anyOf_tail)
  | allOfLast derives ih =>
    have builtIn := fits.members (children_allOf ..) _ (List.mem_singleton_self _)
    exact performs_allOf_last builtIn.isSound (ih (fits.part (.shown (by simp))))
  | allOfFails fails ih =>
    exact performs_allOf_none (isSound_of_builtIn (fits.members (by simp))) (ih (fits.part (.shown (by simp))))
  | allOfNext takes others ih ihRest =>
    exact performs_allOf (isSound_of_builtIn (fits.members (by simp))) (ih (fits.part (.shown (by simp))))
      (ihRest fits.allOf_tail)
  | optionalTakes takes ih =>
    exact performs_optional (fits.parts _ (.shown (by simp))).1.isSound (ih (fits.part (.shown (by simp))))
  | optionalSkips fails ih =>
    exact performs_optional (fits.parts _ (.shown (by simp))).1.isSound (ih (fits.part (.shown (by simp))))
  | repeatedFull full => exact performs_repeated_full (fits.parts _ (.shown (by simp))).1.isSound full
  | repeatedStops room fails ih =>
    exact performs_repeated_none (fits.parts _ (.shown (by simp))).1.isSound room (ih (fits.part (.shown (by simp))))
  | repeatedStays room stays ih =>
    exact performs_repeated_empty (fits.parts _ (.shown (by simp))).1.isSound room (ih (fits.part (.shown (by simp))))
  | repeatedNext room takes moves goesOn ih ihRest =>
    exact performs_repeated (fits.parts _ (.shown (by simp))).1.isSound room (ih (fits.part (.shown (by simp)))) moves
      (ihRest (fits.repeated_after 1))
  | lookaround derives ih =>
    exact performs_lookaround (fits.parts _ (.shown (by simp))).1.isSound (ih (fits.part (.shown (by simp))))
  | not more derives ih =>
    exact performs_not (fits.builtIn fits.shape.1) more (ih (fits.part (.shown (by simp))))
  | @notEnded _ place ended =>
    have builtIn := fits.builtIn fits.shape.1
    refine performs_of_body_none builtIn.traced fun memory => ⟨⟨place, memory⟩, ?_⟩
    simp only [bodyRun, body, Attempt.stream_bind_apply, ended]
    rfl
  | group read grouped derives ih =>
    exact performs_group (fits.builtIn fits.shape.1) read grouped (ih (fits.part (.shown (by simp))))
  | @notGrouped _ place _ _ read single =>
    have builtIn := fits.builtIn fits.shape.1
    refine performs_of_body_none builtIn.traced fun memory => ⟨⟨place, memory⟩, ?_⟩
    simp only [bodyRun, body, insideGroup, Attempt.stream_bind_apply, TokenStream.current?_eq, read, Option.map_some,
      single]
    rfl
  | @groupEnded _ place read =>
    have builtIn := fits.builtIn fits.shape.1
    refine performs_of_body_none builtIn.traced fun memory => ⟨⟨place, memory⟩, ?_⟩
    simp only [bodyRun, body, insideGroup, Attempt.stream_bind_apply, TokenStream.current?_eq, read, Option.map_none]
    rfl
  | named bound derives ih =>
    have builtIn := fits.builtIn fits.shape.1
    refine performs_of_delegate builtIn (fits.parts _ (.named bound)).1 ?_ (ih (fits.part (.named bound)))
    funext fuel
    simp only [bodyRun, body, followNameTelling, bound]
  | @unbound name place free =>
    have builtIn := fits.builtIn fits.shape.1
    refine performs_of_body_none builtIn.traced fun memory =>
      ⟨⟨place, { memory with notices := .recursionNotDefined name :: memory.notices }⟩, ?_⟩
    simp only [bodyRun, body, followNameTelling, free, Attempt.notice_bind_apply]
    rfl
  | selfReferring filled derives ih =>
    have builtIn := fits.builtIn fits.shape.1
    refine performs_of_delegate builtIn (fits.parts _ (.selfReferring filled)).1 ?_
      (ih (fits.part (.selfReferring filled)))
    funext fuel
    simp only [bodyRun, body, filled]
  | @unfilled _ place empty =>
    have builtIn := fits.builtIn fits.shape.1
    refine performs_of_body_none builtIn.traced fun memory => ⟨⟨place, memory⟩, ?_⟩
    simp only [bodyRun, body, empty]
    rfl

end TokenGrammar.Rule
