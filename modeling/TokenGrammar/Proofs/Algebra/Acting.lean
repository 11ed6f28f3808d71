import TokenGrammar.Proofs.Inlining
import TokenGrammar.Proofs.Laws.Lists

namespace TokenGrammar

/-- Behind what was taken an attempt goes on, and the stream is put back where nothing was. -/
def Situation.settled {α : Type} (behind : Situation) (place : TokenStream) : Option α → Situation
  | none => { behind with stream := place }
  | some _ => behind

theorem Situation.SameScene.refl (situation : Situation) : situation.SameScene situation := ⟨rfl, rfl⟩

namespace Run

/-- What settles from one place agrees when it leads to one place. -/
theorem Settles.agree {place : TokenStream} {found found' : Option Match} {after after' : Situation}
    (settles : Settles place found after) (settles' : Settles place found' after') (both : found.isSome = found'.isSome)
    (together : after.stream = after'.stream) : Option.Rel Match.Agrees found found' := by
  cases found with
  | none =>
    cases found' with
    | none => exact .none
    | some found' => cases both
  | some found =>
    cases found' with
    | none => cases both
    | some found' =>
      have spans : found.Spans place after.stream := settles
      have spans' : found'.Spans place after'.stream := settles'
      rw [← together] at spans'
      refine .some ⟨spans.start_eq.trans spans'.start_eq.symm, spans.finish_eq.trans spans'.finish_eq.symm, ?_⟩
      rw [spans.reads.eq_filter, spans'.reads.eq_filter]

end Run

namespace Rule

open Run
open Attempt (Gives)

variable {world : World} {rule rule' : Rule} {rules front inner back : List Rule} {situation after : Situation}
  {taken : Option (List Token)}

/-- Two rules act alike when each one of them refines the other. -/
structure ActsAs (world : World) (rule rule' : Rule) : Prop where
  refinedBy : rule.RefinedBy world rule'
  refines : rule'.RefinedBy world rule

/-- Where a rule is computed to match so many tokens, a rule that refines it matches the same. -/
theorem RefinedBy.exists_agrees (refined : rule.RefinedBy world rule') {stream : TokenStream} (fuel count : Nat)
    (computed : (rule.answer world fuel stream {}).result.toOption.map (Option.map fun found => found.tokens.length) =
      some (some count)) :
    ∃ (found found' : Match) (after after' : Situation), found.tokens.length = count ∧
      rule.Yields world ⟨stream, {}⟩ (some found) after ∧ rule'.Yields world ⟨stream, {}⟩ (some found') after' ∧
      found.Agrees found' := by
  obtain ⟨found, after, yields, length_eq⟩ := exists_yields_of_count world rule fuel count stream computed
  obtain ⟨found', after', yields', together, -⟩ := refined yields
  cases together with
  | some agrees => exact ⟨found, _, after, after', length_eq, yields, yields', agrees⟩

/-- From a situation a rule takes the tokens of the match that it yields, and none if it does not match. -/
def Takes (world : World) (rule : Rule) (situation : Situation) (taken : Option (List Token)) (after : Situation) :
    Prop :=
  ∃ found, rule.Yields world situation found after ∧ taken = found.map Match.tokens

theorem takes_none_iff : rule.Takes world situation none after ↔ rule.Yields world situation none after := by
  constructor
  · intro takes
    obtain ⟨found, yields, none_eq⟩ := takes
    rwa [Option.map_eq_none_iff.mp none_eq.symm] at yields
  · intro yields
    exact ⟨none, yields, rfl⟩

theorem takes_some_iff {tokens : List Token} :
    rule.Takes world situation (some tokens) after ↔
      ∃ found, rule.Yields world situation (some found) after ∧ found.tokens = tokens := by
  constructor
  · intro takes
    obtain ⟨found, yields, some_eq⟩ := takes
    obtain ⟨found, rfl, rfl⟩ := Option.map_eq_some_iff.mp some_eq.symm
    exact ⟨found, yields, rfl⟩
  · intro holds
    obtain ⟨found, yields, rfl⟩ := holds
    exact ⟨some found, yields, rfl⟩

/-- A sound rule that takes nothing stays. -/
theorem IsSound.stays (sound : rule.IsSound world) (takes : rule.Takes world situation none after) :
    after.stream = situation.stream :=
  sound.settles (takes_none_iff.mp takes)

/-- A sound rule is refined by one that takes the same as it does. -/
theorem refinedBy_of_takes (sound : rule.IsSound world) (sound' : rule'.IsSound world)
    (takes : ∀ {situation taken after}, rule.Takes world situation taken after →
      rule'.Takes world situation taken after) : rule.RefinedBy world rule' := by
  intro situation found after yields
  obtain ⟨found', yields', taken_eq⟩ := takes ⟨found, yields, rfl⟩
  have both : found.isSome = found'.isSome := by simpa using congrArg Option.isSome taken_eq
  exact ⟨found', after, yields', (sound.settles yields).agree (sound'.settles yields') both rfl, .refl after⟩

/-- Sound rules that take the same from every situation act alike. -/
theorem actsAs_of_takes_iff (sound : rule.IsSound world) (sound' : rule'.IsSound world)
    (same : ∀ {situation taken after}, rule.Takes world situation taken after ↔
      rule'.Takes world situation taken after) : rule.ActsAs world rule' where
  refinedBy := refinedBy_of_takes sound sound' same.mp
  refines := refinedBy_of_takes sound' sound same.mpr

/-- Of two rules in turn, both take one behind the other, or the first that fails puts the stream back. -/
def TakesInTurn (world : World) (first second : Rule) (situation : Situation) (taken : Option (List Token))
    (after : Situation) : Prop :=
  (first.Takes world situation none after ∧ taken = none) ∨
    ∃ tokens middle, first.Takes world situation (some tokens) middle ∧
      ∃ rest later, second.Takes world middle rest later ∧ taken = rest.map (tokens ++ ·) ∧
        after = later.settled situation.stream rest

theorem takes_sequence_iff (sound : ∀ member ∈ rules, member.IsSound world) :
    (sequence rules).Takes world situation taken after ↔
      ∃ middle, Gives (fun fuel => inTurn (run world fuel) rules) situation taken middle ∧
        after = middle.settled situation.stream taken := by
  constructor
  · intro takes
    obtain ⟨found, yields, rfl⟩ := takes
    cases found with
    | none => exact (yields_sequence_none_iff sound).mp yields
    | some found =>
      obtain ⟨tokens, given, rfl⟩ := (yields_sequence_some_iff sound).mp yields
      exact ⟨after, given, rfl⟩
  · intro holds
    obtain ⟨middle, given, rfl⟩ := holds
    cases taken with
    | none => exact ⟨none, (yields_sequence_none_iff sound).mpr ⟨middle, given, rfl⟩, rfl⟩
    | some tokens => exact ⟨some _, (yields_sequence_some_iff sound).mpr ⟨tokens, given, rfl⟩, rfl⟩

theorem takes_sequence_nil_iff :
    (sequence []).Takes world situation taken after ↔ taken = some [] ∧ after = situation := by
  rw [takes_sequence_iff (by simp)]
  constructor
  · intro holds
    obtain ⟨middle, given, rfl⟩ := holds
    obtain ⟨rfl, rfl⟩ := gives_inTurn_nil_iff.mp given
    exact ⟨rfl, rfl⟩
  · intro same
    obtain ⟨rfl, rfl⟩ := same
    exact ⟨after, gives_inTurn_nil_iff.mpr ⟨rfl, rfl⟩, rfl⟩

/-- A sequence takes what its first rule and the sequence of the others take in turn. -/
theorem takes_sequence_cons_iff (sound : ∀ member ∈ rule :: rules, member.IsSound world) :
    (sequence (rule :: rules)).Takes world situation taken after ↔
      TakesInTurn world rule (sequence rules) situation taken after := by
  have soundFirst := sound rule (List.mem_cons_self ..)
  have soundRest : ∀ member ∈ rules, member.IsSound world := fun member inside =>
    sound member (List.mem_cons_of_mem _ inside)
  rw [takes_sequence_iff sound]
  constructor
  · intro holds
    obtain ⟨later, given, rfl⟩ := holds
    rcases gives_inTurn_cons_iff.mp given with ⟨yields, rfl⟩ | ⟨found, middle, yields, rest, remaining, rfl⟩
    · have stays : later.stream = situation.stream := soundFirst.settles yields
      exact .inl ⟨⟨none, by rwa [Situation.settled, ← stays], rfl⟩, rfl⟩
    · refine .inr ⟨found.tokens, middle, ⟨some found, yields, rfl⟩, rest, later.settled middle.stream rest, ?_⟩
      refine ⟨(takes_sequence_iff soundRest).mpr ⟨later, remaining, rfl⟩, rfl, ?_⟩
      cases rest <;> rfl
  · intro takes
    rcases takes with ⟨fails, rfl⟩ | ⟨_, middle, begins, rest, later, goesOn, rfl, rfl⟩
    · have stays := soundFirst.stays fails
      refine ⟨after, gives_inTurn_cons_iff.mpr (.inl ⟨takes_none_iff.mp fails, rfl⟩), ?_⟩
      rw [Situation.settled, ← stays]
    · obtain ⟨found, yields, rfl⟩ := takes_some_iff.mp begins
      obtain ⟨last, remaining, rfl⟩ := (takes_sequence_iff soundRest).mp goesOn
      refine ⟨last, gives_inTurn_cons_iff.mpr (.inr ⟨found, middle, yields, rest, remaining, rfl⟩), ?_⟩
      cases rest <;> rfl

/-- What two rules take in turn depends on the second one by what it takes. -/
theorem takesInTurn_congr {first second second' : Rule}
    (same : ∀ {situation taken after}, second.Takes world situation taken after ↔
      second'.Takes world situation taken after) :
    TakesInTurn world first second situation taken after ↔ TakesInTurn world first second' situation taken after := by
  simp only [TakesInTurn, same]

/-- It does not matter whether the first or the last two of three rules in turn are put together. -/
theorem takesInTurn_assoc {first second third early late : Rule}
    (firstTwo : ∀ {situation taken after}, early.Takes world situation taken after ↔
      TakesInTurn world first second situation taken after)
    (lastTwo : ∀ {situation taken after}, late.Takes world situation taken after ↔
      TakesInTurn world second third situation taken after) :
    TakesInTurn world early third situation taken after ↔ TakesInTurn world first late situation taken after := by
  constructor
  · intro takes
    rcases takes with ⟨fails, rfl⟩ | ⟨tokens, behind, takes, rest, later, goesOn, rfl, rfl⟩
    · rcases firstTwo.mp fails with ⟨fails, -⟩ | ⟨tokens, middle, takes, rest, later, goesOn, none_eq, rfl⟩
      · exact .inl ⟨fails, rfl⟩
      · obtain rfl := Option.map_eq_none_iff.mp none_eq.symm
        exact .inr ⟨tokens, middle, takes, none, later, lastTwo.mpr (.inl ⟨goesOn, rfl⟩), rfl, rfl⟩
    · rcases firstTwo.mp takes with ⟨-, none_eq⟩ | ⟨before, middle, begins, between, place, next, some_eq, rfl⟩
      · cases none_eq
      · obtain ⟨others, rfl, rfl⟩ := Option.map_eq_some_iff.mp some_eq.symm
        refine .inr ⟨before, middle, begins, rest.map (others ++ ·), later.settled middle.stream rest, ?_⟩
        refine ⟨lastTwo.mpr (.inr ⟨others, place, next, rest, later, goesOn, rfl, rfl⟩), ?_⟩
        cases rest <;> simp [Situation.settled]
  · intro takes
    rcases takes with ⟨fails, rfl⟩ | ⟨tokens, middle, takes, rest, later, goesOn, rfl, rfl⟩
    · exact .inl ⟨firstTwo.mpr (.inl ⟨fails, rfl⟩), rfl⟩
    · rcases lastTwo.mp goesOn with ⟨fails, rfl⟩ | ⟨others, behind, next, rest, last, ends, rfl, rfl⟩
      · exact .inl ⟨firstTwo.mpr (.inr ⟨tokens, middle, takes, none, later, fails, rfl, rfl⟩), rfl⟩
      · have both := firstTwo.mpr (.inr ⟨tokens, middle, takes, some others, behind, next, rfl, rfl⟩)
        refine .inr ⟨tokens ++ others, behind, both, rest, last, ends, ?_⟩
        cases rest <;> simp [Situation.settled]

/-- A sequence can be parted anywhere. -/
theorem takes_sequence_append_iff (sound : ∀ member ∈ front ++ back, member.IsSound world) :
    (sequence (front ++ back)).Takes world situation taken after ↔
      TakesInTurn world (sequence front) (sequence back) situation taken after := by
  induction front generalizing situation taken after with
  | nil =>
    have soundBack : (sequence back).IsSound world := (sequence_traced sound).isSound
    constructor
    · intro takes
      refine .inr ⟨[], situation, takes_sequence_nil_iff.mpr ⟨rfl, rfl⟩, taken, after, takes, by simp, ?_⟩
      cases taken with
      | none => rw [Situation.settled, ← soundBack.stays takes]
      | some tokens => rfl
    · intro takes
      rcases takes with ⟨fails, -⟩ | ⟨tokens, middle, nothing, rest, later, takes, rfl, rfl⟩
      · exact absurd (takes_sequence_nil_iff.mp fails).1 (by simp)
      · obtain ⟨same, rfl⟩ := takes_sequence_nil_iff.mp nothing
        cases same
        cases rest with
        | none => rwa [Situation.settled, ← soundBack.stays takes]
        | some tokens => exact takes
  | cons rule front ih =>
    have soundFront : ∀ member ∈ rule :: front, member.IsSound world := fun member inside =>
      sound member (List.mem_append_left back inside)
    rw [List.cons_append] at sound ⊢
    rw [takes_sequence_cons_iff sound]
    exact (takesInTurn_assoc (takes_sequence_cons_iff soundFront)
      (ih fun member inside => sound member (List.mem_cons_of_mem _ inside))).symm

theorem takes_sequence_singleton_iff (sound : rule.IsSound world) :
    (sequence [rule]).Takes world situation taken after ↔ rule.Takes world situation taken after := by
  rw [takes_sequence_cons_iff (by simpa using sound)]
  constructor
  · intro takes
    rcases takes with ⟨fails, rfl⟩ | ⟨tokens, middle, takes, rest, later, nothing, rfl, rfl⟩
    · exact fails
    · obtain ⟨rfl, rfl⟩ := takes_sequence_nil_iff.mp nothing
      rwa [Option.map_some, List.append_nil]
  · intro takes
    cases taken with
    | none => exact .inl ⟨takes, rfl⟩
    | some tokens => exact .inr ⟨tokens, after, takes, some [], after, takes_sequence_nil_iff.mpr ⟨rfl, rfl⟩, by simp, rfl⟩

/-- A sequence of two rules takes what they take in turn. -/
theorem takes_sequence_pair_iff {first second : Rule} (soundFirst : first.IsSound world)
    (soundSecond : second.IsSound world) :
    (sequence [first, second]).Takes world situation taken after ↔
      TakesInTurn world first second situation taken after :=
  (takes_sequence_cons_iff (by simpa using ⟨soundFirst, soundSecond⟩)).trans
    (takesInTurn_congr (takes_sequence_singleton_iff soundSecond))

/-- What a rule takes is unique. -/
theorem Takes.unique {taken' : Option (List Token)} {after' : Situation}
    (takes : rule.Takes world situation taken after) (takes' : rule.Takes world situation taken' after') :
    taken = taken' ∧ after = after' := by
  obtain ⟨found, yields, rfl⟩ := takes
  obtain ⟨found', yields', rfl⟩ := takes'
  obtain ⟨rfl, rfl⟩ := yields.unique yields'
  exact ⟨rfl, rfl⟩

/-- Of two rules the second one is tried where the first one fails. -/
def TakesEither (world : World) (first second : Rule) (situation : Situation) (taken : Option (List Token))
    (after : Situation) : Prop :=
  (∃ tokens, first.Takes world situation (some tokens) after ∧ taken = some tokens) ∨
    ∃ middle, first.Takes world situation none middle ∧ second.Takes world middle taken after

theorem takes_anyOf_nil_iff :
    (anyOf []).Takes world situation taken after ↔ taken = none ∧ after = situation := by
  have traced : (anyOf []).Traced world := anyOf_traced (by simp)
  constructor
  · intro takes
    obtain ⟨found, yields, rfl⟩ := takes
    obtain ⟨middle, given, settles, memory_eq⟩ := (yields_iff traced).mp yields
    have given : Gives (fun fuel => firstOf (run world fuel) []) situation found middle := given
    obtain ⟨rfl, rfl⟩ := gives_firstOf_nil_iff.mp given
    exact ⟨rfl, Situation.ext settles memory_eq⟩
  · intro same
    obtain ⟨rfl, rfl⟩ := same
    have given : Gives (fun fuel => firstOf (run world fuel) []) after none after :=
      gives_firstOf_nil_iff.mpr ⟨rfl, rfl⟩
    exact ⟨none, (yields_iff traced).mpr ⟨after, given, rfl, rfl⟩, rfl⟩

/-- A choice takes what its first alternative takes, or what the choice of the others takes where that one fails. -/
theorem takes_anyOf_cons_iff (sound : ∀ member ∈ rule :: rules, member.IsSound world) :
    (anyOf (rule :: rules)).Takes world situation taken after ↔
      TakesEither world rule (anyOf rules) situation taken after := by
  have soundFirst := sound rule (List.mem_cons_self ..)
  have tracedRest : (anyOf rules).Traced world :=
    anyOf_traced fun member inside => sound member (List.mem_cons_of_mem _ inside)
  constructor
  · intro takes
    obtain ⟨answer, yields, rfl⟩ := takes
    obtain ⟨later, given, settles, memory_eq⟩ := (yields_iff (anyOf_traced sound)).mp yields
    rcases gives_firstOf_cons_iff.mp given with ⟨found, middle, tried, rfl, rfl⟩ | ⟨middle, tried, goesOn⟩
    · have spans : found.Spans situation.stream after.stream := settles
      have spans' : found.Spans situation.stream middle.stream := soundFirst.settles tried
      have after_eq : after = middle := Situation.ext (spans.reads.unique spans'.reads) memory_eq
      exact .inl ⟨found.tokens, ⟨some found, after_eq ▸ tried, rfl⟩, rfl⟩
    · have stays : middle.stream = situation.stream := soundFirst.settles tried
      rw [← stays] at goesOn settles
      have remaining := (yields_iff tracedRest).mpr ⟨later, goesOn, settles, memory_eq⟩
      exact .inr ⟨middle, ⟨none, tried, rfl⟩, answer, remaining, rfl⟩
  · intro takes
    rcases takes with ⟨_, takes, rfl⟩ | ⟨middle, fails, answer, goesOn, rfl⟩
    · obtain ⟨found, tried, rfl⟩ := takes_some_iff.mp takes
      have given : Gives (fun fuel => firstOf (run world fuel) (rule :: rules)) situation (some found)
          { after with stream := situation.stream } :=
        gives_firstOf_cons_iff.mpr (.inl ⟨found, after, tried, rfl, rfl⟩)
      exact ⟨some found, (yields_iff (anyOf_traced sound)).mpr ⟨_, given, soundFirst.settles tried, rfl⟩, rfl⟩
    · have stays := soundFirst.stays fails
      obtain ⟨later, remaining, settles, memory_eq⟩ := (yields_iff tracedRest).mp goesOn
      rw [stays] at settles
      have given : Gives (fun fuel => firstOf (run world fuel) (rule :: rules)) situation answer later :=
        gives_firstOf_cons_iff.mpr (.inr ⟨middle, takes_none_iff.mp fails, by rwa [← stays]⟩)
      exact ⟨answer, (yields_iff (anyOf_traced sound)).mpr ⟨later, given, settles, memory_eq⟩, rfl⟩

theorem takesEither_congr {first second second' : Rule}
    (same : ∀ {situation taken after}, second.Takes world situation taken after ↔
      second'.Takes world situation taken after) :
    TakesEither world first second situation taken after ↔ TakesEither world first second' situation taken after := by
  simp only [TakesEither, same]

/-- It does not matter whether the first or the last two of three alternatives are put together. -/
theorem takesEither_assoc {first second third early late : Rule}
    (firstTwo : ∀ {situation taken after}, early.Takes world situation taken after ↔
      TakesEither world first second situation taken after)
    (lastTwo : ∀ {situation taken after}, late.Takes world situation taken after ↔
      TakesEither world second third situation taken after) :
    TakesEither world early third situation taken after ↔ TakesEither world first late situation taken after := by
  constructor
  · intro takes
    rcases takes with ⟨tokens, takes, rfl⟩ | ⟨middle, fails, goesOn⟩
    · rcases firstTwo.mp takes with ⟨_, takes, same⟩ | ⟨middle, fails, takes⟩
      · exact .inl ⟨_, takes, same⟩
      · exact .inr ⟨middle, fails, lastTwo.mpr (.inl ⟨tokens, takes, rfl⟩)⟩
    · rcases firstTwo.mp fails with ⟨_, -, none_eq⟩ | ⟨before, fails, failsThen⟩
      · cases none_eq
      · exact .inr ⟨before, fails, lastTwo.mpr (.inr ⟨middle, failsThen, goesOn⟩)⟩
  · intro takes
    rcases takes with ⟨tokens, takes, rfl⟩ | ⟨before, fails, goesOn⟩
    · exact .inl ⟨tokens, firstTwo.mpr (.inl ⟨tokens, takes, rfl⟩), rfl⟩
    · rcases lastTwo.mp goesOn with ⟨tokens, takes, rfl⟩ | ⟨middle, failsThen, goesOn⟩
      · exact .inl ⟨tokens, firstTwo.mpr (.inr ⟨before, fails, takes⟩), rfl⟩
      · exact .inr ⟨middle, firstTwo.mpr (.inr ⟨before, fails, failsThen⟩), goesOn⟩

/-- A choice can be parted anywhere. -/
theorem takes_anyOf_append_iff (sound : ∀ member ∈ front ++ back, member.IsSound world) :
    (anyOf (front ++ back)).Takes world situation taken after ↔
      TakesEither world (anyOf front) (anyOf back) situation taken after := by
  induction front generalizing situation taken after with
  | nil =>
    constructor
    · intro takes
      exact .inr ⟨situation, takes_anyOf_nil_iff.mpr ⟨rfl, rfl⟩, takes⟩
    · intro takes
      rcases takes with ⟨tokens, takes, -⟩ | ⟨middle, fails, takes⟩
      · exact absurd (takes_anyOf_nil_iff.mp takes).1 (by simp)
      · obtain ⟨-, rfl⟩ := takes_anyOf_nil_iff.mp fails
        exact takes
  | cons rule front ih =>
    have soundFront : ∀ member ∈ rule :: front, member.IsSound world := fun member inside =>
      sound member (List.mem_append_left back inside)
    rw [List.cons_append] at sound ⊢
    rw [takes_anyOf_cons_iff sound]
    exact (takesEither_assoc (takes_anyOf_cons_iff soundFront)
      (ih fun member inside => sound member (List.mem_cons_of_mem _ inside))).symm

end Rule

end TokenGrammar
