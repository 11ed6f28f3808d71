/-
This file cuts streams short by taking tokens away from their ends.
The grade of a rule says how far what it did on the whole stream can be relied on.
-/

import TokenGrammar.Proofs.Soundness

namespace TokenGrammar

namespace TokenStream

/-- A place is cut short to another one when the visible tokens ahead of that are the next ones ahead of it, and the
visible tokens behind that the nearest ones behind it. -/
structure CutTo (start short : TokenStream) : Prop where
  ahead : short.ahead <+: start.ahead
  past : short.past <+: start.past

variable {start short next finish : TokenStream} {token : Token} {tokens : List Token}

namespace CutTo

theorem refl (start : TokenStream) : start.CutTo start := ⟨List.prefix_refl _, List.prefix_refl _⟩

/-- A stream that has ended has ended when it is cut short. -/
theorem hasMore_eq_false (cut : start.CutTo short) (ended : start.hasMore = false) : short.hasMore = false := by
  rw [hasMore_eq_false_iff] at ended ⊢
  exact List.prefix_nil.mp (ended ▸ cut.ahead)

/-- The next visible token of a short stream is that of the whole one. -/
theorem exists_read {place : TokenStream} (cut : start.CutTo short) (read : short.read? = some (token, place)) :
    ∃ next, start.read? = some (token, next) := by
  obtain ⟨rest, split⟩ := cut.ahead
  rw [ahead_of_read? read] at split
  cases readStart : start.read? with
  | none =>
    rw [show start.ahead = [] from read?_eq_none_iff_filter.mp readStart] at split
    cases split
  | some next =>
    obtain ⟨first, next⟩ := next
    rw [ahead_of_read? readStart, List.cons_append] at split
    obtain ⟨rfl, -⟩ := List.cons.inj split
    exact ⟨next, rfl⟩

/-- Behind the same tokens a stream that was cut short is still cut short. -/
theorem onward {finish' : TokenStream} (cut : start.CutTo short) (reads : start.Reads tokens finish)
    (reads' : short.Reads tokens finish') : finish.CutTo finish' where
  ahead := by
    have ahead := cut.ahead
    rw [ahead_of_reads reads, ahead_of_reads reads'] at ahead
    exact (List.prefix_append_right_inj tokens).mp ahead
  past := by
    rw [past_of_reads reads, past_of_reads reads']
    exact (List.prefix_append_right_inj tokens.reverse).mpr cut.past

/-- Looking back from a place where the stream was cut short, one sees a stream that was cut short. -/
theorem lookbehind (cut : start.CutTo short) : start.lookbehind.CutTo short.lookbehind := ⟨cut.past, List.nil_prefix⟩

/-- What was read somewhere is cut out of the stream there. -/
theorem ofTokens (reads : start.Reads tokens finish) : start.CutTo (.ofTokens tokens) where
  ahead := by
    rw [ahead_ofTokens_of_reads reads, ahead_of_reads reads]
    exact List.prefix_append tokens finish.ahead
  past := List.nil_prefix

end CutTo

end TokenStream

/-- How far a rule can be relied on where the stream is cut short. If it took no more than is left it takes the same. A
loose rule, moreover, does not match where it did not match before, and a firm rule does not match either where it took
more than is left. -/
inductive Grade where
  | mild
  | loose
  | firm
  deriving DecidableEq

namespace Grade

/-- Whether what did not match before does not match now. -/
def refuses : Grade → Bool
  | .mild => false
  | .loose | .firm => true

/-- Whether what took more than is left does not match now. -/
def gives : Grade → Bool
  | .mild | .loose => false
  | .firm => true

/-- The grade that is asked of what others come behind. -/
def before : Grade → Grade
  | .mild => .mild
  | .loose | .firm => .firm

theorem refuses_of_gives {grade : Grade} (gives : grade.gives = true) : grade.refuses = true := by
  cases grade <;> first | rfl | cases gives

theorem refuses_before (grade : Grade) : grade.before.refuses = grade.refuses := by cases grade <;> rfl

theorem gives_before (grade : Grade) : grade.before.gives = grade.refuses := by cases grade <;> rfl

end Grade

/-- What an attempt that may fail comes to on a short stream, given what it comes to on the whole one. -/
inductive Shortened {α : Type} (grade : Grade) (short : TokenStream) (tokens : α → List Token) :
    Outcome (Option α) → Outcome (Option α) → Prop
  | stops {stop : Stop} {after : Situation} (outcome : Outcome (Option α)) :
      Shortened grade short tokens (.error stop after) outcome
  | fails {after : Situation} {outcome : Outcome (Option α)}
      (also : grade.refuses = true → ∃ after, outcome = .ok none after) : Shortened grade short tokens (.ok none after) outcome
  | fits {taken taken' : α} {after after' : Situation} (enough : (tokens taken).length ≤ short.ahead.length)
      (same : tokens taken' = tokens taken) : Shortened grade short tokens (.ok (some taken) after) (.ok (some taken') after')
  | exceeds {taken : α} {after : Situation} {outcome : Outcome (Option α)}
      (long : short.ahead.length < (tokens taken).length) (also : grade.gives = true → ∃ after, outcome = .ok none after) :
      Shortened grade short tokens (.ok (some taken) after) outcome

namespace Shortened

variable {α β : Type} {grade first : Grade} {short behind : TokenStream} {tokens : α → List Token}
  {tokens' : β → List Token} {attempt attempt' : Attempt (Option α)} {next next' : Option α → Attempt (Option β)}
  {situation situation' : Situation} {condition condition' : Option α → Situation → Prop}

/-- An attempt that fails on the short stream is right to do so if everything that could be taken is too long. -/
theorem of_none {outcome : Outcome (Option α)} {after : Situation}
    (long : ∀ taken later, outcome = .ok (some taken) later → short.ahead.length < (tokens taken).length) :
    Shortened grade short tokens outcome (.ok none after) := by
  match outcome, long with
  | .error stop later, _ => exact .stops _
  | .ok none later, _ => exact .fails fun _ => ⟨after, rfl⟩
  | .ok (some taken) later, long => exact .exceeds (long taken later rfl) fun _ => ⟨after, rfl⟩

/-- What is taken next comes behind what was taken first. The first attempt has to give way where it took too much, unless
nothing can fail behind it. -/
theorem bind (tries : Shortened first short tokens (attempt situation) (attempt' situation'))
    (meets : Meets (attempt situation) condition) (meets' : Meets (attempt' situation') condition')
    (refuses : grade.refuses = true → first.refuses = true) (gives : grade.gives = true → first.gives = true)
    (late : (grade.refuses = true → first.gives = true) ∨ ∀ taken after later, next (some taken) after ≠ .ok none later)
    (nothing : ∀ after, next none after = .ok none after) (nothing' : ∀ after, next' none after = .ok none after)
    (grows : ∀ {taken after result later}, condition (some taken) after → next (some taken) after = .ok (some result) later →
      (tokens taken).length ≤ (tokens' result).length)
    (goesOn : ∀ {taken after taken' after'}, condition (some taken) after → condition' (some taken') after' →
      (tokens taken).length ≤ short.ahead.length → tokens taken' = tokens taken →
      Shortened grade short tokens' (next (some taken) after) (next' (some taken') after')) :
    Shortened grade short tokens' ((attempt >>= next) situation) ((attempt' >>= next') situation') := by
  have gone (fails : ∃ after, attempt' situation' = .ok none after) :
      ∃ after, (attempt' >>= next') situation' = .ok none after := by
    obtain ⟨after, fails⟩ := fails
    exact ⟨after, by rw [Stateful.bind_apply, fails]; exact nothing' after⟩
  rw [Stateful.bind_apply]
  generalize attempt situation = outcome at tries meets
  generalize outcome_eq : attempt' situation' = outcome' at tries meets'
  rw [outcome_eq] at gone
  cases tries with
  | stops => exact .stops _
  | fails also =>
    dsimp only
    rw [nothing]
    exact .fails fun asked => gone (also (refuses asked))
  | fits enough same =>
    rw [Stateful.bind_apply, outcome_eq]
    exact goesOn meets meets' enough same
  | @exceeds taken after _ long also =>
    dsimp only
    match outcome : next (some taken) after with
    | .error stop later => exact .stops _
    | .ok none later =>
      refine .fails fun asked => ?_
      rcases late with early | never
      · exact gone (also (early asked))
      · exact absurd outcome (never taken after later)
    | .ok (some result) later =>
      exact .exceeds (Nat.lt_of_lt_of_le long (grows meets outcome)) fun given => gone (also (gives given))

/-- What comes first gives way as far as the whole has to if it has the grade that is asked before others. -/
theorem bindBefore (tries : Shortened grade.before short tokens (attempt situation) (attempt' situation'))
    (meets : Meets (attempt situation) condition) (meets' : Meets (attempt' situation') condition')
    (nothing : ∀ after, next none after = .ok none after) (nothing' : ∀ after, next' none after = .ok none after)
    (grows : ∀ {taken after result later}, condition (some taken) after → next (some taken) after = .ok (some result) later →
      (tokens taken).length ≤ (tokens' result).length)
    (goesOn : ∀ {taken after taken' after'}, condition (some taken) after → condition' (some taken') after' →
      (tokens taken).length ≤ short.ahead.length → tokens taken' = tokens taken →
      Shortened grade short tokens' (next (some taken) after) (next' (some taken') after')) :
    Shortened grade short tokens' ((attempt >>= next) situation) ((attempt' >>= next') situation') := by
  refine tries.bind meets meets' ?_ ?_ (.inl ?_) nothing nothing' grows goesOn
  · exact fun refuses => grade.refuses_before ▸ refuses
  · exact fun gives => grade.gives_before ▸ Grade.refuses_of_gives gives
  · exact fun refuses => grade.gives_before ▸ refuses

end Shortened

/-- An outcome hands on another one when it is of its kind and takes what that takes, behind some tokens in front. -/
inductive HandsOn {α β : Type} (front : List Token) (tokens : α → List Token) (tokens' : β → List Token) :
    Outcome (Option α) → Outcome (Option β) → Prop
  | stops {stop : Stop} {after later : Situation} : HandsOn front tokens tokens' (.error stop after) (.error stop later)
  | fails {after later : Situation} : HandsOn front tokens tokens' (.ok none after) (.ok none later)
  | takes {taken : α} {result : β} {after later : Situation} (same : tokens' result = front ++ tokens taken) :
      HandsOn front tokens tokens' (.ok (some taken) after) (.ok (some result) later)

section HandsOn

variable {α β : Type} {grade : Grade} {short behind : TokenStream} {front : List Token} {tokens : α → List Token}
  {tokens' : β → List Token} {situation : Situation}

/-- What hands on a shortened outcome is shortened, if the tokens in front were taken from the short stream too. -/
theorem Shortened.handOn {outcome outcome' : Outcome (Option α)} {result result' : Outcome (Option β)}
    (tries : Shortened grade behind tokens outcome outcome') (handsOn : HandsOn front tokens tokens' outcome result)
    (handsOn' : HandsOn front tokens tokens' outcome' result')
    (split : short.ahead.length = front.length + behind.ahead.length) :
    Shortened grade short tokens' result result' := by
  have gone (fails : ∃ after, outcome' = .ok none after) : ∃ later, result' = .ok none later := by
    obtain ⟨after, rfl⟩ := fails
    cases handsOn' with
    | fails => exact ⟨_, rfl⟩
  cases handsOn with
  | stops => exact .stops _
  | fails =>
    cases tries with
    | fails also => exact .fails fun asked => gone (also asked)
  | takes taken_eq =>
    cases tries with
    | fits enough same =>
      cases handsOn' with
      | takes taken_eq' =>
        refine .fits ?_ (by rw [taken_eq, taken_eq', same])
        rw [taken_eq, List.length_append]
        omega
    | exceeds long also =>
      refine .exceeds ?_ fun given => gone (also given)
      rw [taken_eq, List.length_append]
      omega

/-- What follows an attempt hands on its outcome if it goes on with what was taken and only then. -/
theorem handsOn_bind {attempt : Attempt (Option α)} {next : Option α → Attempt (Option β)}
    {condition : Option α → Situation → Prop} (meets : Meets (attempt situation) condition)
    (nothing : ∀ after, next none after = .ok none after)
    (something : ∀ {taken after}, condition (some taken) after → ∃ result later,
      next (some taken) after = .ok (some result) later ∧ tokens' result = front ++ tokens taken) :
    HandsOn front tokens tokens' (attempt situation) ((attempt >>= next) situation) := by
  rw [Stateful.bind_apply]
  match attempt situation, meets with
  | .error stop after, _ => exact .stops
  | .ok none after, _ =>
    dsimp only
    rw [nothing]
    exact .fails
  | .ok (some taken) after, meets =>
    obtain ⟨result, later, answers, taken_eq⟩ := something meets
    dsimp only
    rw [answers]
    exact .takes taken_eq

end HandsOn

end TokenGrammar
