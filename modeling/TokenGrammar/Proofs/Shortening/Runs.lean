import TokenGrammar.Proofs.Derivation.Completeness
import TokenGrammar.Proofs.Shortening.Attempts

namespace TokenGrammar

namespace Attempt

variable {α : Type}

/-- An attempt that may fail shortens with a grade when what it takes on streams that are cut short is as the grade
says. -/
def Shortens (grade : Grade) (tokens : α → List Token) (attempt : Attempt (Option α)) : Prop :=
  ∀ situation situation' : Situation, situation.stream.CutTo situation'.stream →
    Shortened grade situation'.stream tokens (attempt situation) (attempt situation')

end Attempt

namespace Run

/-- A run shortens with a grade when the tokens of its matches do. -/
abbrev Shortens (grade : Grade) (run : Run) : Prop := Attempt.Shortens grade Match.tokens run

variable {grade early : Grade} {run : Run} {rule : Rule} {rules : List Rule} {each : Rule → Run}
  {situation situation' : Situation}

theorem noMatch_shortens : noMatch.Shortens grade := fun _ situation' _ => .fails fun _ => ⟨situation', rfl⟩

theorem here_shortened (short : TokenStream) :
    Shortened grade short Match.tokens (here rule situation) (here rule situation') := by
  rw [here_apply, here_apply]
  exact .fits (Nat.zero_le _) rfl

/-- A mild assertion still holds where the stream is cut short. -/
theorem hereIf_shortened {condition condition' : Bool} (short : TokenStream) (still : condition = true → condition' = true) :
    Shortened .mild short Match.tokens (hereIf condition rule situation) (hereIf condition' rule situation') := by
  cases condition with
  | false => exact .fails nofun
  | true =>
    rw [still rfl]
    exact here_shortened short

theorem length_of_ofTest {test : Token → Bool} {found : Match} {after : Situation}
    (answers : ofTest test rule situation = .ok (some found) after) : found.tokens.length = 1 := by
  cases read : situation.stream.read? with
  | none =>
    rw [Rule.ofTest_of_ended read] at answers
    cases answers
  | some next =>
    rw [Rule.ofTest_of_read read] at answers
    split at answers <;> cases answers
    rfl

/-- A test of one token is passed by the same token, or there is none left. -/
theorem ofTest_shortens (test : Token → Bool) : (ofTest test rule).Shortens grade := by
  intro situation situation' cut
  cases read' : situation'.stream.read? with
  | none =>
    have ended : situation'.stream.ahead = [] := TokenStream.read?_eq_none_iff_filter.mp read'
    rw [Rule.ofTest_of_ended read']
    cases read : situation.stream.read? with
    | none =>
      rw [Rule.ofTest_of_ended read]
      exact .fails fun _ => ⟨_, rfl⟩
    | some next =>
      rw [Rule.ofTest_of_read read]
      split
      · refine .exceeds ?_ fun _ => ⟨_, rfl⟩
        rw [ended]
        exact Nat.zero_lt_one
      · exact .fails fun _ => ⟨_, rfl⟩
  | some next' =>
    obtain ⟨token, place⟩ := next'
    obtain ⟨next, read⟩ := cut.exists_read read'
    rw [Rule.ofTest_of_read read, Rule.ofTest_of_read read']
    split
    · refine .fits ?_ rfl
      rw [TokenStream.ahead_of_read? read']
      exact Nat.succ_le_succ (Nat.zero_le _)
    · exact .fails fun _ => ⟨_, rfl⟩

/-- Runs that only hand on what another run takes shorten as that does. -/
theorem shortens_of_handsOn {outer : Run} (shortens : run.Shortens grade)
    (handsOn : ∀ situation, HandsOn [] Match.tokens Match.tokens (run situation) (outer situation)) :
    outer.Shortens grade := fun situation situation' cut =>
  (shortens situation situation' cut).handOn (handsOn situation) (handsOn situation') (Nat.zero_add _).symm

/-- Putting the stream to the end of the match changes nothing about what is taken. -/
theorem settle_handsOn {kind : Text} {body : Run}
    (traces : Meets (body situation) fun found _ => Traces situation.stream found) :
    HandsOn [] Match.tokens Match.tokens (body situation) (settle kind body situation) := by
  match outcome : body situation, traces with
  | .error stop after, _ =>
    rw [settle_error outcome]
    exact .stops
  | .ok none after, _ =>
    rw [settle_none outcome]
    exact .fails
  | .ok (some found) after, ⟨finish, spans⟩ =>
    rw [settle_some outcome spans]
    exact .takes rfl

theorem apart_handsOn : HandsOn [] Match.tokens Match.tokens (run situation) (Attempt.apart id run situation) := by
  rw [Attempt.apart_apply]
  simp only [id_eq]
  match run situation with
  | .error stop after => exact .stops
  | .ok none after => exact .fails
  | .ok (some found) after => exact .takes rfl

theorem Sound.delegate_handsOn (sound : run.Sound) (rule : Rule) :
    HandsOn [] Match.tokens Match.tokens (run situation) (delegate run rule situation) := by
  rw [delegate, Attempt.stream_bind_apply]
  refine handsOn_bind (sound situation) (fun _ => rfl) ?_
  intro found after settles
  have spans : found.Spans situation.stream after.stream := settles
  simp only [spans.create_eq, Attempt.ofResult_ok, pure_bind]
  exact ⟨_, _, rfl, rfl⟩

theorem Sound.delegate_shortens (sound : run.Sound) (shortens : run.Shortens grade) (rule : Rule) :
    (delegate run rule).Shortens grade := shortens_of_handsOn shortens fun _ => sound.delegate_handsOn rule

/-- Puts tokens that were taken before in front of what is taken. -/
def putInFront (front : List Token) (rest : Attempt (Option (List Token))) : Attempt (Option (List Token)) := do
  match ← rest with
  | none => return none
  | some tokens => return some (front ++ tokens)

theorem putInFront_shortened {front front' : List Token} {rest : Attempt (Option (List Token))} {after after' : Situation}
    (collects : ∀ situation, Meets (rest situation) (Collects situation.stream)) (shortens : rest.Shortens grade id)
    (cut : situation.stream.CutTo situation'.stream) (reads : situation.stream.Reads front after.stream)
    (reads' : situation'.stream.Reads front' after'.stream) (same : front' = front) :
    Shortened grade situation'.stream id (putInFront front rest after) (putInFront front' rest after') := by
  subst same
  have handsOn (situation : Situation) : HandsOn front' id id (rest situation) (putInFront front' rest situation) :=
    handsOn_bind (collects situation) (fun _ => rfl) fun _ => ⟨_, _, rfl, rfl⟩
  exact (shortens after after' (cut.onward reads reads')).handOn (handsOn after) (handsOn after')
    (TokenStream.length_ahead_of_reads reads')

theorem length_le_of_putInFront {front tokens : List Token} {rest : Attempt (Option (List Token))} {after : Situation}
    (answers : putInFront front rest situation = .ok (some tokens) after) : front.length ≤ tokens.length := by
  obtain ⟨others, middle, -, joins⟩ := Stateful.bind_eq_ok_iff.mp answers
  cases others with
  | none => cases joins
  | some others =>
    cases joins
    simp

/-- Makes a match of the tokens that were taken from an index on. -/
def tokensSince (start : Nat) (rule : Rule) : Option (List Token) → Run
  | none => noMatch
  | some tokens => since start tokens rule

theorem tokensSince_shortened {taking : Attempt (Option (List Token))}
    (collects : ∀ situation, Meets (taking situation) (Collects situation.stream)) (shortens : taking.Shortens grade id)
    (cut : situation.stream.CutTo situation'.stream) (rule : Rule) :
    Shortened grade situation'.stream Match.tokens ((taking >>= tokensSince situation.stream.index rule) situation)
      ((taking >>= tokensSince situation'.stream.index rule) situation') := by
  have handsOn (situation : Situation) : HandsOn [] id Match.tokens (taking situation)
      ((taking >>= tokensSince situation.stream.index rule) situation) :=
    handsOn_bind (collects situation) (fun _ => rfl) fun reads => ⟨_, _, since_apply reads, rfl⟩
  exact (shortens situation situation' cut).handOn (handsOn situation) (handsOn situation') (Nat.zero_add _).symm

section Lists

/-- The last one of several rules has a property with one grade, and those before it have it with another one. -/
def InOrder (property : Grade → Rule → Prop) (early late : Grade) : List Rule → Prop
  | [] => True
  | [rule] => property late rule
  | rule :: next :: rest => property early rule ∧ InOrder property early late (next :: rest)

theorem InOrder.mono {property weaker : Grade → Rule → Prop} {early late : Grade}
    (weaken : ∀ grade rule, rule ∈ rules → property grade rule → weaker grade rule)
    (inOrder : InOrder property early late rules) : InOrder weaker early late rules := by
  induction rules with
  | nil => trivial
  | cons rule rest ih =>
    cases rest with
    | nil => exact weaken late rule (List.mem_cons_self ..) inOrder
    | cons next rest =>
      exact ⟨weaken early rule (List.mem_cons_self ..) inOrder.1,
        ih (fun grade member inside => weaken grade member (List.mem_cons_of_mem _ inside)) inOrder.2⟩

/-- What is tried first gives way at least as far as the whole has to, and always where it took too much unless it is
also the last. -/
theorem InOrder.exists_first {property : Grade → Rule → Prop}
    (inOrder : InOrder property grade.before grade (rule :: rules)) :
    ∃ early, property early rule ∧ InOrder property grade.before grade rules ∧
      (grade.refuses = true → early.refuses = true) ∧ (grade.gives = true → early.gives = true) ∧
      ((grade.refuses = true → early.gives = true) ∨ rules = []) := by
  cases rules with
  | nil => exact ⟨grade, inOrder, trivial, id, id, .inr rfl⟩
  | cons next rest =>
    refine ⟨grade.before, inOrder.1, inOrder.2, ?_, ?_, .inl ?_⟩
    · exact fun refuses => grade.refuses_before ▸ refuses
    · exact fun gives => grade.gives_before ▸ Grade.refuses_of_gives gives
    · exact fun refuses => grade.gives_before ▸ refuses

/-- The rest of a sequence takes what is left behind its first rule. -/
theorem inTurn_shortens (sound : ∀ member ∈ rules, (each member).Sound)
    (inOrder : InOrder (fun grade member => (each member).Shortens grade) grade.before grade rules) :
    Attempt.Shortens grade id (inTurn each rules) := by
  induction rules with
  | nil => exact fun _ _ _ => .fits (Nat.zero_le _) rfl
  | cons rule rest ih =>
    have soundRest : ∀ member ∈ rest, (each member).Sound := fun member inside =>
      sound member (List.mem_cons_of_mem _ inside)
    have soundFirst := sound rule (List.mem_cons_self ..)
    obtain ⟨early, first, others, refuses, gives, late⟩ := inOrder.exists_first
    intro situation situation' cut
    refine (first situation situation' cut).bind (soundFirst situation) (soundFirst situation') refuses gives ?_
      (fun _ => rfl) (fun _ => rfl) ?_ ?_
    · refine late.imp id fun last taken after later fails => ?_
      subst last
      cases fails
    · intro taken after result later _ answers
      exact length_le_of_putInFront answers
    · intro taken after taken' after' settles settles' enough same
      have spans : taken.Spans situation.stream after.stream := settles
      have spans' : taken'.Spans situation'.stream after'.stream := settles'
      exact putInFront_shortened (fun _ => inTurn_collects soundRest) (ih soundRest others) cut spans.reads spans'.reads
        same

/-- An alternative that did not match must not match now, for else it comes before the one that did; and where one took
too much the others must not match either if nothing may be taken then. -/
theorem firstOf_cons_shortens (first : (each rule).Shortens early) (others : (firstOf each rules).Shortens grade)
    (refuses : grade.refuses = true → early.refuses = true) (stays : early.refuses = true ∨ rules = [])
    (gives : grade.gives = true → early.gives = true ∧
      ∀ situation found after, each rule situation = .ok (some found) after →
        ∀ place : Situation, place.stream.ahead.length < found.tokens.length →
          ∃ later, firstOf each rules place = .ok none later) :
    (firstOf each (rule :: rules)).Shortens grade := by
  have goesOn {situation after : Situation} (fails : each rule situation = .ok none after) :
      firstOf each (rule :: rules) situation = firstOf each rules { after with stream := situation.stream } := by
    rw [firstOf, Stateful.bind_apply, Attempt.apart_apply]
    simp only [id_eq, fails]
  have answers {situation after : Situation} {found : Match} (takes : each rule situation = .ok (some found) after) :
      firstOf each (rule :: rules) situation = .ok (some found) { after with stream := situation.stream } := by
    rw [firstOf, Stateful.bind_apply, Attempt.apart_apply]
    simp only [id_eq, takes]
    rfl
  intro situation situation' cut
  have tries := first situation situation' cut
  generalize outcome : each rule situation = result at tries
  generalize outcome' : each rule situation' = result' at tries
  cases tries with
  | stops =>
    rw [firstOf, Stateful.bind_apply, Attempt.apart_apply]
    simp only [id_eq, outcome]
    exact .stops _
  | @fails after _ also =>
    rw [goesOn outcome]
    rcases stays with refused | last
    · obtain ⟨after', fails'⟩ := also refused
      rw [goesOn (outcome'.trans fails')]
      exact others { after with stream := situation.stream } { after' with stream := situation'.stream } cut
    · subst last
      refine .fails fun asked => ?_
      obtain ⟨after', fails'⟩ := also (refuses asked)
      exact ⟨_, goesOn (outcome'.trans fails')⟩
  | fits enough same =>
    rw [answers outcome, answers outcome']
    exact .fits enough same
  | exceeds long also =>
    rw [answers outcome]
    refine .exceeds long fun given => ?_
    obtain ⟨after', fails'⟩ := also (gives given).1
    rw [goesOn (outcome'.trans fails')]
    exact (gives given).2 _ _ _ outcome _ long

/-- The farther one of two matches from one place takes no less than either of them. -/
theorem farther_longest {first second : Match} {place finish finish' : TokenStream} (spans : first.Spans place finish)
    (spans' : second.Spans place finish') :
    ∃ farthest, (farther first second).Spans place farthest ∧
      first.tokens.length ≤ (farther first second).tokens.length ∧
      second.tokens.length ≤ (farther first second).tokens.length := by
  rw [farther, spans.lessThan_eq spans']
  split
  · rename_i less
    exact ⟨finish', spans', Nat.le_of_lt (of_decide_eq_true less), Nat.le_refl _⟩
  · rename_i less
    exact ⟨finish, spans, Nat.le_refl _, Nat.le_of_not_lt fun longer => less (decide_eq_true longer)⟩

/-- A conjunction takes no less than the farthest match so far. -/
theorem farthestOf_longest {known : Match} {place : TokenStream} (spans : known.Spans situation.stream place)
    (sound : ∀ member ∈ rules, (each member).Sound) :
    Meets (farthestOf each (some known) rules situation) fun answer _ =>
      ∀ result, answer = some result → known.tokens.length ≤ result.tokens.length := by
  induction rules generalizing situation known place with
  | nil =>
    intro result same
    cases same
    exact Nat.le_refl _
  | cons rule rest ih =>
    apply Attempt.meets_bind (sound rule (List.mem_cons_self ..)).apart_traces
    intro found after meets
    obtain ⟨stays, traced⟩ := meets
    cases found with
    | none => exact nofun
    | some found =>
      obtain ⟨finish, others⟩ := traced
      rw [← stays] at spans others
      obtain ⟨farthest, both, longer, -⟩ := farther_longest spans others
      refine (ih both fun member inside => sound member (List.mem_cons_of_mem _ inside)).mono ?_
      exact fun answer later longest result same => Nat.le_trans longer (longest result same)

/-- The farthest match so far, if there is one, took the same here and there. -/
inductive KnownAlike (place place' : TokenStream) : Option Match → Option Match → Prop
  | unknown : KnownAlike place place' none none
  | known {found found' : Match} {finish finish' : TokenStream} (spans : found.Spans place finish)
      (spans' : found'.Spans place' finish') (same : found'.tokens = found.tokens) :
      KnownAlike place place' (some found) (some found')

/-- The farther one of a match and the farthest match so far. -/
def fartherOf (farthest : Option Match) (found : Match) : Match := farthest.elim found (farther · found)

theorem KnownAlike.longest {place place' finish : TokenStream} {farthest farthest' : Option Match} {found : Match}
    (alike : KnownAlike place place' farthest farthest') (spans : found.Spans place finish) :
    ∃ last, (fartherOf farthest found).Spans place last ∧
      found.tokens.length ≤ (fartherOf farthest found).tokens.length := by
  cases alike with
  | unknown => exact ⟨finish, spans, Nat.le_refl _⟩
  | known earlier =>
    obtain ⟨place, both, -, longer⟩ := farther_longest earlier spans
    exact ⟨place, both, longer⟩

theorem KnownAlike.farther {place place' finish finish' : TokenStream} {farthest farthest' : Option Match}
    {found found' : Match} (alike : KnownAlike place place' farthest farthest') (spans : found.Spans place finish)
    (spans' : found'.Spans place' finish') (same : found'.tokens = found.tokens) :
    KnownAlike place place' (some (fartherOf farthest found)) (some (fartherOf farthest' found')) := by
  cases alike with
  | unknown => exact .known spans spans' same
  | known earlier earlier' alike =>
    simp only [fartherOf, Option.elim, Run.farther, earlier.lessThan_eq spans, earlier'.lessThan_eq spans', alike, same]
    split
    · exact .known spans spans' same
    · exact .known earlier earlier' alike

/-- A conjunction goes on with the farther match if its first rule matches. -/
def goOnFrom (each : Rule → Run) (rules : List Rule) (farthest : Option Match) : Option Match → Run
  | none => noMatch
  | some found => farthestOf each (some (fartherOf farthest found)) rules

theorem farthestOf_cons (farthest : Option Match) :
    farthestOf each farthest (rule :: rules) = Attempt.apart id (each rule) >>= goOnFrom each rules farthest := by
  rw [farthestOf]
  apply bind_congr
  intro found
  cases found <;> cases farthest <;> rfl

/-- The longest match of a conjunction fits if all of them do. -/
theorem farthestOf_shortened {farthest farthest' : Option Match} (sound : ∀ member ∈ rules, (each member).Sound)
    (inOrder : InOrder (fun grade member => (each member).Shortens grade) grade.before grade rules)
    (cut : situation.stream.CutTo situation'.stream)
    (alike : KnownAlike situation.stream situation'.stream farthest farthest') :
    Shortened grade situation'.stream Match.tokens (farthestOf each farthest rules situation)
      (farthestOf each farthest' rules situation') := by
  induction rules generalizing situation situation' farthest farthest' with
  | nil =>
    cases alike with
    | unknown => exact .fails fun _ => ⟨_, rfl⟩
    | known spans spans' same =>
      refine .fits ?_ same
      rw [TokenStream.length_ahead_of_reads spans'.reads, same]
      exact Nat.le_add_right _ _
  | cons rule rest ih =>
    have soundFirst := sound rule (List.mem_cons_self ..)
    have soundRest : ∀ member ∈ rest, (each member).Sound := fun member inside =>
      sound member (List.mem_cons_of_mem _ inside)
    obtain ⟨early, first, others, refuses, gives, late⟩ := inOrder.exists_first
    rw [farthestOf_cons, farthestOf_cons]
    refine (shortens_of_handsOn first (fun _ => apart_handsOn) situation situation' cut).bind soundFirst.apart_traces
      soundFirst.apart_traces refuses
      gives ?_ (fun _ => rfl) (fun _ => rfl) ?_ ?_
    · refine late.imp id fun last taken after later fails => ?_
      subst last
      cases fails
    · intro taken after result later meets answers
      obtain ⟨stays, finish, spans⟩ := meets
      obtain ⟨_, both, longer⟩ := alike.longest spans
      have longest := farthestOf_longest (stays ▸ both) soundRest
      rw [show farthestOf each (some (fartherOf farthest taken)) rest after = .ok (some result) later from answers] at longest
      exact Nat.le_trans longer (longest result rfl)
    · intro taken after taken' after' meets meets' enough same
      obtain ⟨stays, finish, spans⟩ := meets
      obtain ⟨stays', finish', spans'⟩ := meets'
      have both := alike.farther spans spans' same
      rw [← stays, ← stays'] at both
      rw [← stays']
      exact ih soundRest others (stays ▸ stays' ▸ cut) both

end Lists

theorem insideGroup_of_ended (read : situation.stream.read? = none) :
    insideGroup run rule situation = .ok none situation := by
  have current : situation.stream.current? = none := by rw [TokenStream.current?_eq, read, Option.map_none]
  simp only [insideGroup, Attempt.stream_bind_apply, current]
  rfl

section Members

variable {token : Token} {next : TokenStream} {members : List Token} {middle : Situation}
  (read : situation.stream.read? = some (token, next))
include read

theorem insideGroup_of_simple (simple : token.unwrap.members? = none) :
    insideGroup run rule situation = .ok none situation := by
  have current : situation.stream.current? = some token := by rw [TokenStream.current?_eq, read, Option.map_some]
  simp only [insideGroup, Attempt.stream_bind_apply, current, simple]
  rfl

variable (grouped : token.unwrap.members? = some members)
include grouped

theorem insideGroup_apply :
    insideGroup run rule situation =
      (succeeds (fun _ => .ofTokens members) run >>= Rule.takeWhole situation.stream.index token rule) situation := by
  have current : situation.stream.current? = some token := by rw [TokenStream.current?_eq, read, Option.map_some]
  simp only [insideGroup, Attempt.stream_bind_apply, current, grouped]
  rfl

theorem insideGroup_of_none (fails : run { situation with stream := .ofTokens members } = .ok none middle) :
    insideGroup run rule situation = .ok none { middle with stream := situation.stream } := by
  rw [insideGroup_apply read grouped, succeeds, bind_assoc, Stateful.bind_apply, Attempt.apart_apply, fails]
  rfl

theorem insideGroup_of_some {found : Match}
    (takes : run { situation with stream := .ofTokens members } = .ok (some found) middle) :
    insideGroup run rule situation =
      .ok (some (.between situation.stream next [token] rule)) { middle with stream := next } := by
  have there : ({ middle with stream := situation.stream } : Situation).stream.read? = some (token, next) := read
  rw [insideGroup_apply read grouped, succeeds, bind_assoc, Stateful.bind_apply, Attempt.apart_apply, takes]
  exact Rule.takeWhole_apply there

theorem insideGroup_of_error {stop : Stop} (stops : run { situation with stream := .ofTokens members } = .error stop middle) :
    insideGroup run rule situation = .error stop { middle with stream := situation.stream } := by
  rw [insideGroup_apply read grouped, succeeds, bind_assoc, Stateful.bind_apply, Attempt.apart_apply, stops]

end Members

/-- A group is taken as one token. -/
theorem length_of_insideGroup {found : Match} {after : Situation}
    (answers : insideGroup run rule situation = .ok (some found) after) : found.tokens.length = 1 := by
  cases read : situation.stream.read? with
  | none =>
    rw [insideGroup_of_ended read] at answers
    cases answers
  | some next =>
    obtain ⟨token, next⟩ := next
    cases grouped : token.unwrap.members? with
    | none =>
      rw [insideGroup_of_simple read grouped] at answers
      cases answers
    | some members =>
      match outcome : run { situation with stream := .ofTokens members } with
      | .error stop middle =>
        rw [insideGroup_of_error read grouped outcome] at answers
        cases answers
      | .ok none middle =>
        rw [insideGroup_of_none read grouped outcome] at answers
        cases answers
      | .ok (some inner) middle =>
        rw [insideGroup_of_some read grouped outcome] at answers
        cases answers
        rfl

/-- Nothing is cut off from the members of a group. -/
theorem Sound.insideGroup_shortens {inside : Grade} (sound : run.Sound) (shortens : run.Shortens inside)
    (refuses : grade.refuses = true → inside.refuses = true) (rule : Rule) : (insideGroup run rule).Shortens grade := by
  intro situation situation' cut
  cases read' : situation'.stream.read? with
  | none =>
    rw [insideGroup_of_ended read']
    refine .of_none fun found later answers => ?_
    rw [length_of_insideGroup answers, show situation'.stream.ahead = [] from TokenStream.read?_eq_none_iff_filter.mp read']
    exact Nat.zero_lt_one
  | some next' =>
    obtain ⟨token, place'⟩ := next'
    obtain ⟨place, read⟩ := cut.exists_read read'
    cases grouped : token.unwrap.members? with
    | none =>
      rw [insideGroup_of_simple read grouped, insideGroup_of_simple read' grouped]
      exact .fails fun _ => ⟨_, rfl⟩
    | some members =>
      have tries := shortens { situation with stream := .ofTokens members } { situation' with stream := .ofTokens members }
        (.refl _)
      have settles := sound { situation with stream := .ofTokens members }
      generalize outcome : run { situation with stream := .ofTokens members } = result at tries settles
      generalize outcome' : run { situation' with stream := .ofTokens members } = result' at tries
      cases tries with
      | stops =>
        rw [insideGroup_of_error read grouped outcome]
        exact .stops _
      | fails also =>
        rw [insideGroup_of_none read grouped outcome]
        refine .fails fun asked => ?_
        obtain ⟨after', fails⟩ := also (refuses asked)
        exact ⟨_, insideGroup_of_none read' grouped (outcome'.trans fails)⟩
      | fits =>
        rw [insideGroup_of_some read grouped outcome, insideGroup_of_some read' grouped outcome']
        refine .fits ?_ rfl
        rw [TokenStream.ahead_of_read? read']
        exact Nat.succ_le_succ (Nat.zero_le _)
      | @exceeds found after _ long =>
        have spans : found.Spans (.ofTokens members) after.stream := settles
        have left := TokenStream.length_ahead_of_reads spans.reads
        dsimp only at long
        omega

end Run

end TokenGrammar
