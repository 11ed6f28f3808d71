import TokenGrammar.Pattern.Matcher

namespace TokenGrammar.Pattern

/-- The ways through rounds of a part, as many as its bounds admit, in the order in which they are tried. -/
def repeatWays (part : Progress → List Progress) (greedy : Bool) (firstGroup endGroup : Nat) :
    Nat → Nat → Option Nat → Progress → List Progress
  | 0, _, _, _ => []
  | fuel + 1, least, most, progress =>
    if most = some 0 then [progress]
    else
      let rounds := (part (progress.clear firstGroup endGroup)).flatMap fun reached =>
        if least = 0 ∧ reached.place = progress.place then []
        else repeatWays part greedy firstGroup endGroup fuel (least - 1) (most.map (· - 1)) reached
      if least ≠ 0 then rounds else if greedy then rounds ++ [progress] else progress :: rounds

/-- The ways through an expression, in the order in which they are tried. -/
def Node.ways (subject : Subject) : Node → Progress → List Progress
  | .empty, progress => [progress]
  | .code wanted, progress =>
    (subject.step? (fun found => subject.canonical found = subject.canonical wanted) progress).toList
  | .any, progress => (subject.step? (fun found => subject.flags.dotAll || !isLineEnd found) progress).toList
  | .class set, progress => subject.behind set progress
  | .lineStart, progress => if subject.atLineStart progress.place then [progress] else []
  | .lineEnd, progress => if subject.atLineEnd progress.place then [progress] else []
  | .wordEdge negated, progress => if subject.atWordEdge progress.place != negated then [progress] else []
  | .backReference groups, progress =>
    match progress.span? groups with
    | none => [progress]
    | some span => (subject.repeated? span progress.place).toList.map fun place => { progress with place }
  | .capturing group body, progress => (body.ways subject progress).map fun reached =>
    { reached with
      groups := reached.groups.setIfInBounds (group - 1) (some (subject.between progress.place reached.place)) }
  | .look behind negative body, progress =>
    match (body.ways { subject with backward := behind } progress).head? with
    | some reached => if negative then [] else [{ reached with place := progress.place }]
    | none => if negative then [progress] else []
  | .modified modifiers body, progress => body.ways { subject with flags := modifiers.apply subject.flags } progress
  | .sequence first second, progress =>
    if subject.backward then (second.ways subject progress).flatMap fun reached => first.ways subject reached
    else (first.ways subject progress).flatMap fun reached => second.ways subject reached
  | .choice first second, progress => first.ways subject progress ++ second.ways subject progress
  | .repetition body least most greedy firstGroup endGroup, progress =>
    if body.takesNothing then
      if least = 0 then [progress] else body.ways subject (progress.clear firstGroup endGroup)
    else
      repeatWays (fun progress => body.ways subject progress) greedy firstGroup endGroup
        (least + subject.left progress.place + 1) least most progress

variable {subject : Subject} {node : Node} {progress reached : Progress} {next : Continuation}
  {part : Progress → List Progress} {greedy : Bool} {firstGroup endGroup least fuel size : Nat} {most : Option Nat}

theorem findSome?_toList (way : Option Progress) (next : Continuation) : way.toList.findSome? next = way.bind next := by
  cases way with
  | none => rfl
  | some reached => exact List.findSome?_singleton

theorem findSome?_flatMap (ways : List Progress) (more : Progress → List Progress) (next : Continuation) :
    (ways.flatMap more).findSome? next = ways.findSome? fun reached => (more reached).findSome? next := by
  induction ways with
  | nil => rfl
  | cons way ways ih =>
    rw [List.flatMap_cons, List.findSome?_append, ih, List.findSome?_cons]
    cases (more way).findSome? next <;> rfl

theorem repeatPart_eq_findSome? {run : Progress → Continuation → Option Progress}
    (tries : ∀ progress next, run progress next = (part progress).findSome? next) (fuel least : Nat) (most : Option Nat)
    (progress : Progress) (next : Continuation) :
    repeatPart run greedy firstGroup endGroup fuel least most progress next =
      (repeatWays part greedy firstGroup endGroup fuel least most progress).findSome? next := by
  induction fuel generalizing least most progress with
  | zero => rfl
  | succ fuel ih =>
    have rounds : (part (progress.clear firstGroup endGroup)).findSome? (fun reached =>
        if least = 0 ∧ reached.place = progress.place then none
        else repeatPart run greedy firstGroup endGroup fuel (least - 1) (most.map (· - 1)) reached next) =
          ((part (progress.clear firstGroup endGroup)).flatMap fun reached =>
            if least = 0 ∧ reached.place = progress.place then []
            else repeatWays part greedy firstGroup endGroup fuel (least - 1) (most.map (· - 1)) reached).findSome?
              next := by
      rw [findSome?_flatMap]
      congr 1
      funext reached
      rw [ih]
      split <;> rfl
    rw [repeatPart, repeatWays]
    split
    · exact List.findSome?_singleton.symm
    · simp only [tries, rounds]
      generalize List.flatMap _ _ = ways
      split
      · rfl
      · cases greedy with
        | true =>
          rw [if_pos rfl, if_pos rfl, List.findSome?_append, List.findSome?_singleton]
          cases ways.findSome? next <;> rfl
        | false =>
          rw [if_neg Bool.false_ne_true, if_neg Bool.false_ne_true, List.findSome?_cons]
          cases next progress <;> rfl

/-- An expression hands on along the first of its ways that leads on. -/
theorem Node.matches_eq_findSome? (subject : Subject) (node : Node) (progress : Progress) (next : Continuation) :
    node.matches subject progress next = (node.ways subject progress).findSome? next := by
  induction node generalizing subject progress next with
  | empty => exact List.findSome?_singleton.symm
  | code | any => exact (findSome?_toList _ next).symm
  | «class» => rfl
  | lineStart | lineEnd | wordEdge =>
    rw [Node.matches, ways]
    split
    · exact List.findSome?_singleton.symm
    · rfl
  | backReference groups =>
    rw [Node.matches, ways]
    cases progress.span? groups with
    | none => exact List.findSome?_singleton.symm
    | some span =>
      dsimp only
      cases subject.repeated? span progress.place with
      | none => rfl
      | some place => exact List.findSome?_singleton.symm
  | capturing group body ih =>
    rw [Node.matches, ways, ih, List.findSome?_map]
    rfl
  | look behind negative body ih =>
    rw [Node.matches, ways, ih]
    have first (ways : List Progress) : ways.findSome? some = ways.head? := by
      cases ways <;> rfl
    rw [first]
    cases (body.ways _ progress).head? <;> cases negative <;> simp
  | modified modifiers body ih => exact ih _ progress next
  | sequence first second ihFirst ihSecond =>
    rw [Node.matches, ways]
    split
    · rw [ihSecond, findSome?_flatMap]
      simp only [ihFirst]
    · rw [ihFirst, findSome?_flatMap]
      simp only [ihSecond]
  | choice first second ihFirst ihSecond =>
    rw [Node.matches, ways, ihFirst, ihSecond, List.findSome?_append, Option.orElse_eq_or]
  | repetition body least most greedy firstGroup endGroup ih =>
    rw [Node.matches, ways]
    split
    · split
      · exact List.findSome?_singleton.symm
      · exact ih _ _ next
    · exact repeatPart_eq_findSome? (ih subject) _ least most progress next

/-- A place is onward of another one when it does not go back and stays within so many codes. -/
def Onward (size : Nat) (progress reached : Progress) : Prop :=
  progress.place ≤ reached.place ∧ (progress.place ≤ size → reached.place ≤ size)

theorem Onward.refl (progress : Progress) : Onward size progress progress := ⟨Nat.le_refl _, id⟩

theorem Onward.trans {between : Progress} (first : Onward size progress between) (second : Onward size between reached) :
    Onward size progress reached :=
  ⟨Nat.le_trans first.1 second.1, fun inside => second.2 (first.2 inside)⟩

@[simp] theorem Progress.place_clear (progress : Progress) (firstGroup endGroup : Nat) :
    (progress.clear firstGroup endGroup).place = progress.place := by
  rw [clear]
  split <;> rfl

namespace Subject

variable (forward : subject.backward = false)

include forward

theorem eq_of_ahead? {length here place : Nat} (goes : subject.ahead? length here = some place) :
    place = here + length ∧ place ≤ subject.codes.size := by
  rw [ahead?, forward, if_neg Bool.false_ne_true] at goes
  split at goes
  · rename_i inside
    cases goes
    exact ⟨rfl, inside⟩
  · cases goes

theorem onward_of_ahead? {length place : Nat} (goes : subject.ahead? length progress.place = some place) :
    Onward subject.codes.size progress { progress with place } := by
  obtain ⟨rfl, inside⟩ := eq_of_ahead? forward goes
  exact ⟨Nat.le_add_right .., fun _ => inside⟩

theorem onward_of_step? {test : Nat → Bool} (steps : subject.step? test progress = some reached) :
    Onward subject.codes.size progress reached := by
  rw [step?] at steps
  split at steps
  · rename_i goes
    split at steps
    · cases steps
      exact onward_of_ahead? forward goes
    · cases steps
  · cases steps

theorem onward_of_word? {word : List Nat} (goes : subject.word? word progress = some reached) :
    Onward subject.codes.size progress reached := by
  induction word generalizing progress with
  | nil =>
    cases goes
    exact .refl _
  | cons code rest ih =>
    obtain ⟨between, steps, goes⟩ := Option.bind_eq_some_iff.mp goes
    exact (onward_of_step? forward steps).trans (ih goes)

theorem onward_of_mem_behind {set : ClassSet} (way : reached ∈ subject.behind set progress) :
    Onward subject.codes.size progress reached := by
  rw [behind, List.mem_append, List.mem_append] at way
  obtain (word | code) | nothing := way
  · obtain ⟨word, _, goes⟩ := List.mem_filterMap.mp word
    exact onward_of_word? forward goes
  · exact onward_of_step? forward (Option.mem_toList.mp code)
  · split at nothing
    · obtain rfl := List.mem_singleton.mp nothing
      exact .refl _
    · cases nothing

theorem onward_of_repeated? {span : Nat × Nat} {place : Nat} (goes : subject.repeated? span progress.place = some place) :
    Onward subject.codes.size progress { progress with place } := by
  rw [repeated?] at goes
  split at goes
  · rename_i ahead
    split at goes
    · cases goes
      exact onward_of_ahead? forward ahead
    · cases goes
  · cases goes

end Subject

theorem repeatWays_onward (onward : ∀ progress, ∀ reached ∈ part progress, Onward size progress reached)
    (way : reached ∈ repeatWays part greedy firstGroup endGroup fuel least most progress) :
    Onward size progress reached := by
  induction fuel generalizing least most progress with
  | zero => cases way
  | succ fuel ih =>
    -- A round goes onward, and so do the rounds behind it.
    have rounds (way : reached ∈ (part (progress.clear firstGroup endGroup)).flatMap fun reached =>
        if least = 0 ∧ reached.place = progress.place then []
        else repeatWays part greedy firstGroup endGroup fuel (least - 1) (most.map (· - 1)) reached) :
        Onward size progress reached := by
      obtain ⟨between, round, way⟩ := List.mem_flatMap.mp way
      have first := onward _ between round
      rw [Onward, Progress.place_clear] at first
      split at way
      · cases way
      · exact Onward.trans first (ih way)
    rw [repeatWays] at way
    split at way
    · obtain rfl := List.mem_singleton.mp way
      exact .refl _
    · dsimp only at way
      split at way
      · exact rounds way
      · split at way
        · rcases List.mem_append.mp way with way | way
          · exact rounds way
          · obtain rfl := List.mem_singleton.mp way
            exact .refl _
        · rcases List.mem_cons.mp way with rfl | way
          · exact .refl _
          · exact rounds way

/-- No way through an expression goes back, or past the end of the text, where the text is gone through from its start. -/
theorem Node.ways_onward (forward : subject.backward = false) (way : reached ∈ node.ways subject progress) :
    Onward subject.codes.size progress reached := by
  induction node generalizing subject progress reached with
  | empty =>
    obtain rfl := List.mem_singleton.mp way
    exact .refl _
  | code | any => exact Subject.onward_of_step? forward (Option.mem_toList.mp way)
  | «class» set => exact Subject.onward_of_mem_behind forward way
  | lineStart | lineEnd | wordEdge =>
    rw [ways] at way
    split at way
    · obtain rfl := List.mem_singleton.mp way
      exact .refl _
    · cases way
  | backReference groups =>
    rw [ways] at way
    split at way
    · obtain rfl := List.mem_singleton.mp way
      exact .refl _
    · obtain ⟨place, goes, rfl⟩ := List.mem_map.mp way
      exact Subject.onward_of_repeated? forward (Option.mem_toList.mp goes)
  | capturing group body ih =>
    obtain ⟨inner, inside, rfl⟩ := List.mem_map.mp way
    exact show Onward _ progress inner from ih forward inside
  | look behind negative body ih =>
    rw [ways] at way
    split at way <;> split at way
    · cases way
    · obtain rfl := List.mem_singleton.mp way
      exact ⟨Nat.le_refl _, id⟩
    · obtain rfl := List.mem_singleton.mp way
      exact .refl _
    · cases way
  | modified modifiers body ih => exact @ih { subject with flags := modifiers.apply subject.flags } _ _ forward way
  | sequence first second ihFirst ihSecond =>
    rw [ways, if_neg (by simp [forward])] at way
    obtain ⟨between, front, back⟩ := List.mem_flatMap.mp way
    exact (ihFirst forward front).trans (ihSecond forward back)
  | choice first second ihFirst ihSecond =>
    rcases List.mem_append.mp way with way | way
    · exact ihFirst forward way
    · exact ihSecond forward way
  | repetition body least most greedy firstGroup endGroup ih =>
    rw [ways] at way
    split at way
    · split at way
      · obtain rfl := List.mem_singleton.mp way
        exact .refl _
      · have onward := ih forward way
        rwa [Onward, Progress.place_clear] at onward
    · exact repeatWays_onward (fun progress reached way => ih forward way) way

end TokenGrammar.Pattern
