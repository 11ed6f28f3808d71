import TokenGrammar.Proofs.Decomposition

namespace TokenGrammar

namespace TokenStream

variable {start : TokenStream}

/-- Behind the last visible token only shadows are passed over. -/
theorem remaining_skipShadows_of_ended (ended : start.hasMore = false) : start.skipShadows.remaining = [] := by
  have split := start.covers_shadows.remaining_eq
  cases behind : start.skipShadows.remaining with
  | nil => rfl
  | cons token rest =>
    have visible := start.head_skipShadows token (by simp [behind])
    have member : token ∈ start.remaining := by simp [split, behind]
    rw [hasMore, List.any_eq_false] at ended
    exact absurd visible (ended token member)

/-- Where there are more visible tokens, one of them is behind the shadows. -/
theorem exists_head_skipShadows (more : start.hasMore = true) : ∃ token, token ∈ start.skipShadows.remaining.head? := by
  have split := start.covers_shadows.remaining_eq
  cases behind : start.skipShadows.remaining with
  | cons token rest => exact ⟨token, rfl⟩
  | nil =>
    rw [behind, List.append_nil] at split
    obtain ⟨token, member, visible⟩ := List.any_eq_true.mp more
    rw [split] at member
    have hidden : token.isShadow = true := List.mem_takeWhile_imp member
    simp [Token.isVisible, hidden] at visible

theorem hasMore_skipShadows (more : start.hasMore = true) : start.skipShadows.hasMore = true := by
  obtain ⟨token, ahead⟩ := exists_head_skipShadows more
  exact List.any_eq_true.mpr ⟨token, List.mem_of_mem_head? ahead, start.head_skipShadows token ahead⟩

end TokenStream

namespace Engine

open Rule (run)

variable {world : World} {bindings : List RuleBinding} {situation middle next after : Situation}
  {answer : Option (RuleBinding × Match)} {made written : List Piece} {fuel : Nat}

/-- The action of a binding has made something of the match for which a pass has written pieces. -/
theorem exists_edit_of_writes {binding : RuleBinding} {found : Match}
    (writes : writePieces world (some (binding, found)) situation = .ok made after) :
    ∃ edit, binding.action.apply world.store situation.memory.captures found = .ok edit := by
  match edits : binding.action.apply world.store situation.memory.captures found with
  | .ok edit => exact ⟨edit, rfl⟩
  | .error fault =>
    rw [writePieces, editMatch, editMatchTelling, Attempt.notice_bind_apply, Attempt.captures_bind_apply, edits] at writes
    cases writes

/-- The shadows in front of segments are a segment, if there are any. -/
theorem exists_steps_of_skipShadows {segments : List Segment}
    (before : ∀ token ∈ situation.stream.passed.head?, token.isVisible = true)
    (steps : Steps world bindings { situation with stream := situation.stream.skipShadows } segments after) :
    ∃ others, Steps world bindings situation others after ∧
      others.flatMap Segment.output = situation.stream.shadows ++ segments.flatMap Segment.output ∧
      others.flatMap Segment.extracted = segments.flatMap Segment.extracted := by
  have covers := situation.stream.covers_shadows
  by_cases hidden : situation.stream.shadows = []
  · rw [hidden] at covers ⊢
    have stays : situation.stream.skipShadows = situation.stream := covers.unique ⟨rfl, rfl⟩
    rw [stays] at steps
    exact ⟨segments, steps, rfl, rfl⟩
  · have step : Step world bindings situation (.shadows situation.stream.shadows)
        { situation with stream := situation.stream.skipShadows } :=
      .shadows covers hidden (fun _ => List.mem_takeWhile_imp) before situation.stream.head_skipShadows
    exact ⟨_, .cons step steps, rfl, rfl⟩

section Segments

variable (builtIn : ∀ binding ∈ bindings, binding.rule.BuiltIn world)
include builtIn

/-- The pieces that were written at a visible token are those of the segment there. -/
theorem exists_step_of_writes {token : Token} (ahead : token ∈ situation.stream.remaining.head?)
    (visible : token.isVisible = true) (first : FirstMatch world bindings situation answer middle)
    (writes : writePieces world answer middle = .ok made next) :
    ∃ segment, Step world bindings situation segment next ∧ Passage.output made = segment.output ∧
      Passage.extracted made = segment.extracted ∧ ∀ token ∈ next.stream.passed.head?, token.isVisible = true := by
  obtain ⟨segment, after, step, behind⟩ := exists_step_of_edits builtIn ahead visible first fun binding found answers =>
    exists_edit_of_writes (answers ▸ writes)
  obtain ⟨answer', middle', made', first', writes', output_eq, extracted_eq⟩ := step.exists_pieces ahead visible
  obtain ⟨rfl, rfl⟩ := first'.unique first
  rw [writes] at writes'
  cases writes'
  exact ⟨segment, step, output_eq, extracted_eq, behind⟩

/-- From behind a visible token on, the pieces that were written are those of segments up to the end. -/
theorem exists_steps_of_pieces {steps : Nat}
    (writes : piecesFrom world (run world fuel) bindings steps situation = .ok written after)
    (before : ∀ token ∈ situation.stream.passed.head?, token.isVisible = true) :
    ∃ segments finish, Steps world bindings situation segments finish ∧ finish.stream.remaining = [] ∧
      Passage.output written = segments.flatMap Segment.output ∧
      Passage.extracted written = segments.flatMap Segment.extracted := by
  induction steps generalizing situation written with
  | zero => cases writes
  | succ steps ih =>
    rw [piecesFrom_succ] at writes
    split at writes
    · rename_i more
      obtain ⟨answer, middle, tries, writes⟩ := Stateful.bind_eq_ok_iff.mp writes
      obtain ⟨made, next, makes, writes⟩ := Stateful.bind_eq_ok_iff.mp writes
      obtain ⟨rest, last, goesOn, joins⟩ := Stateful.bind_eq_ok_iff.mp writes
      cases joins
      obtain ⟨token, ahead⟩ := TokenStream.exists_head_skipShadows more
      have visible := situation.stream.head_skipShadows token ahead
      have first := gives_firstMatch_iff.mp ⟨fuel, tries⟩
      obtain ⟨segment, step, made_eq, handed_eq, behind⟩ := exists_step_of_writes builtIn ahead visible first makes
      obtain ⟨segments, finish, others, ends, rest_eq, later_eq⟩ := ih goesOn behind
      obtain ⟨all, allSteps, output_eq, extracted_eq⟩ := exists_steps_of_skipShadows before (.cons step others)
      refine ⟨all, finish, allSteps, ends, ?_, ?_⟩
      · rw [output_eq, List.flatMap_cons, ← made_eq, ← rest_eq]
        simp [Passage.output, Piece.output]
      · rw [extracted_eq, List.flatMap_cons, ← handed_eq, ← later_eq]
        simp [Passage.extracted, Piece.extracted]
    · rename_i noMore
      cases writes
      have ends := TokenStream.remaining_skipShadows_of_ended (by simpa using noMore)
      obtain ⟨all, allSteps, output_eq, extracted_eq⟩ := exists_steps_of_skipShadows before (.nil _)
      refine ⟨all, _, allSteps, ends, ?_, ?_⟩
      · simp [output_eq, Passage.output, Piece.output]
      · simp [extracted_eq, Passage.extracted, Piece.extracted]

end Segments

/-- A pass that returns writes the same with more fuel. -/
theorem result_process_of_le {engine : Engine} {tokens : List Token} {fuel' : Nat}
    (returns : (engine.process world fuel tokens).result = .ok written) (atLeast : fuel ≤ fuel') :
    (engine.process world fuel' tokens).result = .ok written := by
  match outcome : pieces world fuel engine.bindings { stream := .ofTokens tokens, memory := {} } with
  | .error stop after =>
    rw [process, outcome] at returns
    cases returns
  | .ok made after =>
    rw [process, outcome] at returns
    cases returns
    exact result_process ((pieces_grows engine.bindings).eq_of_le outcome atLeast)

/-- A pass that returns accounts for the segments of the tokens that it was given: it has written what is written for
them, and handed out what their actions hand out. -/
theorem exists_accounted_of_result {engine : Engine} {tokens : List Token}
    (builtIn : ∀ binding ∈ engine.bindings, binding.rule.BuiltIn world)
    (returns : (engine.process world fuel tokens).result = .ok written) :
    ∃ segments, Decomposes world engine.bindings tokens segments ∧
      Passage.output written = segments.flatMap Segment.output ∧
      Passage.extracted written = segments.flatMap Segment.extracted := by
  match outcome : pieces world fuel engine.bindings { stream := .ofTokens tokens, memory := {} } with
  | .error stop after =>
    rw [process, outcome] at returns
    cases returns
  | .ok made after =>
    rw [process, outcome] at returns
    cases returns
    obtain ⟨segments, finish, steps, ends, output_eq, extracted_eq⟩ :=
      exists_steps_of_pieces builtIn outcome (by simp [TokenStream.ofTokens])
    exact ⟨segments, ⟨finish, steps, ends⟩, output_eq, extracted_eq⟩

/-- A pass that returns writes what is written for the segments of the tokens that it was given. -/
theorem exists_decomposes_of_result {engine : Engine} {tokens : List Token}
    (builtIn : ∀ binding ∈ engine.bindings, binding.rule.BuiltIn world)
    (returns : (engine.process world fuel tokens).result = .ok written) :
    ∃ segments, Decomposes world engine.bindings tokens segments ∧
      Passage.output written = segments.flatMap Segment.output := by
  obtain ⟨segments, decomposes, output_eq, -⟩ := exists_accounted_of_result builtIn returns
  exact ⟨segments, decomposes, output_eq⟩

end Engine

end TokenGrammar
