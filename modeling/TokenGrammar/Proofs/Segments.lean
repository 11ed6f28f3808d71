import TokenGrammar.Proofs.Passes

namespace TokenGrammar

namespace TokenStream

structure Covers (start : TokenStream) (tokens : List Token) (finish : TokenStream) : Prop where
  remaining_eq : start.remaining = tokens ++ finish.remaining
  passed_eq : finish.passed = tokens.reverse ++ start.passed

namespace Covers

variable {start finish other : TokenStream} {tokens others : List Token}

theorem forward {rest : List Token} (split : start.remaining = tokens ++ rest) :
    start.Covers tokens (start.forward tokens.length) where
  remaining_eq := by simp [split]
  passed_eq := by simp [split]

theorem index_eq (covers : start.Covers tokens finish) : finish.index = start.index + tokens.length := by
  rw [finish.index_eq, start.index_eq, covers.passed_eq]
  simp [Nat.add_comm]

/-- A place behind at least one token is another place. -/
theorem index_ne {token : Token} (covers : start.Covers (token :: tokens) finish) : start.index ≠ finish.index := by
  rw [covers.index_eq, List.length_cons]
  omega

theorem append {middle : TokenStream} (first : start.Covers tokens middle) (second : middle.Covers others finish) :
    start.Covers (tokens ++ others) finish where
  remaining_eq := by rw [first.remaining_eq, second.remaining_eq, List.append_assoc]
  passed_eq := by rw [second.passed_eq, first.passed_eq, List.reverse_append, List.append_assoc]

/-- The same tokens lead to the same place. -/
theorem unique (first : start.Covers tokens finish) (second : start.Covers tokens other) : finish = other := by
  ext1
  · rw [first.passed_eq, second.passed_eq]
  · exact List.append_cancel_left (first.remaining_eq.symm.trans second.remaining_eq)

/-- To the same index lead the same tokens. -/
theorem eq_of_index (first : start.Covers tokens finish) (second : start.Covers others other)
    (same : finish.index = other.index) : tokens = others := by
  have size : tokens.length = others.length := by
    rw [first.index_eq, second.index_eq] at same
    omega
  exact List.append_inj_left (first.remaining_eq.symm.trans second.remaining_eq) size

/-- Shadows up to a visible token or the end are the shadows in front of that. -/
theorem eq_shadows (covers : start.Covers tokens finish) (hidden : ∀ token ∈ tokens, token.isShadow = true)
    (behind : ∀ token ∈ finish.remaining.head?, token.isVisible = true) : tokens = start.shadows := by
  rw [shadows, covers.remaining_eq, List.takeWhile_append_of_pos hidden]
  cases ahead : finish.remaining with
  | nil => simp
  | cons token rest =>
    have stops : token.isShadow = false := by simpa [Token.isVisible] using behind token (by simp [ahead])
    simp [stops]

end Covers

/-- What was read is among the tokens between the two places, and the last of these is visible. -/
theorem Reads.exists_covers {start finish : TokenStream} {tokens : List Token} (reads : start.Reads tokens finish) :
    ∃ piece, start.Covers piece finish ∧ tokens = piece.filter Token.isVisible ∧
      ∀ token ∈ piece.getLast?, token.isVisible = true := by
  obtain ⟨piece, remaining, passed, taken, rfl | ⟨front, last, rfl, visible⟩⟩ := reads.exists_piece
  · exact ⟨[], ⟨remaining, passed⟩, taken, by simp⟩
  · exact ⟨_, ⟨remaining, passed⟩, taken, by simpa using visible⟩

end TokenStream

/-- A segment of a pass: shadows, a token at which no binding matches, a token at which the first match takes
nothing, or the tokens that the first match takes, with what the action of its binding makes of the match. -/
inductive Segment where
  | shadows (tokens : List Token)
  | unmatched (token : Token)
  | insertion (binding : RuleBinding) (found : Match) (edit : Edit) (token : Token)
  | replacement (binding : RuleBinding) (found : Match) (edit : Edit) (tokens : List Token)

namespace Segment

def source : Segment → List Token
  | .shadows tokens => tokens
  | .unmatched token => [token]
  | .insertion _ _ _ token => [token]
  | .replacement _ _ _ tokens => tokens

/-- What is written for a segment: shadows and unmatched tokens as they are, and what an action makes of a match in
front of a token that is not taken or in the place of the tokens that are. -/
def output : Segment → List Token
  | .shadows tokens => tokens
  | .unmatched token => [token]
  | .insertion _ _ edit token => edit.tokens ++ [token]
  | .replacement _ _ edit _ => edit.tokens

/-- What the action of a segment hands out. -/
def extracted : Segment → List Token
  | .shadows _ | .unmatched _ => []
  | .insertion _ _ edit _ | .replacement _ _ edit _ => edit.extracted

end Segment

namespace Engine

/-- The segment at a place, and the situation behind it. -/
inductive Step (world : World) (bindings : List RuleBinding) (situation : Situation) : Segment → Situation → Prop
  | shadows {tokens : List Token} {place : TokenStream} (covers : situation.stream.Covers tokens place)
      (filled : tokens ≠ []) (hidden : ∀ token ∈ tokens, token.isShadow = true)
      (before : ∀ token ∈ situation.stream.passed.head?, token.isVisible = true)
      (behind : ∀ token ∈ place.remaining.head?, token.isVisible = true) :
      Step world bindings situation (.shadows tokens) { situation with stream := place }
  | unmatched {token : Token} {place : TokenStream} {middle : Situation}
      (covers : situation.stream.Covers [token] place) (visible : token.isVisible = true)
      (refused : FirstMatch world bindings situation none middle) :
      Step world bindings situation (.unmatched token) { middle with stream := place }
  | insertion {token : Token} {place : TokenStream} {middle : Situation} {binding : RuleBinding} {found : Match}
      {edit : Edit} (covers : situation.stream.Covers [token] place) (visible : token.isVisible = true)
      (first : FirstMatch world bindings situation (some (binding, found)) middle)
      (start_eq : found.start = .ofNat situation.stream.index)
      (finish_eq : found.finish = .ofNat situation.stream.index)
      (edits : binding.action.apply world.store middle.memory.captures found = .ok edit) :
      Step world bindings situation (.insertion binding found edit token)
        { noticed world binding found middle with stream := place }
  | replacement {token : Token} {rest : List Token} {place : TokenStream} {middle : Situation} {binding : RuleBinding}
      {found : Match} {edit : Edit} (covers : situation.stream.Covers (token :: rest) place)
      (visible : token.isVisible = true)
      (first : FirstMatch world bindings situation (some (binding, found)) middle)
      (start_eq : found.start = .ofNat situation.stream.index) (finish_eq : found.finish = .ofNat place.index)
      (edits : binding.action.apply world.store middle.memory.captures found = .ok edit) :
      Step world bindings situation (.replacement binding found edit (token :: rest))
        { noticed world binding found middle with stream := place }

variable {world : World} {bindings : List RuleBinding} {situation after after' start finish : Situation}
  {segment other : Segment} {segments others : List Segment}

namespace Step

/-- The tokens of a segment lie between the place before it and the place behind it. -/
theorem covers (step : Step world bindings situation segment after) :
    situation.stream.Covers segment.source after.stream := by
  cases step with
  | shadows covers | unmatched covers | insertion covers | replacement covers => exact covers

theorem source_ne_nil (step : Step world bindings situation segment after) : segment.source ≠ [] := by
  cases step with
  | shadows _ filled => exact filled
  | unmatched | insertion | replacement => exact List.cons_ne_nil _ _

/-- No shadow is in front of a visible token. -/
theorem not_hidden {token : Token} {tokens rest : List Token} {place place' : TokenStream}
    (covers : situation.stream.Covers tokens place) (filled : tokens ≠ [])
    (hidden : ∀ token ∈ tokens, token.isShadow = true) (covers' : situation.stream.Covers (token :: rest) place') :
    token.isVisible ≠ true := by
  obtain ⟨first, others, rfl⟩ := List.exists_cons_of_ne_nil filled
  obtain ⟨same, -⟩ := List.cons.inj (covers.remaining_eq.symm.trans covers'.remaining_eq)
  simpa [Token.isVisible, same] using hidden first (List.mem_cons_self ..)

theorem head_eq {first second : Token} {rest rest' : List Token} {place place' : TokenStream}
    (covers : situation.stream.Covers (first :: rest) place)
    (covers' : situation.stream.Covers (second :: rest') place') : first = second :=
  (List.cons.inj (covers.remaining_eq.symm.trans covers'.remaining_eq)).1

/-- There is only one segment at a place. -/
theorem unique (first : Step world bindings situation segment after)
    (second : Step world bindings situation other after') : segment = other ∧ after = after' := by
  cases first with
  | shadows covers filled hidden _ behind =>
    cases second with
    | shadows covers' _ hidden' _ behind' =>
      obtain rfl := (covers.eq_shadows hidden behind).trans (covers'.eq_shadows hidden' behind').symm
      rw [covers.unique covers']
      exact ⟨rfl, rfl⟩
    | unmatched covers' visible | insertion covers' visible | replacement covers' visible =>
      exact absurd visible (not_hidden covers filled hidden covers')
  | unmatched covers visible refused =>
    cases second with
    | shadows covers' filled hidden => exact absurd visible (not_hidden covers' filled hidden covers)
    | unmatched covers' _ refused' =>
      obtain ⟨-, rfl⟩ := refused.unique refused'
      obtain rfl := head_eq covers covers'
      rw [covers.unique covers']
      exact ⟨rfl, rfl⟩
    | insertion _ _ first | replacement _ _ first => cases (refused.unique first).1
  | insertion covers visible first _ finish_eq edits =>
    cases second with
    | shadows covers' filled hidden => exact absurd visible (not_hidden covers' filled hidden covers)
    | unmatched _ _ refused => cases (refused.unique first).1
    | insertion covers' _ first' _ _ edits' =>
      obtain ⟨same, rfl⟩ := first.unique first'
      cases same
      cases edits.symm.trans edits'
      obtain rfl := head_eq covers covers'
      rw [covers.unique covers']
      exact ⟨rfl, rfl⟩
    | replacement covers' _ first' _ finish_eq' =>
      -- Both ends are the end of the one first match, but only one of them is where it began.
      obtain ⟨same, -⟩ := first.unique first'
      cases same
      exact absurd (Number.ofNat_injective (finish_eq.symm.trans finish_eq')) covers'.index_ne
  | replacement covers visible first _ finish_eq edits =>
    cases second with
    | shadows covers' filled hidden => exact absurd visible (not_hidden covers' filled hidden covers)
    | unmatched _ _ refused => cases (refused.unique first).1
    | insertion covers' _ first' _ finish_eq' =>
      obtain ⟨same, -⟩ := first.unique first'
      cases same
      exact absurd (Number.ofNat_injective (finish_eq'.symm.trans finish_eq)) covers.index_ne
    | replacement covers' _ first' _ finish_eq' edits' =>
      obtain ⟨same, rfl⟩ := first.unique first'
      cases same
      cases edits.symm.trans edits'
      cases covers.eq_of_index covers' (Number.ofNat_injective (finish_eq.symm.trans finish_eq'))
      rw [covers.unique covers']
      exact ⟨rfl, rfl⟩

end Step

/-- Segments that follow one another from a situation on, each of them at the place behind the one before. -/
inductive Steps (world : World) (bindings : List RuleBinding) : Situation → List Segment → Situation → Prop
  | nil (situation : Situation) : Steps world bindings situation [] situation
  | cons {start next finish : Situation} {segment : Segment} {segments : List Segment}
      (step : Step world bindings start segment next) (rest : Steps world bindings next segments finish) :
      Steps world bindings start (segment :: segments) finish

namespace Steps

theorem append {middle : Situation} (first : Steps world bindings start segments middle)
    (second : Steps world bindings middle others finish) : Steps world bindings start (segments ++ others) finish := by
  induction first with
  | nil => exact second
  | cons step _ ih => exact .cons step (ih second)

/-- Segments account for all tokens between the two ends. -/
theorem covers (steps : Steps world bindings start segments finish) :
    start.stream.Covers (segments.flatMap Segment.source) finish.stream := by
  induction steps with
  | nil => exact ⟨rfl, rfl⟩
  | cons step _ ih =>
    rw [List.flatMap_cons]
    exact step.covers.append ih

theorem source_ne_nil (steps : Steps world bindings start segments finish) :
    ∀ segment ∈ segments, segment.source ≠ [] := by
  induction steps with
  | nil => simp
  | cons step _ ih => exact List.forall_mem_cons.mpr ⟨step.source_ne_nil, ih⟩

theorem not_step_of_end (ends : start.stream.remaining = []) : ¬ Step world bindings start segment after := by
  intro step
  have split := step.covers.remaining_eq
  rw [ends] at split
  exact step.source_ne_nil (List.append_eq_nil_iff.mp split.symm).1

/-- Tokens decompose up to their end in one way at most. -/
theorem unique {finish' : Situation} (first : Steps world bindings start segments finish)
    (ends : finish.stream.remaining = []) (second : Steps world bindings start others finish')
    (ends' : finish'.stream.remaining = []) : segments = others := by
  induction first generalizing others with
  | nil =>
    cases second with
    | nil => rfl
    | cons step _ => exact absurd step (not_step_of_end ends)
  | cons step _ ih =>
    cases second with
    | nil => exact absurd step (not_step_of_end ends')
    | cons step' rest' =>
      obtain ⟨rfl, rfl⟩ := step.unique step'
      rw [ih ends rest']

end Steps

/-- Segments decompose tokens when they lead from the start of the tokens to their end. -/
def Decomposes (world : World) (bindings : List RuleBinding) (tokens : List Token) (segments : List Segment) : Prop :=
  ∃ finish, Steps world bindings { stream := .ofTokens tokens, memory := {} } segments finish ∧
    finish.stream.remaining = []

/-- A pass over tokens tries a rule in a situation when segments lead to a visible token at which all bindings before
that of the rule are tried in vain. -/
def Tries (world : World) (bindings : List RuleBinding) (tokens : List Token) (rule : Rule) (situation : Situation) :
    Prop :=
  ∃ segments place before binding rest,
    Steps world bindings { stream := .ofTokens tokens, memory := {} } segments place ∧
      (∃ token ∈ place.stream.remaining.head?, token.isVisible = true) ∧
      bindings = before ++ binding :: rest ∧ binding.rule = rule ∧ FirstMatch world before place none situation

end Engine

end TokenGrammar
