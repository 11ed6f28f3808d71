namespace TokenGrammar.Stateful

variable {ε σ α β : Type} {state : σ}

/-- The next work starts from the state that the first one leaves; a stop is passed on. -/
theorem bind_apply (work : EStateM ε σ α) (next : α → EStateM ε σ β) :
    (work >>= next) state =
      match work state with
      | .ok answer after => next answer after
      | .error stop after => .error stop after := by
  simp only [bind, EStateM.bind]
  cases work state <;> rfl

/-- Work that is followed by other work answers when both of them do. -/
theorem bind_eq_ok_iff {work : EStateM ε σ α} {next : α → EStateM ε σ β} {answer : β} {after : σ} :
    (work >>= next) state = .ok answer after ↔
      ∃ first middle, work state = .ok first middle ∧ next first middle = .ok answer after := by
  rw [bind_apply]
  cases work state with
  | ok first middle =>
    constructor
    · intro answers
      exact ⟨first, middle, rfl, answers⟩
    · intro given
      obtain ⟨_, _, same, answers⟩ := given
      cases same
      exact answers
  | error stop middle => simp

theorem map_apply (change : α → β) (work : EStateM ε σ α) :
    (change <$> work) state =
      match work state with
      | .ok answer after => .ok (change answer) after
      | .error stop after => .error stop after := by
  simp only [Functor.map, EStateM.map]
  cases work state <;> rfl

end TokenGrammar.Stateful
