import TokenGrammar.Proofs.Confinement

namespace TokenGrammar

/-- An attempt draws on tokens when from every place among them it leaves the stream among them, and answers only what is
allowed. -/
def Draws {α : Type} (tokens : List Token) (allowed : α → Prop) (attempt : Attempt α) : Prop :=
  ∀ situation answer after, situation.stream.tokens = tokens → attempt situation = .ok answer after →
    after.stream.tokens = tokens ∧ allowed answer

/-- A run draws on its stream when it draws on the tokens of whatever stream it is given. -/
def Run.DrawsOnStream (run : Run) : Prop := ∀ tokens, Draws tokens (TakenFrom tokens) run

namespace Draws

variable {α β : Type} {tokens : List Token} {allowed : α → Prop} {allowed' : β → Prop} {attempt : Attempt α}
  {next : α → Attempt β}

theorem mono {weaker : α → Prop} (draws : Draws tokens allowed attempt)
    (weaken : ∀ answer, allowed answer → weaker answer) : Draws tokens weaker attempt := by
  intro situation answer after among answers
  obtain ⟨still, allows⟩ := draws situation answer after among answers
  exact ⟨still, weaken answer allows⟩

theorem pure {answer : α} (allows : allowed answer) : Draws tokens allowed (pure answer) := by
  intro situation result after among answers
  cases answers
  exact ⟨among, allows⟩

theorem bind (first : Draws tokens allowed attempt)
    (second : ∀ answer, allowed answer → Draws tokens allowed' (next answer)) :
    Draws tokens allowed' (attempt >>= next) := by
  intro situation result after among answers
  obtain ⟨answer, middle, starts, goesOn⟩ := Stateful.bind_eq_ok_iff.mp answers
  obtain ⟨still, allows⟩ := first situation answer middle among starts
  exact second answer allows middle result after still goesOn

theorem fail {fault : Fault} : Draws tokens allowed (Attempt.fail fault) := by
  intro situation result after _ answers
  cases answers

theorem exhaust : Draws tokens allowed Attempt.exhaust := by
  intro situation result after _ answers
  cases answers

theorem stream : Draws tokens (fun place => place.tokens = tokens) Attempt.stream := by
  intro situation result after among answers
  cases answers
  exact ⟨among, among⟩

theorem goTo {place : TokenStream} (among : place.tokens = tokens) :
    Draws tokens (fun _ => True) (Attempt.goTo place) := by
  intro situation result after _ answers
  cases answers
  exact ⟨among, trivial⟩

theorem captures : Draws tokens (fun _ => True) Attempt.captures := by
  intro situation result after among answers
  cases answers
  exact ⟨among, trivial⟩

theorem setCaptures {kept : Captures} : Draws tokens (fun _ => True) (Attempt.setCaptures kept) := by
  intro situation result after among answers
  cases answers
  exact ⟨among, trivial⟩

theorem notice {noticed : Notice} : Draws tokens (fun _ => True) (Attempt.notice noticed) := by
  intro situation result after among answers
  cases answers
  exact ⟨among, trivial⟩

/-- What is done apart leaves the stream, and may draw on the tokens of another view of it. -/
theorem apart {view : TokenStream → TokenStream}
    (inner : ∀ start : TokenStream, start.tokens = tokens → Draws (view start).tokens allowed attempt) :
    Draws tokens allowed (Attempt.apart view attempt) := by
  intro situation result after among answers
  rw [Attempt.apart_apply] at answers
  match outcome : attempt { situation with stream := view situation.stream } with
  | .ok answer middle =>
    rw [outcome] at answers
    cases answers
    exact ⟨among, (inner situation.stream among _ _ middle rfl outcome).2⟩
  | .error stop middle =>
    rw [outcome] at answers
    cases answers

end Draws

/-- What draws on tokens is confined to them. -/
theorem draws_confining : Confining Draws where
  pure := .pure
  fail := .fail
  exhaust := .exhaust
  stream := .stream
  goTo := .goTo
  captures := .captures
  notice := .notice
  bind := .bind
  apart inner := .apart fun start among => (inner start among).2

end TokenGrammar
