import TokenGrammar.Proofs.Outcome

namespace TokenGrammar

/-- The match of the tokens read from one place to another. -/
def Match.between (start finish : TokenStream) (tokens : List Token) (rule : Rule) : Match :=
  ⟨.ofNat start.index, .ofNat finish.index, tokens, rule⟩

/-- A match spans a stretch of a stream when it takes the tokens read there and begins and ends where it does. -/
structure Match.Spans (found : Match) (start finish : TokenStream) : Prop where
  start_eq : found.start = .ofNat start.index
  finish_eq : found.finish = .ofNat finish.index
  reads : start.Reads found.tokens finish

theorem Match.spans_between {start finish : TokenStream} {tokens : List Token} (reads : start.Reads tokens finish)
    (rule : Rule) : (Match.between start finish tokens rule).Spans start finish :=
  ⟨rfl, rfl, reads⟩

/-- A spanning match can be passed on under the name of another rule. -/
theorem Match.Spans.create_eq {found : Match} {start finish : TokenStream} (spans : found.Spans start finish)
    (rule : Rule) :
    Match.create (.ofNat start.index) found.finish found.tokens rule =
      .ok (.between start finish found.tokens rule) := by
  rw [spans.finish_eq, Match.create_ofNat spans.reads.index_le]
  rfl

theorem Match.empty_ofNat (place : TokenStream) (rule : Rule) :
    Match.empty (.ofNat place.index) rule = .ok (.between place place [] rule) :=
  Match.create_ofNat (Nat.le_refl _) [] rule

/-- A spanning match is empty exactly when it takes no tokens. -/
theorem Match.Spans.isZeroWidth_eq {found : Match} {start finish : TokenStream} (spans : found.Spans start finish) :
    found.isZeroWidth = decide (found.tokens = []) := by
  rw [Match.isZeroWidth, spans.start_eq, spans.finish_eq, Number.same_ofNat]
  exact decide_eq_decide.mpr spans.reads.index_eq_iff

/-- A spanning match is empty exactly when it stays. -/
theorem Match.Spans.isZeroWidth_iff {found : Match} {start finish : TokenStream} (spans : found.Spans start finish) :
    found.isZeroWidth = true ↔ finish = start := by
  rw [spans.isZeroWidth_eq, decide_eq_true_iff, ← spans.reads.index_eq_iff]
  constructor
  · intro same
    have reads := spans.reads
    rw [reads.index_eq_iff.mp same] at reads
    exact reads.eq_of_nil
  · intro same
    rw [same]

/-- A spanning match takes something exactly when it leads farther on. -/
theorem Match.Spans.isZeroWidth_eq_false_iff {found : Match} {start finish : TokenStream}
    (spans : found.Spans start finish) : found.isZeroWidth = false ↔ start.index < finish.index := by
  rw [spans.isZeroWidth_eq, decide_eq_false_iff_not, ← spans.reads.index_eq_iff]
  exact ⟨Nat.lt_of_le_of_ne spans.reads.index_le, Nat.ne_of_lt⟩

/-- Of two matches from one place, the one that takes more tokens ends farther on. -/
theorem Match.Spans.lessThan_eq {first second : Match} {start finish other : TokenStream}
    (spans : first.Spans start finish) (others : second.Spans start other) :
    first.finish.lessThan second.finish = decide (first.tokens.length < second.tokens.length) := by
  rw [spans.finish_eq, others.finish_eq, Number.lessThan_ofNat]
  exact decide_eq_decide.mpr (spans.reads.index_lt_iff others.reads)

namespace Run

/-- A match that is answered spans a stretch from a place on. -/
def Traces (place : TokenStream) : Option Match → Prop
  | none => True
  | some found => ∃ finish, found.Spans place finish

/-- The stream moves to the end of a match that is answered and stays where it was without one. -/
def Settles (place : TokenStream) : Option Match → Situation → Prop
  | none, after => after.stream = place
  | some found, after => found.Spans place after.stream

/-- Tokens that are answered were read on the way from a place to the place behind. -/
def Collects (place : TokenStream) : Option (List Token) → Situation → Prop
  | none, _ => True
  | some tokens, after => place.Reads tokens after.stream

/-- A run is sound when it settles from every situation. -/
def Sound (run : Run) : Prop := ∀ situation, Meets (run situation) (Settles situation.stream)

theorem Settles.traces {place : TokenStream} {found : Option Match} {after : Situation}
    (settles : Settles place found after) : Traces place found := by
  cases found with
  | none => trivial
  | some found => exact ⟨after.stream, settles⟩

variable {situation : Situation} {place : TokenStream} {rule : Rule} {tokens : List Token}

/-- The match made behind a stretch that was read spans that stretch. -/
theorem since_apply (reads : place.Reads tokens situation.stream) :
    since place.index tokens rule situation =
      .ok (some (.between place situation.stream tokens rule)) situation := by
  simp [since, Match.create_ofNat reads.index_le, Match.between]

theorem here_apply : here rule situation =
    .ok (some (.between situation.stream situation.stream [] rule)) situation := by
  simp [here, Match.empty_ofNat]

theorem since_traces (reads : place.Reads tokens situation.stream) :
    Meets (since place.index tokens rule situation) fun found _ => Traces place found := by
  rw [since_apply reads]
  exact ⟨_, Match.spans_between reads rule⟩

theorem here_traces : Meets (here rule situation) fun found _ => Traces situation.stream found := by
  rw [here_apply]
  exact ⟨_, Match.spans_between (.nil _) rule⟩

theorem hereIf_traces {condition : Bool} :
    Meets (hereIf condition rule situation) fun found _ => Traces situation.stream found := by
  cases condition with
  | false => trivial
  | true => exact here_traces

variable {run : Run}

/-- A run on a copy leaves the stream alone and answers a match from its place on. -/
theorem apart_traces (traces : Meets (run situation) fun found _ => Traces situation.stream found) :
    Meets (Attempt.apart id run situation) fun found after =>
      after.stream = situation.stream ∧ Traces situation.stream found := by
  apply Attempt.meets_apart
  exact traces.mono fun _ _ traced => ⟨rfl, traced⟩

theorem Sound.apart_traces (sound : run.Sound) :
    Meets (Attempt.apart id run situation) fun found after =>
      after.stream = situation.stream ∧ Traces situation.stream found :=
  Run.apart_traces ((sound situation).mono fun _ _ settles => settles.traces)

/-- Asking whether a run succeeds leaves the stream alone. -/
theorem Sound.succeeds_stays (sound : run.Sound) (view : TokenStream → TokenStream) :
    Meets (succeeds view run situation) fun _ after => after.stream = situation.stream := by
  have apart : Meets (Attempt.apart view run situation) fun _ after => after.stream = situation.stream :=
    Attempt.meets_apart ((sound _).mono fun _ _ _ => rfl)
  exact Attempt.meets_bind apart fun _ _ stays => stays

/-- The stream arrives at the end of a match that spans a stretch from its place on. -/
theorem arrive_apply {found : Match} {finish : TokenStream} {kind : Text}
    (spans : found.Spans situation.stream finish) :
    arrive kind found situation = .ok (some found) { situation with stream := finish } := by
  have begins : found.start.same (.ofNat situation.stream.index) = true := by
    simp [spans.start_eq]
  have moves : situation.stream.moveTo found.finish = .ok finish := by
    rw [spans.finish_eq]
    exact spans.reads.moveTo_eq
  simp only [arrive, Attempt.stream_bind_apply, begins, if_true, moves, Attempt.ofResult_ok, pure_bind,
    Attempt.goTo_bind_apply, Attempt.pure_apply]

/-- Without a match the stream is put back. -/
theorem settle_none {body : Run} {kind : Text} {after : Situation} (answers : body situation = .ok none after) :
    settle kind body situation = .ok none { after with stream := situation.stream } := by
  rw [settle, Stateful.bind_apply, Attempt.apart_apply]
  simp only [id_eq, answers]
  rfl

/-- Behind a match the stream stands at its end. -/
theorem settle_some {body : Run} {kind : Text} {found : Match} {after : Situation} {finish : TokenStream}
    (answers : body situation = .ok (some found) after) (spans : found.Spans situation.stream finish) :
    settle kind body situation = .ok (some found) { after with stream := finish } := by
  rw [settle, Stateful.bind_apply, Attempt.apart_apply]
  simp only [id_eq, answers]
  exact arrive_apply spans

theorem settle_error {body : Run} {kind : Text} {stop : Stop} {after : Situation}
    (stops : body situation = .error stop after) :
    settle kind body situation = .error stop { after with stream := situation.stream } := by
  rw [settle, Stateful.bind_apply, Attempt.apart_apply]
  simp only [id_eq, stops]

/-- A run answers what its body does; the stream moves to the end of a match and stays without one. -/
theorem settle_eq_ok_iff {body : Run} {kind : Text} {answer : Option Match} {after : Situation}
    (traces : Meets (body situation) fun found _ => Traces situation.stream found) :
    settle kind body situation = .ok answer after ↔
      ∃ middle, body situation = .ok answer middle ∧ Settles situation.stream answer after ∧
        after.memory = middle.memory := by
  match outcome : body situation, traces with
  | .ok none middle, _ =>
    rw [settle_none outcome]
    constructor
    · intro answers
      cases answers
      exact ⟨middle, rfl, rfl, rfl⟩
    · intro given
      obtain ⟨_, answers, stays, memory_eq⟩ := given
      cases answers
      have after_eq : after = { middle with stream := situation.stream } := Situation.ext stays memory_eq
      rw [after_eq]
  | .ok (some found) middle, ⟨finish, spans⟩ =>
    rw [settle_some outcome spans]
    constructor
    · intro answers
      cases answers
      exact ⟨middle, rfl, spans, rfl⟩
    · intro given
      obtain ⟨_, answers, arrives, memory_eq⟩ := given
      cases answers
      have arrives : found.Spans situation.stream after.stream := arrives
      have after_eq : after = { middle with stream := finish } :=
        Situation.ext (arrives.reads.unique spans.reads) memory_eq
      rw [after_eq]
  | .error stop middle, _ =>
    rw [settle_error outcome]
    constructor
    · intro answers
      cases answers
    · intro given
      obtain ⟨_, answers, -⟩ := given
      cases answers

/-- A body that answers matches from its place on makes a sound run. -/
theorem settle_sound {body : Run} {kind : Text}
    (traces : ∀ situation, Meets (body situation) fun found _ => Traces situation.stream found) :
    (settle kind body).Sound := by
  intro situation
  have traced := traces situation
  match outcome : body situation, traced with
  | .ok none after, _ =>
    rw [settle_none outcome]
    rfl
  | .ok (some found) after, ⟨finish, spans⟩ =>
    rw [settle_some outcome spans]
    exact spans
  | .error .exhausted after, _ =>
    rw [settle_error outcome]
    trivial

/-- A sound run passes its matches on under another name and over the same stretch. -/
theorem Sound.delegate_apply (sound : run.Sound) :
    delegate run rule situation =
      match run situation with
      | .ok found after => .ok (found.map fun found => .between situation.stream after.stream found.tokens rule) after
      | .error stop after => .error stop after := by
  have settles := sound situation
  rw [delegate, Attempt.stream_bind_apply, Stateful.bind_apply]
  match outcome : run situation with
  | .ok none after => rfl
  | .ok (some found) after =>
    rw [outcome] at settles
    have spans : found.Spans situation.stream after.stream := settles
    simp only [spans.create_eq, Attempt.ofResult_ok, pure_bind, Attempt.pure_apply, Option.map_some]
  | .error stop after => rfl

/-- A match that is passed on under another name spans the same stretch. -/
theorem Sound.delegate_traces (sound : run.Sound) :
    Meets (delegate run rule situation) fun found _ => Traces situation.stream found := by
  have settles := sound situation
  rw [sound.delegate_apply]
  match run situation, settles with
  | .ok none after, _ => trivial
  | .ok (some found) after, spans => exact ⟨_, Match.spans_between spans.reads _⟩
  | .error .exhausted after, _ => trivial

/-- To settle on a match that is passed on is to answer what is passed on. -/
theorem Sound.settle_delegate_eq_ok_iff (sound : run.Sound) {kind : Text} {answer : Option Match} {after : Situation} :
    settle kind (delegate run rule) situation = .ok answer after ↔
      ∃ found, run situation = .ok found after ∧
        answer = found.map fun found => .between situation.stream after.stream found.tokens rule := by
  have settles := sound situation
  rw [settle_eq_ok_iff sound.delegate_traces, sound.delegate_apply]
  match outcome : run situation with
  | .ok found middle =>
    rw [outcome] at settles
    constructor
    · intro given
      obtain ⟨_, answers, arrives, memory_eq⟩ := given
      cases answers
      have after_eq : after = middle := by
        refine Situation.ext ?_ memory_eq
        cases found with
        | none => exact Eq.trans arrives (Eq.symm settles)
        | some found => exact arrives.reads.unique settles.reads
      exact ⟨found, by rw [after_eq], by rw [after_eq]⟩
    · intro given
      obtain ⟨_, answers, rfl⟩ := given
      cases answers
      refine ⟨after, rfl, ?_, rfl⟩
      cases found with
      | none => exact settles
      | some found => exact Match.spans_between settles.reads rule
  | .error stop middle => simp

theorem Sound.asserts_traces {view : TokenStream → TokenStream} {condition : Bool → Bool} (sound : run.Sound) :
    Meets ((succeeds view run >>= fun matched => hereIf (condition matched) rule) situation) fun found _ =>
      Traces situation.stream found := by
  apply Attempt.meets_bind (sound.succeeds_stays view)
  intro matched after stays
  rw [← stays]
  exact hereIf_traces

end Run

end TokenGrammar
