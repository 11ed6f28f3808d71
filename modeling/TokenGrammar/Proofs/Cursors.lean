import TokenGrammar.Proofs.Indices
import TokenGrammar.Proofs.Reach

namespace TokenGrammar

/-- The calls on a cursor, with whole numbers as arguments. -/
inductive CursorCall where
  | hasMore
  | current
  | read
  | peek (offset : Int)
  | previous
  | advance (count : Int)
  | advanceTo (target : Int)
  | advanceToPlaceOf (target : Cursor)
  | skipShadows
  | resetToStart
  | lookahead
  | lookbehind
  | copyWithIndex (index : Int)

/-- What a call on a cursor answers. -/
inductive CursorAnswer where
  | done
  | flag (more : Bool)
  | token (token : Token)
  | found (token : Option Token)
  | shadows (tokens : List Token)
  | cursor (made : Cursor)

/-- A call on a cursor, what came of it, and where the cursor was before and is now. -/
structure CursorEvent where
  before : Cursor
  call : CursorCall
  outcome : Except CursorStop CursorAnswer
  after : Cursor

def CursorEvent.made : CursorEvent → List Cursor
  | ⟨_, _, .ok (.cursor made), _⟩ => [made]
  | _ => []

namespace Cursor

/-- The index lies among the tokens, or just behind them. -/
structure Placed (cursor : Cursor) : Prop where
  nonneg : 0 ≤ cursor.position
  le_size : cursor.position ≤ cursor.tokens.size

/-- The tokens in front of the index, the nearest one first. -/
def before (cursor : Cursor) : List Token := (cursor.tokens.toList.take cursor.position.toNat).reverse

end Cursor

/-- A call keeps its cursor among the same tokens. If it fails it does not move it, and never fails for want of a
token. It makes cursors over these tokens or over those in front of the index, the nearest one first. -/
structure CursorEvent.StaysAmongTokens (event : CursorEvent) : Prop where
  tokens_eq : event.after.tokens = event.before.tokens
  placed : event.after.Placed
  unmoved : ∀ stop, event.outcome = .error stop → event.after = event.before ∧ ∃ fault, stop = .fault fault
  made : ∀ made ∈ event.made, made.Placed ∧
    (made.tokens = event.before.tokens ∨ made.tokens.toList = event.before.before)

namespace Cursor

def call : CursorCall → Cursoring CursorAnswer
  | .hasMore => .flag <$> hasMore
  | .current => .token <$> current
  | .read => .token <$> read
  | .peek offset => .found <$> peek (.finite offset)
  | .previous => .found <$> previous
  | .advance count => (fun _ => .done) <$> advance (.finite count)
  | .advanceTo target => (fun _ => .done) <$> advanceTo (.finite target)
  | .advanceToPlaceOf target => (fun _ => .done) <$> advanceTo (.finite target.position)
  | .skipShadows => .shadows <$> skipShadows
  | .resetToStart => (fun _ => .done) <$> resetToStart
  | .lookahead => .cursor <$> lookahead
  | .lookbehind => .cursor <$> lookbehind
  | .copyWithIndex index => .cursor <$> copyWithIndex (.finite index)

/-- Makes a call on a cursor, which is then where the call has left it. -/
def perform (cursor : Cursor) (made : CursorCall) : CursorEvent :=
  match call made cursor with
  | .ok answer after => ⟨cursor, made, .ok answer, after⟩
  | .error stop after => ⟨cursor, made, .error stop, after⟩

/-- Calls made one after the other, each on one of the cursors that there are by then. -/
inductive Performed (start : Cursor) : List CursorEvent → List Cursor → Prop
  | none : Performed start [] [start]
  | next {events : List CursorEvent} {cursors : List Cursor} (performed : Performed start events cursors)
      {number : Nat} {cursor : Cursor} (there : cursors[number]? = some cursor) (call : CursorCall) :
      Performed start (events ++ [cursor.perform call])
        (cursors.set number (cursor.perform call).after ++ (cursor.perform call).made)

/-- Reads so many tokens one after the other. -/
def readMany : Nat → Cursoring (List Token)
  | 0 => return []
  | count + 1 => do
    let token ← read
    return token :: (← readMany count)

/-- The visible tokens from the index on. -/
def ahead (cursor : Cursor) : List Token := (cursor.tokens.toList.drop cursor.position.toNat).filter Token.isVisible

/-- The visible tokens in front of the index, the nearest one first. -/
def past (cursor : Cursor) : List Token := cursor.before.filter Token.isVisible

/-- The complaint that no visible token remains. -/
def endFault (cursor : Cursor) : Fault := .endOfStream cursor.position.toNat cursor.tokens.size

/-- The operations of a cursor agree in what they tell of its place. -/
structure Agrees (cursor : Cursor) : Prop where
  hasMore_returns : hasMore cursor = .ok (!cursor.ahead.isEmpty) cursor
  current_stops_iff : ∀ stop after, current cursor = .error stop after ↔
    hasMore cursor = .ok false cursor ∧ stop = .fault cursor.endFault ∧ after = cursor
  read_stops_iff : ∀ stop after, read cursor = .error stop after ↔
    hasMore cursor = .ok false cursor ∧ stop = .fault cursor.endFault ∧ after = cursor
  advance_succeeds_iff : ∀ count : Nat,
    (∃ after, advance (.ofNat count) cursor = .ok () after) ↔ count ≤ cursor.ahead.length
  advance_iff_reads : ∀ (count : Nat) (after : Cursor),
    advance (.ofNat count) cursor = .ok () after ↔ ∃ tokens, readMany count cursor = .ok tokens after
  peek_ahead : ∀ offset : Nat, peek (.ofNat offset) cursor = .ok
    (match readMany (offset + 1) cursor with
      | .ok tokens _ => tokens[offset]?
      | .error _ _ => none) cursor
  peek_behind : ∀ offset : Nat, peek (.finite (-(offset + 1 : Nat))) cursor = .ok cursor.past[offset]? cursor
  peek_lookbehind : ∀ offset : Nat, ∃ back found, lookbehind cursor = .ok back cursor ∧
    peek (.ofNat offset) back = .ok found back ∧ peek (.finite (-(offset + 1 : Nat))) cursor = .ok found cursor

end Cursor

namespace TokenStream

variable {stream start behind : TokenStream} {tokens : List Token} {count : Nat}

theorem read_eq_ok_iff_read? {result : Token × TokenStream} : stream.read = .ok result ↔ stream.read? = some result := by
  rw [read]
  cases stream.read? <;> simp

theorem advance_eq_ok_iff :
    stream.advance (.ofNat count) = .ok behind ↔ ∃ tokens, tokens.length = count ∧ Reads stream tokens behind := by
  rw [← skip?_eq_some_iff, advance, Number.toNat?_ofNat]
  cases skips : stream.skip? count <;> simp [skips]

theorem read_eq_error_iff {fault : Fault} :
    stream.read = .error fault ↔ stream.hasMore = false ∧ fault = stream.endFault := by
  rw [← read?_eq_none_iff, read]
  cases stream.read? <;> simp [eq_comm]

/-- As many tokens can be read as visible ones are ahead. -/
theorem exists_reads_of_length_iff :
    (∃ tokens behind, tokens.length = count ∧ Reads start tokens behind) ↔ count ≤ start.ahead.length := by
  constructor
  · rintro ⟨tokens, behind, rfl, reads⟩
    rw [length_ahead_of_reads reads]
    exact Nat.le_add_right _ _
  · intro enough
    obtain ⟨behind, reads⟩ := exists_reads_iff.mpr (List.take_prefix count start.ahead)
    exact ⟨_, behind, List.length_take_of_le enough, reads⟩

private theorem ceil_natCast (count : Nat) : (count : Rat).ceil = count := Rat.ceil_intCast count

theorem peek?_ofNat (stream : TokenStream) (offset : Nat) :
    stream.peek? (.ofNat offset) = stream.ahead[offset]? := by
  simp [Number.ofNat, peek?, ceil_natCast, ahead?, visibleAt?_eq, ahead]

theorem peek?_neg (stream : TokenStream) (offset : Nat) :
    stream.peek? (.finite (-(offset + 1 : Nat))) = stream.past[offset]? := by
  have negative : ¬ 0 ≤ (-((offset + 1 : Nat) : Rat)).num := by
    rw [Rat.neg_num, Rat.num_natCast]
    omega
  have distance : (- -((offset + 1 : Nat) : Rat)).ceil.toNat - 1 = offset := by
    rw [Rat.neg_neg, ceil_natCast]
    omega
  rw [peek?, if_neg negative, distance, behind?, visibleAt?_eq, past]

theorem tokens_of_at? {index : Number} (placed : at? tokens index = .ok start) : start.tokens = tokens := by
  unfold at? at placed
  split at placed
  · split at placed
    · cases placed
      rw [tokens_forward, tokens_ofTokens]
    · cases placed
  · cases placed

theorem tokens_of_advance {target : Number} (advances : start.advance target = .ok behind) :
    behind.tokens = start.tokens := by
  cases steps : target.toNat? with
  | none => simp [advance, steps] at advances
  | some count =>
    rw [Number.eq_ofNat_of_toNat? steps] at advances
    obtain ⟨tokens, -, reads⟩ := advance_eq_ok_iff.mp advances
    exact reads.tokens_eq

theorem cursor_placed (stream : TokenStream) : stream.cursor.Placed := by
  refine ⟨Int.natCast_nonneg _, ?_⟩
  rw [cursor, size_cursor]
  exact Int.ofNat_le.mpr (Nat.le_add_right ..)

theorem before_cursor (stream : TokenStream) : stream.cursor.before = stream.passed := by
  rw [passed_eq]
  rfl

theorem ahead_cursor (stream : TokenStream) : stream.cursor.ahead = stream.ahead := by
  rw [ahead, remaining_eq]
  rfl

theorem past_cursor (stream : TokenStream) : stream.cursor.past = stream.past := by
  rw [Cursor.past, before_cursor, past]

theorem endFault_cursor (stream : TokenStream) : stream.cursor.endFault = stream.endFault := by
  rw [Cursor.endFault, endFault, cursor, size_cursor]
  rfl

theorem read_cursor_eq_ok_iff {token : Token} {after : Cursor} :
    Cursor.read stream.cursor = .ok token after ↔ ∃ next, stream.read? = some (token, next) ∧ after = next.cursor := by
  rw [read_cursor, read]
  cases reading : stream.read? with
  | none => simp [atCursor]
  | some result => simp [atCursor, Prod.ext_iff, eq_comm, and_assoc]

/-- Reading so many tokens leads where the stream has read them. -/
theorem readMany_cursor {after : Cursor} :
    Cursor.readMany count start.cursor = .ok tokens after ↔
      ∃ behind, tokens.length = count ∧ Reads start tokens behind ∧ after = behind.cursor := by
  induction count generalizing start tokens with
  | zero =>
    constructor
    · intro same
      cases same
      exact ⟨start, rfl, .nil _, rfl⟩
    · rintro ⟨behind, empty, reads, rfl⟩
      cases List.length_eq_zero_iff.mp empty
      cases reads
      rfl
  | succ count ih =>
    rw [Cursor.readMany, Stateful.bind_eq_ok_iff]
    constructor
    · rintro ⟨token, between, reading, rest⟩
      obtain ⟨next, read, rfl⟩ := read_cursor_eq_ok_iff.mp reading
      obtain ⟨others, last, many, same⟩ := Stateful.bind_eq_ok_iff.mp rest
      cases same
      obtain ⟨behind, length, reads, rfl⟩ := ih.mp many
      exact ⟨behind, by simp [length], .cons read reads, rfl⟩
    · rintro ⟨behind, length, reads, rfl⟩
      cases reads with
      | nil => cases length
      | cons read rest =>
        have many := ih.mpr ⟨behind, Nat.succ.inj length, rest, rfl⟩
        exact ⟨_, _, read_cursor_eq_ok_iff.mpr ⟨_, read, rfl⟩, Stateful.bind_eq_ok_iff.mpr ⟨_, _, many, rfl⟩⟩

/-- An index among the tokens is that of a stream. -/
theorem exists_cursor {cursor : Cursor} (placed : cursor.Placed) : ∃ stream : TokenStream, stream.cursor = cursor := by
  obtain ⟨tokens, position⟩ := cursor
  obtain ⟨index, rfl⟩ := Int.eq_ofNat_of_zero_le placed.nonneg
  exact ⟨_, cursor_forward tokens.toList (Int.ofNat_le.mp placed.le_size)⟩

theorem advance_cursor_eq_ok_iff {after : Cursor} : Cursor.advance (.ofNat count) start.cursor = .ok () after ↔
    ∃ tokens behind, tokens.length = count ∧ Reads start tokens behind ∧ after = behind.cursor := by
  rw [advance_cursor]
  cases advances : start.advance (.ofNat count) with
  | ok place =>
    obtain ⟨tokens, length, reads⟩ := advance_eq_ok_iff.mp advances
    constructor
    · intro same
      cases same
      exact ⟨tokens, place, length, reads, rfl⟩
    · rintro ⟨others, behind, length', reads', rfl⟩
      cases (advance_eq_ok_iff.mpr ⟨others, length', reads'⟩).symm.trans advances
      rfl
  | error fault =>
    refine iff_of_false nofun ?_
    rintro ⟨tokens, behind, length, reads, -⟩
    cases (advance_eq_ok_iff.mpr ⟨tokens, length, reads⟩).symm.trans advances

theorem atCursor_eq_error_iff {α : Type} {result : Except Fault (α × TokenStream)} {stop : CursorStop} {after : Cursor} :
    stream.atCursor result = .error stop after ↔
      ∃ fault, result = .error fault ∧ stop = .fault fault ∧ after = stream.cursor := by
  cases result with
  | ok result => simp [atCursor]
  | error fault => simp [atCursor, eq_comm]

/-- What fails at the end only stops there, with the fault that says so, and leaves the cursor where it is. -/
theorem stops_iff {α : Type} {result : Except Fault (α × TokenStream)} {stop : CursorStop} {after : Cursor}
    (fails_iff : ∀ fault, result = .error fault ↔ stream.hasMore = false ∧ fault = stream.endFault) :
    stream.atCursor result = .error stop after ↔
      Cursor.hasMore stream.cursor = .ok false stream.cursor ∧ stop = .fault stream.cursor.endFault ∧
        after = stream.cursor := by
  simp only [hasMore_cursor, endFault_cursor, atCursor_eq_error_iff, fails_iff]
  constructor
  · rintro ⟨fault, ⟨ended, rfl⟩, same, unmoved⟩
    exact ⟨by rw [ended], same, unmoved⟩
  · rintro ⟨ended, same, unmoved⟩
    exact ⟨_, ⟨by simpa using ended, rfl⟩, same, unmoved⟩

theorem agrees (stream : TokenStream) : stream.cursor.Agrees where
  hasMore_returns := by
    have more : stream.hasMore = !stream.ahead.isEmpty := by
      cases hasMore : stream.hasMore with
      | false => simp [hasMore_eq_false_iff.mp hasMore]
      | true =>
        have some_ahead : stream.ahead ≠ [] := fun none_ahead =>
          Bool.false_ne_true ((hasMore_eq_false_iff.mpr none_ahead).symm.trans hasMore)
        simp [some_ahead]
    rw [hasMore_cursor, ahead_cursor, more]
  current_stops_iff stop after := by
    rw [current_cursor]
    refine stops_iff fun fault => ?_
    rw [current_eq_read, ← read_eq_error_iff]
    cases stream.read <;> simp [Except.map]
  read_stops_iff stop after := by
    rw [read_cursor]
    exact stops_iff fun _ => read_eq_error_iff
  advance_succeeds_iff count := by
    rw [ahead_cursor, ← exists_reads_of_length_iff]
    simp only [advance_cursor_eq_ok_iff]
    constructor
    · rintro ⟨after, tokens, behind, length, reads, -⟩
      exact ⟨tokens, behind, length, reads⟩
    · rintro ⟨tokens, behind, length, reads⟩
      exact ⟨_, tokens, behind, length, reads, rfl⟩
  advance_iff_reads count after := by
    rw [advance_cursor_eq_ok_iff]
    simp only [readMany_cursor]
  peek_ahead offset := by
    rw [peek_cursor, peek?_ofNat]
    congr 1
    cases many : Cursor.readMany (offset + 1) stream.cursor with
    | ok tokens after =>
      obtain ⟨behind, length, reads, -⟩ := readMany_cursor.mp many
      rw [ahead_of_reads reads, List.getElem?_append_left (by omega)]
    | error stop after =>
      have few : ¬ offset + 1 ≤ stream.ahead.length := by
        rw [← exists_reads_of_length_iff]
        rintro ⟨tokens, behind, length, reads⟩
        cases (readMany_cursor.mpr ⟨behind, length, reads, rfl⟩).symm.trans many
      rw [List.getElem?_eq_none (by omega)]
  peek_behind offset := by rw [peek_cursor, peek?_neg, past_cursor]
  peek_lookbehind offset := by
    refine ⟨_, _, stream.lookbehind_cursor, stream.lookbehind.peek_cursor _, ?_⟩
    rw [peek_cursor, peek?_neg, peek?_ofNat]
    rfl

/-- A call comes to an answer and a place among the same tokens, or it fails and leaves the cursor where it is. -/
def Stays (stream : TokenStream) : EStateM.Result CursorStop Cursor CursorAnswer → Prop
  | .ok answer after => ∃ behind : TokenStream, after = behind.cursor ∧ behind.tokens = stream.tokens ∧
      ∀ made, answer = .cursor made →
        ∃ other : TokenStream, made = other.cursor ∧ (other.tokens = stream.tokens ∨ other.tokens = stream.passed)
  | .error stop after => after = stream.cursor ∧ ∃ fault, stop = .fault fault

theorem stays_of_kept {α : Type} {work : Cursoring α} {answer : α → CursorAnswer}
    {result : Except Fault (α × TokenStream)} (does : work stream.cursor = stream.atCursor result)
    (plain : ∀ found made, answer found ≠ .cursor made)
    (kept : ∀ found behind, result = .ok (found, behind) → behind.tokens = stream.tokens) :
    stream.Stays ((answer <$> work) stream.cursor) := by
  rw [Stateful.map_apply, does]
  cases result with
  | ok result => exact ⟨result.2, rfl, kept _ _ rfl, fun made same => absurd same (plain _ _)⟩
  | error fault => exact ⟨rfl, fault, rfl⟩

theorem stays_of_moved {α : Type} {work : Cursoring α} {answer : α → CursorAnswer} {found : α}
    (does : work stream.cursor = .ok found behind.cursor) (plain : ∀ found made, answer found ≠ .cursor made)
    (kept : behind.tokens = stream.tokens) : stream.Stays ((answer <$> work) stream.cursor) := by
  rw [Stateful.map_apply, does]
  exact ⟨behind, rfl, kept, fun made same => absurd same (plain _ _)⟩

theorem stays_of_found {α : Type} {work : Cursoring α} {answer : α → CursorAnswer} {found : α}
    (does : work stream.cursor = .ok found stream.cursor) (plain : ∀ found made, answer found ≠ .cursor made) :
    stream.Stays ((answer <$> work) stream.cursor) :=
  stays_of_moved does plain rfl

theorem stays_of_copied {work : Cursoring Cursor} {other : TokenStream}
    (does : work stream.cursor = .ok other.cursor stream.cursor)
    (among : other.tokens = stream.tokens ∨ other.tokens = stream.passed) :
    stream.Stays ((CursorAnswer.cursor <$> work) stream.cursor) := by
  rw [Stateful.map_apply, does]
  refine ⟨stream, rfl, rfl, fun made same => ?_⟩
  cases same
  exact ⟨other, rfl, among⟩

theorem stays_of_made {work : Cursoring Cursor} {result : Except Fault TokenStream}
    (does : work stream.cursor = stream.atCursor (result.map fun made => (made.cursor, stream)))
    (among : ∀ made, result = .ok made → made.tokens = stream.tokens ∨ made.tokens = stream.passed) :
    stream.Stays ((CursorAnswer.cursor <$> work) stream.cursor) := by
  cases result with
  | error fault =>
    rw [Stateful.map_apply, does]
    exact ⟨rfl, fault, rfl⟩
  | ok other => exact stays_of_copied does (among _ rfl)

theorem tokens_of_moves {result : Except Fault TokenStream} {found : Unit}
    (kept : ∀ place, result = .ok place → place.tokens = stream.tokens)
    (moves : (result.map fun place => ((), place)) = .ok (found, behind)) : behind.tokens = stream.tokens := by
  cases result with
  | ok place =>
    cases moves
    exact kept _ rfl
  | error fault => cases moves

theorem stays_advanceTo (stream : TokenStream) (target : Number) :
    stream.Stays (((fun _ => CursorAnswer.done) <$> Cursor.advanceTo target) stream.cursor) :=
  stays_of_kept (stream.advanceTo_cursor target) nofun fun _ _ =>
    tokens_of_moves fun _ moves => (bounds_of_moveTo moves).2.2.2

/-- One call on the cursor of a stream. -/
theorem stays_call (stream : TokenStream) (call : CursorCall) : stream.Stays (Cursor.call call stream.cursor) := by
  cases call with
  | hasMore => exact stays_of_found stream.hasMore_cursor nofun
  | current =>
    refine stays_of_kept stream.current_cursor nofun fun token behind found => ?_
    cases current : stream.current with
    | ok =>
      rw [current] at found
      cases found
      rfl
    | error =>
      rw [current] at found
      cases found
  | read =>
    refine stays_of_kept stream.read_cursor nofun fun token behind read => ?_
    exact (Reads.single (read_eq_ok_iff_read?.mp read)).tokens_eq
  | peek offset => exact stays_of_found (stream.peek_cursor _) nofun
  | previous => exact stays_of_found (stream.peek_cursor _) nofun
  | advance count =>
    exact stays_of_kept (stream.advance_cursor _) nofun fun _ _ => tokens_of_moves fun _ => tokens_of_advance
  | advanceTo target => exact stream.stays_advanceTo _
  | advanceToPlaceOf target => exact stream.stays_advanceTo _
  | skipShadows => exact stays_of_moved stream.skipShadows_cursor nofun (tokens_forward ..)
  | resetToStart => exact stays_of_moved stream.resetToStart_cursor nofun (tokens_ofTokens _)
  | lookahead => exact stays_of_copied rfl (.inl rfl)
  | lookbehind => exact stays_of_copied stream.lookbehind_cursor (.inr (tokens_ofTokens _))
  | copyWithIndex index =>
    exact stays_of_made (stream.copyWithIndex_cursor _) fun made copied => .inl (tokens_of_at? copied)

/-- What one call does to a cursor whose index lies among its tokens. -/
theorem staysAmongTokens_perform (stream : TokenStream) (call : CursorCall) :
    (stream.cursor.perform call).StaysAmongTokens := by
  have stays := stream.stays_call call
  rw [Cursor.perform]
  cases called : Cursor.call call stream.cursor with
  | error stop after =>
    rw [called] at stays
    obtain ⟨rfl, fault, rfl⟩ := stays
    refine ⟨rfl, stream.cursor_placed, fun stop same => ?_, nofun⟩
    cases same
    exact ⟨rfl, fault, rfl⟩
  | ok answer after =>
    rw [called] at stays
    obtain ⟨behind, rfl, kept, makes⟩ := stays
    refine ⟨congrArg List.toArray kept, behind.cursor_placed, nofun, fun made member => ?_⟩
    cases answer with
    | cursor =>
      cases List.mem_singleton.mp member
      obtain ⟨other, rfl, among⟩ := makes _ rfl
      refine ⟨other.cursor_placed, among.imp (congrArg List.toArray) fun back => ?_⟩
      rw [before_cursor]
      exact back
    | _ => cases member

end TokenStream

namespace Cursor

variable {start : Cursor} {events : List CursorEvent} {cursors : List Cursor}

theorem before_perform (cursor : Cursor) (made : CursorCall) : (cursor.perform made).before = cursor := by
  rw [perform]
  cases call made cursor <;> rfl

theorem Placed.staysAmongTokens {cursor : Cursor} (placed : cursor.Placed) (call : CursorCall) :
    (cursor.perform call).StaysAmongTokens := by
  obtain ⟨stream, rfl⟩ := TokenStream.exists_cursor placed
  exact stream.staysAmongTokens_perform call

theorem Placed.agrees {cursor : Cursor} (placed : cursor.Placed) : cursor.Agrees := by
  obtain ⟨stream, rfl⟩ := TokenStream.exists_cursor placed
  exact stream.agrees

/-- Calls never bring the index of a cursor out of its tokens. -/
theorem Performed.placed (performed : Performed start events cursors) (placed : start.Placed) :
    ∀ cursor ∈ cursors, cursor.Placed := by
  induction performed with
  | none => exact List.forall_mem_singleton.mpr placed
  | @next events cursors performed number cursor there call ih =>
    have stays := (ih cursor (List.mem_of_getElem? there)).staysAmongTokens call
    intro other member
    rcases List.mem_append.mp member with kept | made
    · rcases List.mem_or_eq_of_mem_set kept with earlier | rfl
      · exact ih other earlier
      · exact stays.placed
    · exact (stays.made other made).1

theorem Performed.staysAmongTokens (performed : Performed start events cursors) (placed : start.Placed) :
    ∀ event ∈ events, event.StaysAmongTokens := by
  induction performed with
  | none => exact fun event member => absurd member List.not_mem_nil
  | @next events cursors performed number cursor there call ih =>
    intro event member
    rcases List.mem_append.mp member with earlier | last
    · exact ih event earlier
    · rw [List.mem_singleton.mp last]
      exact (performed.placed placed cursor (List.mem_of_getElem? there)).staysAmongTokens call

/-- The first cursor stays over the tokens that it was made for. -/
theorem Performed.exists_first (performed : Performed start events cursors) (placed : start.Placed) :
    ∃ first, cursors[0]? = some first ∧ first.tokens = start.tokens := by
  induction performed with
  | none => exact ⟨start, rfl, rfl⟩
  | @next events cursors performed number cursor there call ih =>
    obtain ⟨first, is_first, kept⟩ := ih
    obtain ⟨filled, -⟩ := List.getElem?_eq_some_iff.mp is_first
    rw [List.getElem?_append_left (by simpa using filled), List.getElem?_set]
    split
    · rename_i same
      subst same
      cases there.symm.trans is_first
      have stays := (performed.placed placed cursor (List.mem_of_getElem? there)).staysAmongTokens call
      refine ⟨(cursor.perform call).after, by simp [filled], ?_⟩
      rw [stays.tokens_eq, before_perform, kept]
    · exact ⟨first, is_first, kept⟩

/-- A cursor can be started at every index up to the number of the tokens. Calls never bring the index of a cursor out
of its tokens, those that fail leave it alone, and behind each of them the operations of every cursor agree. -/
theorem cursors_agree {tokens : Array Token} {index : Nat} (valid : index ≤ tokens.size) :
    ∃ start, of tokens (.ofNat index) = .ok start ∧ start = ⟨tokens, index⟩ ∧
      ∀ events cursors, Performed start events cursors →
        (∃ first, cursors[0]? = some first ∧ first.tokens = tokens) ∧
          (∀ event ∈ events, event.StaysAmongTokens) ∧ ∀ cursor ∈ cursors, cursor.Placed ∧ cursor.Agrees := by
  have placed : Placed ⟨tokens, index⟩ := ⟨Int.natCast_nonneg _, Int.ofNat_le.mpr valid⟩
  have starts : of tokens (.ofNat index) = .ok ⟨tokens, index⟩ := by
    rw [of, Number.toInt?_ofNat]
    exact if_pos ⟨placed.nonneg, placed.le_size⟩
  refine ⟨_, starts, rfl, fun events cursors performed => ?_⟩
  refine ⟨performed.exists_first placed, performed.staysAmongTokens placed, fun cursor member => ?_⟩
  have stays := performed.placed placed cursor member
  exact ⟨stays, stays.agrees⟩

/-- Behind a read, a cursor finds the same token as the cursor that it looks back with. -/
theorem cursors_agree_behind_read : ∃ start events first back,
    2 ≤ Brackets.stream.tokens.toArray.size ∧ of Brackets.stream.tokens.toArray 2 = .ok start ∧
      Performed start events [first, back] ∧ first.tokens = Brackets.stream.tokens.toArray ∧
      peek (.finite (-2)) first = .ok (some Brackets.opening) first ∧
      peek 1 back = .ok (some Brackets.opening) back := by
  have valid : 2 ≤ Brackets.stream.tokens.toArray.size := by decide
  obtain ⟨start, starts, same, calls⟩ := cursors_agree valid
  cases same
  have main : [(Brackets.stream.forward 2).cursor][0]? = some (Brackets.stream.forward 2).cursor := rfl
  have reads : (Brackets.stream.forward 2).cursor.perform .read =
      ⟨(Brackets.stream.forward 2).cursor, .read, .ok (.token Brackets.opening), (Brackets.stream.forward 4).cursor⟩ := by
    rw [perform, call, Stateful.map_apply, TokenStream.read_cursor]
    rfl
  have looks : (Brackets.stream.forward 4).cursor.perform .lookbehind =
      ⟨(Brackets.stream.forward 4).cursor, .lookbehind, .ok (.cursor (Brackets.stream.forward 4).lookbehind.cursor),
        (Brackets.stream.forward 4).cursor⟩ := by
    rw [perform, call, Stateful.map_apply, TokenStream.lookbehind_cursor]
  have moved : [(Brackets.stream.forward 4).cursor][0]? = some (Brackets.stream.forward 4).cursor := rfl
  have first := Performed.none.next main .read
  rw [reads] at first
  have performed := first.next moved .lookbehind
  rw [looks] at performed
  obtain ⟨⟨other, is_first, kept⟩, -, agree⟩ := calls _ _ performed
  cases is_first
  have agrees := (agree _ (List.mem_cons_self ..)).2
  obtain ⟨back, found, looked, ahead, behind⟩ := agrees.peek_lookbehind 1
  have same := agrees.peek_behind 1
  rw [TokenStream.past_cursor] at same
  cases same.symm.trans behind
  cases (TokenStream.lookbehind_cursor _).symm.trans looked
  exact ⟨_, _, _, _, valid, starts, performed, kept, same, ahead⟩

end Cursor

end TokenGrammar
