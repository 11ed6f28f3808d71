import TokenGrammar.Cursor
import TokenGrammar.Proofs.Reading
import TokenGrammar.Proofs.Stateful

namespace TokenGrammar

theorem Number.toNat?_eq (number : Number) :
    number.toNat? = number.toInt?.bind fun whole => if 0 ≤ whole then some whole.toNat else none := by
  cases number with
  | finite value =>
    simp only [toNat?, toInt?]
    by_cases whole : value.den = 1 <;> simp [whole]
  | _ => rfl

theorem Number.toInt?_ofNat (count : Nat) : (Number.ofNat count).toInt? = some (count : Int) := by
  simp [ofNat, toInt?]

/-- The cursor at the place of a stream. -/
def TokenStream.cursor (stream : TokenStream) : Cursor := ⟨stream.tokens.toArray, stream.index⟩

namespace Cursor

variable {before rest passed remaining : List Token} {token : Token} {offset : Number}

@[simp] theorem tokenAt?_length (before rest : List Token) :
    tokenAt? (before ++ rest).toArray before.length = rest.head? := by
  simp [tokenAt?, List.getElem?_append_right, List.head?_eq_getElem?]

theorem length_lt_size (before : List Token) (token : Token) (rest : List Token) :
    (before.length : Int) < (before ++ token :: rest).toArray.size := by
  rw [List.size_toArray, List.length_append, List.length_cons]
  omega

theorem tokenAt_length (before : List Token) (token : Token) (rest : List Token) :
    tokenAt (before ++ token :: rest).toArray before.length = .ok token := by
  simp [tokenAt]

/-- The next visible token stands behind the shadows in front of it. -/
theorem visibleFrom_append (before rest : List Token) :
    visibleFrom (before ++ rest).toArray before.length =
      .ok (before.length + (rest.takeWhile Token.isShadow).length : Int) := by
  induction rest generalizing before with
  | nil =>
    rw [visibleFrom, dif_neg (by simp)]
    simp [pure, Except.pure]
  | cons token rest ih =>
    rw [visibleFrom, dif_pos (length_lt_size ..), tokenAt_length]
    have next : (before.length + 1 : Int) = (before ++ [token]).length := by simp
    have further : before ++ token :: rest = (before ++ [token]) ++ rest := by simp
    cases shadow : token.isShadow with
    | true =>
      rw [next, further, ih]
      simp only [bind, Except.bind, shadow, if_true, List.takeWhile_cons, List.length_cons, ← next]
      congr 1
      omega
    | false => simp [bind, Except.bind, shadow, pure, Except.pure]

/-- The last visible token stands in front of the shadows behind it. -/
theorem visibleBefore_append (passed remaining : List Token) :
    visibleBefore (passed.reverse ++ remaining).toArray (passed.length - 1 : Int) =
      .ok ((passed.dropWhile Token.isShadow).length - 1 : Int) := by
  induction passed generalizing remaining with
  | nil =>
    rw [visibleBefore, dif_neg (by simp)]
    rfl
  | cons token passed ih =>
    have here : ((token :: passed).length - 1 : Int) = passed.reverse.length := by simp
    rw [here, visibleBefore, dif_pos (by omega), List.reverse_cons, List.append_assoc, List.singleton_append,
      tokenAt_length]
    cases shadow : token.isShadow with
    | true =>
      have further := ih (token :: remaining)
      simp only [bind, Except.bind, if_true, shadow, List.dropWhile_cons, List.length_reverse, further]
    | false => simp [bind, Except.bind, shadow, pure, Except.pure]

/-- Tokens are shadows throughout, or a visible one stands behind the first shadows. -/
theorem exists_visible (tokens : List Token) :
    (∀ token ∈ tokens, token.isShadow = true) ∨ ∃ shadows token behind,
      (∀ shadow ∈ shadows, shadow.isShadow = true) ∧ token.isShadow = false ∧ tokens = shadows ++ token :: behind := by
  induction tokens with
  | nil => exact .inl nofun
  | cons token rest ih =>
    cases visible : token.isShadow with
    | false => exact .inr ⟨[], token, rest, nofun, visible, rfl⟩
    | true =>
      rcases ih with all | ⟨shadows, found, behind, hidden, visible', rfl⟩
      · exact .inl (List.forall_mem_cons.mpr ⟨visible, all⟩)
      · exact .inr ⟨token :: shadows, found, behind, List.forall_mem_cons.mpr ⟨visible, hidden⟩, visible', rfl⟩

theorem visibleAt?_of_shadows {tokens : List Token} (hidden : ∀ token ∈ tokens, token.isShadow = true) (number : Nat) :
    TokenStream.visibleAt? tokens number = none := by
  have none_visible : tokens.filter Token.isVisible = [] := by
    rw [List.filter_eq_nil_iff]
    intro token member
    simp [Token.isVisible, hidden token member]
  rw [TokenStream.visibleAt?_eq, none_visible, List.getElem?_nil]

theorem visibleAt?_append {shadows : List Token} (hidden : ∀ shadow ∈ shadows, shadow.isShadow = true)
    (visible : token.isShadow = false) (number : Nat) :
    TokenStream.visibleAt? (shadows ++ token :: rest) number = match number with
      | 0 => some token
      | number + 1 => TokenStream.visibleAt? rest number := by
  induction shadows with
  | nil =>
    have seen : token.isVisible = true := by simp [Token.isVisible, visible]
    cases number <;> simp [TokenStream.visibleAt?, seen]
  | cons shadow shadows ih =>
    obtain ⟨dark, hidden⟩ := List.forall_mem_cons.mp hidden
    have unseen : shadow.isVisible = false := by simp [Token.isVisible, dark]
    rw [← ih hidden]
    simp [TokenStream.visibleAt?, unseen]

theorem takeWhile_append {shadows : List Token} (hidden : ∀ shadow ∈ shadows, shadow.isShadow = true)
    (visible : token.isShadow = false) : (shadows ++ token :: rest).takeWhile Token.isShadow = shadows := by
  rw [List.takeWhile_append_of_pos hidden]
  simp [visible]

/-- What is found at an index where a look around ends. -/
def found? (tokens : Array Token) (index : Int) : Option Token :=
  if 0 ≤ index ∧ index < tokens.size then tokenAt? tokens index else none

theorem found?_length (before rest : List Token) : found? (before ++ rest).toArray before.length = rest.head? := by
  cases rest with
  | nil => rw [found?, if_neg (by simp), List.head?_nil]
  | cons token rest => rw [found?, if_pos ⟨Int.natCast_nonneg _, length_lt_size ..⟩, tokenAt?_length]

theorem peekAhead_next {tokens : Array Token} {count : Nat} {index next : Int}
    (more : (Number.ofNat count).lessThan offset = true) (inside : index < tokens.size)
    (located : visibleFrom tokens (index + 1) = .ok next) :
    peekAhead tokens offset count index = peekAhead tokens offset (count + 1) next := by
  rw [peekAhead, dif_pos ⟨more, inside⟩]
  split
  · rename_i stops
    cases located.symm.trans stops
  · rename_i locates
    cases located.symm.trans locates
    rfl

/-- Among shadows nothing is found. -/
theorem exists_peekAhead_of_shadows {count : Nat} {steps : Nat} (hidden : ∀ token ∈ rest, token.isShadow = true) :
    ∃ index, peekAhead (before ++ rest).toArray offset count
        (before.length + (rest.takeWhile Token.isShadow).length : Int) = .ok index ∧
      found? (before ++ rest).toArray index = TokenStream.visibleAt? rest steps := by
  have all : (rest ++ []).takeWhile Token.isShadow = rest ++ ([] : List Token).takeWhile Token.isShadow :=
    List.takeWhile_append_of_pos hidden
  simp only [List.append_nil, List.takeWhile_nil] at all
  refine ⟨_, by rw [peekAhead, dif_neg (by simp [all])], ?_⟩
  rw [visibleAt?_of_shadows hidden, found?, if_neg (by simp [all])]

/-- To go on to the next visible token so often is to find the one of that number. -/
theorem peekAhead_append (steps count : Nat) (before rest : List Token)
    (goes : ∀ step < steps, (Number.ofNat (count + step)).lessThan offset = true)
    (ends : (Number.ofNat (count + steps)).lessThan offset = false ∨ rest.length ≤ steps) :
    ∃ index, peekAhead (before ++ rest).toArray offset count
        (before.length + (rest.takeWhile Token.isShadow).length : Int) = .ok index ∧
      found? (before ++ rest).toArray index = TokenStream.visibleAt? rest steps := by
  induction steps generalizing count before rest with
  | zero =>
    rcases exists_visible rest with hidden | ⟨shadows, token, behind, hidden, visible, rfl⟩
    · exact exists_peekAhead_of_shadows hidden
    · have stays : (Number.ofNat count).lessThan offset = false := by simpa using ends
      have here : (before.length + shadows.length : Int) = (before ++ shadows).length := by simp
      rw [takeWhile_append hidden visible, visibleAt?_append hidden visible, here, ← List.append_assoc]
      exact ⟨_, by rw [peekAhead, dif_neg (by simp [stays])], found?_length ..⟩
  | succ steps ih =>
    rcases exists_visible rest with hidden | ⟨shadows, token, behind, hidden, visible, rfl⟩
    · exact exists_peekAhead_of_shadows hidden
    · have moves : (Number.ofNat count).lessThan offset = true := goes 0 (Nat.zero_lt_succ _)
      have passed : before ++ (shadows ++ token :: behind) = (before ++ shadows ++ [token]) ++ behind := by simp
      have further : (before.length + shadows.length + 1 : Int) = (before ++ shadows ++ [token]).length := by
        simp
        omega
      have inside : (before.length + shadows.length : Int) < (before ++ (shadows ++ token :: behind)).toArray.size := by
        have lies := length_lt_size (before ++ shadows) token behind
        rw [List.append_assoc, List.length_append, Int.natCast_add] at lies
        exact lies
      rw [takeWhile_append hidden visible, visibleAt?_append hidden visible, passed,
        peekAhead_next moves (passed ▸ inside) (by rw [further, visibleFrom_append])]
      refine ih (count + 1) _ behind (fun step inside => ?_) ?_
      · have goes := goes (step + 1) (Nat.succ_lt_succ inside)
        rwa [Nat.add_comm step, ← Nat.add_assoc] at goes
      · refine ends.imp (fun stays => ?_) fun few => ?_
        · rwa [Nat.add_comm steps, ← Nat.add_assoc] at stays
        · simp at few
          omega

theorem peekBack_next {tokens : Array Token} {count : Nat} {index next : Int}
    (more : offset.lessThan (.finite (-count)) = true) (inside : 0 ≤ index)
    (located : visibleBefore tokens (index - 1) = .ok next) :
    peekBack tokens offset count index = peekBack tokens offset (count + 1) next := by
  rw [peekBack, dif_pos ⟨more, inside⟩]
  split
  · rename_i stops
    cases located.symm.trans stops
  · rename_i locates
    cases located.symm.trans locates
    rfl

theorem dropWhile_append {shadows : List Token} (hidden : ∀ shadow ∈ shadows, shadow.isShadow = true)
    (visible : token.isShadow = false) : (shadows ++ token :: rest).dropWhile Token.isShadow = token :: rest := by
  rw [List.dropWhile_append_of_pos hidden]
  simp [visible]

theorem passed_split (shadows behind remaining : List Token) (token : Token) :
    (shadows ++ token :: behind).reverse ++ remaining =
      behind.reverse ++ token :: (shadows.reverse ++ remaining) := by
  simp

/-- Behind shadows alone nothing is found. -/
theorem exists_peekBack_of_shadows {count steps : Nat} (hidden : ∀ token ∈ passed, token.isShadow = true) :
    ∃ index, peekBack (passed.reverse ++ remaining).toArray offset (count + 1)
        ((passed.dropWhile Token.isShadow).length - 1 : Int) = .ok index ∧
      found? (passed.reverse ++ remaining).toArray index = TokenStream.visibleAt? passed steps := by
  have none_left : passed.dropWhile Token.isShadow = [] := by
    have all : (passed ++ []).dropWhile Token.isShadow = ([] : List Token).dropWhile Token.isShadow :=
      List.dropWhile_append_of_pos hidden
    simpa using all
  refine ⟨-1, by rw [none_left, peekBack, dif_neg (by simp)]; rfl, ?_⟩
  rw [visibleAt?_of_shadows hidden, found?, if_neg (by omega)]

/-- To go back so often is to find the visible token of that number among those passed. -/
theorem peekBack_append (steps count : Nat) (passed remaining : List Token)
    (goes : ∀ step ≤ steps, offset.lessThan (.finite (-(count + step : Nat))) = true)
    (ends : offset.lessThan (.finite (-(count + steps + 1 : Nat))) = false ∨ passed.length ≤ steps) :
    ∃ index, peekBack (passed.reverse ++ remaining).toArray offset count passed.length = .ok index ∧
      found? (passed.reverse ++ remaining).toArray index = TokenStream.visibleAt? passed steps := by
  induction steps generalizing count passed remaining with
  | zero =>
    have moves : offset.lessThan (.finite (-count)) = true := goes 0 (Nat.le_refl 0)
    rw [peekBack_next moves (by omega) (visibleBefore_append passed remaining)]
    rcases exists_visible passed with hidden | ⟨shadows, token, behind, hidden, visible, rfl⟩
    · exact exists_peekBack_of_shadows hidden
    · have stays : offset.lessThan (.finite (-(count + 1 : Nat))) = false := by simpa using ends
      rw [visibleAt?_append hidden visible, passed_split, dropWhile_append hidden visible]
      have further : ((token :: behind).length - 1 : Int) = behind.length := by simp
      refine ⟨behind.length, ?_, by simpa using found?_length behind.reverse (token :: _)⟩
      rw [further, peekBack, dif_neg fun more => Bool.false_ne_true (stays.symm.trans more.1)]
  | succ steps ih =>
    have moves : offset.lessThan (.finite (-count)) = true := goes 0 (Nat.zero_le _)
    rw [peekBack_next moves (by omega) (visibleBefore_append passed remaining)]
    rcases exists_visible passed with hidden | ⟨shadows, token, behind, hidden, visible, rfl⟩
    · exact exists_peekBack_of_shadows hidden
    · rw [visibleAt?_append hidden visible, passed_split, dropWhile_append hidden visible]
      have further : ((token :: behind).length - 1 : Int) = behind.length := by simp
      rw [further]
      refine ih (count + 1) behind _ (fun step inside => ?_) ?_
      · have goes := goes (step + 1) (Nat.succ_le_succ inside)
        rwa [Nat.add_comm step, ← Nat.add_assoc] at goes
      · refine ends.imp (fun stays => ?_) fun few => ?_
        · rwa [Nat.add_comm steps, ← Nat.add_assoc] at stays
        · simp at few
          omega

end Cursor

namespace TokenStream

open Cursor

variable {stream next : TokenStream} {token : Token}

@[simp] theorem size_cursor (stream : TokenStream) : stream.tokens.toArray.size = stream.size := by
  rw [size_eq_length]
  rfl

theorem visibleFrom_cursor (stream : TokenStream) :
    visibleFrom stream.tokens.toArray stream.index = .ok (stream.index + stream.shadows.length : Int) := by
  rw [stream.index_eq, ← stream.passed.length_reverse]
  exact visibleFrom_append ..

/-- The token that is read next stands behind the shadows, and the place behind it is the next one. -/
theorem place_of_read? (read : stream.read? = some (token, next)) :
    tokenAt? stream.tokens.toArray (stream.index + stream.shadows.length : Int) = some token ∧
      next.index = stream.index + stream.shadows.length + 1 := by
  obtain ⟨visible, shadows, hidden, remaining, passed⟩ := read?_eq_some_iff.mp read
  have seen : token.isShadow = false := by simpa [Token.isVisible] using visible
  have shadows_eq : stream.shadows = shadows := by rw [TokenStream.shadows, remaining, takeWhile_append hidden seen]
  have tokens_eq : stream.tokens = (stream.passed.reverse ++ shadows) ++ token :: next.remaining := by
    rw [tokens, remaining, List.append_assoc]
  have here : (stream.index + shadows.length : Int) = (stream.passed.reverse ++ shadows).length := by
    simp [stream.index_eq]
  constructor
  · rw [shadows_eq, tokens_eq, here, tokenAt?_length]
    rfl
  · rw [next.index_eq, passed, stream.index_eq, shadows_eq]
    simp
    omega

/-- The shadows ahead end before the tokens do exactly where a visible one remains. -/
theorem lt_size_iff (stream : TokenStream) :
    (stream.index + stream.shadows.length : Int) < stream.size ↔ stream.hasMore = true := by
  cases more : stream.hasMore with
  | true =>
    obtain ⟨token, next, read⟩ := exists_read_of_hasMore more
    have inside := (Reads.single read).index_le_size
    rw [(place_of_read? read).2] at inside
    exact iff_of_true (by omega) rfl
  | false =>
    have hidden : ∀ token ∈ stream.remaining, token.isShadow = true := by
      simpa [hasMore, Token.isVisible] using more
    have all : (stream.remaining ++ []).takeWhile Token.isShadow =
        stream.remaining ++ ([] : List Token).takeWhile Token.isShadow := List.takeWhile_append_of_pos hidden
    simp only [List.append_nil, List.takeWhile_nil] at all
    simp [shadows, all, size]

/-- The index behind so many visible tokens is that of the stream that has read as many. -/
theorem advanceFrom_cursor (fault : Fault) (steps : Nat) (stream : TokenStream) :
    advanceFrom stream.tokens.toArray fault steps stream.index = match stream.skip? steps with
      | some behind => .ok (behind.index : Int)
      | none => .error (.fault fault) := by
  induction steps generalizing stream with
  | zero => rfl
  | succ steps ih =>
    rw [advanceFrom, visibleFrom_cursor, skip?]
    simp only [bind, Except.bind, size_cursor]
    cases read : stream.read? with
    | none =>
      have ends : ¬ (stream.index + stream.shadows.length : Int) < stream.size := by
        rw [lt_size_iff, read?_eq_none_iff.mp read]
        exact Bool.false_ne_true
      rw [if_neg ends]
      rfl
    | some result =>
      obtain ⟨token, next⟩ := result
      have more : (stream.index + stream.shadows.length : Int) < stream.size := by
        rw [lt_size_iff, ← isSome_read?, read]
        rfl
      have behind : (stream.index + stream.shadows.length + 1 : Int) = next.index := by
        rw [(place_of_read? read).2]
        omega
      rw [if_pos more, behind, ← (Reads.single read).tokens_eq]
      exact ih next

end TokenStream

namespace TokenStream

open Cursor Stateful

variable {stream : TokenStream}

/-- What an operation of a stream comes to for its cursor. -/
def atCursor {α : Type} (stream : TokenStream) : Except Fault (α × TokenStream) → EStateM.Result CursorStop Cursor α
  | .ok (answer, behind) => .ok answer behind.cursor
  | .error fault => .error (.fault fault) stream.cursor

theorem hasMore_cursor (stream : TokenStream) : Cursor.hasMore stream.cursor = .ok stream.hasMore stream.cursor := by
  have more : decide ((stream.index + stream.shadows.length : Int) < stream.size) = stream.hasMore := by
    rw [Bool.eq_iff_iff, decide_eq_true_iff, lt_size_iff]
  simp only [Cursor.hasMore, bind_apply, self, cursor, ofResult, visibleFrom_cursor, size_cursor, more]
  rfl

/-- The current token is the one that is read next. -/
theorem current_eq_read (stream : TokenStream) : stream.current = stream.read.map Prod.fst := by
  rw [current, read, current?_eq]
  cases stream.read? <;> rfl

theorem current_cursor (stream : TokenStream) :
    Cursor.current stream.cursor = stream.atCursor (stream.current.map fun token => (token, stream)) := by
  rw [current_eq_read, TokenStream.read]
  simp only [Cursor.current, bind_apply, self, cursor, ofResult, visibleFrom_cursor, size_cursor, lt_size_iff,
    ← isSome_read?]
  cases read : stream.read? with
  | none => rfl
  | some result =>
    obtain ⟨token, next⟩ := result
    simp only [Option.isSome_some, if_true, tokenAt, (place_of_read? read).1]
    rfl

theorem read_cursor (stream : TokenStream) : Cursor.read stream.cursor = stream.atCursor stream.read := by
  rw [Cursor.read, bind_apply, current_cursor, current_eq_read, TokenStream.read]
  cases read : stream.read? with
  | none => rfl
  | some result =>
    obtain ⟨token, next⟩ := result
    have behind : next.cursor = ⟨stream.tokens.toArray, (stream.index + stream.shadows.length : Int) + 1⟩ := by
      rw [cursor, (Reads.single read).tokens_eq, (place_of_read? read).2]
      rfl
    simp only [Except.map, atCursor, bind_apply, self, cursor, ofResult, visibleFrom_cursor]
    exact congrArg (EStateM.Result.ok token) behind.symm

theorem skip?_eq_some_iff {start behind : TokenStream} {count : Nat} :
    start.skip? count = some behind ↔ ∃ tokens, tokens.length = count ∧ Reads start tokens behind := by
  induction count generalizing start with
  | zero =>
    rw [skip?]
    constructor
    · intro same
      cases same
      exact ⟨[], rfl, .nil _⟩
    · rintro ⟨tokens, empty, reads⟩
      cases List.length_eq_zero_iff.mp empty
      cases reads
      rfl
  | succ count ih =>
    rw [skip?]
    constructor
    · intro skips
      cases reading : start.read? with
      | none => simp [reading] at skips
      | some result =>
        rw [reading] at skips
        obtain ⟨tokens, length, reads⟩ := ih.mp skips
        exact ⟨result.1 :: tokens, by simp [length], .cons reading reads⟩
    · rintro ⟨tokens, length, reads⟩
      cases reads with
      | nil => cases length
      | cons reading rest =>
        rw [reading]
        exact ih.mpr ⟨_, Nat.succ.inj length, rest⟩

theorem advance_cursor (stream : TokenStream) (count : Number) :
    Cursor.advance count stream.cursor = stream.atCursor ((stream.advance count).map fun behind => ((), behind)) := by
  simp only [Cursor.advance, TokenStream.advance, bind_apply, self]
  cases count.toNat? with
  | none => rfl
  | some steps =>
    simp only [bind_apply, cursor, ofResult, advanceFrom_cursor, size_cursor]
    cases skips : stream.skip? steps with
    | none => rfl
    | some behind =>
      obtain ⟨tokens, -, reads⟩ := skip?_eq_some_iff.mp skips
      have place : behind.cursor = ⟨stream.tokens.toArray, behind.index⟩ := by rw [cursor, reads.tokens_eq]
      exact congrArg (EStateM.Result.ok ()) place.symm

theorem slice_of_le {tokens : List Token} {start finish : Nat} (ordered : start ≤ finish)
    (inside : finish ≤ tokens.length) :
    Cursor.slice tokens.toArray start finish = (tokens.drop start).take (finish - start) := by
  have place (bound : Nat) : sliceBound tokens.length (.finite ((bound : Int) : Rat)) = min bound tokens.length := by
    rw [Rat.intCast_natCast]
    exact sliceBound_ofNat tokens.length bound
  simp only [Cursor.slice, List.size_toArray, place, Nat.min_eq_left (Nat.le_trans ordered inside),
    Nat.min_eq_left inside]

theorem remaining_eq (stream : TokenStream) : stream.remaining = stream.tokens.drop stream.index := by
  rw [stream.index_eq, TokenStream.tokens, ← stream.passed.length_reverse, List.drop_left]

theorem passed_eq (stream : TokenStream) : stream.passed = (stream.tokens.take stream.index).reverse := by
  rw [stream.index_eq, TokenStream.tokens, ← stream.passed.length_reverse, List.take_left, List.reverse_reverse]

theorem skipShadows_cursor (stream : TokenStream) :
    Cursor.skipShadows stream.cursor = .ok stream.shadows stream.skipShadows.cursor := by
  have few : stream.shadows.length ≤ stream.remaining.length := (List.takeWhile_prefix _).length_le
  have inside : stream.index + stream.shadows.length ≤ stream.tokens.length := by
    rw [← size_eq_length, size]
    omega
  have behind : stream.skipShadows.cursor =
      ⟨stream.tokens.toArray, (stream.index + stream.shadows.length : Int)⟩ := by
    rw [cursor, skipShadows, tokens_forward, index_forward _ _ few]
    rfl
  have between : Cursor.slice stream.tokens.toArray stream.index (stream.index + stream.shadows.length : Int) =
      stream.shadows := by
    have sliced := slice_of_le (Nat.le_add_right stream.index stream.shadows.length) inside
    have first : stream.shadows = stream.remaining.take stream.shadows.length :=
      List.prefix_iff_eq_take.mp (List.takeWhile_prefix _)
    rw [Nat.add_sub_cancel_left, ← remaining_eq, ← first] at sliced
    exact sliced
  simp only [Cursor.skipShadows, bind_apply, self, behind]
  simp only [cursor, ofResult, visibleFrom_cursor, between]
  rfl

/-- The cursor of a place further on. -/
theorem cursor_forward_sub {stream : TokenStream} {index : Nat} (ahead : stream.index ≤ index ∧ index ≤ stream.size) :
    (stream.forward (index - stream.index)).cursor = ⟨stream.tokens.toArray, index⟩ := by
  have few : index - stream.index ≤ stream.remaining.length := by
    have bound : index ≤ stream.index + stream.remaining.length := ahead.2
    omega
  rw [cursor, tokens_forward, index_forward _ _ few, Nat.add_sub_cancel' ahead.1]

theorem cursor_forward (tokens : List Token) {index : Nat} (few : index ≤ tokens.length) :
    ((ofTokens tokens).forward index).cursor = ⟨tokens.toArray, index⟩ := by
  have size_eq : (ofTokens tokens).size = tokens.length := Nat.zero_add _
  have arrived : ((ofTokens tokens).forward (index - (ofTokens tokens).index)).cursor = _ :=
    cursor_forward_sub ⟨Nat.zero_le index, by omega⟩
  rwa [tokens_ofTokens] at arrived

theorem advanceTo_cursor (stream : TokenStream) (target : Number) :
    Cursor.advanceTo target stream.cursor = stream.atCursor ((stream.moveTo target).map fun behind => ((), behind)) := by
  simp only [Cursor.advanceTo, moveTo, bind_apply, self, Number.toNat?_eq, cursor, size_cursor]
  cases target.toInt? with
  | none => rfl
  | some whole =>
    by_cases inside : (stream.index : Int) ≤ whole ∧ whole ≤ stream.size
    · obtain ⟨index, rfl⟩ := Int.eq_ofNat_of_zero_le (Int.le_trans (Int.natCast_nonneg _) inside.1)
      have ahead : stream.index ≤ index ∧ index ≤ stream.size := by omega
      simp only [Option.bind_some, if_pos inside, if_pos (Int.natCast_nonneg index), Int.toNat_natCast, onward?_eq,
        if_pos ahead]
      exact congrArg (EStateM.Result.ok ()) (cursor_forward_sub ahead).symm
    · have missing : (if 0 ≤ whole then some whole.toNat else none).bind stream.onward? = none := by
        split
        · rw [Option.bind_some, onward?_eq, if_neg (by omega)]
        · rfl
      simp only [Option.bind_some, if_neg inside, missing]
      rfl

theorem lookbehind_cursor (stream : TokenStream) :
    Cursor.lookbehind stream.cursor = .ok stream.lookbehind.cursor stream.cursor := by
  have inside : stream.index ≤ stream.tokens.length := by
    rw [← size_eq_length, size]
    omega
  have before : Cursor.slice stream.tokens.toArray 0 stream.index = stream.passed.reverse := by
    have sliced := slice_of_le (Nat.zero_le stream.index) inside
    rw [List.drop_zero, Nat.sub_zero, ← List.reverse_reverse (stream.tokens.take _), ← passed_eq] at sliced
    exact sliced
  simp only [Cursor.lookbehind, bind_apply, self, cursor, before, List.reverse_reverse]
  rw [lookbehind, tokens_ofTokens]
  rfl

/-- A cursor starts at an index where a stream does. -/
theorem of_eq (tokens : List Token) (index : Number) :
    Cursor.of tokens.toArray index = (at? tokens index).map TokenStream.cursor := by
  rw [Cursor.of, at?, Number.toNat?_eq]
  cases index.toInt? with
  | none => rfl
  | some whole =>
    by_cases inside : 0 ≤ whole ∧ whole ≤ tokens.length
    · obtain ⟨place, rfl⟩ := Int.eq_ofNat_of_zero_le inside.1
      have few : place ≤ tokens.length := by omega
      simp only [List.size_toArray, if_pos inside, Option.bind_some, if_pos inside.1, Int.toNat_natCast, if_pos few]
      exact congrArg Except.ok (cursor_forward _ few).symm
    · simp only [List.size_toArray, if_neg inside, Option.bind_some]
      by_cases positive : 0 ≤ whole
      · have many : ¬ whole.toNat ≤ tokens.length := by omega
        simp only [if_pos positive, if_neg many]
        rfl
      · simp only [if_neg positive]
        rfl

theorem copyWithIndex_cursor (stream : TokenStream) (index : Number) :
    Cursor.copyWithIndex index stream.cursor =
      stream.atCursor ((stream.copyAt index).map fun made => (made.cursor, stream)) := by
  rw [Cursor.copyWithIndex, bind_apply, self]
  simp only [cursor, of_eq, copyAt]
  cases at? stream.tokens index <;> rfl

theorem resetToStart_cursor (stream : TokenStream) :
    Cursor.resetToStart stream.cursor = .ok () stream.rewind.cursor := by
  rw [rewind, cursor, cursor, tokens_ofTokens]
  rfl

/-- The visible token of a number that is as large as the number of the tokens is missing. -/
theorem visibleAt?_length (tokens : List Token) : visibleAt? tokens tokens.length = none := by
  rw [visibleAt?_eq, List.getElem?_eq_none (List.length_filter_le ..)]

theorem exists_peekAhead (stream : TokenStream) {offset : Number} (steps : Nat)
    (goes : ∀ step < steps, (Number.ofNat step).lessThan offset = true)
    (ends : (Number.ofNat steps).lessThan offset = false ∨ stream.remaining.length ≤ steps) :
    ∃ index, peekAhead stream.tokens.toArray offset 0 (stream.index + stream.shadows.length : Int) = .ok index ∧
      found? stream.tokens.toArray index = visibleAt? stream.remaining steps := by
  rw [stream.index_eq, ← stream.passed.length_reverse]
  exact peekAhead_append steps 0 _ _ (by simpa using goes) (by simpa using ends)

theorem exists_peekBack (stream : TokenStream) {offset : Number} (steps : Nat)
    (goes : ∀ step ≤ steps, offset.lessThan (.finite (-(step : Nat))) = true)
    (ends : offset.lessThan (.finite (-(steps + 1 : Nat))) = false ∨ stream.passed.length ≤ steps) :
    ∃ index, peekBack stream.tokens.toArray offset 0 stream.index = .ok index ∧
      found? stream.tokens.toArray index = visibleAt? stream.passed steps := by
  rw [stream.index_eq]
  exact peekBack_append steps 0 _ _ (by simpa using goes) (by simpa using ends)

theorem peek_of_peekAhead {stream : TokenStream} {offset : Number} {index : Int} (onward : Number.atMost 0 offset = true)
    (located : peekAhead stream.tokens.toArray offset 0 (stream.index + stream.shadows.length : Int) = .ok index) :
    Cursor.peek offset stream.cursor = .ok (found? stream.tokens.toArray index) stream.cursor := by
  simp only [Cursor.peek, bind_apply, self, onward, if_true, cursor, visibleFrom_cursor]
  simp only [bind, Except.bind, located, ofResult]
  rfl

theorem peek_of_peekBack {stream : TokenStream} {offset : Number} {index : Int} (back : Number.atMost 0 offset = false)
    (located : peekBack stream.tokens.toArray offset 0 stream.index = .ok index) :
    Cursor.peek offset stream.cursor = .ok (found? stream.tokens.toArray index) stream.cursor := by
  simp only [Cursor.peek, bind_apply, self, back, Bool.false_eq_true, if_false, cursor, located, ofResult]
  rfl

theorem atMost_zero_finite (distance : Rat) : Number.atMost 0 (.finite distance) = decide (0 ≤ distance) := by
  have zero : (0 : Number) = .finite (0 : Nat) := rfl
  rw [zero, Bool.eq_iff_iff, Number.atMost, Bool.or_eq_true, Number.lessThan, Number.same, decide_eq_true_iff,
    decide_eq_true_iff, decide_eq_true_iff]
  exact Rat.le_iff_lt_or_eq.symm

theorem lessThan_ceil {distance : Rat} {count : Nat} :
    (Number.ofNat count).lessThan (.finite distance) = true ↔ (count : Int) < distance.ceil := by
  rw [Number.ofNat, Number.lessThan, decide_eq_true_iff, Rat.lt_ceil_iff, Rat.intCast_natCast]

theorem lessThan_neg_ceil {distance : Rat} {count : Nat} :
    Number.lessThan (.finite distance) (.finite (-(count : Nat))) = true ↔ (count : Int) < (-distance).ceil := by
  rw [Number.lessThan, decide_eq_true_iff, Rat.lt_ceil_iff, Rat.intCast_natCast]
  exact Rat.lt_neg_iff

/-- To look around from a cursor is to look around from its stream, for every offset, the broken ones among them. -/
theorem peek_cursor (stream : TokenStream) (offset : Number) :
    Cursor.peek offset stream.cursor = .ok (stream.peek? offset) stream.cursor := by
  cases offset with
  | notANumber =>
    have stays : peekBack stream.tokens.toArray .notANumber 0 stream.index = .ok (stream.index : Int) := by
      rw [peekBack, dif_neg fun more => nomatch more.1]
    rw [peek_of_peekBack rfl stays, tokens, stream.index_eq, ← stream.passed.length_reverse, found?_length]
    rfl
  | infinite negative =>
    cases negative with
    | false =>
      have goes (step : Nat) (_ : step < stream.remaining.length) :
          (Number.ofNat step).lessThan (.infinite false) = true := rfl
      obtain ⟨index, located, found⟩ := stream.exists_peekAhead _ goes (.inr (Nat.le_refl _))
      rw [peek_of_peekAhead rfl located, found, visibleAt?_length]
      rfl
    | true =>
      have goes (step : Nat) (_ : step ≤ stream.passed.length) :
          Number.lessThan (.infinite true) (.finite (-(step : Nat))) = true := rfl
      obtain ⟨index, located, found⟩ := stream.exists_peekBack _ goes (.inr (Nat.le_refl _))
      rw [peek_of_peekBack rfl located, found, visibleAt?_length]
      rfl
  | finite distance =>
    by_cases onward : 0 ≤ distance
    · have goes (step : Nat) (before : step < distance.ceil.toNat) :
          (Number.ofNat step).lessThan (.finite distance) = true := lessThan_ceil.mpr (by omega)
      have ends : (Number.ofNat distance.ceil.toNat).lessThan (.finite distance) = false := by
        rw [← Bool.not_eq_true, lessThan_ceil]
        omega
      obtain ⟨index, located, found⟩ := stream.exists_peekAhead _ goes (.inl ends)
      rw [peek_of_peekAhead (by rw [atMost_zero_finite, decide_eq_true onward]) located, found, peek?,
        if_pos (Rat.num_nonneg.mpr onward), ahead?]
    · have back : 0 < (-distance).ceil := by
        rw [Rat.lt_ceil_iff]
        exact Rat.lt_neg_iff.mpr (Rat.not_le.mp onward)
      have goes (step : Nat) (before : step ≤ (-distance).ceil.toNat - 1) :
          Number.lessThan (.finite distance) (.finite (-(step : Nat))) = true := lessThan_neg_ceil.mpr (by omega)
      have ends : Number.lessThan (.finite distance) (.finite (-((-distance).ceil.toNat - 1 + 1 : Nat))) = false := by
        rw [← Bool.not_eq_true, lessThan_neg_ceil]
        omega
      obtain ⟨index, located, found⟩ := stream.exists_peekBack _ goes (.inl ends)
      rw [peek_of_peekBack (by rw [atMost_zero_finite, decide_eq_false onward]) located, found, peek?,
        if_neg (fun positive => onward (Rat.num_nonneg.mp positive)), behind?]

end TokenStream

end TokenGrammar
