import TokenGrammar.Stream

namespace TokenGrammar.TokenStream

/-- A step of reading passes over shadows and takes the visible token behind them. -/
theorem read?_eq_some_iff {start next : TokenStream} {token : Token} :
    start.read? = some (token, next) ↔
      token.isVisible ∧ ∃ shadows, (∀ shadow ∈ shadows, shadow.isShadow) ∧
        start.remaining = shadows ++ token :: next.remaining ∧
        next.passed = token :: (shadows.reverse ++ start.passed) := by
  constructor
  · intro read
    unfold read? at read
    split at read
    · rename_i found current
      obtain ⟨visible, shadows, rest, split, hidden⟩ := List.find?_eq_some_iff_append.mp current
      have allShadow : ∀ shadow ∈ shadows, shadow.isShadow := by
        intro shadow member
        simpa [Token.isVisible] using hidden shadow member
      have shadows_eq : start.shadows = shadows := by
        have stops : found.isShadow = false := by simpa [Token.isVisible] using visible
        rw [TokenStream.shadows, split, List.takeWhile_append_of_pos allShadow]
        simp [stops]
      cases read
      refine ⟨visible, shadows, allShadow, ?_, ?_⟩
      · simp [split, shadows_eq]
      · simp [split, shadows_eq, List.take_append, List.take_of_length_le]
    · cases read
  · intro given
    obtain ⟨visible, shadows, allShadow, split, passed⟩ := given
    have stops : token.isShadow = false := by simpa [Token.isVisible] using visible
    have current : start.current? = some token := by
      rw [current?, List.find?_eq_some_iff_append]
      refine ⟨visible, shadows, next.remaining, split, ?_⟩
      intro shadow member
      simpa [Token.isVisible] using allShadow shadow member
    have shadows_eq : start.shadows = shadows := by
      rw [TokenStream.shadows, split, List.takeWhile_append_of_pos allShadow]
      simp [stops]
    have next_eq : start.forward (shadows.length + 1) = next := by
      ext1
      · simp [split, passed, List.take_append, List.take_of_length_le]
      · simp [split]
    simp [read?, current, shadows_eq, next_eq]

/-- A visible token can be read exactly where the stream says that there are more. -/
theorem isSome_read? (start : TokenStream) : start.read?.isSome = start.hasMore := by
  unfold read? current? hasMore
  rw [← List.isSome_find?]
  split
  · rename_i current
    rw [current]
    rfl
  · rename_i current
    rw [current]
    rfl

theorem read?_eq_none_iff {start : TokenStream} : start.read? = none ↔ start.hasMore = false := by
  rw [← isSome_read?, Option.isSome_eq_false_iff, Option.isNone_iff_eq_none]

theorem read?_eq_none_iff_filter {start : TokenStream} :
    start.read? = none ↔ start.remaining.filter Token.isVisible = [] := by
  rw [read?_eq_none_iff, List.filter_eq_nil_iff, hasMore, List.any_eq_false]

/-- A step of reading takes the first of the visible tokens ahead. -/
theorem filter_of_read? {start next : TokenStream} {token : Token} (read : start.read? = some (token, next)) :
    start.remaining.filter Token.isVisible = token :: next.remaining.filter Token.isVisible ∧
      next.passed.filter Token.isVisible = token :: start.passed.filter Token.isVisible := by
  obtain ⟨visible, shadows, allShadow, remaining, passed⟩ := read?_eq_some_iff.mp read
  have hidden : shadows.filter Token.isVisible = [] := by
    rw [List.filter_eq_nil_iff]
    intro shadow member
    simp [Token.isVisible, allShadow shadow member]
  simp [remaining, passed, visible, hidden, List.filter_reverse]

theorem exists_read_of_hasMore {start : TokenStream} (more : start.hasMore = true) :
    ∃ token behind, start.read? = some (token, behind) := by
  rw [← isSome_read?] at more
  obtain ⟨⟨token, behind⟩, read⟩ := Option.isSome_iff_exists.mp more
  exact ⟨token, behind, read⟩

/-- The token that is current is the one that is read next. -/
theorem exists_read_of_current {start : TokenStream} {token : Token} (current : start.current? = some token) :
    ∃ behind, start.read? = some (token, behind) := by
  simp [read?, current]

theorem current?_eq (start : TokenStream) : start.current? = start.read?.map Prod.fst := by
  unfold read?
  cases start.current? <;> rfl

theorem advance_one_eq_ok_iff {start behind : TokenStream} :
    start.advance 1 = .ok behind ↔ ∃ token, start.read? = some (token, behind) := by
  have one : Number.toNat? 1 = some 1 := Number.toNat?_ofNat 1
  cases read : start.read? with
  | none => simp [advance, one, skip?, read]
  | some next => simp [advance, one, skip?, read, Prod.ext_iff]

/-- Reading the given tokens one after the other leads from one place to another. -/
inductive Reads : TokenStream → List Token → TokenStream → Prop
  | nil (place : TokenStream) : Reads place [] place
  | cons {start next finish : TokenStream} {token : Token} {tokens : List Token}
      (read : start.read? = some (token, next)) (rest : Reads next tokens finish) : Reads start (token :: tokens) finish

namespace Reads

variable {start next finish other : TokenStream} {token : Token} {tokens others : List Token}

theorem single (read : start.read? = some (token, next)) : Reads start [token] next := .cons read (.nil next)

/-- Stretches that follow one another are read as one. -/
theorem append (first : Reads start tokens next) (second : Reads next others finish) :
    Reads start (tokens ++ others) finish := by
  induction first with
  | nil => exact second
  | cons read _ ih => exact .cons read (ih second)

/-- What is read is a piece of the stream that is empty or ends with a visible token. -/
theorem exists_piece (reads : Reads start tokens finish) :
    ∃ piece, start.remaining = piece ++ finish.remaining ∧ finish.passed = piece.reverse ++ start.passed ∧
      tokens = piece.filter Token.isVisible ∧
      (piece = [] ∨ ∃ front token, piece = front ++ [token] ∧ token.isVisible) := by
  induction reads with
  | nil place => exact ⟨[], by simp⟩
  | @cons start next finish token tokens read rest ih =>
    obtain ⟨visible, shadows, allShadow, split, passed⟩ := read?_eq_some_iff.mp read
    obtain ⟨piece, remaining_eq, passed_eq, tokens_eq, ends⟩ := ih
    have hidden : shadows.filter Token.isVisible = [] := by
      rw [List.filter_eq_nil_iff]
      intro shadow member
      simp [Token.isVisible, allShadow shadow member]
    -- The piece grows at its front, so that its last token is that of the rest unless the rest is empty.
    refine ⟨shadows ++ token :: piece, ?_, ?_, ?_, .inr ?_⟩
    · simp [split, remaining_eq]
    · simp [passed_eq, passed]
    · simp [hidden, visible, tokens_eq]
    · rcases ends with rfl | ⟨front, last, rfl, lastVisible⟩
      · exact ⟨shadows, token, rfl, visible⟩
      · exact ⟨shadows ++ token :: front, last, by simp, lastVisible⟩

/-- Reading does not change the tokens of the stream. -/
theorem tokens_eq (reads : Reads start tokens finish) : finish.tokens = start.tokens := by
  obtain ⟨piece, remaining, passed, -, -⟩ := reads.exists_piece
  simp [TokenStream.tokens, remaining, passed]

theorem index_le (reads : Reads start tokens finish) : start.index ≤ finish.index := by
  obtain ⟨piece, -, passed, -, -⟩ := reads.exists_piece
  rw [start.index_eq, finish.index_eq, passed]
  simp

theorem index_le_size (reads : Reads start tokens finish) : finish.index ≤ start.size := by
  rw [start.size_eq_length, ← reads.tokens_eq, ← finish.size_eq_length]
  exact Nat.le_add_right _ _

theorem index_lt (reads : Reads start (token :: tokens) finish) : start.index < finish.index := by
  obtain ⟨piece, -, passed, taken, -⟩ := reads.exists_piece
  have filled : piece ≠ [] := by
    intro empty
    rw [empty] at taken
    cases taken
  rw [start.index_eq, finish.index_eq, passed, List.length_append, List.length_reverse]
  have := List.length_pos_iff.mpr filled
  omega

/-- A stretch is empty exactly when nothing is read on it. -/
theorem index_eq_iff (reads : Reads start tokens finish) : start.index = finish.index ↔ tokens = [] := by
  cases tokens with
  | nil =>
    cases reads
    simp
  | cons token tokens => simpa using Nat.ne_of_lt reads.index_lt

theorem eq_of_nil (reads : Reads start [] finish) : finish = start := by
  cases reads
  rfl

/-- Reading the same tokens leads to the same place. -/
theorem unique (first : Reads start tokens finish) (second : Reads start tokens other) : finish = other := by
  induction first with
  | nil place => exact second.eq_of_nil.symm
  | cons read rest ih =>
    cases second with
    | cons otherRead otherRest =>
      cases read.symm.trans otherRead
      exact ih otherRest

/-- The tokens read are the visible ones between the two ends. -/
theorem eq_filter (reads : Reads start tokens finish) :
    tokens = ((start.tokens.drop start.index).take (finish.index - start.index)).filter Token.isVisible := by
  obtain ⟨piece, remaining, passed, taken, -⟩ := reads.exists_piece
  have size : finish.index - start.index = piece.length := by
    rw [start.index_eq, finish.index_eq, passed]
    simp
  have here : start.tokens.drop start.index = piece ++ finish.remaining := by
    rw [start.index_eq, TokenStream.tokens, ← start.passed.length_reverse, List.drop_left, remaining]
  rw [here, size, List.take_left, taken]

/-- A stretch that is not empty ends just behind a visible token. -/
theorem last_visible (reads : Reads start tokens finish) (moved : finish.index ≠ start.index) :
    ∃ last, start.tokens[finish.index - 1]? = some last ∧ last.isVisible := by
  obtain ⟨piece, -, passed, -, rfl | ⟨front, last, rfl, visible⟩⟩ := reads.exists_piece
  · rw [start.index_eq, finish.index_eq, passed] at moved
    simp at moved
  · refine ⟨last, ?_, visible⟩
    have behind : finish.tokens = (start.passed.reverse ++ front) ++ last :: finish.remaining := by
      simp [TokenStream.tokens, passed]
    have place : finish.index - 1 = (start.passed.reverse ++ front).length := by
      simp [finish.index_eq, passed, Nat.add_comm]
    rw [← reads.tokens_eq, behind, place]
    simp

/-- Of two stretches from one place, the one on which more is read ends farther on. -/
theorem index_lt_iff (first : Reads start tokens finish) (second : Reads start others other) :
    finish.index < other.index ↔ tokens.length < others.length := by
  induction first generalizing others with
  | nil place =>
    cases others with
    | nil => simp [second.eq_of_nil]
    | cons token others => simpa using second.index_lt
  | cons read rest ih =>
    cases second with
    | nil =>
      have := (Reads.cons read rest).index_le
      simp only [List.length_cons, List.length_nil, Nat.not_lt_zero, iff_false]
      omega
    | cons otherRead otherRest =>
      cases read.symm.trans otherRead
      simpa using ih otherRest

/-- The stream can be moved from the beginning of a stretch to its end. -/
theorem moveTo_eq (reads : Reads start tokens finish) : start.moveTo (.ofNat finish.index) = .ok finish := by
  obtain ⟨piece, remaining, passed, -, -⟩ := reads.exists_piece
  have indices : finish.index = start.index + piece.length := by
    rw [start.index_eq, finish.index_eq, passed]
    simp [Nat.add_comm]
  have inside : start.index ≤ finish.index ∧ finish.index ≤ start.size := by
    constructor
    · exact reads.index_le
    · simp [size, remaining, indices]
  have arrived : start.forward (finish.index - start.index) = finish := by
    ext1 <;> simp [indices, remaining, passed]
  simp [moveTo, onward?_eq, inside, arrived]

/-- From one place on, an index is reached at one place only. -/
theorem eq_of_index_eq (first : Reads start tokens finish) (second : Reads start others other)
    (same : finish.index = other.index) : finish = other := by
  have ends := first.moveTo_eq
  rw [same, second.moveTo_eq] at ends
  exact (Except.ok.inj ends).symm

end Reads

/-- A stream moves to a place ahead, among the same tokens. -/
theorem bounds_of_moveTo {start place : TokenStream} {target : Number} (moves : start.moveTo target = .ok place) :
    target = .ofNat place.index ∧ start.index ≤ place.index ∧ place.index ≤ start.size ∧
      place.tokens = start.tokens := by
  unfold moveTo at moves
  split at moves
  · rename_i found
    cases moves
    obtain ⟨index, reads, onward⟩ := Option.bind_eq_some_iff.mp found
    rw [onward?_eq] at onward
    split at onward
    · rename_i inside
      cases onward
      have arrived : (start.forward (index - start.index)).index = index := by
        have bound : index ≤ start.index + start.remaining.length := inside.2
        rw [index_forward _ _ (by omega)]
        omega
      rw [arrived]
      exact ⟨Number.eq_ofNat_of_toNat? reads, inside.1, inside.2, tokens_forward ..⟩
    · cases onward
  · cases moves

theorem sliceBound_ofNat (size bound : Nat) : sliceBound size (.ofNat bound) = min bound size := by
  have whole : ((bound : Rat).num.tdiv (bound : Rat).den) = bound := by
    rw [Rat.num_natCast, Rat.den_natCast]
    exact Int.tdiv_one _
  simp only [sliceBound, Number.ofNat, whole]
  rw [if_neg (by omega)]
  simp

/-- The tokens between two indices of a stream. -/
theorem slice_ofNat {stream : TokenStream} {start finish : Nat} (ordered : start ≤ finish)
    (inside : finish ≤ stream.size) :
    stream.slice (.ofNat start) (.ofNat finish) = (stream.tokens.drop start).take (finish - start) := by
  rw [slice, sliceBound_ofNat, sliceBound_ofNat, Nat.min_eq_left (Nat.le_trans ordered inside),
    Nat.min_eq_left inside]

/-- The visible tokens ahead of a place. -/
def ahead (place : TokenStream) : List Token := place.remaining.filter Token.isVisible

/-- The visible tokens behind a place, the nearest one first. -/
def past (place : TokenStream) : List Token := place.passed.filter Token.isVisible

section Ahead

variable {start next finish : TokenStream} {token : Token} {tokens : List Token}

theorem ahead_of_read? (read : start.read? = some (token, next)) : start.ahead = token :: next.ahead :=
  (filter_of_read? read).1

theorem past_of_read? (read : start.read? = some (token, next)) : next.past = token :: start.past :=
  (filter_of_read? read).2

theorem ahead_of_reads (reads : start.Reads tokens finish) : start.ahead = tokens ++ finish.ahead := by
  induction reads with
  | nil => rfl
  | cons read _ ih => rw [ahead_of_read? read, ih, List.cons_append]

/-- What can be read is what is ahead. -/
theorem exists_reads_iff : (∃ finish, start.Reads tokens finish) ↔ tokens <+: start.ahead := by
  constructor
  · intro holds
    obtain ⟨finish, reads⟩ := holds
    exact ⟨finish.ahead, (ahead_of_reads reads).symm⟩
  · intro isAhead
    induction tokens generalizing start with
    | nil => exact ⟨start, .nil start⟩
    | cons token tokens ih =>
      cases read : start.read? with
      | none =>
        rw [ahead, read?_eq_none_iff_filter.mp read] at isAhead
        cases List.prefix_nil.mp isAhead
      | some next =>
        obtain ⟨first, next⟩ := next
        rw [ahead_of_read? read, List.cons_prefix_cons] at isAhead
        obtain ⟨rfl, isAhead⟩ := isAhead
        obtain ⟨finish, reads⟩ := ih isAhead
        exact ⟨finish, .cons read reads⟩

theorem past_of_reads (reads : start.Reads tokens finish) : finish.past = tokens.reverse ++ start.past := by
  induction reads with
  | nil => rfl
  | cons read _ ih => rw [ih, past_of_read? read, List.reverse_cons, List.append_assoc, List.singleton_append]

theorem length_ahead_of_reads (reads : start.Reads tokens finish) :
    start.ahead.length = tokens.length + finish.ahead.length := by
  rw [ahead_of_reads reads, List.length_append]

/-- What was read consists of visible tokens. -/
theorem ahead_ofTokens_of_reads (reads : start.Reads tokens finish) : (ofTokens tokens).ahead = tokens := by
  obtain ⟨piece, -, -, taken, -⟩ := reads.exists_piece
  rw [ahead, ofTokens, taken, List.filter_filter]
  simp

theorem hasMore_eq_false_iff : start.hasMore = false ↔ start.ahead = [] := by
  rw [← read?_eq_none_iff, read?_eq_none_iff_filter]
  rfl

theorem previous?_eq_none_iff : start.previous? = none ↔ start.past = [] := by
  rw [previous?, behind?, visibleAt?_eq, List.getElem?_eq_none_iff, Nat.le_zero, List.length_eq_zero_iff]
  rfl

end Ahead

end TokenGrammar.TokenStream
