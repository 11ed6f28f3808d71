import Mathlib.Data.List.Induction
import TokenGrammar.Proofs.Codes
import TokenGrammar.Reader

namespace TokenGrammar

namespace Place

/-- The place behind a stretch of characters. -/
def after (place : Place) (codes : List Nat) : Place := codes.foldl next place

@[simp] theorem after_nil (place : Place) : place.after [] = place := rfl

@[simp] theorem after_cons (place : Place) (code : Nat) (rest : List Nat) :
    place.after (code :: rest) = (place.next code).after rest := rfl

theorem after_append (place : Place) (first second : List Nat) :
    place.after (first ++ second) = (place.after first).after second := List.foldl_append

/-- What a walk from the start of a text counts. -/
theorem start_after (codes : List Nat) :
    start.after codes = ⟨codes.count Text.lineFeed, (codes.reverse.takeWhile (· ≠ Text.lineFeed)).length,
      codes.length⟩ := by
  induction codes using List.reverseRecOn with
  | nil => rfl
  | append_singleton before code ih =>
    rw [after_append, ih, after_cons, after_nil, next]
    by_cases feed : code = Text.lineFeed
    · simp [feed]
    · simp [feed, List.count_append]

end Place

/-- The position at an offset of a text: the line feeds before it, the characters behind the last of them, and the
offset itself. -/
def positionIn (text : List Nat) (offset : Nat) : Position :=
  .ofCounts ((text.take offset).count Text.lineFeed) ((text.take offset).reverse.takeWhile (· ≠ Text.lineFeed)).length offset

theorem position_start_after (before rest : List Nat) :
    (Place.start.after before).position = positionIn (before ++ rest) before.length := by
  rw [Place.start_after, positionIn, List.take_left]
  rfl

namespace Position

theorem isPositioned_ofCounts (line characterInLine absoluteCharacter : Nat) :
    (ofCounts line characterInLine absoluteCharacter).isPositioned = true := by
  simp [isPositioned, ofCounts, Number.atMost_ofNat]

@[simp] theorem walkLength_ofNat (offset size : Nat) : walkLength (.ofNat offset) size = min offset size := by
  simp [walkLength, Number.ofNat, Rat.ceil]

/-- A walk over codes comes to the place behind them, as long as counts are exact. -/
theorem foldl_nextPlace (place : Place) (codes : List Nat) (lines : place.line + codes.length ≤ Number.exactLimit)
    (columns : place.characterInLine + codes.length ≤ Number.exactLimit) :
    codes.foldl nextPlace (.ofNat place.line, .ofNat place.characterInLine) =
      (.ofNat (place.after codes).line, .ofNat (place.after codes).characterInLine) := by
  induction codes generalizing place with
  | nil => rfl
  | cons code rest ih =>
    rw [List.length_cons] at lines columns
    have newline : '\n'.toNat = Text.lineFeed := rfl
    rw [List.foldl_cons, Place.after_cons, nextPlace, Place.next, newline]
    by_cases feed : code = Text.lineFeed
    · rw [if_pos feed, if_pos feed, Number.ofNat_add_ofNat (by omega)]
      exact ih ⟨place.line + 1, 0, _⟩ (by dsimp only; omega) (by dsimp only; omega)
    · rw [if_neg feed, if_neg feed, Number.ofNat_add_ofNat (by omega)]
      exact ih ⟨place.line, place.characterInLine + 1, _⟩ (by dsimp only; omega) (by dsimp only; omega)

/-- A shift over a text that follows a stretch comes to the place behind what it walks over. -/
theorem shift_start_after (before : List Nat) (text : Text) {offset : Nat} (within : offset ≤ text.length)
    (bounded : before.length + text.length ≤ Number.exactLimit) :
    (Place.start.after before).position.shift text (.ofNat offset) =
      .ok (Place.start.after (before ++ text.codes.take offset)).position := by
  have place := Place.start_after before
  have lines : (Place.start.after before).line ≤ before.length := by
    rw [place]
    exact List.count_le_length
  have columns : (Place.start.after before).characterInLine ≤ before.length := by
    rw [place, ← before.length_reverse]
    exact (List.takeWhile_prefix _).length_le
  have absolute : (Place.start.after before).absoluteCharacter = before.length := by rw [place]
  have walked : (text.codes.take offset).length = offset := List.length_take_of_le within
  have walk := foldl_nextPlace (Place.start.after before) (text.codes.take offset) (by omega) (by omega)
  have sum : Number.ofNat before.length + Number.ofNat offset = .ofNat (before.length + offset) :=
    Number.ofNat_add_ofNat (by omega)
  have arrived : (Place.start.after (before ++ text.codes.take offset)).absoluteCharacter = before.length + offset := by
    rw [Place.start_after, List.length_append, walked]
  rw [Place.position, shift, if_pos (isPositioned_ofCounts ..), Place.position, arrived, Place.after_append]
  simp only [walkLength_ofNat, Nat.min_eq_left within, ofCounts, walk, absolute, sum, create_ofNat]

/-- The last code of a text is at the end of what begins where the text does. -/
theorem endOf_positionIn (before rest : List Nat) (text : Text) (nonempty : text.codes ≠ [])
    (bounded : before.length + text.length ≤ Number.exactLimit) :
    (positionIn (before ++ text.codes ++ rest) before.length).endOf text =
      .ok (positionIn (before ++ text.codes ++ rest) (before.length + text.length - 1)) := by
  have positive : 0 < text.length := List.length_pos_iff.mpr nonempty
  have size : (before ++ text.codes.take (text.length - 1)).length = before.length + text.length - 1 := by
    rw [List.length_append, Nat.add_sub_assoc positive]
    exact congrArg _ (List.length_take_of_le (Nat.sub_le ..))
  have whole : before ++ text.codes ++ rest =
      before ++ text.codes.take (text.length - 1) ++ (text.codes.drop (text.length - 1) ++ rest) := by
    rw [List.append_assoc before, List.append_assoc before, ← List.append_assoc (text.codes.take _),
      List.take_append_drop]
  rw [endOf, List.append_assoc, ← position_start_after, shift_start_after before text (Nat.sub_le ..) bounded,
    ← List.append_assoc, ← size, whole, ← position_start_after]

end Position

end TokenGrammar
