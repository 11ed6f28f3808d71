namespace TokenGrammar

/-- A text is a sequence of units of sixteen bits. A character of the basic plane is one unit and any other one is a pair of
units, so that a cut between the two leaves units that are no character: there are more texts than strings. -/
structure Text where
  units : List UInt16
  deriving DecidableEq

namespace Text

instance : Inhabited Text := ⟨⟨[]⟩⟩

instance : Append Text := ⟨fun first second => ⟨first.units ++ second.units⟩⟩

/-- Whether a code is that of the first unit of a pair. -/
def isLeading (code : Nat) : Bool := 0xD800 ≤ code && code < 0xDC00

/-- Whether a code is that of the second unit of a pair. -/
def isTrailing (code : Nat) : Bool := 0xDC00 ≤ code && code < 0xE000

/-- Whether a code is that of a unit of a pair, which stands for no character by itself. -/
def isPairUnit (code : Nat) : Bool := isLeading code || isTrailing code

/-- The code point of a pair of units. -/
def pairCode (leading trailing : Nat) : Nat := 0x10000 + (leading - 0xD800) * 0x400 + (trailing - 0xDC00)

def lineFeed : Nat := 0xA

def backslash : Nat := 0x5C

def unitsOf (code : Nat) : List UInt16 :=
  if code < 0x10000 then [.ofNat code]
  else [.ofNat (0xD800 + (code - 0x10000) / 0x400), .ofNat (0xDC00 + (code - 0x10000) % 0x400)]

def ofCodes (codes : List Nat) : Text := ⟨codes.flatMap unitsOf⟩

def ofChars (characters : List Char) : Text := ofCodes (characters.map Char.toNat)

def ofString (content : String) : Text := ofChars content.toList

instance : Coe String Text := ⟨ofString⟩

/-- Puts a unit in front of codes; a unit and its partner become one code. -/
def joinUnit (unit : UInt16) : List Nat → List Nat
  | [] => [unit.toNat]
  | code :: rest =>
    if isLeading unit.toNat && isTrailing code then pairCode unit.toNat code :: rest
    else unit.toNat :: code :: rest

/-- The codes of a text: the code points of its characters, and its units that are no part of a character. -/
def codes (text : Text) : List Nat := text.units.foldr joinUnit []

def length (text : Text) : Nat := text.codes.length

def isEmpty (text : Text) : Bool := text.units.isEmpty

/-- The character of a code; what is no character is shown by the replacement character. -/
def characterOf (code : Nat) : Char := if isPairUnit code then '\uFFFD' else Char.ofNat code

def chars (text : Text) : List Char := text.codes.map characterOf

def toString (text : Text) : String := String.ofList text.chars

instance : ToString Text := ⟨toString⟩

/-- Whether a text begins with another one. -/
def startsWith (text start : Text) : Bool := start.units.isPrefixOf text.units

/-- Whether a stretch of units occurs among others. -/
def occursIn (part : List UInt16) : List UInt16 → Bool
  | [] => part.isEmpty
  | unit :: rest => part.isPrefixOf (unit :: rest) || occursIn part rest

def contains (text part : Text) : Bool := occursIn part.units text.units

/-- Whether a text is made of digits. -/
def isDigits (text : Text) : Bool := !text.isEmpty && text.chars.all Char.isDigit

@[simp] theorem units_append (first second : Text) : (first ++ second).units = first.units ++ second.units :=
  rfl

theorem append_assoc (first second third : Text) : first ++ second ++ third = first ++ (second ++ third) :=
  congrArg Text.mk (List.append_assoc ..)

theorem append_empty (text : Text) : text ++ ofString "" = text := congrArg Text.mk (List.append_nil text.units)

theorem ofCodes_append (first second : List Nat) : ofCodes (first ++ second) = ofCodes first ++ ofCodes second :=
  congrArg Text.mk List.flatMap_append

theorem joinUnit_of_apart {unit : UInt16} {rest : List Nat}
    (apart : isLeading unit.toNat = false ∨ ∀ next ∈ rest.head?, isTrailing next = false) :
    joinUnit unit rest = unit.toNat :: rest := by
  cases rest with
  | nil => rfl
  | cons next rest =>
    rcases apart with first | second
    · simp [joinUnit, first]
    · simp [joinUnit, second next rfl]

theorem joinUnit_of_pair {unit : UInt16} {next : Nat} (rest : List Nat) (first : isLeading unit.toNat = true)
    (second : isTrailing next = true) : joinUnit unit (next :: rest) = pairCode unit.toNat next :: rest := by
  simp [joinUnit, first, second]

theorem toNat_ofNat {value : Nat} (small : value < 0x10000) : (UInt16.ofNat value).toNat = value :=
  UInt16.toNat_ofNat_of_lt' small

/-- Joining the two units of a pair gives their code back, whatever follows. -/
theorem foldr_joinUnit_unitsOf_of_le {code : Nat} (large : 0x10000 ≤ code) (bound : code < 0x110000)
    (rest : List Nat) : (unitsOf code).foldr joinUnit rest = code :: rest := by
  have leading : (UInt16.ofNat (0xD800 + (code - 0x10000) / 0x400)).toNat =
      0xD800 + (code - 0x10000) / 0x400 := toNat_ofNat (by omega)
  have trailing : (UInt16.ofNat (0xDC00 + (code - 0x10000) % 0x400)).toNat =
      0xDC00 + (code - 0x10000) % 0x400 := toNat_ofNat (by omega)
  rw [unitsOf, if_neg (Nat.not_lt_of_le large), List.foldr_cons, List.foldr_cons, List.foldr_nil]
  have second : isLeading (0xDC00 + (code - 0x10000) % 0x400) = false := by
    simp only [isLeading, Bool.and_eq_false_iff, decide_eq_false_iff_not]
    omega
  have last : isLeading (UInt16.ofNat (0xDC00 + (code - 0x10000) % 0x400)).toNat = false := by
    rw [trailing]
    exact second
  rw [@joinUnit_of_apart _ rest (.inl last), trailing, joinUnit_of_pair, leading]
  · refine congrArg (· :: rest) ?_
    unfold pairCode
    omega
  · rw [leading]
    simp only [isLeading, Bool.and_eq_true, decide_eq_true_eq]
    omega
  · simp only [isTrailing, Bool.and_eq_true, decide_eq_true_eq]
    omega

/-- Joining the units of a character gives its code back in front of whatever does not complete a pair. -/
theorem foldr_joinUnit_unitsOf {code : Nat} (valid : code.isValidChar) (rest : List Nat)
    (apart : ∀ next ∈ rest.head?, isTrailing next = false) :
    (unitsOf code).foldr joinUnit rest = code :: rest := by
  by_cases low : code < 0x10000
  · rw [unitsOf, if_pos low, List.foldr_cons, List.foldr_nil, joinUnit_of_apart (.inr apart), toNat_ofNat low]
  · refine foldr_joinUnit_unitsOf_of_le (Nat.le_of_not_lt low) ?_ rest
    rcases valid with small | ⟨_, large⟩ <;> omega

theorem isPairUnit_toNat (character : Char) : isPairUnit character.toNat = false := by
  have valid : character.toNat.isValidChar := character.valid
  simp only [isPairUnit, isLeading, isTrailing, Bool.or_eq_false_iff, Bool.and_eq_false_iff,
    decide_eq_false_iff_not]
  rcases valid with small | ⟨large, _⟩ <;> omega

@[simp] theorem codes_ofChars (characters : List Char) :
    (ofChars characters).codes = characters.map Char.toNat := by
  induction characters with
  | nil => rfl
  | cons character rest ih =>
    have reads : (ofChars (character :: rest)).codes =
        (unitsOf character.toNat).foldr joinUnit (ofChars rest).codes := by
      simp [ofChars, ofCodes, codes, List.flatMap_cons, List.foldr_append]
    rw [reads, ih, foldr_joinUnit_unitsOf (show character.toNat.isValidChar from character.valid)]
    · rfl
    · intro next found
      cases rest with
      | nil => simp at found
      | cons following rest =>
        have equal : following.toNat = next := by simpa using found
        have lone := isPairUnit_toNat following
        rw [← equal]
        exact (Bool.or_eq_false_iff.mp lone).2

@[simp] theorem chars_ofChars (characters : List Char) : (ofChars characters).chars = characters := by
  simp only [chars, codes_ofChars, List.map_map]
  refine List.map_id'' (fun character => ?_) characters
  simp [characterOf, isPairUnit_toNat]

@[simp] theorem toString_ofString (content : String) : (ofString content).toString = content := by
  simp [toString, ofString]

theorem ofString_injective {first second : String} (equal : ofString first = ofString second) :
    first = second := by
  simpa using congrArg toString equal

@[simp] theorem ofString_inj {first second : String} : ofString first = ofString second ↔ first = second :=
  ⟨ofString_injective, congrArg ofString⟩

@[simp] theorem length_ofString (content : String) : (ofString content).length = content.length := by
  simp [length, ofString, String.length_toList]

theorem unitsOf_toNat (unit : UInt16) : unitsOf unit.toNat = [unit] := by
  have small : unit.toNat < 0x10000 := unit.toNat_lt
  simp [unitsOf, small]

theorem unitsOf_pairCode {leading trailing : UInt16} (first : isLeading leading.toNat = true)
    (second : isTrailing trailing.toNat = true) :
    unitsOf (pairCode leading.toNat trailing.toNat) = [leading, trailing] := by
  simp only [isLeading, isTrailing, Bool.and_eq_true, decide_eq_true_eq] at first second
  have large : ¬ pairCode leading.toNat trailing.toNat < 0x10000 := by
    unfold pairCode
    omega
  have front : 0xD800 + (pairCode leading.toNat trailing.toNat - 0x10000) / 0x400 = leading.toNat := by
    unfold pairCode
    omega
  have back : 0xDC00 + (pairCode leading.toNat trailing.toNat - 0x10000) % 0x400 = trailing.toNat := by
    unfold pairCode
    omega
  simp [unitsOf, large, front, back]

/-- The units of joined codes are the units themselves. -/
theorem flatMap_unitsOf_joinUnit (unit : UInt16) (units : List UInt16) :
    (joinUnit unit (units.foldr joinUnit [])).flatMap unitsOf =
      unit :: (units.foldr joinUnit []).flatMap unitsOf := by
  by_cases apart : isLeading unit.toNat = false ∨
      ∀ next ∈ (units.foldr joinUnit []).head?, isTrailing next = false
  · rw [joinUnit_of_apart apart, List.flatMap_cons, unitsOf_toNat]
    rfl
  · simp only [not_or, Bool.not_eq_false] at apart
    obtain ⟨first, second⟩ := apart
    cases codes : units.foldr joinUnit [] with
    | nil => simp [codes] at second
    | cons next rest =>
      have isSecond : isTrailing next = true := by simpa [codes] using second
      have small : next < 0x10000 := by
        simp only [isTrailing, Bool.and_eq_true, decide_eq_true_eq] at isSecond
        omega
      have same : (UInt16.ofNat next).toNat = next := toNat_ofNat small
      have pair := @unitsOf_pairCode unit (.ofNat next) first (same.symm ▸ isSecond)
      have single := unitsOf_toNat (.ofNat next)
      rw [same] at pair single
      rw [joinUnit_of_pair rest first isSecond, List.flatMap_cons, List.flatMap_cons, pair, single]
      rfl

/-- The codes of a text tell everything about it. -/
@[simp] theorem ofCodes_codes (text : Text) : ofCodes text.codes = text := by
  obtain ⟨units⟩ := text
  refine congrArg Text.mk ?_
  simp only [codes]
  induction units with
  | nil => rfl
  | cons unit rest ih => rw [List.foldr_cons, flatMap_unitsOf_joinUnit, ih]

theorem ofChars_append (first second : List Char) :
    ofChars (first ++ second) = ofChars first ++ ofChars second := by
  simp [ofChars, ofCodes_append]

end Text

end TokenGrammar
