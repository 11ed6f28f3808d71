/-
This file reads the names of variables back.
Two underscores stand only between keys and a single one only in front of a letter.
-/

import TokenGrammar.Proofs.Codes
import TokenGrammar.Proofs.Variables

namespace TokenGrammar

namespace Text

/-- A code below 128 has the lower-case form of its character. -/
theorem lowerCode_eq_toNat_toLower {code : Nat} (small : code < 128) :
    lowerCode code = (Char.ofNat code).toLower.toNat := by
  have each : ∀ code : Fin 128, lowerCode code = (Char.ofNat code).toLower.toNat := by decide +kernel
  exact each ⟨code, small⟩

/-- Codes below 128 are lower-cased one by one, whatever stands before them. -/
theorem lowerFrom_of_small {codes : List Nat} (before : List Nat) (small : ∀ code ∈ codes, code < 128) :
    lowerFrom before codes = codes.map lowerCode := by
  induction codes generalizing before with
  | nil => rfl
  | cons code rest ih =>
    obtain ⟨here, others⟩ := List.forall_mem_cons.mp small
    have noSigma : code ≠ capitalSigma := by
      unfold capitalSigma
      omega
    have noDot : code ≠ 0x130 := by omega
    rw [lowerFrom, if_neg noSigma, lowerCodes, if_neg noDot, ih _ others]
    rfl

/-- The lower-case form of ASCII characters. -/
theorem lowerCase_ofChars {characters : List Char} (small : ∀ character ∈ characters, character.toNat < 128) :
    (ofChars characters).lowerCase = ofChars (characters.map Char.toLower) := by
  rw [lowerCase, codes_ofChars, lowerFrom_of_small [] (List.forall_mem_map.mpr small), ofChars, List.map_map,
    List.map_map]
  refine congrArg ofCodes (List.map_congr_left fun character member => ?_)
  have lowered := lowerCode_eq_toNat_toLower (small character member)
  rwa [Char.ofNat_toNat] at lowered

end Text

namespace Environment

open LoadedSettings (keysOf)

variable {character : Char} {characters segment rest : List Char} {segments : List (List Char)} {path : List String}

/-- A key is a word when it is made of ASCII letters and digits. -/
def isWord (key : String) : Bool := key.toList.all Char.isAlphanum

/-- A character of a key in the name of a variable: a capital letter has an underscore in front of it. -/
def spell (character : Char) : List Char := if character.isUpper then ['_', character] else [character.toUpper]

/-- A key in the name of a variable. -/
def spellKey (key : String) : String := String.ofList (key.toList.flatMap spell)

/-- The name of the variable for a path of keys. -/
def nameOf (path : List String) : String := "TOKENLOOM_" ++ String.intercalate "__" (path.map spellKey)

/-- The path of keys with points between them. -/
def dotted (path : List String) : String := String.intercalate "." path

/-- What is read of a character of a key once the name of the variable is in lower case. -/
def soften (character : Char) : List Char := (spell character).map Char.toLower

theorem toNat_lt_of_isAlphanum (word : character.isAlphanum = true) : character.toNat < 128 := by
  have below {last : UInt32} (small : last.toNat < 128) (le : character.val ≤ last) : character.toNat < 128 :=
    Nat.lt_of_le_of_lt (UInt32.le_iff_toNat_le.mp le) small
  rcases Bool.or_eq_true_iff.mp word with letter | digit
  · rcases Bool.or_eq_true_iff.mp letter with upper | lower
    · exact @below 'Z'.val (by decide) (of_decide_eq_true upper).2
    · exact @below 'z'.val (by decide) (of_decide_eq_true (Bool.and_eq_true_iff.mp lower).2)
  · exact @below '9'.val (by decide) (of_decide_eq_true (Bool.and_eq_true_iff.mp digit).2)

/-- What holds of the letters and digits below 128 holds of all letters and digits. -/
theorem forall_isAlphanum {property : Char → Prop}
    (each : ∀ code : Fin 128, (Char.ofNat code).isAlphanum = true → property (Char.ofNat code))
    (word : character.isAlphanum = true) : property character := by
  have here := each ⟨character.toNat, toNat_lt_of_isAlphanum word⟩
  rw [Char.ofNat_toNat] at here
  exact here word

/-- No letter or digit is a separator. -/
theorem ne_separator_of_isAlphanum (word : character.isAlphanum = true) : character ≠ '_' ∧ character ≠ '.' := by
  constructor <;> rintro rfl <;> cases word

theorem toNat_lt_of_mem_spell (word : character.isAlphanum = true) :
    ∀ written ∈ spell character, written.toNat < 128 := by
  have all := @forall_isAlphanum character
    (fun character => (spell character).all (fun written => decide (written.toNat < 128)) = true) (by decide) word
  exact fun written inside => of_decide_eq_true (List.all_eq_true.mp all written inside)

/-- A capital letter is read as an underscore and the small letter that it raises to the capital one, and any other
letter or digit as it is. -/
theorem soften_cases (word : character.isAlphanum = true) :
    soften character = [character] ∨
      soften character = ['_', character.toLower] ∧ isRaisable character.toLower = true ∧
        character.toLower.toUpper = character ∧ character.toLower ≠ '_' :=
  @forall_isAlphanum character (fun character => soften character = [character] ∨
      soften character = ['_', character.toLower] ∧ isRaisable character.toLower = true ∧
        character.toLower.toUpper = character ∧ character.toLower ≠ '_') (by decide) word

/-- The words that are raised are the characters that were written. -/
theorem raiseWords_soften (words : ∀ character ∈ characters, character.isAlphanum = true) :
    raiseWords (characters.flatMap soften) = characters := by
  induction characters with
  | nil => rfl
  | cons character rest ih =>
    obtain ⟨word, others⟩ := List.forall_mem_cons.mp words
    rw [List.flatMap_cons]
    rcases soften_cases word with alone | ⟨behind, raisable, raised, -⟩
    · have noUnderscore := (ne_separator_of_isAlphanum word).1
      rw [alone, List.singleton_append,
        raiseWords.eq_4 _ _ (fun same _ => noUnderscore same) fun _ _ same _ => noUnderscore same, ih others]
    · rw [behind, List.cons_append, List.singleton_append, raiseWords.eq_3, if_pos raisable, raised, ih others]

/-- Neither in a softened key nor between it and an underscore behind it are two underscores next to each other. -/
theorem parted_soften (words : ∀ character ∈ characters, character.isAlphanum = true) :
    Parted (characters.flatMap soften ++ ['_']) := by
  induction characters with
  | nil => exact List.isChain_singleton _
  | cons character rest ih =>
    obtain ⟨word, others⟩ := List.forall_mem_cons.mp words
    rw [List.flatMap_cons, List.append_assoc]
    rcases soften_cases word with alone | ⟨behind, -, -, noUnderscore⟩
    · rw [alone, List.singleton_append, parted_cons_iff]
      exact ⟨fun same => absurd same (ne_separator_of_isAlphanum word).1, ih others⟩
    · rw [behind, List.cons_append, List.singleton_append, parted_cons_iff, parted_cons_iff]
      exact ⟨fun _ same => noUnderscore (Option.some.inj same), fun same => absurd same noUnderscore, ih others⟩

/-- Where no double underscore begins, a character belongs to the first part of what follows. -/
theorem splitRecords_cons {parts : List (List Char)} (split : splitRecords rest = segment :: parts)
    (single : character = '_' → '_' ∉ rest.head?) :
    splitRecords (character :: rest) = (character :: segment) :: parts := by
  have noPair : ∀ others, character = '_' → rest = '_' :: others → False := by
    rintro others same rfl
    exact single same rfl
  rw [splitRecords.eq_3 _ _ noPair, split]

/-- The first double underscore behind a part is where the part ends. -/
theorem splitRecords_append (parted : Parted (segment ++ ['_'])) :
    splitRecords (segment ++ '_' :: '_' :: rest) = segment :: splitRecords rest := by
  induction segment with
  | nil => rw [List.nil_append, splitRecords]
  | cons character segment ih =>
    obtain ⟨apart, behind⟩ := parted_cons_iff.mp parted
    refine splitRecords_cons (ih behind) fun same first => apart same ?_
    cases segment <;> exact first

/-- A name without a double underscore is a single part. -/
theorem splitRecords_of_parted (parted : Parted segment) : splitRecords segment = [segment] := by
  induction segment with
  | nil => rfl
  | cons character segment ih =>
    obtain ⟨apart, behind⟩ := parted_cons_iff.mp parted
    exact splitRecords_cons (ih behind) apart

/-- Parts that were joined by double underscores are split there again. -/
theorem splitRecords_intercalate (filled : segments ≠ []) (parted : ∀ segment ∈ segments, Parted (segment ++ ['_'])) :
    splitRecords (List.intercalate ['_', '_'] segments) = segments := by
  induction segments with
  | nil => exact absurd rfl filled
  | cons segment others ih =>
    obtain ⟨here, behind⟩ := List.forall_mem_cons.mp parted
    cases others with
    | nil =>
      rw [List.intercalate_singleton]
      exact splitRecords_of_parted here.left_of_append
    | cons next others =>
      rw [List.intercalate_cons_cons, List.append_assoc, List.cons_append, List.singleton_append,
        splitRecords_append here, ih (List.cons_ne_nil _ _) behind]

section Points

variable {α : Type} [DecidableEq α] {point : α} {part rest : List α} {parts : List (List α)}

/-- The first point behind entries without a point is where they are split. -/
theorem splitPoints_append (free : point ∉ part) :
    splitPoints point (part ++ point :: rest) = part :: splitPoints point rest := by
  induction part with
  | nil => rw [List.nil_append, splitPoints, if_pos rfl]
  | cons entry part ih =>
    obtain ⟨here, behind⟩ := not_or.mp (mt List.mem_cons.mpr free)
    rw [List.cons_append, splitPoints, if_neg (Ne.symm here), ih behind]

/-- Entries without a point are not split. -/
theorem splitPoints_of_not_mem (free : point ∉ part) : splitPoints point part = [part] := by
  induction part with
  | nil => rfl
  | cons entry part ih =>
    obtain ⟨here, behind⟩ := not_or.mp (mt List.mem_cons.mpr free)
    rw [splitPoints, if_neg (Ne.symm here), ih behind]

/-- Parts without points that were joined by points are split there again. -/
theorem splitPoints_intercalate (filled : parts ≠ []) (free : ∀ part ∈ parts, point ∉ part) :
    splitPoints point (List.intercalate [point] parts) = parts := by
  induction parts with
  | nil => exact absurd rfl filled
  | cons part others ih =>
    obtain ⟨here, behind⟩ := List.forall_mem_cons.mp free
    cases others with
    | nil =>
      rw [List.intercalate_singleton]
      exact splitPoints_of_not_mem here
    | cons next others =>
      rw [List.intercalate_cons_cons, List.append_assoc, List.singleton_append, splitPoints_append here,
        ih (List.cons_ne_nil _ _) behind]

end Points

theorem units_ofChars_intercalate (parts : List (List Char)) :
    (Text.ofChars (List.intercalate ['.'] parts)).units =
      List.intercalate [Text.point] (parts.map fun part => (Text.ofChars part).units) := by
  induction parts with
  | nil => rfl
  | cons part others ih =>
    cases others with
    | nil => rw [List.intercalate_singleton, List.map_singleton, List.intercalate_singleton]
    | cons next others =>
      have joined : Text.ofChars ['.'] = ⟨[Text.point]⟩ := rfl
      rw [List.intercalate_cons_cons, Text.ofChars_append, Text.ofChars_append, joined, Text.units_append,
        Text.units_append, ih]
      simp only [List.map_cons, List.intercalate_cons_cons]

theorem point_not_mem_units (free : '.' ∉ characters) : Text.point ∉ (Text.ofChars characters).units := by
  intro among
  obtain ⟨code, member, inside⟩ := List.mem_flatMap.mp among
  obtain ⟨character, present, rfl⟩ := List.mem_map.mp member
  have bounded : character.toNat < 0x110000 := by
    have valid := character.valid
    simp only [UInt32.isValidChar, Nat.isValidChar] at valid
    exact Nat.lt_of_lt_of_le (valid.elim (fun low => Nat.lt_trans low (by decide)) And.right) (by decide)
  have same : character.toNat = '.'.toNat := (Text.mem_unitsOf_iff bounded rfl).mp inside
  exact free (Char.toNat_inj.mp same ▸ present)

/-- A dotted path is read as the keys that it was made of, if there is no point in them. -/
theorem keysOf_dotted (filled : path ≠ []) (free : ∀ key ∈ path, '.' ∉ key.toList) :
    keysOf (dotted path) = path.map Text.ofString := by
  have separator : ".".toList = ['.'] := rfl
  have units : (Text.ofString (dotted path)).units =
      List.intercalate [Text.point] (path.map fun key => (Text.ofString key).units) := by
    rw [Text.ofString, dotted, String.toList_intercalate, separator, units_ofChars_intercalate, List.map_map]
    rfl
  have split : splitPoints Text.point (List.intercalate [Text.point] (path.map fun key => (Text.ofString key).units)) =
      path.map fun key => (Text.ofString key).units :=
    splitPoints_intercalate (by simpa using filled)
      (List.forall_mem_map.mpr fun key member => point_not_mem_units (free key member))
  rw [keysOf, units, split, List.map_map]
  rfl

/-- What is joined by separators is mapped like its parts and the separators. -/
theorem map_intercalate (map : Char → Char) (separator : List Char) (parts : List (List Char)) :
    (List.intercalate separator parts).map map = List.intercalate (separator.map map) (parts.map (List.map map)) := by
  induction parts with
  | nil => rfl
  | cons part others ih =>
    cases others with
    | nil => simp
    | cons next others =>
      rw [List.intercalate_cons_cons, List.map_append, List.map_append, ih]
      simp only [List.map_cons, List.intercalate_cons_cons]

/-- What holds of all characters of the separator and of the parts holds of all that are joined. -/
theorem forall_mem_intercalate {property : Char → Prop} {separator : List Char}
    (between : ∀ character ∈ separator, property character)
    (inside : ∀ segment ∈ segments, ∀ character ∈ segment, property character) :
    ∀ character ∈ List.intercalate separator segments, property character := by
  induction segments with
  | nil => exact List.forall_mem_nil _
  | cons segment others ih =>
    obtain ⟨here, behind⟩ := List.forall_mem_cons.mp inside
    cases others with
    | nil =>
      rw [List.intercalate_singleton]
      exact here
    | cons next others =>
      rw [List.intercalate_cons_cons, List.forall_mem_append, List.forall_mem_append]
      exact ⟨⟨here, between⟩, ih behind⟩

theorem stripOpening?_append (rest : List Char) : stripOpening? (opening ++ rest) = some rest := by
  have begins : opening.isPrefixOf (opening ++ rest) = true := List.isPrefixOf_iff_prefix.mpr (List.prefix_append _ _)
  rw [stripOpening?, if_pos begins, List.drop_left]

theorem isAlphanum_of_isWord {key : String} (word : isWord key = true) :
    ∀ character ∈ key.toList, character.isAlphanum = true := List.all_eq_true.mp word

/-- The lower-case form of what stands behind the opening in the name of a variable. -/
theorem lowerCase_spelled (words : ∀ key ∈ path, isWord key = true) :
    (Text.ofChars (List.intercalate ['_', '_'] (path.map fun key => key.toList.flatMap spell))).lowerCase.chars =
      List.intercalate ['_', '_'] (path.map fun key => key.toList.flatMap soften) := by
  rw [Text.lowerCase_ofChars, Text.chars_ofChars, map_intercalate, List.map_map]
  · refine congrArg _ (List.map_congr_left fun key member => ?_)
    exact List.map_flatMap
  · have separators : ∀ character ∈ ['_', '_'], character.toNat < 128 :=
      List.forall_mem_cons.mpr ⟨by decide, List.forall_mem_singleton.mpr (by decide)⟩
    refine forall_mem_intercalate separators (List.forall_mem_map.mpr fun key member => ?_)
    simp only [List.mem_flatMap]
    rintro written ⟨character, inside, spelled⟩
    exact toNat_lt_of_mem_spell (isAlphanum_of_isWord (words key member) character inside) written spelled

/-- A path of one or more words is what the name of its variable is read as. -/
theorem keys?_nameOf (filled : path ≠ []) (words : ∀ key ∈ path, isWord key = true) :
    keys? (nameOf path) = some path := by
  have written : (nameOf path).toList =
      opening ++ List.intercalate ['_', '_'] (path.map fun key => key.toList.flatMap spell) := by
    rw [nameOf, String.toList_append, String.toList_intercalate, List.map_map]
    refine congrArg (opening ++ List.intercalate ['_', '_'] ·) (List.map_congr_left fun key _ => ?_)
    exact String.toList_ofList
  have split : splitRecords (List.intercalate ['_', '_'] (path.map fun key => key.toList.flatMap soften)) =
      path.map fun key => key.toList.flatMap soften := by
    refine splitRecords_intercalate (by simpa using filled) (List.forall_mem_map.mpr fun key member => ?_)
    exact parted_soften (isAlphanum_of_isWord (words key member))
  have raised : (path.map fun key => key.toList.flatMap soften).map raiseWords = path.map String.toList := by
    rw [List.map_map]
    exact List.map_congr_left fun key member => raiseWords_soften (isAlphanum_of_isWord (words key member))
  have alone : ∀ key ∈ path, splitPoints '.' key.toList = [key.toList] := fun key member =>
    splitPoints_of_not_mem fun point =>
      (ne_separator_of_isAlphanum (isAlphanum_of_isWord (words key member) '.' point)).2 rfl
  have whole : (path.map String.toList).flatMap (splitPoints '.') = path.map String.toList := by
    rw [List.flatMap_map, List.flatMap_congr alone, List.map_eq_flatMap]
  rw [keys?, written, stripOpening?_append, Option.map_some, lowerCase_spelled words, split, raised, whole, List.map_map]
  exact congrArg some (List.map_id'' (fun key => String.ofList_toList) path)

/-- Every path of one or more words, those in camel case among them, has a variable of its own: the name is read as the
path and as no other one, and the variable stores its value there. -/
theorem nameOf_addresses (filled : path ≠ []) (words : ∀ key ∈ path, isWord key = true) :
    keys? (nameOf path) = some path ∧ keysOf (dotted path) = path.map Text.ofString ∧
      (∀ environment text, settings (environment ++ [(nameOf path, text)]) =
        Value.store (settings environment) (path.map Text.ofString) (valueOf text)) ∧
      ∀ other, other ≠ [] → (∀ key ∈ other, isWord key = true) → nameOf other = nameOf path → other = path := by
  have named := keys?_nameOf filled words
  refine ⟨named, ?_, fun environment text => ?_, fun other filled' words' same => ?_⟩
  · refine keysOf_dotted filled fun key member point => ?_
    exact (ne_separator_of_isAlphanum (isAlphanum_of_isWord (words key member) '.' point)).2 rfl
  · rw [settings, List.foldl_append, ← settings, List.foldl_cons, List.foldl_nil, named]
  · have named' := keys?_nameOf filled' words'
    rw [same, named] at named'
    exact (Option.some.inj named').symm

/-- Capital letters next to each other and behind digits are read back as well. -/
theorem nameOf_addresses_capitals :
    (∀ key ∈ ["engine", "maxDepth2", "a1BC"], isWord key = true) ∧
      nameOf ["engine", "maxDepth2", "a1BC"] = "TOKENLOOM_ENGINE__MAX_DEPTH2__A1_B_C" ∧
      keys? "TOKENLOOM_ENGINE__MAX_DEPTH2__A1_B_C" = some ["engine", "maxDepth2", "a1BC"] ∧
      keysOf ("engine.maxDepth2.a1BC" : Text) = ["engine", "maxDepth2", "a1BC"] := by
  have words : ∀ key ∈ ["engine", "maxDepth2", "a1BC"], isWord key = true := by decide
  have spelled : nameOf ["engine", "maxDepth2", "a1BC"] = "TOKENLOOM_ENGINE__MAX_DEPTH2__A1_B_C" := by decide
  obtain ⟨named, keys, -⟩ := nameOf_addresses (List.cons_ne_nil _ _) words
  rw [spelled] at named
  exact ⟨words, spelled, named, keys⟩

end Environment

end TokenGrammar
