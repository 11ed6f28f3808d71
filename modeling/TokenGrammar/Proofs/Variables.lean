import Mathlib.Data.List.Chain
import TokenGrammar.Configuration
import TokenGrammar.Proofs.Layers

namespace TokenGrammar

namespace Value

variable {fields : Fields} {key : Text} {keys path : List Text} {value : Value}

/-- A record stays plain when a plain value is stored in it under a key that is not that of the parent. -/
theorem isPlain_put (plain : ∀ path, (record fields).IsPlain path) (free : key ≠ parentKey)
    (stored : ∀ path, value.IsPlain path) : (record (fields.put key value)).IsPlain path := by
  cases path with
  | nil => trivial
  | cons name rest =>
    obtain ⟨once, absent, -, inner⟩ := plain (name :: rest)
    refine ⟨Entries.nodup_keys_put once, ?_, rfl, fun next here => ?_⟩
    · exact fun member => (Entries.mem_keys_put_iff.mp member).elim absent free.symm
    · rw [fields_record, Option.mem_def, Fields.valueAt_put] at here
      split at here
      · cases here
        exact stored rest
      · exact inner next here

/-- What a plain record has under a key, seen as a record, is plain. -/
theorem isPlain_fields_valueAt (plain : ∀ path, (record fields).IsPlain path) :
    (record (((Fields.valueAt fields key).map Value.fields).getD [])).IsPlain path := by
  cases here : Fields.valueAt fields key with
  | none => exact isPlain_nil
  | some value =>
    have inner (path : List Text) : value.IsPlain path := (plain (key :: path)).2.2.2 value here
    exact (inner path).record_fields

/-- A record stays plain when a plain value is stored in it at the end of a path of keys other than that of the parent. -/
theorem isPlain_store (plain : ∀ path, (record fields).IsPlain path) (free : ∀ key ∈ keys, key ≠ parentKey)
    (stored : ∀ path, value.IsPlain path) : (record (store fields keys value)).IsPlain path := by
  induction keys generalizing fields path with
  | nil => exact plain path
  | cons key rest ih =>
    obtain ⟨first, others⟩ := List.forall_mem_cons.mp free
    cases rest with
    | nil => exact isPlain_put plain first stored
    | cons next rest =>
      exact isPlain_put plain first fun path => ih (fun path => isPlain_fields_valueAt plain) others

end Value

namespace Environment

/-- Characters among which no two underscores are next to each other. -/
def Parted (characters : List Char) : Prop :=
  characters.IsChain fun first second => first = '_' → second ≠ '_'

variable {character : Char} {characters part : List Char}

theorem parted_cons_iff : Parted (character :: characters) ↔
    (character = '_' → '_' ∉ characters.head?) ∧ Parted characters := by
  rw [Parted, List.isChain_cons, Parted]
  refine and_congr_left fun _ => ⟨fun apart same member => apart '_' member same rfl, ?_⟩
  rintro apart second member same rfl
  exact apart same member

/-- What stands among parted characters without a gap is parted as well. -/
theorem Parted.within (parted : Parted characters) (inside : part <:+: characters) : Parted part := by
  obtain ⟨before, behind, rfl⟩ := inside
  exact parted.left_of_append.right_of_append

theorem splitRecords_ne_nil (characters : List Char) : splitRecords characters ≠ [] := by
  unfold splitRecords
  split <;> (try split) <;> exact List.cons_ne_nil _ _

/-- What stands in front of the first double underscore is where the name begins. -/
theorem prefix_of_splitRecords {parts : List (List Char)} (parted : splitRecords characters = part :: parts) :
    part <+: characters := by
  induction characters using splitRecords.induct generalizing part parts with
  | case1 | case2 =>
    cases parted
    exact List.nil_prefix
  | case3 character rest single none =>
    rw [splitRecords.eq_3 _ _ single, none] at parted
    cases parted
    exact List.prefix_append [character] rest
  | case4 character rest single segment segments some ih =>
    rw [splitRecords.eq_3 _ _ single, some] at parted
    cases parted
    exact List.cons_prefix_cons.mpr ⟨rfl, ih some⟩

/-- Between double underscores no two underscores are next to each other. -/
theorem parted_of_mem_splitRecords (member : part ∈ splitRecords characters) : Parted part := by
  induction characters using splitRecords.induct generalizing part with
  | case1 =>
    cases List.mem_singleton.mp member
    exact List.isChain_nil
  | case2 rest ih =>
    rcases List.mem_cons.mp member with rfl | member
    · exact List.isChain_nil
    · exact ih member
  | case3 character rest single none =>
    rw [splitRecords.eq_3 _ _ single, none] at member
    cases List.mem_singleton.mp member
    exact List.isChain_singleton character
  | case4 character rest single segment segments some ih =>
    rw [splitRecords.eq_3 _ _ single, some] at member
    rw [some] at ih
    rcases List.mem_cons.mp member with rfl | member
    · refine parted_cons_iff.mpr ⟨fun same second => ?_, ih List.mem_cons_self⟩
      obtain ⟨behind, rest_eq⟩ := prefix_of_splitRecords some
      obtain ⟨others, rfl⟩ := List.head?_eq_some_iff.mp (Option.mem_def.mp second)
      exact single (others ++ behind) same rest_eq.symm
    · exact ih (List.mem_cons_of_mem _ member)

theorem toNat_lt_of_isRaisable (raisable : isRaisable character = true) : character.toNat < 128 := by
  have bound {last : Char} (small : last.toNat < 128) (below : character ≤ last) : character.toNat < 128 :=
    Nat.lt_of_le_of_lt below small
  simp only [isRaisable, Bool.or_eq_true, Bool.and_eq_true, decide_eq_true_eq] at raisable
  rcases raisable with ⟨-, below⟩ | ⟨-, below⟩
  · exact bound (by decide) below
  · exact bound (by decide) below

/-- No letter or digit that an underscore raises becomes an underscore. -/
theorem toUpper_ne_underscore (raisable : isRaisable character = true) : character.toUpper ≠ '_' := by
  have each : ∀ code : Fin 128, isRaisable (Char.ofNat code) = true → (Char.ofNat code).toUpper ≠ '_' := by decide
  have here := each ⟨character.toNat, toNat_lt_of_isRaisable raisable⟩
  rw [Char.ofNat_toNat] at here
  exact here raisable

/-- Words that are raised begin with an underscore only where they did before. -/
theorem head?_of_raiseWords (first : '_' ∈ (raiseWords characters).head?) : '_' ∈ characters.head? := by
  induction characters using raiseWords.induct with
  | case1 => exact first
  | case2 => rfl
  | case3 | case4 => rfl
  | case5 character rest alone before => rwa [raiseWords.eq_4 _ _ alone before] at first

/-- To raise words puts no two underscores next to each other. -/
theorem parted_raiseWords (parted : Parted characters) : Parted (raiseWords characters) := by
  induction characters using raiseWords.induct with
  | case1 => exact parted
  | case2 => exact parted
  | case3 character rest raisable ih =>
    rw [raiseWords.eq_3, if_pos raisable, parted_cons_iff]
    have behind := (parted_cons_iff.mp (parted_cons_iff.mp parted).2).2
    exact ⟨fun same => absurd same (toUpper_ne_underscore raisable), ih behind⟩
  | case4 character rest kept ih =>
    obtain ⟨apart, behind⟩ := parted_cons_iff.mp parted
    rw [raiseWords.eq_3, if_neg kept, parted_cons_iff]
    exact ⟨fun same first => apart same (head?_of_raiseWords first), ih behind⟩
  | case5 character rest alone before ih =>
    obtain ⟨apart, behind⟩ := parted_cons_iff.mp parted
    rw [raiseWords.eq_4 _ _ alone before, parted_cons_iff]
    exact ⟨fun same first => apart same (head?_of_raiseWords first), ih behind⟩

section Points

variable {α : Type} [DecidableEq α] {point : α} {entries part : List α}

theorem splitPoints_ne_nil (point : α) (entries : List α) : splitPoints point entries ≠ [] := by
  unfold splitPoints
  split
  · exact List.cons_ne_nil _ _
  · split
    · exact List.cons_ne_nil _ _
    · split <;> exact List.cons_ne_nil _ _

/-- What stands in front of the first point is where the entries begin. -/
theorem prefix_of_splitPoints {parts : List (List α)} (parted : splitPoints point entries = part :: parts) :
    part <+: entries := by
  induction entries generalizing part parts with
  | nil =>
    cases parted
    exact List.nil_prefix
  | cons entry rest ih =>
    rw [splitPoints] at parted
    split at parted
    · cases parted
      exact List.nil_prefix
    · split at parted
      · cases parted
        exact List.prefix_append [entry] rest
      · rename_i segment segments split
        cases parted
        exact List.cons_prefix_cons.mpr ⟨rfl, ih split⟩

/-- What stands between points stands there without a gap. -/
theorem infix_of_mem_splitPoints (member : part ∈ splitPoints point entries) : part <:+: entries := by
  induction entries generalizing part with
  | nil =>
    cases List.mem_singleton.mp member
    exact List.infix_rfl
  | cons entry rest ih =>
    rw [splitPoints] at member
    split at member
    · rcases List.mem_cons.mp member with rfl | member
      · exact List.nil_infix
      · exact (ih member).trans (List.suffix_cons _ _).isInfix
    · split at member
      · rename_i none
        exact absurd none (splitPoints_ne_nil point rest)
      · rename_i segment segments split
        rcases List.mem_cons.mp member with rfl | member
        · exact (List.cons_prefix_cons.mpr ⟨rfl, prefix_of_splitPoints split⟩).isInfix
        · exact (ih (split ▸ List.mem_cons_of_mem _ member)).trans (List.suffix_cons _ _).isInfix

end Points

/-- A variable names no parent of a record. -/
theorem ne_parentKey_of_keys? {name : String} {keys : List String} (named : keys? name = some keys) {key : String}
    (member : key ∈ keys) : Text.ofString key ≠ Value.parentKey := by
  obtain ⟨rest, -, rfl⟩ := Option.map_eq_some_iff.mp named
  obtain ⟨part, among, rfl⟩ := List.mem_map.mp member
  obtain ⟨segment, within, inside⟩ := List.mem_flatMap.mp among
  obtain ⟨lowered, split, rfl⟩ := List.mem_map.mp within
  have parted : Parted part :=
    (parted_raiseWords (parted_of_mem_splitRecords split)).within (infix_of_mem_splitPoints inside)
  intro same
  have spelled : part = "__proto__".toList := by simpa using congrArg String.toList (Text.ofString_injective same)
  rw [spelled] at parted
  exact (parted_cons_iff.mp parted).1 rfl rfl

theorem isRecord_valueOf (text : String) : (valueOf text).isRecord = false := by
  unfold valueOf
  split_ifs <;> rfl

/-- The settings of variables are plain along every path. -/
theorem isPlain_settings (environment : List (String × String)) (path : List Text) :
    (Value.record (settings environment)).IsPlain path := by
  induction environment using List.reverseRecOn generalizing path with
  | nil => exact Value.isPlain_nil
  | append_singleton environment entry ih =>
    rw [settings, List.foldl_append, ← settings, List.foldl_cons, List.foldl_nil]
    cases named : keys? entry.1 with
    | none => exact ih path
    | some keys =>
      refine Value.isPlain_store ih ?_ fun path => Value.isPlain_of_not_isRecord (isRecord_valueOf entry.2)
      exact List.forall_mem_map.mpr fun key member => ne_parentKey_of_keys? named member

end Environment

namespace Configuration

/-- The defaults are plain along every path. -/
theorem isPlain_defaults (path : List Text) : (Value.record defaults).IsPlain path := by
  refine Value.isPlain_record (by decide) (by decide) ?_
  simp only [defaults, List.forall_mem_cons]
  refine ⟨fun _ => Value.isPlain_of_not_isRecord rfl, fun _ => Value.isPlain_of_not_isRecord rfl, fun _ => ?_, nofun⟩
  refine Value.isPlain_record (by decide) (by decide) (List.forall_mem_singleton.mpr fun _ => ?_)
  exact Value.isPlain_of_not_isRecord rfl

end Configuration

end TokenGrammar
