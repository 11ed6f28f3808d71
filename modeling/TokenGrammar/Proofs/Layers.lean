import Mathlib.Data.List.Induction
import Mathlib.Data.List.Nodup
import TokenGrammar.Value.Inheritance

namespace TokenGrammar

namespace Fields

variable {fields : Fields} {key : Text}

theorem valueAt_eq_none_of_not_mem (absent : key ∉ fields.keys) : fields.valueAt key = none :=
  Entries.lookup_eq_none_iff.mpr absent

end Fields

namespace Value

/-- The keys of what descendants of the common ancestor inherit. -/
def inheritedKeys : List Text := parentKey :: standardOperations.map Text.ofString

/-- What a path of keys leads to among the fields of records. -/
def at? (value : Value) : List Text → Option Value
  | [] => some value
  | key :: path => (Fields.valueAt value.fields key).bind fun next => next.at? path

/-- What an heir has under a key besides its fields. -/
def unshown? (key : Text) : Value → Option Value
  | .heir _ hidden parent => (Fields.valueAt hidden key).or (held? key parent)
  | _ => none

/-- A value is plain along a path when each record on the way to its last key has each of its keys once, nothing under the
key of the parent, and nothing under the next key but what is a field. -/
def IsPlain : List Text → Value → Prop
  | [], _ => True
  | key :: path, value => value.fields.keys.Nodup ∧ parentKey ∉ value.fields.keys ∧ value.unshown? key = none ∧
      ∀ next ∈ Fields.valueAt value.fields key, next.IsPlain path

/-- A value hides what lies below at a path when it has something there, or something on the way that is no record. -/
def Hides (value : Value) (path : List Text) : Prop :=
  (∃ found, value.at? path = some found) ∨
    ∃ before behind found, path = before ++ behind ∧ behind ≠ [] ∧ value.at? before = some found ∧ found.isRecord = false

variable {value next scalar : Value} {below : Option Value} {fields lower upper : Fields} {key : Text} {path : List Text}

@[simp] theorem fields_record : (record fields).fields = fields := rfl

theorem fields_of_not_isRecord (other : value.isRecord = false) : value.fields = [] := by
  cases value with
  | ancestor | record | heir => cases other
  | _ => rfl

theorem overlay_of_not_isRecord (other : value.isRecord = false) : overlay below value = value := by
  cases value with
  | ancestor | record | heir => cases other
  | _ => rfl

/-- A record over what is no record is the record itself. -/
theorem overlay_of_below (noRecord : ∀ old ∈ below, old.isRecord = false) : overlay below value = value := by
  have nothing : below.bind fields? = none := by
    rw [Option.bind_eq_none_iff]
    exact fun old isBelow => Option.not_isSome_iff_eq_none.mp (Bool.not_eq_true _ ▸ noRecord old isBelow)
  cases value with
  | ancestor | record | heir => rw [overlay, nothing]
  | _ => rfl

/-- A record over a record is what comes of laying its fields over those of the other one. -/
theorem overlay_of_isRecord (old : value.isRecord = true) (new : next.isRecord = true) :
    overlay (some value) next = overlayFields (.record value.fields) next.fields := by
  have shown : (some value).bind fields? = some value.fields := by
    obtain ⟨fields, shown⟩ := Option.isSome_iff_exists.mp old
    rw [Option.bind_some, Value.fields, shown, Option.getD_some]
  cases next with
  | ancestor | record | heir =>
    rw [overlay, shown]
    rfl
  | _ => cases new

theorem isRecord_adopt (record : value.isRecord = true) : (value.adopt next).isRecord = true := by
  unfold adopt
  split_ifs
  · cases value <;> rfl
  · exact record

theorem isRecord_assign (record : value.isRecord = true) : (value.assign key next).isRecord = true := by
  rw [assign]
  split_ifs
  · exact isRecord_adopt record
  · cases value <;> rfl

theorem isRecord_overlayFields (record : value.isRecord = true) : (overlayFields value upper).isRecord = true := by
  induction upper generalizing value with
  | nil => rwa [overlayFields]
  | cons field rest ih =>
    obtain ⟨key, next⟩ := field
    rw [overlayFields]
    exact ih (isRecord_assign record)

def laid (lower : Fields) : Fields → Fields
  | [] => lower
  | (key, value) :: rest => laid (lower.put key (overlay ((record lower).member? key) value)) rest

/-- Where nothing is stored under the key of the parent, a record keeps the common ancestor as its parent. -/
theorem overlayFields_record (free : parentKey ∉ upper.keys) :
    overlayFields (.record lower) upper = .record (laid lower upper) := by
  induction upper generalizing lower with
  | nil => rw [overlayFields, laid]
  | cons field rest ih =>
    obtain ⟨key, value⟩ := field
    obtain ⟨other, others⟩ := not_or.mp (mt List.mem_cons.mpr free)
    have stores : (record lower).assign key (overlay ((record lower).member? key) value) =
        .record (lower.put key (overlay ((record lower).member? key) value)) := by
      rw [assign, if_neg fun given => other given.1.symm]
      rfl
    rw [overlayFields, laid, stores]
    exact ih others

theorem standard?_eq_none (own : key ∉ inheritedKeys) : standard? key = none := by
  have none : (standardOperations.find? fun name => Text.ofString name = key) = none := by
    refine List.find?_eq_none.mpr fun name member same => own (List.mem_cons_of_mem _ ?_)
    exact List.mem_map.mpr ⟨name, member, of_decide_eq_true same⟩
  rw [standard?, operation?, none, Option.map_none]

/-- Under a key that is not inherited a value shows its field, unless it is an heir that has something else there. -/
theorem member?_eq_valueAt (own : key ∉ inheritedKeys) (clear : value.unshown? key = none) :
    value.member? key = Fields.valueAt value.fields key := by
  have noParent : key ≠ parentKey := fun same => own (same ▸ List.mem_cons_self)
  cases value with
  | ancestor => simp [member?, held?, standard?_eq_none own, noParent, fields, fields?, Fields.valueAt]
  | record fields => simp [member?, held?, standard?_eq_none own, noParent, isRecord, fields?]
  | heir fields hidden parent =>
    rw [unshown?] at clear
    simp [member?, held?, clear, noParent, isRecord, Value.fields, fields?]
  | _ => rfl

/-- Under each key that is not inherited stands the upper value laid over the lower one, or the lower value alone. -/
theorem valueAt_laid (own : key ∉ inheritedKeys) (once : upper.keys.Nodup) :
    (laid lower upper).valueAt key =
      match upper.valueAt key with
      | some value => some (overlay (lower.valueAt key) value)
      | none => lower.valueAt key := by
  induction upper generalizing lower with
  | nil => rfl
  | cons field rest ih =>
    obtain ⟨name, value⟩ := field
    obtain ⟨absent, others⟩ := List.nodup_cons.mp once
    rw [laid, ih others, Fields.valueAt_put]
    by_cases same : key = name
    · subst same
      rw [Fields.valueAt_eq_none_of_not_mem absent, if_pos rfl, member?_eq_valueAt own rfl]
      simp [Fields.valueAt]
    · have further : Fields.valueAt ((name, value) :: rest) key = Fields.valueAt rest key := by
        simp [Fields.valueAt, List.lookup_cons, beq_false_of_ne same]
      rw [further, if_neg same]

theorem nodup_keys_laid (once : lower.keys.Nodup) : (laid lower upper).keys.Nodup := by
  induction upper generalizing lower with
  | nil => exact once
  | cons field rest ih => exact ih (Entries.nodup_keys_put once)

theorem not_mem_keys_laid (below : key ∉ lower.keys) (above : key ∉ upper.keys) : key ∉ (laid lower upper).keys := by
  induction upper generalizing lower with
  | nil => exact below
  | cons field rest ih =>
    obtain ⟨other, others⟩ := not_or.mp (mt List.mem_cons.mpr above)
    exact ih (fun member => (Entries.mem_keys_put_iff.mp member).elim below other) others

theorem isPlain_of_not_isRecord (other : value.isRecord = false) : value.IsPlain path := by
  cases path with
  | nil => trivial
  | cons key rest =>
    have clear : value.unshown? key = none := by
      cases value with
      | heir => cases other
      | _ => rfl
    rw [IsPlain, fields_of_not_isRecord other]
    exact ⟨List.nodup_nil, List.not_mem_nil, clear, nofun⟩

/-- A record of plain values, each under a key of its own other than that of the parent, is plain. -/
theorem isPlain_record (once : fields.keys.Nodup) (free : parentKey ∉ fields.keys)
    (inner : ∀ field ∈ fields, ∀ path, field.2.IsPlain path) : (record fields).IsPlain path := by
  cases path with
  | nil => trivial
  | cons key rest =>
    refine ⟨once, free, rfl, fun next here => ?_⟩
    obtain ⟨before, behind, rfl, -⟩ := List.lookup_eq_some_iff.mp here
    exact inner (key, next) (List.mem_append_right _ List.mem_cons_self) rest

theorem isPlain_nil : (record []).IsPlain path := isPlain_record List.nodup_nil List.not_mem_nil nofun

/-- What is plain in a value is plain in a record of its fields. -/
theorem IsPlain.record_fields (plain : value.IsPlain path) : (record value.fields).IsPlain path := by
  cases path with
  | nil => trivial
  | cons key rest => exact ⟨plain.1, plain.2.1, rfl, plain.2.2.2⟩

theorem hides_of_not_isRecord (other : value.isRecord = false) : value.Hides path := by
  cases path with
  | nil => exact .inl ⟨value, rfl⟩
  | cons key rest => exact .inr ⟨[], key :: rest, value, rfl, List.cons_ne_nil _ _, rfl, other⟩

/-- A record hides what lies below at a path when what it has under the first key does at the rest of the path. -/
theorem hides_cons_iff (record : value.isRecord = true) : value.Hides (key :: path) ↔
    ∃ next, Fields.valueAt value.fields key = some next ∧ next.Hides path := by
  constructor
  · rintro (⟨found, leads⟩ | ⟨before, behind, found, split, filled, leads, other⟩)
    · obtain ⟨next, here, leads⟩ := Option.bind_eq_some_iff.mp leads
      exact ⟨next, here, .inl ⟨found, leads⟩⟩
    · cases before with
      | nil =>
        cases leads
        simp [record] at other
      | cons first before =>
        cases split
        obtain ⟨next, here, leads⟩ := Option.bind_eq_some_iff.mp leads
        exact ⟨next, here, .inr ⟨before, behind, found, rfl, filled, leads, other⟩⟩
  · rintro ⟨next, here, ⟨found, leads⟩ | ⟨before, behind, found, rfl, filled, leads, other⟩⟩
    · exact .inl ⟨found, Option.bind_eq_some_iff.mpr ⟨next, here, leads⟩⟩
    · exact .inr ⟨key :: before, behind, found, rfl, filled, Option.bind_eq_some_iff.mpr ⟨next, here, leads⟩, other⟩

theorem at?_cons_of_not_isRecord (other : value.isRecord = false) : value.at? (key :: path) = none := by
  rw [at?, fields_of_not_isRecord other]
  rfl

/-- Along a plain path of keys that are not inherited, a path leads through the fields of records. -/
theorem follow_plain (own : ∀ key ∈ path, key ∉ inheritedKeys) (plain : value.IsPlain path) :
    value.follow path = value.at? path := by
  induction path generalizing value with
  | nil => rfl
  | cons key rest ih =>
    obtain ⟨ownKey, ownRest⟩ := List.forall_mem_cons.mp own
    rw [follow, at?, member?_eq_valueAt ownKey plain.2.2.1]
    cases here : Fields.valueAt value.fields key with
    | none => rfl
    | some next => exact ih ownRest (plain.2.2.2 next here)

/-- A value over another one along a path is the value itself, or the fields of one record over those of another. -/
theorem overlay_cases (below : Option Value) (plain : next.IsPlain (key :: path)) :
    (overlay below next = next ∧ (next.isRecord = true → ∀ old ∈ below, old.isRecord = false)) ∨
      ∃ old, below = some old ∧ old.isRecord = true ∧ next.isRecord = true ∧
        overlay below next = .record (laid old.fields next.fields) := by
  by_cases new : next.isRecord = true
  · by_cases noRecord : ∀ old ∈ below, old.isRecord = false
    · exact .inl ⟨overlay_of_below noRecord, fun _ => noRecord⟩
    · obtain ⟨old, isBelow, record⟩ : ∃ old, below = some old ∧ old.isRecord = true := by simpa using noRecord
      refine .inr ⟨old, isBelow, record, new, ?_⟩
      rw [isBelow, overlay_of_isRecord record new, overlayFields_record plain.2.1]
  · have other : next.isRecord = false := by simpa using new
    exact .inl ⟨overlay_of_not_isRecord other, fun isRecord => absurd isRecord new⟩

/-- What one layer over another shows at a path follows from what the values under the first key show at its rest. -/
theorem at?_laid_iff_of_rest (own : key ∉ inheritedKeys) (once : upper.keys.Nodup)
    (rest : ∀ next, upper.valueAt key = some next →
      ((overlay (lower.valueAt key) next).at? path = some scalar ↔
        next.at? path = some scalar ∨ (∃ old, lower.valueAt key = some old ∧ old.at? path = some scalar) ∧ ¬ next.Hides path)) :
    (record (laid lower upper)).at? (key :: path) = some scalar ↔
      (record upper).at? (key :: path) = some scalar ∨
        (record lower).at? (key :: path) = some scalar ∧ ¬ (record upper).Hides (key :: path) := by
  rw [hides_cons_iff rfl]
  simp only [at?, fields_record, valueAt_laid own once, Option.bind_eq_some_iff]
  cases above : upper.valueAt key with
  | none => simp
  | some next => simpa using rest next above

theorem isRecord_overlay : (overlay below value).isRecord = value.isRecord := by
  by_cases new : value.isRecord = true
  · by_cases noRecord : ∀ old ∈ below, old.isRecord = false
    · rw [overlay_of_below noRecord]
    · obtain ⟨old, rfl, record⟩ : ∃ old, below = some old ∧ old.isRecord = true := by simpa using noRecord
      rw [overlay_of_isRecord record new, new]
      exact isRecord_overlayFields rfl
  · rw [overlay_of_not_isRecord (by simpa using new)]

/-- What a value over another one shows at a path is what it has there itself, or what the lower one has there if that is
not hidden. -/
theorem at?_overlay_iff (plainly : scalar.isRecord = false) (own : ∀ key ∈ path, key ∉ inheritedKeys)
    (under : ∀ old ∈ below, old.IsPlain path) (plain : next.IsPlain path) :
    (overlay below next).at? path = some scalar ↔
      next.at? path = some scalar ∨ (∃ old, below = some old ∧ old.at? path = some scalar) ∧ ¬ next.Hides path := by
  induction path generalizing below next with
  | nil =>
    have hides : next.Hides [] := .inl ⟨next, rfl⟩
    simp only [at?, hides, not_true_eq_false, and_false, or_false, Option.some.injEq]
    by_cases record : next.isRecord = true
    · have apart {shown : Value} (isRecord : shown.isRecord = true) : shown ≠ scalar := by
        rintro rfl
        simp [plainly] at isRecord
      exact iff_of_false (apart (isRecord_overlay.trans record)) (apart record)
    · rw [overlay_of_not_isRecord (by simpa using record)]
  | cons key rest ih =>
    obtain ⟨ownKey, ownRest⟩ := List.forall_mem_cons.mp own
    rcases overlay_cases below plain with ⟨stays, apart⟩ | ⟨old, rfl, record, new, lays⟩
    · rw [stays]
      refine ⟨.inl, fun given => given.resolve_right ?_⟩
      rintro ⟨⟨old, rfl, leads⟩, shows⟩
      by_cases record : next.isRecord = true
      · rw [at?_cons_of_not_isRecord (apart record old rfl)] at leads
        cases leads
      · exact shows (hides_of_not_isRecord (by simpa using record))
    · have inner := (under old rfl).2.2.2
      rw [lays, at?_laid_iff_of_rest ownKey plain.1 fun next here => ih ownRest inner (plain.2.2.2 next here),
        hides_cons_iff rfl, hides_cons_iff new]
      simp [at?]

/-- What lies over a plain value plainly is plain. -/
theorem isPlain_overlay (own : ∀ key ∈ path, key ∉ inheritedKeys) (under : ∀ old ∈ below, old.IsPlain path)
    (plain : next.IsPlain path) : (overlay below next).IsPlain path := by
  induction path generalizing below next with
  | nil => trivial
  | cons key rest ih =>
    obtain ⟨ownKey, ownRest⟩ := List.forall_mem_cons.mp own
    rcases overlay_cases below plain with ⟨stays, -⟩ | ⟨old, rfl, record, new, lays⟩
    · rwa [stays]
    · obtain ⟨once, free, -, inner⟩ := under old rfl
      obtain ⟨onceAbove, freeAbove, -, innerAbove⟩ := plain
      rw [lays]
      refine ⟨nodup_keys_laid once, not_mem_keys_laid free freeAbove, rfl, fun shown here => ?_⟩
      rw [fields_record, Option.mem_def, valueAt_laid ownKey onceAbove] at here
      cases above : Fields.valueAt next.fields key with
      | none =>
        rw [above] at here
        exact inner shown here
      | some next =>
        rw [above] at here
        cases here
        exact ih ownRest inner (innerAbove next above)

/-- Records laid over each other, the lowest first. -/
def stack (sources : List Fields) : Value :=
  sources.foldl (fun lower upper => overlayFields (.record lower.fields) upper) (.record [])

/-- Of several records, the lowest first, one gives a value at a path when it has the value there and no higher one hides
it. -/
def Gives (sources : List Fields) (path : List Text) (value : Value) : Prop :=
  ∃ lower source higher, sources = lower ++ source :: higher ∧ (record source).at? path = some value ∧
    ∀ other ∈ higher, ¬ (record other).Hides path

variable {sources : List Fields}

theorem gives_append_singleton_iff : Gives (sources ++ [upper]) path value ↔
    (record upper).at? path = some value ∨ Gives sources path value ∧ ¬ (record upper).Hides path := by
  constructor
  · rintro ⟨lower, source, higher, split, leads, shows⟩
    rcases List.eq_nil_or_concat higher with rfl | ⟨between, last, rfl⟩
    · obtain ⟨-, same⟩ := List.append_inj' split rfl
      cases same
      exact .inl leads
    · rw [List.concat_eq_append] at split shows
      rw [← List.cons_append, ← List.append_assoc] at split
      obtain ⟨rfl, same⟩ := List.append_inj' split rfl
      cases same
      rw [List.forall_mem_append] at shows
      exact .inr ⟨⟨lower, source, between, rfl, leads, shows.1⟩, shows.2 upper (List.mem_singleton_self upper)⟩
  · rintro (leads | ⟨⟨lower, source, higher, rfl, leads, shows⟩, visible⟩)
    · exact ⟨sources, upper, [], rfl, leads, nofun⟩
    · refine ⟨lower, source, higher ++ [upper], by simp, leads, ?_⟩
      exact List.forall_mem_append.mpr ⟨shows, List.forall_mem_singleton.mpr visible⟩

theorem stack_append_singleton : stack (sources ++ [upper]) = overlayFields (.record (stack sources).fields) upper := by
  rw [stack, List.foldl_append]
  rfl

section Stacks

variable (own : ∀ key ∈ path, key ∉ inheritedKeys) (filled : path ≠ [])
  (plain : ∀ source ∈ sources, (record source).IsPlain path)
include own filled plain

/-- A stack of plain records is a plain record. -/
theorem exists_record_stack : ∃ fields, stack sources = .record fields ∧ (record fields).IsPlain path := by
  obtain ⟨key, rest, rfl⟩ := List.exists_cons_of_ne_nil filled
  induction sources using List.reverseRecOn with
  | nil => exact ⟨[], rfl, isPlain_nil⟩
  | append_singleton sources upper ih =>
    rw [List.forall_mem_append, List.forall_mem_singleton] at plain
    obtain ⟨fields, stacked, under⟩ := ih plain.1
    have lays : overlay (some (Value.record fields)) (.record upper) = .record (laid fields upper) :=
      overlayFields_record plain.2.2.1
    have plainly : (overlay (some (Value.record fields)) (.record upper)).IsPlain (key :: rest) :=
      isPlain_overlay own (by simpa using under) plain.2
    rw [lays] at plainly
    exact ⟨laid fields upper, by rw [stack_append_singleton, stacked]; exact lays, plainly⟩

/-- What a stack of plain records shows at a path is what the records give there. -/
theorem at?_stack_iff (plainly : scalar.isRecord = false) :
    (stack sources).at? path = some scalar ↔ Gives sources path scalar := by
  obtain ⟨key, rest, rfl⟩ := List.exists_cons_of_ne_nil filled
  induction sources using List.reverseRecOn with
  | nil =>
    refine iff_of_false nofun ?_
    rintro ⟨lower, source, higher, split, -⟩
    simp at split
  | append_singleton sources upper ih =>
    obtain ⟨before, last⟩ := List.forall_mem_append.mp plain
    have above := last upper (List.mem_singleton_self upper)
    obtain ⟨fields, stacked, under⟩ := exists_record_stack own filled before
    have lays : overlay (some (Value.record fields)) (.record upper) = stack (sources ++ [upper]) := by
      rw [stack_append_singleton, stacked]
      rfl
    rw [gives_append_singleton_iff, ← ih before, stacked, ← lays,
      at?_overlay_iff plainly own (by simpa using under) above]
    simp

end Stacks

end Value

end TokenGrammar
