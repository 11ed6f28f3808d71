import TokenGrammar.Proofs.Naming
import TokenGrammar.Proofs.Precedence

namespace TokenGrammar

namespace Value

variable {value scalar : Value} {fields : Fields} {key : Text} {keys keys' path : List Text}

/-- Of a record without a parent of its own nothing is told but that it is one. -/
def outline : Value → Option Value
  | .record _ => none
  | value => some value

/-- What the paths through a value lead to, in outline. -/
def view (value : Value) (path : List Text) : Option (Option Value) := (value.at? path).map outline

/-- A view with a value at the end of a path, records on the way there and nothing behind it. -/
def writeView (view : List Text → Option (Option Value)) (keys : List Text) (value : Value) (path : List Text) :
    Option (Option Value) :=
  if keys <+: path then if path = keys then some (some value) else none
  else if path <+: keys then some none
  else view path

/-- Paths are apart when none of them leads through the other one. -/
def Apart (keys keys' : List Text) : Prop := ¬ keys <+: keys' ∧ ¬ keys' <+: keys

/-- At paths that are apart values are written in any order. -/
theorem writeView_comm (apart : Apart keys keys') (view : List Text → Option (Option Value)) (value value' : Value) :
    writeView (writeView view keys value) keys' value' = writeView (writeView view keys' value') keys value := by
  funext path
  -- A path cannot lead through the ends of both, nor through the end of one and to a place before the end of the other.
  by_cases through : keys <+: path
  · have apart' : ¬ keys' <+: path := fun through' =>
      (List.prefix_or_prefix_of_prefix through through').elim apart.1 apart.2
    have notBefore : ¬ path <+: keys' := fun before => apart.1 (through.trans before)
    simp [writeView, through, apart', notBefore]
  · by_cases through' : keys' <+: path
    · have notBefore : ¬ path <+: keys := fun before => apart.2 (through'.trans before)
      simp [writeView, through, through', notBefore]
    · simp only [writeView, through, through', if_false]
      split_ifs <;> rfl

theorem at?_of_view (shown : value.view path = some (some scalar)) : value.at? path = some scalar := by
  obtain ⟨found, leads, told⟩ := Option.map_eq_some_iff.mp shown
  cases found with
  | record => cases told
  | _ => rw [leads, Option.some.inj told]

theorem view_of_not_isRecord (other : scalar.isRecord = false) :
    scalar.view path = if path = [] then some (some scalar) else none := by
  cases path with
  | nil =>
    cases scalar with
    | record => cases other
    | _ => rfl
  | cons key rest => rw [view, at?_cons_of_not_isRecord other, if_neg (List.cons_ne_nil _ _), Option.map_none]

/-- Behind its first key a path leads on from the value there. -/
theorem view_cons (value : Value) (key : Text) (path : List Text) :
    value.view (key :: path) = (Fields.valueAt value.fields key).bind fun next => next.view path := by
  rw [view, at?, Option.map_bind]
  rfl

theorem view_record_nil (fields : Fields) : (record fields).view [] = some none := rfl

/-- Behind a key that is put into a record stands the value, and behind every other key what stood there. -/
theorem view_put (fields : Fields) (key name : Text) (value : Value) (path : List Text) :
    (record (fields.put key value)).view (name :: path) =
      if name = key then value.view path else (record fields).view (name :: path) := by
  rw [view_cons, view_cons]
  simp only [fields_record, Fields.valueAt_put]
  split <;> rfl

/-- Behind its first key a path leads on in the record there, or nowhere if there is none. -/
theorem view_inner (fields : Fields) (key : Text) (further : path ≠ []) :
    (record (((Fields.valueAt fields key).map Value.fields).getD [])).view path = (record fields).view (key :: path) := by
  obtain ⟨name, rest, rfl⟩ := List.exists_cons_of_ne_nil further
  rw [view_cons (record fields), fields_record]
  cases Fields.valueAt fields key with
  | none => rfl
  | some next => rfl

/-- What is stored at the end of a path is written there in the view. -/
theorem view_store (filled : keys ≠ []) (other : scalar.isRecord = false) (fields : Fields) :
    (record (store fields keys scalar)).view = writeView (record fields).view keys scalar := by
  induction keys generalizing fields with
  | nil => exact absurd rfl filled
  | cons key rest ih =>
    funext path
    cases path with
    | nil => simp [writeView, view_record_nil]
    | cons name path =>
      cases rest with
      | nil =>
        rw [store, view_put, view_of_not_isRecord other]
        by_cases same : name = key
        · subst same
          simp [writeView]
        · simp [writeView, same, Ne.symm same]
      | cons next rest =>
        rw [store, view_put]
        by_cases same : name = key
        · subst same
          rw [if_pos rfl, ih (List.cons_ne_nil _ _)]
          by_cases before : path <+: next :: rest
          · simp [writeView, before]
          · have further : path ≠ [] := fun empty => before (empty ▸ List.nil_prefix)
            simp [writeView, before, view_inner fields name further]
        · simp [writeView, same, Ne.symm same]

/-- Two values are the same up to the order of keys: they are no records and equal, or records with the same keys and the
same values under each of them. -/
inductive Same : Value → Value → Prop
  | plain {value : Value} (other : value.isRecord = false) : Same value value
  | record {fields fields' : Fields} (keys : fields.keys.Perm fields'.keys)
      (each : ∀ key value value', fields.valueAt key = some value → fields'.valueAt key = some value' → Same value value') :
      Same (.record fields) (.record fields')

/-- A record has a value under each of its keys and no other. -/
theorem isSome_valueAt_iff : (Fields.valueAt fields key).isSome ↔ key ∈ fields.keys := by
  constructor
  · intro present
    by_contra absent
    rw [Fields.valueAt_eq_none_of_not_mem absent] at present
    cases present
  · intro member
    obtain ⟨field, inside, rfl⟩ := List.mem_map.mp member
    rw [Option.isSome_iff_ne_none, Fields.valueAt, ne_eq, List.lookup_eq_none_iff]
    intro absent
    simpa using absent field inside

theorem mem_keys_iff_view : key ∈ fields.keys ↔ ((record fields).view [key]).isSome := by
  rw [← isSome_valueAt_iff, view_cons, fields_record]
  cases Fields.valueAt fields key <;> simp [view, at?]

theorem sizeOf_lt_of_valueAt (here : fields.valueAt key = some value) : sizeOf value < sizeOf (record fields) := by
  obtain ⟨before, behind, rfl, -⟩ := List.lookup_eq_some_iff.mp here
  have inside : sizeOf (key, value) < sizeOf (before ++ (key, value) :: behind) :=
    List.sizeOf_lt_of_mem (List.mem_append_right before List.mem_cons_self)
  simp only [Prod.mk.sizeOf_spec] at inside
  simp only [record.sizeOf_spec]
  omega

/-- A view shows no heirs when all that it tells more of than that it is a record is no record. -/
def ShowsNoHeirs (view : List Text → Option (Option Value)) : Prop :=
  ∀ path shown, view path = some (some shown) → shown.isRecord = false

/-- A record in a view that shows no heirs is one without a parent of its own. -/
theorem eq_record_of_showsNoHeirs (bare : ShowsNoHeirs value.view) (isRecord : value.isRecord = true) :
    ∃ fields, value = .record fields := by
  cases value with
  | record fields => exact ⟨fields, rfl⟩
  | ancestor | heir => exact absurd isRecord (Bool.eq_false_iff.mp (bare [] _ rfl))
  | _ => cases isRecord

/-- Plain values with the same view, which shows no heirs, are the same up to the order of keys. -/
theorem same_of_view {value' : Value} (plain : ∀ path, value.IsPlain path) (plain' : ∀ path, value'.IsPlain path)
    (bare : ShowsNoHeirs value.view) (shown : value.view = value'.view) : Same value value' := by
  induction size : sizeOf value using Nat.strongRecOn generalizing value value' with
  | _ bound ih =>
    subst size
    have bare' : ShowsNoHeirs value'.view := shown ▸ bare
    have here : value.outline = value'.outline := Option.some.inj (congrFun shown [])
    cases isRecord : value.isRecord with
    | true =>
      obtain ⟨fields, rfl⟩ := eq_record_of_showsNoHeirs bare isRecord
      obtain ⟨fields', rfl⟩ : ∃ fields', value' = .record fields' := by
        cases value' with
        | record fields' => exact ⟨fields', rfl⟩
        | _ => cases here
      refine .record ?_ fun key next next' first second => ?_
      · refine (List.perm_ext_iff_of_nodup (plain [parentKey]).1 (plain' [parentKey]).1).mpr fun key => ?_
        rw [fields_record, fields_record, mem_keys_iff_view, mem_keys_iff_view, shown]
      · have leads (path : List Text) : next.view path = (Value.record fields).view (key :: path) := by
          rw [view_cons, fields_record, first, Option.bind_some]
        have leads' (path : List Text) : next'.view path = (Value.record fields').view (key :: path) := by
          rw [view_cons, fields_record, second, Option.bind_some]
        refine ih _ (sizeOf_lt_of_valueAt first) (fun path => (plain (key :: path)).2.2.2 next first)
          (fun path => (plain' (key :: path)).2.2.2 next' second) (fun path => ?_) (funext fun path => ?_) rfl
        · rw [leads]
          exact bare (key :: path)
        · rw [leads, leads', shown]
    | false =>
      have alike : value.outline = some value := by
        cases value with
        | record => cases isRecord
        | _ => rfl
      have same : value' = value := by
        rw [alike] at here
        cases value' with
        | record => cases here
        | _ => exact (Option.some.inj here).symm
      rw [same]
      exact .plain isRecord

/-- A field of a value is what its key leads to, inherited or not. -/
theorem member?_of_valueAt {next : Value} (here : Fields.valueAt value.fields key = some next) :
    value.member? key = some next := by
  cases value with
  | record fields | heir fields =>
    have own : Fields.valueAt fields key = some next := here
    simp [member?, isRecord, fields?, held?, own]
  | _ => cases here

/-- A path leads to the fields of records on the way. -/
theorem follow_of_at? (leads : value.at? path = some scalar) : value.follow path = some scalar := by
  induction path generalizing value with
  | nil => exact leads
  | cons key rest ih =>
    obtain ⟨next, here, leads⟩ := Option.bind_eq_some_iff.mp leads
    rw [follow, member?_of_valueAt here, Option.bind_some, ih leads]

theorem valueAt_laid_of_not_mem {lower upper : Fields} (absent : key ∉ upper.keys) :
    (laid lower upper).valueAt key = lower.valueAt key := by
  induction upper generalizing lower with
  | nil => rfl
  | cons field rest ih =>
    obtain ⟨other, others⟩ := not_or.mp (mt List.mem_cons.mpr absent)
    rw [laid, ih others, Fields.valueAt_put, if_neg other]

/-- Under a key of the upper layer stands its value, laid over something. -/
theorem exists_valueAt_laid {upper : Fields} {next : Value} (lower : Fields) (once : upper.keys.Nodup)
    (here : upper.valueAt key = some next) : ∃ below, (laid lower upper).valueAt key = some (overlay below next) := by
  induction upper generalizing lower with
  | nil => cases here
  | cons field rest ih =>
    obtain ⟨name, value⟩ := field
    obtain ⟨absent, others⟩ := List.nodup_cons.mp once
    rw [laid]
    by_cases same : key = name
    · subst same
      obtain rfl : value = next := by simpa [Fields.valueAt] using here
      exact ⟨_, by rw [valueAt_laid_of_not_mem absent, Fields.valueAt_put, if_pos rfl]⟩
    · refine ih _ others ?_
      simpa [Fields.valueAt, List.lookup_cons, beq_false_of_ne same] using here

/-- Along a path on which the upper layer is plain, its values are what the path leads to, whatever lies below. -/
theorem follow_overlay (below : Option Value) (plain : value.IsPlain path) (other : scalar.isRecord = false)
    (leads : value.at? path = some scalar) : (overlay below value).follow path = some scalar := by
  induction path generalizing value below with
  | nil =>
    obtain rfl : value = scalar := Option.some.inj leads
    rw [overlay_of_not_isRecord other]
    rfl
  | cons key rest ih =>
    obtain ⟨next, here, further⟩ := Option.bind_eq_some_iff.mp leads
    rcases overlay_cases below plain with ⟨stays, -⟩ | ⟨old, rfl, -, -, lays⟩
    · rw [stays]
      exact follow_of_at? leads
    · obtain ⟨beneath, there⟩ := exists_valueAt_laid old.fields plain.1 here
      have first : (record (laid old.fields value.fields)).member? key = some (overlay beneath next) :=
        member?_of_valueAt there
      rw [lays, follow, first, Option.bind_some]
      exact ih beneath (plain.2.2.2 next here) further

end Value

namespace Environment

variable {environment environment' : List (String × String)} {entry other : String × String} {name : String}
  {keys keys' : List String} {part characters : List Char}

/-- No point is left where entries were split at their points. -/
theorem point_not_mem_of_mem_splitPoints {α : Type} [DecidableEq α] {point : α} {entries part : List α}
    (member : part ∈ splitPoints point entries) : point ∉ part := by
  induction entries generalizing part with
  | nil =>
    cases List.mem_singleton.mp member
    exact List.not_mem_nil
  | cons entry rest ih =>
    rw [splitPoints] at member
    split at member
    · rcases List.mem_cons.mp member with rfl | member
      · exact List.not_mem_nil
      · exact ih member
    · rename_i other
      split at member
      · rename_i none
        exact absurd none (splitPoints_ne_nil point rest)
      · rename_i segment segments split
        rw [split] at ih
        rcases List.mem_cons.mp member with rfl | member
        · exact fun inside =>
            (List.mem_cons.mp inside).elim (fun same => other same.symm) (ih List.mem_cons_self)
        · exact ih (List.mem_cons_of_mem _ member)

/-- The dotted path of a variable is read as its keys. -/
theorem keysOf_dotted_of_keys? (named : keys? name = some keys) :
    LoadedSettings.keysOf (dotted keys) = keys.map Text.ofString := by
  obtain ⟨rest, -, rfl⟩ := Option.map_eq_some_iff.mp named
  apply keysOf_dotted
  · obtain ⟨segment, others, split⟩ := List.exists_cons_of_ne_nil (splitRecords_ne_nil (Text.ofChars rest).lowerCase.chars)
    rw [split]
    simp [splitPoints_ne_nil]
  · intro key member
    obtain ⟨part, among, rfl⟩ := List.mem_map.mp member
    obtain ⟨segment, -, inside⟩ := List.mem_flatMap.mp among
    rw [String.toList_ofList]
    exact point_not_mem_of_mem_splitPoints inside

theorem map_ofString_ne_nil (named : keys? name = some keys) : keys.map Text.ofString ≠ [] :=
  keysOf_dotted_of_keys? named ▸ Configuration.keysOf_ne_nil (dotted keys)

theorem prefix_of_map_ofString (before : keys.map Text.ofString <+: keys'.map Text.ofString) : keys <+: keys' := by
  rw [List.prefix_iff_eq_take, List.length_map, ← List.map_take] at before
  rw [List.prefix_iff_eq_take]
  exact List.map_injective_iff.mpr (fun _ _ => Text.ofString_injective) before

/-- Two variables are apart when no setting that one of them names is one that the other names, nor on the way to it. -/
def VariablesApart (entry other : String × String) : Prop :=
  ∀ keys ∈ keys? entry.1, ∀ keys' ∈ keys? other.1, ¬ keys <+: keys' ∧ ¬ keys' <+: keys

instance : Std.Symm VariablesApart :=
  ⟨fun _ _ apart keys named keys' named' => (apart keys' named' keys named).symm⟩

/-- What a view becomes when a variable is read. -/
def readView (view : List Text → Option (Option Value)) (entry : String × String) : List Text → Option (Option Value) :=
  match keys? entry.1 with
  | some keys => Value.writeView view (keys.map Text.ofString) (valueOf entry.2)
  | none => view

/-- Variables that are apart are read in any order. -/
theorem readView_comm (apart : VariablesApart entry other) (view : List Text → Option (Option Value)) :
    readView (readView view entry) other = readView (readView view other) entry := by
  unfold readView
  cases named : keys? entry.1 with
  | none => rfl
  | some keys =>
    cases named' : keys? other.1 with
    | none => rfl
    | some keys' =>
      obtain ⟨notBefore, notBehind⟩ := apart keys named keys' named'
      exact Value.writeView_comm ⟨mt prefix_of_map_ofString notBefore, mt prefix_of_map_ofString notBehind⟩ view _ _

/-- What settings show is read from the variables one by one. -/
theorem view_settings (environment : List (String × String)) :
    (Value.record (settings environment)).view = environment.foldl readView (Value.record []).view := by
  induction environment using List.reverseRecOn with
  | nil => rfl
  | append_singleton environment entry ih =>
    rw [settings, List.foldl_append, ← settings, List.foldl_append, ← ih, List.foldl_cons, List.foldl_nil,
      List.foldl_cons, List.foldl_nil, readView]
    cases named : keys? entry.1 with
    | none => rfl
    | some keys => exact Value.view_store (map_ofString_ne_nil named) (isRecord_valueOf entry.2) _

/-- What settings show are records without parents of their own and values that are no records. -/
theorem showsNoHeirs_settings (environment : List (String × String)) :
    Value.ShowsNoHeirs (Value.record (settings environment)).view := by
  induction environment using List.reverseRecOn with
  | nil =>
    intro path shown here
    cases path <;> cases here
  | append_singleton environment entry ih =>
    have last : (Value.record (settings (environment ++ [entry]))).view =
        readView (Value.record (settings environment)).view entry := by
      rw [view_settings, List.foldl_append, ← view_settings]
      rfl
    intro path shown here
    rw [last, readView] at here
    cases named : keys? entry.1 with
    | none =>
      rw [named] at here
      exact ih path shown here
    | some keys =>
      simp only [named, Value.writeView] at here
      split_ifs at here
      · rw [← Option.some.inj (Option.some.inj here)]
        exact isRecord_valueOf entry.2
      · cases here
      · exact ih path shown here

section Apart

variable (apart : environment.Pairwise VariablesApart)
include apart

/-- What settings show does not depend on the order of variables that are apart. -/
theorem view_settings_perm (permuted : environment.Perm environment') :
    (Value.record (settings environment)).view = (Value.record (settings environment')).view := by
  rw [view_settings, view_settings]
  refine permuted.foldl_eq' (fun entry member other member' view => ?_) _
  by_cases same : entry = other
  · rw [same]
  · exact readView_comm (apart.forall member member' same) view

/-- Settings show the value of each variable at its path. -/
theorem at?_settings (member : entry ∈ environment) (named : keys? entry.1 = some keys) :
    (Value.record (settings environment)).at? (keys.map Text.ofString) = some (valueOf entry.2) := by
  obtain ⟨before, behind, rfl⟩ := List.append_of_mem member
  apply Value.at?_of_view
  have last : (before ++ entry :: behind).Perm (before ++ behind ++ [entry]) :=
    List.perm_middle.trans (List.perm_append_singleton entry _).symm
  rw [view_settings_perm apart last, view_settings, List.foldl_append, List.foldl_cons, List.foldl_nil, readView, named]
  simp [Value.writeView]

end Apart

end Environment

namespace Configuration

open Environment

variable {environment environment' : List (String × String)} {entry : String × String} {keys : List String}

/-- Whatever the settings of variables that are apart are laid over, the value of a variable is what its path shows. -/
theorem get_overlaid_settings (apart : environment.Pairwise VariablesApart) (member : entry ∈ environment)
    (named : keys? entry.1 = some keys) (lower : Fields) (filePath : Option Text) :
    LoadedSettings.get ⟨Value.overlayFields (.record lower) (Environment.settings environment), filePath⟩ (dotted keys) =
      valueOf entry.2 := by
  have laid : Value.overlayFields (.record lower) (Environment.settings environment) =
      Value.overlay (some (.record lower)) (.record (Environment.settings environment)) := by
    rw [Value.overlay]
    rfl
  have leads := Value.follow_overlay (some (.record lower)) (isPlain_settings environment (keys.map Text.ofString))
    (isRecord_valueOf entry.2) (at?_settings apart member named)
  rw [LoadedSettings.get, LoadedSettings.get?, keysOf_dotted_of_keys? named, laid, leads, Option.getD_some]

/-- Variables that are apart give the same settings in any order, up to the order of keys. As long as nothing is set,
each of them is what its path shows, whatever the files hold, and it would be so over any other settings in the place of
the files and the defaults. -/
theorem settings_unordered (apart : environment.Pairwise VariablesApart) (permuted : environment.Perm environment') :
    Value.Same (.record (Environment.settings environment)) (.record (Environment.settings environment')) ∧
      ∀ entry ∈ environment, ∀ keys ∈ keys? entry.1,
        (∀ files, get { environment := environment', files } (dotted keys) = valueOf entry.2) ∧
          ∀ lower filePath,
            LoadedSettings.get ⟨Value.overlayFields (.record lower) (Environment.settings environment'), filePath⟩
              (dotted keys) = valueOf entry.2 := by
  refine ⟨Value.same_of_view (isPlain_settings environment) (isPlain_settings environment')
    (showsNoHeirs_settings environment) (view_settings_perm apart permuted), fun entry member keys named => ?_⟩
  have apart' : environment'.Pairwise VariablesApart := (permuted.pairwise_iff symm).mp apart
  have shows := get_overlaid_settings apart' (permuted.mem_iff.mp member) named
  exact ⟨fun files => shows _ (fileSettings files).2.1, shows⟩

/-- Two variables for settings of the engine, with another one between them. -/
def engineVariables : List (String × String) :=
  [("TOKENLOOM_ENGINE__TRACE", "true"), ("PATH", "bin"), ("TOKENLOOM_ENGINE__MAX_DEPTH", "12")]

/-- A settings file in which the engine is no record. -/
def engineFiles : FileSearch := .found ".tokenloomrc.json" false (.record [("engine", .number 5)])

theorem engineVariables_reverse_same :
    engineVariables.Pairwise VariablesApart ∧
      Value.Same (.record (Environment.settings engineVariables))
        (.record (Environment.settings engineVariables.reverse)) ∧
      get { environment := engineVariables.reverse, files := engineFiles } "engine.trace" = .boolean true ∧
      get { environment := engineVariables.reverse, files := engineFiles } "engine.maxDepth" = valueOf "12" := by
  have apart : engineVariables.Pairwise VariablesApart := by
    unfold VariablesApart
    decide +kernel
  have trace : keys? "TOKENLOOM_ENGINE__TRACE" = some ["engine", "trace"] := by decide +kernel
  have depth : keys? "TOKENLOOM_ENGINE__MAX_DEPTH" = some ["engine", "maxDepth"] := by decide +kernel
  obtain ⟨same, shows⟩ := settings_unordered apart engineVariables.reverse_perm.symm
  have shownTrace := (shows ("TOKENLOOM_ENGINE__TRACE", "true") (by simp [engineVariables]) _ trace).1 engineFiles
  have shownDepth := (shows ("TOKENLOOM_ENGINE__MAX_DEPTH", "12") (by simp [engineVariables]) _ depth).1 engineFiles
  exact ⟨apart, same, shownTrace, shownDepth⟩

end Configuration

end TokenGrammar
