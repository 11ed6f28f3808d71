namespace TokenGrammar

/-- Values under keys, in the order in which the keys were first used. -/
abbrev Entries (κ α : Type) := List (κ × α)

namespace Entries

variable {κ α : Type}

def keys (entries : Entries κ α) : List κ := entries.map Prod.fst

@[simp] theorem keys_nil : keys ([] : Entries κ α) = [] := rfl

@[simp] theorem keys_cons (entry : κ × α) (rest : Entries κ α) : keys (entry :: rest) = entry.1 :: keys rest := rfl

variable [DecidableEq κ] {entries : Entries κ α} {key other : κ} {value : α}

/-- Stores a value under a key, in the place of the value that the key had. -/
def put : Entries κ α → κ → α → Entries κ α
  | [], key, value => [(key, value)]
  | (name, old) :: rest, key, value =>
    if name = key then (key, value) :: rest else (name, old) :: put rest key value

theorem lookup_eq_none_iff : List.lookup key entries = none ↔ key ∉ entries.keys := by
  rw [List.lookup_eq_none_iff]
  simp only [keys, List.mem_map, not_exists, not_and, bne_iff_ne, ne_eq]
  exact forall₂_congr fun entry _ => not_congr eq_comm

theorem lookup_put (entries : Entries κ α) (key other : κ) (value : α) :
    List.lookup other (entries.put key value) = if other = key then some value else List.lookup other entries := by
  induction entries with
  | nil =>
    by_cases equal : other = key
    · simp [put, equal]
    · simp [put, List.lookup_cons, equal, beq_false_of_ne equal]
  | cons entry rest ih =>
    obtain ⟨name, old⟩ := entry
    by_cases same : name = key
    · subst same
      by_cases equal : other = name
      · simp [put, equal]
      · simp [put, List.lookup_cons, equal, beq_false_of_ne equal]
    · by_cases equal : other = name
      · subst equal
        simp [put, same]
      · simp [put, same, List.lookup_cons, beq_false_of_ne equal, ih]

theorem put_of_not_mem (fresh : key ∉ entries.keys) : entries.put key value = entries ++ [(key, value)] := by
  induction entries with
  | nil => rfl
  | cons entry rest ih =>
    rw [keys_cons, List.mem_cons, not_or] at fresh
    rw [put, if_neg (Ne.symm fresh.1), ih fresh.2, List.cons_append]

theorem keys_put : (entries.put key value).keys = if key ∈ entries.keys then entries.keys else entries.keys ++ [key] := by
  induction entries with
  | nil => rfl
  | cons entry rest ih =>
    obtain ⟨name, old⟩ := entry
    rw [put]
    by_cases same : name = key
    · simp [same]
    · have either : key ∈ name :: keys rest ↔ key ∈ keys rest := by simp [Ne.symm same]
      rw [if_neg same, keys_cons, keys_cons, ih]
      by_cases present : key ∈ keys rest
      · rw [if_pos present, if_pos (List.mem_cons_of_mem _ present)]
      · rw [if_neg present, if_neg (mt either.mp present), List.cons_append]

theorem nodup_keys_put (once : entries.keys.Nodup) : (entries.put key value).keys.Nodup := by
  rw [keys_put]
  split
  · exact once
  · rename_i absent
    exact List.nodup_append.mpr ⟨once, List.pairwise_singleton _ key, fun name member other among same =>
      absent (List.mem_singleton.mp among ▸ same ▸ member)⟩

theorem mem_keys_put_iff : other ∈ (entries.put key value).keys ↔ other ∈ entries.keys ∨ other = key := by
  rw [keys_put]
  split
  · rename_i present
    constructor
    · exact .inl
    · rintro (member | rfl)
      · exact member
      · exact present
  · simp

/-- Where each key stands once, an entry is what is found under its key. -/
theorem lookup_eq_some_iff_mem (once : entries.keys.Nodup) : List.lookup key entries = some value ↔ (key, value) ∈ entries := by
  constructor
  · intro found
    obtain ⟨earlier, later, rfl, -⟩ := List.lookup_eq_some_iff.mp found
    simp
  · intro member
    induction entries with
    | nil => cases member
    | cons entry rest ih =>
      obtain ⟨fresh, once⟩ := List.nodup_cons.mp once
      rcases List.mem_cons.mp member with rfl | member
      · simp
      · have other : key ≠ entry.1 := fun same => fresh (same ▸ List.mem_map_of_mem member)
        rw [List.lookup_cons, beq_false_of_ne other]
        exact ih once member

end Entries

end TokenGrammar
