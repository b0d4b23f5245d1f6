import Mathlib.Data.List.Nodup

/-!
# Insertion-ordered dictionaries

A finite map that remembers the order in which its keys were first stored.  Storing under a known
key replaces the value in its place; a new key goes to the end.  No key occurs twice.
-/

namespace QuantAgent.Library

/-- A map that lists its entries in the order their keys were first stored. -/
@[ext]
structure Dict (K V : Type) where
  entries : List (K × V)
  nodup : (entries.map Prod.fst).Nodup

namespace Dict

variable {K V W : Type}

def empty : Dict K V := ⟨[], List.nodup_nil⟩

instance : Inhabited (Dict K V) := ⟨empty⟩

def keys (d : Dict K V) : List K := d.entries.map Prod.fst

def values (d : Dict K V) : List V := d.entries.map Prod.snd

section Lookup

variable [DecidableEq K]

def get? (d : Dict K V) (key : K) : Option V := d.entries.lookup key

/-- Entries with the value under `key` replaced. -/
def replace (key : K) (value : V) (entries : List (K × V)) : List (K × V) :=
  entries.map fun entry ↦ if entry.1 = key then (key, value) else entry

theorem replace_keys (key : K) (value : V) (entries : List (K × V)) :
    (replace key value entries).map Prod.fst = entries.map Prod.fst := by
  induction entries with
  | nil => rfl
  | cons entry entries ih =>
    simp only [replace, List.map_cons] at ih ⊢
    rw [ih]
    split
    · rename_i h
      rw [h]
    · rfl

/-- Store a value: in place under a known key, at the end under a new one. -/
def insert (d : Dict K V) (key : K) (value : V) : Dict K V :=
  if h : key ∈ d.keys then
    ⟨replace key value d.entries, by rw [replace_keys]; exact d.nodup⟩
  else
    ⟨d.entries ++ [(key, value)], by
      rw [List.map_append, List.map_singleton]
      exact List.Nodup.append d.nodup (List.nodup_singleton key) (List.disjoint_singleton.mpr h)⟩

def erase (d : Dict K V) (key : K) : Dict K V :=
  ⟨d.entries.filter fun entry ↦ entry.1 ≠ key,
    d.nodup.sublist (List.Sublist.map _ List.filter_sublist)⟩

theorem lookup_cons (entry : K × V) (entries : List (K × V)) (key : K) :
    (entry :: entries).lookup key =
      if key = entry.1 then some entry.2 else entries.lookup key := by
  obtain ⟨found, value⟩ := entry
  by_cases h : key = found
  · simp [h]
  · have h' : (key == found) = false := by simpa using h
    simp [List.lookup_cons, h', h]

variable {entries : List (K × V)} {key other : K}

theorem lookup_isSome :
    (entries.lookup key).isSome ↔ key ∈ entries.map Prod.fst := by
  induction entries with
  | nil => simp
  | cons entry entries ih =>
    rw [lookup_cons, List.map_cons, List.mem_cons]
    split
    · simp [*]
    · simp [*]

variable {d : Dict K V}

theorem isSome_of_mem_keys (h : key ∈ d.keys) : (d.get? key).isSome := by
  rwa [get?, lookup_isSome]

theorem get?_eq_none_iff : d.get? key = none ↔ key ∉ d.keys := by
  rw [← not_iff_not, not_not, ← ne_eq, Option.ne_none_iff_isSome]
  exact lookup_isSome

variable {value : V}

theorem mem_keys_of_get? (h : d.get? key = some value) :
    key ∈ d.keys := by
  rw [keys, ← lookup_isSome]
  exact Option.isSome_of_eq_some h

@[simp]
theorem get?_empty (key : K) : (empty : Dict K V).get? key = none := rfl

theorem lookup_replace (entries : List (K × V)) (key other : K) (value : V) :
    (replace key value entries).lookup other =
      if other = key then (entries.lookup other).map fun _ ↦ value
      else entries.lookup other := by
  induction entries with
  | nil => simp [replace]
  | cons entry entries ih =>
    simp only [replace, List.map_cons, lookup_cons] at ih ⊢
    by_cases hentry : entry.1 = key
    · by_cases hother : other = key
      · simp [hentry, hother]
      · simp only [hentry, if_true, if_neg hother] at ih ⊢
        exact ih
    · simp only [if_neg hentry]
      by_cases hother : other = entry.1
      · have hne : other ≠ key := fun heq ↦ hentry (hother ▸ heq)
        simp [hother, hentry]
      · simp only [if_neg hother]
        exact ih

theorem get?_insert (d : Dict K V) (key other : K) (value : V) :
    (d.insert key value).get? other = if other = key then some value else d.get? other := by
  unfold insert get?
  split
  · rename_i h
    have hsome : (d.entries.lookup key).isSome := isSome_of_mem_keys h
    rw [lookup_replace]
    split
    · rename_i hother
      subst hother
      obtain ⟨found, hfound⟩ := Option.isSome_iff_exists.mp hsome
      simp [hfound]
    · rfl
  · rename_i h
    rw [List.lookup_append]
    by_cases hother : other = key
    · subst hother
      have hnone : d.entries.lookup other = none := get?_eq_none_iff.mpr h
      simp [hnone]
    · simp [hother, lookup_cons]

@[simp]
theorem get?_insert_self (d : Dict K V) (key : K) (value : V) :
    (d.insert key value).get? key = some value := by
  rw [get?_insert, if_pos rfl]

theorem get?_insert_of_ne (d : Dict K V) (h : other ≠ key) (value : V) :
    (d.insert key value).get? other = d.get? other := by
  rw [get?_insert, if_neg h]

theorem entries_insert_of_notMem (h : key ∉ d.keys) (value : V) :
    (d.insert key value).entries = d.entries ++ [(key, value)] := by
  simp [insert, h]

theorem keys_insert_of_mem (h : key ∈ d.keys) (value : V) :
    (d.insert key value).keys = d.keys := by
  rw [insert, dif_pos h]
  exact replace_keys key value d.entries

theorem keys_insert (d : Dict K V) (key : K) (value : V) :
    (d.insert key value).keys = if key ∈ d.keys then d.keys else d.keys ++ [key] := by
  split
  · rename_i h
    exact keys_insert_of_mem h value
  · rename_i h
    rw [keys, entries_insert_of_notMem h, List.map_append]
    rfl

/-- Two keys stored in an empty map are listed in the order they were stored. -/
theorem entries_insert_two {key' : K} (h : key' ≠ key) (value value' : V) :
    ((empty.insert key value).insert key' value').entries = [(key, value), (key', value')] := by
  have hfirst : ((empty : Dict K V).insert key value).entries = [(key, value)] :=
    entries_insert_of_notMem (by simp [keys, empty]) value
  have hnew : key' ∉ ((empty : Dict K V).insert key value).keys := by
    rw [keys, hfirst]
    simpa using h
  rw [entries_insert_of_notMem hnew, hfirst]
  rfl

theorem entries_insert_of_mem (h : key ∈ d.keys) (value : V) :
    (d.insert key value).entries = replace key value d.entries := by
  simp [insert, h]

theorem replace_of_notMem (h : key ∉ entries.map Prod.fst) (value : V) :
    replace key value entries = entries := by
  calc
    _ = entries.map id := by
      refine List.map_congr_left ?_
      intro entry hentry
      have hne : entry.1 ≠ key := by
        intro heq
        exact h (List.mem_map.mpr ⟨entry, hentry, heq⟩)
      exact if_neg hne
    _ = entries := List.map_id entries

/-- Of two values stored under one key only the last counts. -/
theorem insert_insert (d : Dict K V) (key : K) (value value' : V) :
    (d.insert key value).insert key value' = d.insert key value' := by
  have hmem := mem_keys_of_get? (get?_insert_self d key value)
  ext1
  rw [entries_insert_of_mem hmem]
  by_cases h : key ∈ d.keys
  · rw [entries_insert_of_mem h, entries_insert_of_mem h, replace, replace, List.map_map]
    refine List.map_congr_left ?_
    intro entry _
    by_cases hkey : entry.1 = key
    · simp [hkey]
    · simp [hkey]
  · rw [entries_insert_of_notMem h, entries_insert_of_notMem h]
    have hold := replace_of_notMem h value'
    rw [replace] at hold ⊢
    rw [List.map_append, hold]
    simp

theorem mem_of_lookup (h : entries.lookup key = some value) : (key, value) ∈ entries := by
  induction entries with
  | nil => simp at h
  | cons entry entries ih =>
    rw [lookup_cons] at h
    split at h
    · rename_i hkey
      have heq : entry = (key, value) := Prod.ext hkey.symm (Option.some.inj h)
      simp [heq]
    · exact List.mem_cons_of_mem _ (ih h)

theorem mem_entries_of_get? (h : d.get? key = some value) :
    (key, value) ∈ d.entries :=
  mem_of_lookup h

theorem get?_of_mem_entries (h : (key, value) ∈ d.entries) :
    d.get? key = some value := by
  have hkey : key ∈ d.keys := List.mem_map.mpr ⟨_, h, rfl⟩
  obtain ⟨found, hfound⟩ := Option.isSome_iff_exists.mp (isSome_of_mem_keys hkey)
  have hmem := mem_entries_of_get? (d := d) hfound
  have heq : (key, found) = (key, value) := List.inj_on_of_nodup_map d.nodup hmem h rfl
  rw [hfound, (Prod.mk.inj heq).2]

/-- Storing what is stored already changes nothing. -/
theorem insert_of_get? (h : d.get? key = some value) :
    d.insert key value = d := by
  ext1
  rw [entries_insert_of_mem (mem_keys_of_get? h)]
  calc
    _ = d.entries.map id := by
      refine List.map_congr_left ?_
      intro entry hentry
      by_cases hkey : entry.1 = key
      · have hfound : d.get? key = some entry.2 := get?_of_mem_entries (hkey ▸ hentry)
        rw [if_pos hkey, Option.some.inj (h.symm.trans hfound), ← hkey]
        rfl
      · exact if_neg hkey
    _ = d.entries := List.map_id d.entries

theorem get?_erase (d : Dict K V) (key other : K) :
    (d.erase key).get? other = if other = key then none else d.get? other := by
  change (d.entries.filter fun entry ↦ entry.1 ≠ key).lookup other = _
  unfold get?
  induction d.entries with
  | nil => simp
  | cons entry entries ih =>
    rw [List.filter_cons, lookup_cons]
    by_cases hentry : entry.1 = key
    · rw [if_neg (by simpa using hentry), ih]
      by_cases hother : other = key
      · rw [if_pos hother, if_pos hother]
      · rw [if_neg hother, if_neg hother, if_neg fun h ↦ hother (h.trans hentry)]
    · rw [if_pos (by simpa using hentry), lookup_cons, ih]
      by_cases hother : other = entry.1
      · rw [if_pos hother, if_pos hother, if_neg (by rw [hother]; exact hentry)]
      · rw [if_neg hother, if_neg hother]

/-- What is found after a removal was there before. -/
theorem get?_of_get?_erase (h : (d.erase key).get? other = some value) :
    d.get? other = some value :=
  get?_of_mem_entries (List.mem_of_mem_filter (mem_entries_of_get? h))

/-- The entries after a store are old ones under other keys, and the new one. -/
theorem mem_entries_insert {found : V} :
    (other, found) ∈ (d.insert key value).entries ↔
      (other = key ∧ found = value) ∨ (other ≠ key ∧ (other, found) ∈ d.entries) := by
  constructor
  · intro h
    have hget := get?_of_mem_entries h
    rw [get?_insert] at hget
    split at hget
    · rename_i heq
      exact .inl ⟨heq, (Option.some.inj hget).symm⟩
    · rename_i hne
      exact .inr ⟨hne, mem_entries_of_get? hget⟩
  · rintro (⟨rfl, rfl⟩ | ⟨hne, h⟩)
    · exact mem_entries_of_get? (get?_insert_self d _ _)
    · exact mem_entries_of_get? (by rw [get?_insert_of_ne d hne]; exact get?_of_mem_entries h)

/-- `d.update(entries)`: store one entry after the other. -/
def update (d : Dict K V) (entries : List (K × V)) : Dict K V :=
  entries.foldl (fun d entry ↦ d.insert entry.1 entry.2) d

variable {entry : K × V}

theorem mem_entries_of_update (h : entry ∈ (d.update entries).entries) :
    entry ∈ d.entries ∨ entry ∈ entries := by
  induction entries generalizing d with
  | nil => exact .inl h
  | cons next entries ih =>
    obtain hstored | hrest := ih h
    · obtain ⟨hkey, hvalue⟩ | ⟨-, hold⟩ := mem_entries_insert.mp hstored
      · exact .inr (List.mem_cons.mpr (.inl (Prod.ext hkey hvalue)))
      · exact .inl hold
    · exact .inr (List.mem_cons_of_mem _ hrest)

/-- An update under other keys leaves an entry alone. -/
theorem mem_update_of_notMem (h : entry ∈ d.entries) (hkey : entry.1 ∉ entries.map Prod.fst) :
    entry ∈ (d.update entries).entries := by
  induction entries generalizing d with
  | nil => exact h
  | cons next entries ih =>
    rw [List.map_cons, List.mem_cons, not_or] at hkey
    exact ih (mem_entries_insert.mpr (.inr ⟨hkey.1, h⟩)) hkey.2

/-- Every entry of an update with distinct keys is there after it. -/
theorem mem_update (hnodup : (entries.map Prod.fst).Nodup) (h : entry ∈ entries) :
    entry ∈ (d.update entries).entries := by
  induction entries generalizing d with
  | nil => cases h
  | cons next entries ih =>
    rw [List.map_cons, List.nodup_cons] at hnodup
    rcases List.mem_cons.mp h with heq | hrest
    · have hstored : entry ∈ (d.insert next.1 next.2).entries :=
        mem_entries_insert.mpr (.inl ⟨congrArg Prod.fst heq, congrArg Prod.snd heq⟩)
      have hkept := mem_update_of_notMem hstored (by rw [heq]; exact hnodup.1)
      exact hkept
    · exact ih hnodup.2 hrest

end Lookup

section Map

def map (f : V → W) (d : Dict K V) : Dict K W :=
  ⟨d.entries.map fun entry ↦ (entry.1, f entry.2), by
    rw [List.map_map]
    exact d.nodup⟩

@[simp]
theorem keys_map (f : V → W) (d : Dict K V) : (d.map f).keys = d.keys := by
  simp [keys, map]

variable [DecidableEq K]

theorem lookup_map (f : V → W) (entries : List (K × V)) (key : K) :
    (entries.map fun entry ↦ (entry.1, f entry.2)).lookup key = (entries.lookup key).map f := by
  induction entries with
  | nil => rfl
  | cons entry entries ih =>
    rw [List.map_cons, lookup_cons, lookup_cons]
    split
    · rfl
    · exact ih

theorem get?_map (f : V → W) (d : Dict K V) (key : K) :
    (d.map f).get? key = (d.get? key).map f :=
  lookup_map f d.entries key

theorem map_insert (f : V → W) (d : Dict K V) (key : K) (value : V) :
    (d.insert key value).map f = (d.map f).insert key (f value) := by
  by_cases h : key ∈ d.keys
  · have h' : key ∈ (d.map f).keys := by rw [keys_map]; exact h
    ext1
    rw [insert, dif_pos h, insert, dif_pos h']
    simp only [map, replace, List.map_map]
    refine List.map_congr_left fun entry _ ↦ ?_
    simp only [Function.comp_apply]
    split <;> rfl
  · have h' : key ∉ (d.map f).keys := by rw [keys_map]; exact h
    ext1
    rw [insert, dif_neg h, insert, dif_neg h']
    simp [map]

/-- Transforming values that stay what they are changes nothing. -/
theorem map_eq_self {f : V → V} {d : Dict K V}
    (h : ∀ key value, d.get? key = some value → f value = value) : d.map f = d := by
  ext1
  have hentries : ∀ entry ∈ d.entries, (entry.1, f entry.2) = id entry := by
    intro entry hentry
    rw [h entry.1 entry.2 (get?_of_mem_entries hentry)]
    rfl
  exact (List.map_congr_left hentries).trans (List.map_id _)

end Map

end Dict

end QuantAgent.Library
