import Mathlib

/-!
# Maps in insertion order

A map as the list of its entries, the oldest first.  `set` changes the value of a key in its place
and puts a new key at the end.  With distinct keys the entry that `lookup` finds is the only one of
its key, so a map is that entry and the rest (`perm_delete`).
-/

namespace OrderedMap

variable {K V : Type} [DecidableEq K]

def lookup (key : K) (entries : List (K × V)) : Option V :=
  (entries.find? fun f => f.1 = key).map Prod.snd

def delete (key : K) (entries : List (K × V)) : List (K × V) := entries.filter fun f => f.1 ≠ key

def set (key : K) (value : V) (entries : List (K × V)) : List (K × V) :=
  if key ∈ entries.map Prod.fst then entries.map fun f => if f.1 = key then (key, value) else f
  else entries ++ [(key, value)]

abbrev Distinct (entries : List (K × V)) : Prop := (entries.map Prod.fst).Nodup

variable {key other : K} {value : V} {entries : List (K × V)}

theorem mem_of_lookup (found : lookup key entries = some value) : (key, value) ∈ entries := by
  obtain ⟨f, first, rfl⟩ := Option.map_eq_some_iff.mp found
  have same : f.1 = key := by simpa using List.find?_some first
  have mem := List.mem_of_find?_eq_some first
  rw [← same]
  exact mem

theorem lookup_eq_none : lookup key entries = none ↔ key ∉ entries.map Prod.fst := by
  rw [lookup, Option.map_eq_none_iff, List.find?_eq_none, List.mem_map]
  constructor
  · rintro none ⟨f, mem, rfl⟩
    exact none f mem (by simp)
  · intro none f mem same
    exact none ⟨f, mem, by simpa using same⟩

/-- Entries of one key are one entry. -/
theorem Distinct.eq (distinct : Distinct entries) {f g : K × V} (mem : f ∈ entries)
    (mem' : g ∈ entries) (same : f.1 = g.1) : f = g :=
  List.inj_on_of_nodup_map distinct mem mem' same

theorem lookup_of_mem (distinct : Distinct entries) (mem : (key, value) ∈ entries) :
    lookup key entries = some value := by
  cases found : lookup key entries with
  | none => exact absurd (List.mem_map_of_mem mem) (lookup_eq_none.mp found)
  | some other => exact congrArg (some ·.2) (distinct.eq (mem_of_lookup found) mem rfl)

theorem mem_delete {f : K × V} : f ∈ delete key entries ↔ f ∈ entries ∧ f.1 ≠ key := by
  rw [delete, List.mem_filter, decide_eq_true_iff]

theorem delete_sublist : (delete key entries).Sublist entries := List.filter_sublist

theorem Distinct.sublist {entries' : List (K × V)} (distinct : Distinct entries)
    (part : entries'.Sublist entries) : Distinct entries' :=
  List.Nodup.sublist (part.map Prod.fst) distinct

theorem not_mem_keys_delete : key ∉ (delete key entries).map Prod.fst := by
  intro mem
  obtain ⟨f, inside, same⟩ := List.mem_map.mp mem
  exact (mem_delete.mp inside).2 same

theorem delete_of_not_mem (none : key ∉ entries.map Prod.fst) : delete key entries = entries := by
  apply List.filter_eq_self.mpr
  intro f mem
  rw [decide_eq_true_iff]
  intro same
  exact none (List.mem_map.mpr ⟨f, mem, same⟩)

theorem set_of_not_mem (none : key ∉ entries.map Prod.fst) :
    set key value entries = entries ++ [(key, value)] := if_neg none

/-- A map is the entry of a key and the entries of the others. -/
theorem perm_delete (distinct : Distinct entries) (found : lookup key entries = some value) :
    entries.Perm ((key, value) :: delete key entries) := by
  have mem := mem_of_lookup found
  apply (List.perm_ext_iff_of_nodup distinct.of_map ?_).mpr
  · intro f
    rw [List.mem_cons, mem_delete]
    constructor
    · intro inside
      by_cases same : f.1 = key
      · exact .inl (distinct.eq inside mem same)
      · exact .inr ⟨inside, same⟩
    · rintro (rfl | ⟨inside, -⟩)
      · exact mem
      · exact inside
  · apply List.nodup_cons.mpr
    refine ⟨fun inside => (mem_delete.mp inside).2 rfl, ?_⟩
    exact (distinct.sublist delete_sublist).of_map

end OrderedMap
