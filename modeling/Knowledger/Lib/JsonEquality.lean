import Knowledger.Lib.Json

/-!
# Equality of JSON values

The properties of a JavaScript object have different names (`Value.plain`), so the order in
which they were inserted is all that the sorted form of a value forgets:
`Fields.normalize_ext` says that two objects with the same properties have one sorted form.
-/

namespace Js

/-! ## Code units determine the string -/

theorem UInt16.ofNat_inj {m n : Nat} (hm : m < 65536) (hn : n < 65536)
    (same : UInt16.ofNat m = UInt16.ofNat n) : m = n := by
  have value := congrArg UInt16.toNat same
  rwa [UInt16.toNat_ofNat', UInt16.toNat_ofNat', Nat.mod_eq_of_lt hm, Nat.mod_eq_of_lt hn] at value

/-- No code sequence of a scalar value starts another. -/
theorem charUnits_append_inj {c d : Char} {r r' : List UInt16}
    (same : charUnits c ++ r = charUnits d ++ r') : c = d ∧ r = r' := by
  have scalar : ∀ x : Char, x.toNat < 0xd800 ∨ 0xdfff < x.toNat ∧ x.toNat < 0x110000 :=
    fun x => x.valid
  have validC := scalar c
  have validD := scalar d
  by_cases smallC : c.toNat < 0x10000
  · by_cases smallD : d.toNat < 0x10000
    · rw [charUnits, charUnits, if_pos smallC, if_pos smallD] at same
      obtain ⟨head, tail⟩ := List.cons.inj same
      exact ⟨Char.toNat_inj.mp (UInt16.ofNat_inj smallC smallD head), tail⟩
    · obtain ⟨u, single, notHigh, _⟩ := charUnits_single smallC
      obtain ⟨h, l, pair, high, _⟩ := charUnits_pair smallD
      rw [single, pair] at same
      obtain ⟨rfl, _⟩ := List.cons.inj same
      exact absurd high notHigh
  · by_cases smallD : d.toNat < 0x10000
    · obtain ⟨u, single, notHigh, _⟩ := charUnits_single smallD
      obtain ⟨h, l, pair, high, _⟩ := charUnits_pair smallC
      rw [single, pair] at same
      obtain ⟨rfl, _⟩ := List.cons.inj same
      exact absurd high notHigh
    · rw [charUnits, charUnits, if_neg smallC, if_neg smallD] at same
      obtain ⟨head, more⟩ := List.cons.inj same
      obtain ⟨next, tail⟩ := List.cons.inj more
      have first := UInt16.ofNat_inj (by omega) (by omega) head
      have second := UInt16.ofNat_inj (by omega) (by omega) next
      exact ⟨Char.toNat_inj.mp (by omega), tail⟩

theorem charUnits_ne_nil (c : Char) : charUnits c ≠ [] := by
  unfold charUnits
  split_ifs <;> simp

theorem flatMap_charUnits_inj {cs ds : List Char}
    (same : cs.flatMap charUnits = ds.flatMap charUnits) : cs = ds := by
  induction cs generalizing ds with
  | nil =>
      cases ds with
      | nil => rfl
      | cons d ds =>
          rw [List.flatMap_nil, List.flatMap_cons] at same
          exact absurd (List.append_eq_nil_iff.mp same.symm).1 (charUnits_ne_nil d)
  | cons c cs ih =>
      cases ds with
      | nil =>
          rw [List.flatMap_nil, List.flatMap_cons] at same
          exact absurd (List.append_eq_nil_iff.mp same).1 (charUnits_ne_nil c)
      | cons d ds =>
          rw [List.flatMap_cons, List.flatMap_cons] at same
          obtain ⟨rfl, rest⟩ := charUnits_append_inj same
          rw [ih rest]

/-- Two strings with the same code units are one string. -/
theorem Str.units_inj {s t : Str} (same : s.units = t.units) : s = t := by
  cases s with
  | wellFormed s =>
      cases t with
      | wellFormed t => exact congrArg Str.wellFormed (String.ext (flatMap_charUnits_inj same))
      | illFormed units unpaired =>
          have paired := validUnicode_units s
          rw [same] at paired
          exact absurd (paired.symm.trans unpaired) (by decide)
  | illFormed units unpaired =>
      cases t with
      | wellFormed t =>
          have paired := validUnicode_units t
          rw [← same] at paired
          exact absurd (paired.symm.trans unpaired) (by decide)
      | illFormed units' unpaired' =>
          cases same
          rfl

theorem leUnits_antisymm {a b : List UInt16} (hab : leUnits a b = true)
    (hba : leUnits b a = true) : a = b := by
  induction a generalizing b with
  | nil =>
      cases b with
      | nil => rfl
      | cons w b => cases hba
  | cons u a ih =>
      cases b with
      | nil => cases hab
      | cons w b =>
          simp only [leUnits, Bool.or_eq_true, decide_eq_true_eq, Bool.and_eq_true,
            beq_iff_eq] at hab hba
          rcases hab with below | ⟨rfl, le⟩
          · rcases hba with above | ⟨rfl, _⟩
            · exact absurd (UInt16.lt_trans below above) (UInt16.lt_irrefl u)
            · exact absurd below (UInt16.lt_irrefl w)
          · rcases hba with above | ⟨_, ge⟩
            · exact absurd above (UInt16.lt_irrefl u)
            · rw [ih le ge]

/-! ## Objects with different names -/

mutual
/-- No object inside the value has two properties of one name. -/
def Value.plain : Value → Bool
  | .null => true
  | .bool _ => true
  | .num _ => true
  | .str _ => true
  | .arr items => plainItems items
  | .obj fields => decide (Fields.keys fields).Nodup && plainFields fields

def plainItems : List Value → Bool
  | [] => true
  | v :: rest => v.plain && plainItems rest

def plainFields : Fields → Bool
  | [] => true
  | (_, v) :: rest => v.plain && plainFields rest
end

theorem plain_arr {items : List Value} :
    (Value.arr items).plain = true ↔ ∀ v ∈ items, v.plain = true := by
  rw [Value.plain]
  induction items with
  | nil => simp [plainItems]
  | cons v rest ih => simp [plainItems, ih]

theorem plain_obj {fields : Fields} :
    (Value.obj fields).plain = true ↔ fields.keys.Nodup ∧ ∀ f ∈ fields, f.2.plain = true := by
  have inside : plainFields fields = true ↔ ∀ f ∈ fields, f.2.plain = true := by
    induction fields with
    | nil => simp [plainFields]
    | cons f rest ih => simp [plainFields, ih]
  rw [Value.plain, Bool.and_eq_true, decide_eq_true_eq, inside]

theorem Fields.get_eq_some {fs : Fields} (nodup : fs.keys.Nodup) {name : String} {v : Value} :
    fs.get name = some v ↔ (Str.wellFormed name, v) ∈ fs := by
  induction fs with
  | nil => simp
  | cons f rest ih =>
      obtain ⟨k, u⟩ := f
      obtain ⟨fresh, others⟩ := List.nodup_cons.mp nodup
      rw [Fields.get_cons, List.mem_cons, Prod.mk.injEq]
      by_cases hit : k = .wellFormed name
      · subst hit
        have absent : (Str.wellFormed name, v) ∉ rest := fun mem =>
          fresh (List.mem_map.mpr ⟨_, mem, rfl⟩)
        simp [absent, eq_comm]
      · simp [hit, ih others, Ne.symm hit]

theorem Fields.mem_normalize {fs : Fields} {k : Str} {v : Value} :
    (k, v) ∈ fs.normalize ↔ ∃ w, (k, w) ∈ fs ∧ w.normalize = v := by
  rw [Fields.normalize, List.mem_insertionSort, normalizeFields_eq, List.mem_map]
  constructor
  · rintro ⟨⟨k', w⟩, mem, same⟩
    cases same
    exact ⟨w, mem, rfl⟩
  · rintro ⟨w, mem, rfl⟩
    exact ⟨(k, w), mem, rfl⟩

theorem Fields.nodup_keys_normalize {fs : Fields} :
    fs.normalize.keys.Nodup ↔ fs.keys.Nodup := by
  have perm : fs.normalize.keys.Perm fs.keys := by
    have sorted := (List.perm_insertionSort fieldLe (normalizeFields fs)).map Prod.fst
    rw [normalizeFields_eq, List.map_map] at sorted
    exact (Fields.normalize.eq_1 fs ▸ normalizeFields_eq fs ▸ sorted)
  exact perm.nodup_iff

/-- Two objects with the same properties have the same sorted form. -/
theorem Fields.normalize_ext {fs gs : Fields} (nodupF : fs.keys.Nodup) (nodupG : gs.keys.Nodup)
    (same : ∀ k v, (k, v) ∈ fs.normalize ↔ (k, v) ∈ gs.normalize) :
    fs.normalize = gs.normalize := by
  have namesF := Fields.nodup_keys_normalize.mpr nodupF
  have namesG := Fields.nodup_keys_normalize.mpr nodupG
  have perm : fs.normalize.Perm gs.normalize :=
    (List.perm_ext_iff_of_nodup namesF.of_map namesG.of_map).mpr fun f => same f.1 f.2
  refine perm.eq_of_pairwise (fun f g memF memG le ge => ?_) fs.normalize_pairwise
    gs.normalize_pairwise
  have name : f.1 = g.1 := Str.units_inj (leUnits_antisymm le ge)
  exact List.inj_on_of_nodup_map namesG (perm.mem_iff.mp memF) memG name

theorem plain_normalize (v : Value) : v.normalize.plain = v.plain := by
  induction v using Value.ind with
  | null => rw [Value.normalize_null]
  | bool b => rw [Value.normalize_bool]
  | num n => rw [Value.normalize_num]
  | str s => rw [Value.normalize_str]
  | arr items each =>
      rw [Bool.eq_iff_iff, Value.normalize_arr, plain_arr, plain_arr, List.forall_mem_map]
      exact forall₂_congr fun v mem => by rw [each v mem]
  | obj fields each =>
      rw [Bool.eq_iff_iff, Value.normalize_obj, plain_obj, plain_obj,
        Fields.nodup_keys_normalize]
      refine and_congr_right fun _ => ⟨fun inside f mem => ?_, fun inside f mem => ?_⟩
      · rw [← each f mem]
        exact inside (f.1, f.2.normalize) (Fields.mem_normalize.mpr ⟨f.2, mem, rfl⟩)
      · obtain ⟨w, mem, same⟩ := Fields.mem_normalize.mp mem
        rw [← same, each _ mem]
        exact inside _ mem

end Js
