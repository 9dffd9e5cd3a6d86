import Knowledger.Lib.JsonRoundTrip

/-!
# Values that are read back exactly

`JSON.parse` creates the names that are array indices before the others.  A value none of whose
names is one, and whose numbers are integers that a double holds, is read back as it was printed
(`jsonParse_stable`), and not only up to the order of its members.  So two such values are printed
alike only when they are equal.
-/

namespace Js

/-! ## Stable values -/

mutual
/-- Numbers are integers that a double holds; the names of an object are different, and none of
them is an array index. -/
def Value.stable : Value → Bool
  | .null => true
  | .bool _ => true
  | .num (.int n) => decide (n.natAbs < 2 ^ 53)
  | .num _ => false
  | .str _ => true
  | .arr items => stableItems items
  | .obj fields =>
      decide ((Fields.keys fields).Nodup ∧ ∀ k ∈ Fields.keys fields, arrayIndex k = none) &&
        stableFields fields

def stableItems : List Value → Bool
  | [] => true
  | v :: rest => v.stable && stableItems rest

def stableFields : Fields → Bool
  | [] => true
  | (_, v) :: rest => v.stable && stableFields rest
end

/-- The names of an object come back in their places. -/
def Fields.Settled (fields : Fields) : Prop :=
  fields.keys.Nodup ∧ ∀ k ∈ fields.keys, arrayIndex k = none

theorem stable_arr {items : List Value} :
    (Value.arr items).stable = true ↔ ∀ v ∈ items, v.stable = true := by
  rw [Value.stable]
  induction items with
  | nil => simp [stableItems]
  | cons v rest ih => simp [stableItems, ih]

theorem stable_obj {fields : Fields} :
    (Value.obj fields).stable = true ↔ fields.Settled ∧ ∀ f ∈ fields, f.2.stable = true := by
  have inside : stableFields fields = true ↔ ∀ f ∈ fields, f.2.stable = true := by
    induction fields with
    | nil => simp [stableFields]
    | cons f rest ih => simp [stableFields, ih]
  rw [Value.stable, Bool.and_eq_true, decide_eq_true_eq, inside, Fields.Settled]

theorem stable_integral {v : Value} (stable : v.stable = true) : v.integral = true := by
  induction v using Value.ind with
  | null => rfl
  | bool b => rfl
  | num n => cases n <;> exact stable
  | str s => rfl
  | arr items each =>
      rw [stable_arr] at stable
      exact integral_arr.mpr fun v mem => each v mem (stable v mem)
  | obj fields each =>
      obtain ⟨-, inside⟩ := stable_obj.mp stable
      exact integral_obj.mpr fun f mem => each f mem (inside f mem)

theorem stable_plain {v : Value} (stable : v.stable = true) : v.plain = true := by
  induction v using Value.ind with
  | null => rfl
  | bool b => rfl
  | num n => rfl
  | str s => rfl
  | arr items each =>
      rw [stable_arr] at stable
      exact plain_arr.mpr fun v mem => each v mem (stable v mem)
  | obj fields each =>
      obtain ⟨settled, inside⟩ := stable_obj.mp stable
      exact plain_obj.mpr ⟨settled.1, fun f mem => each f mem (inside f mem)⟩

theorem Fields.Settled.perm {fs gs : Fields} (perm : fs.keys.Perm gs.keys) :
    fs.Settled ↔ gs.Settled := by
  rw [Settled, Settled, perm.nodup_iff]
  exact and_congr_right fun _ => forall_congr' fun k => by rw [perm.mem_iff]

theorem Fields.perm_keys_normalize (fs : Fields) : fs.normalize.keys.Perm fs.keys := by
  have sorted := (List.perm_insertionSort fieldLe (normalizeFields fs)).map Prod.fst
  have keys : (normalizeFields fs).map Prod.fst = fs.keys := by
    rw [normalizeFields_eq, List.map_map]
    rfl
  exact keys ▸ sorted

/-- Sorting the names of a value keeps it stable. -/
theorem stable_normalize {v : Value} (stable : v.stable = true) : v.normalize.stable = true := by
  induction v using Value.ind with
  | null => rwa [Value.normalize_null]
  | bool b => rwa [Value.normalize_bool]
  | num n => rwa [Value.normalize_num]
  | str s => rwa [Value.normalize_str]
  | arr items each =>
      rw [stable_arr] at stable
      rw [Value.normalize_arr, stable_arr, List.forall_mem_map]
      exact fun v mem => each v mem (stable v mem)
  | obj fields each =>
      obtain ⟨settled, inside⟩ := stable_obj.mp stable
      rw [Value.normalize_obj, stable_obj]
      refine ⟨(Fields.Settled.perm fields.perm_keys_normalize).mpr settled, fun f mem => ?_⟩
      obtain ⟨w, mem, same⟩ := Fields.mem_normalize.mp (show (f.1, f.2) ∈ _ from mem)
      rw [← same]
      exact each _ mem (inside _ mem)

/-! ## Reading them back -/

/-- A new name that is no array index is created after the others. -/
theorem define_last {fields : Fields} {k : Str} {v : Value} (fresh : k ∉ fields.keys)
    (name : arrayIndex k = none) : fields.define k v = fields ++ [(k, v)] := by
  have after : ∀ f : Str × Value, (!comesBefore k f.1) = true := fun f => by
    rw [comesBefore, name]
    rfl
  rw [Fields.define, if_neg fresh, List.takeWhile_eq_self_iff.mpr fun f _ => after f,
    List.dropWhile_eq_nil_iff.mpr fun f _ => after f]

theorem memberValues_settled {members : List (Str × Tree)} {fields : Fields}
    (distinct : (members.map Prod.fst).Nodup)
    (names : ∀ k ∈ members.map Prod.fst, k ∉ fields.keys ∧ arrayIndex k = none) :
    memberValues fields members = fields ++ members.map fun m => (m.1, m.2.value) := by
  induction members generalizing fields with
  | nil => rw [memberValues, List.map_nil, List.append_nil]
  | cons m members ih =>
      obtain ⟨k, t⟩ := m
      obtain ⟨first, rest⟩ := List.nodup_cons.mp distinct
      obtain ⟨fresh, name⟩ := names k List.mem_cons_self
      rw [memberValues, define_last fresh name, ih rest fun k' mem => ?_]
      · rw [List.map_cons, List.append_assoc, List.singleton_append]
      · obtain ⟨fresh', name'⟩ := names k' (List.mem_cons_of_mem _ mem)
        refine ⟨fun inside => ?_, name'⟩
        rw [Fields.keys, List.map_append, List.mem_append] at inside
        rcases inside with old | new
        · exact fresh' old
        · exact first (List.mem_singleton.mp new ▸ mem)

theorem tree_value (v : Value) (stable : v.stable = true) : v.tree.value = v := by
  induction v using Value.ind with
  | null => rfl
  | bool b => rfl
  | num n =>
      obtain ⟨i, rfl, small⟩ := integral_num (stable_integral stable)
      rw [Value.tree, Tree.value, Number.numeral, Numeral.number_int small]
  | str s => rfl
  | arr items each =>
      rw [stable_arr] at stable
      rw [Value.tree, Tree.value, itemTrees_eq, itemValues_eq, List.map_map]
      exact congrArg _ ((List.map_congr_left fun v mem => each v mem (stable v mem)).trans
        (List.map_id _))
  | obj fields each =>
      obtain ⟨⟨distinct, names⟩, inside⟩ := stable_obj.mp stable
      have keys : (fields.map fun f => (f.1, f.2.tree)).map Prod.fst = fields.keys := by
        rw [List.map_map]
        rfl
      rw [Value.tree, Tree.value, fieldTrees_eq, memberValues_settled (keys ▸ distinct) fun k mem =>
        ⟨List.not_mem_nil, names k (keys ▸ mem)⟩, List.nil_append, List.map_map]
      refine congrArg _ ((List.map_congr_left fun f mem => ?_).trans (List.map_id _))
      exact Prod.ext rfl (each f mem (inside f mem))

/-- **A stable value is read back as it was printed.** -/
theorem jsonParse_stable {v : Value} (stable : v.stable = true) : jsonParse v.text = some v := by
  rw [(jsonParse_text v (stable_integral stable) (stable_plain stable)).1, tree_value v stable]

theorem stable_text_inj {v w : Value} (stableV : v.stable = true) (stableW : w.stable = true)
    (same : v.text = w.text) : v = w := by
  have read := jsonParse_stable stableV
  rw [same, jsonParse_stable stableW] at read
  exact (Option.some.inj read).symm

end Js
