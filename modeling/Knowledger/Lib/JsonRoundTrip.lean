import Knowledger.Lib.JsonText

/-!
# Printed values are read back

`Value.tree` is how `JSON.stringify` writes a value whose numbers are integers, and `derives_tree`
derives the printed text from it.  Read back, an object has its integer names first, so the value
that is read is the printed one up to the order of the members (`jsonParse_text`).
`Value.Same` is that equality; on objects with different names it is the equality of the sorted
forms (`same_iff`).
-/

namespace Js

/-! ## Values up to the order of members -/

/-- Equal as JSON values: the order of the members of an object does not count. -/
inductive Value.Same : Value → Value → Prop
  | null : Same .null .null
  | bool (b : Bool) : Same (.bool b) (.bool b)
  | num (n : Number) : Same (.num n) (.num n)
  | str (s : Str) : Same (.str s) (.str s)
  | arr {xs ys : List Value} (length : xs.length = ys.length)
      (items : ∀ (i : Nat) x y, xs[i]? = some x → ys[i]? = some y → Same x y) : Same (.arr xs) (.arr ys)
  | obj {fs gs : Fields} (keys : ∀ k, k ∈ fs.keys ↔ k ∈ gs.keys)
      (values : ∀ k x y, (k, x) ∈ fs → (k, y) ∈ gs → Same x y) : Same (.obj fs) (.obj gs)

theorem Fields.mem_keys {fs : Fields} {k : Str} : k ∈ fs.keys ↔ ∃ v, (k, v) ∈ fs := by
  rw [Fields.keys, List.mem_map]
  constructor
  · rintro ⟨⟨k', v⟩, mem, rfl⟩
    exact ⟨v, mem⟩
  · rintro ⟨v, mem⟩
    exact ⟨(k, v), mem, rfl⟩

theorem Value.Same.normalize {v w : Value} (same : v.Same w) (plainV : v.plain = true)
    (plainW : w.plain = true) : v.normalize = w.normalize := by
  induction same with
  | null => rfl
  | bool b => rfl
  | num n => rfl
  | str s => rfl
  | @arr xs ys length items ih =>
      rw [plain_arr] at plainV plainW
      rw [Value.normalize_arr, Value.normalize_arr]
      congr 1
      apply List.ext_getElem
      · rw [List.length_map, List.length_map, length]
      · intro i first second
        rw [List.length_map] at first second
        rw [List.getElem_map, List.getElem_map]
        exact ih i xs[i] ys[i] (List.getElem?_eq_getElem first) (List.getElem?_eq_getElem second)
          (plainV _ (List.getElem_mem first)) (plainW _ (List.getElem_mem second))
  | @obj fs gs keys values ih =>
      obtain ⟨nodupF, insideF⟩ := plain_obj.mp plainV
      obtain ⟨nodupG, insideG⟩ := plain_obj.mp plainW
      rw [Value.normalize_obj, Value.normalize_obj]
      congr 1
      refine Fields.normalize_ext nodupF nodupG fun k u => ?_
      rw [Fields.mem_normalize, Fields.mem_normalize]
      constructor
      · rintro ⟨x, mem, rfl⟩
        obtain ⟨y, mem'⟩ := Fields.mem_keys.mp ((keys k).mp (Fields.mem_keys.mpr ⟨x, mem⟩))
        exact ⟨y, mem', (ih k x y mem mem' (insideF _ mem) (insideG _ mem')).symm⟩
      · rintro ⟨y, mem', rfl⟩
        obtain ⟨x, mem⟩ := Fields.mem_keys.mp ((keys k).mpr (Fields.mem_keys.mpr ⟨y, mem'⟩))
        exact ⟨x, mem, ih k x y mem mem' (insideF _ mem) (insideG _ mem')⟩

theorem Value.Same.of_normalize {v w : Value} (same : v.normalize = w.normalize)
    (plainV : v.plain = true) (plainW : w.plain = true) : v.Same w := by
  induction v using Value.ind generalizing w with
  | null =>
      cases w <;> simp at same
      exact .null
  | bool b =>
      cases w <;> simp at same
      exact same ▸ .bool b
  | num n =>
      cases w <;> simp at same
      exact same ▸ .num n
  | str s =>
      cases w <;> simp at same
      exact same ▸ .str s
  | arr xs each =>
      cases w with
      | arr ys =>
          rw [Value.normalize_arr, Value.normalize_arr, Value.arr.injEq] at same
          rw [plain_arr] at plainV plainW
          have length : xs.length = ys.length := by
            simpa using congrArg List.length same
          refine .arr length fun i x y first second => ?_
          have memX := List.mem_of_getElem? first
          have memY := List.mem_of_getElem? second
          refine each x memX ?_ (plainV x memX) (plainW y memY)
          have at_i := congrArg (·[i]?) same
          simpa [first, second] using at_i
      | _ => simp at same
  | obj fs each =>
      cases w with
      | obj gs =>
          rw [Value.normalize_obj, Value.normalize_obj, Value.obj.injEq] at same
          obtain ⟨nodupF, insideF⟩ := plain_obj.mp plainV
          obtain ⟨nodupG, insideG⟩ := plain_obj.mp plainW
          refine .obj (fun k => ?_) fun k x y memX memY => ?_
          · rw [← Fields.mem_keys_normalize, same, Fields.mem_keys_normalize]
          · refine each (k, x) memX ?_ (insideF _ memX) (insideG _ memY)
            have left := Fields.mem_normalize.mpr ⟨x, memX, rfl⟩
            have right := Fields.mem_normalize.mpr ⟨y, memY, rfl⟩
            rw [same] at left
            have one := List.inj_on_of_nodup_map (Fields.nodup_keys_normalize.mpr nodupG) left right rfl
            exact congrArg Prod.snd one
      | _ => simp at same

/-- The numeral of an integer; other numbers are not printed by it. -/
def Number.numeral : Number → Numeral
  | .int n => intNumeral n
  | .fraction _ _ => intNumeral 0
  | .infinite _ => intNumeral 0
  | .nan => intNumeral 0

mutual
/-- How a value is written, if its numbers are integers. -/
def Value.tree : Value → Tree
  | .null => .null
  | .bool b => .bool b
  | .num n => .num n.numeral
  | .str s => .str s
  | .arr items => .arr (itemTrees items)
  | .obj fields => .obj (fieldTrees fields)

def itemTrees : List Value → List Tree
  | [] => []
  | v :: rest => v.tree :: itemTrees rest

def fieldTrees : Fields → List (Str × Tree)
  | [] => []
  | (k, v) :: rest => (k, v.tree) :: fieldTrees rest
end

theorem itemTrees_eq (items : List Value) : itemTrees items = items.map Value.tree := by
  induction items with
  | nil => rfl
  | cons v rest ih => rw [itemTrees, ih, List.map_cons]

theorem fieldTrees_eq (fields : Fields) :
    fieldTrees fields = fields.map fun f => (f.1, f.2.tree) := by
  induction fields with
  | nil => rfl
  | cons f rest ih =>
      obtain ⟨k, v⟩ := f
      rw [fieldTrees, ih, List.map_cons]

mutual
/-- Every number is an integer that a double holds. -/
def Value.integral : Value → Bool
  | .null => true
  | .bool _ => true
  | .num (.int n) => decide (n.natAbs < 2 ^ 53)
  | .num _ => false
  | .str _ => true
  | .arr items => integralItems items
  | .obj fields => integralFields fields

def integralItems : List Value → Bool
  | [] => true
  | v :: rest => v.integral && integralItems rest

def integralFields : Fields → Bool
  | [] => true
  | (_, v) :: rest => v.integral && integralFields rest
end

theorem integral_num {n : Number} (integral : (Value.num n).integral = true) :
    ∃ i : Int, n = .int i ∧ i.natAbs < 2 ^ 53 := by
  cases n with
  | int i =>
      rw [Value.integral, decide_eq_true_iff] at integral
      exact ⟨i, rfl, integral⟩
  | _ => cases integral

theorem integral_arr {items : List Value} :
    (Value.arr items).integral = true ↔ ∀ v ∈ items, v.integral = true := by
  rw [Value.integral]
  induction items with
  | nil => simp [integralItems]
  | cons v rest ih => simp [integralItems, ih]

theorem integral_obj {fields : Fields} :
    (Value.obj fields).integral = true ↔ ∀ f ∈ fields, f.2.integral = true := by
  rw [Value.integral]
  induction fields with
  | nil => simp [integralFields]
  | cons f rest ih => simp [integralFields, ih]

theorem integral_normalize (v : Value) : v.normalize.integral = v.integral := by
  induction v using Value.ind with
  | null => rw [Value.normalize_null]
  | bool b => rw [Value.normalize_bool]
  | num n => rw [Value.normalize_num]
  | str s => rw [Value.normalize_str]
  | arr items each =>
      rw [Bool.eq_iff_iff, Value.normalize_arr, integral_arr, integral_arr, List.forall_mem_map]
      exact forall₂_congr fun v mem => by rw [each v mem]
  | obj fields each =>
      rw [Bool.eq_iff_iff, Value.normalize_obj, integral_obj, integral_obj]
      constructor
      · intro inside f mem
        rw [← each f mem]
        exact inside (f.1, f.2.normalize) (Fields.mem_normalize.mpr ⟨f.2, mem, rfl⟩)
      · intro inside f mem
        obtain ⟨w, mem, same⟩ := Fields.mem_normalize.mp mem
        rw [← same, each _ mem]
        exact inside _ mem

/-! ## The printed text is derived -/

section Printing

variable {us : List UInt16} {s r : List Char}

theorem Skips.refl {p : Char → Bool} : Skips p s s := ⟨[], rfl, List.forall_mem_nil _⟩

theorem hexValue_hexDigit : ∀ n < 16, hexValue (hexDigit n) = some n := by decide

theorem hexUnit_control : ∀ n < 32,
    hexUnit '0' '0' (hexDigit (n / 16)) (hexDigit (n % 16)) = some (UInt16.ofNat n) := by
  decide

theorem inside_escape (c : Char) (rest : Inside us s r) :
    Inside (charUnits c ++ us) (escape c ++ s) r := by
  unfold escape
  split_ifs with quote backslash backspace feed newline return_ tab control
  · subst quote
    exact .short (u := 0x22) rfl rest
  · subst backslash
    exact .short (u := 0x5c) rfl rest
  · subst backspace
    exact .short (u := 0x08) rfl rest
  · subst feed
    exact .short (u := 0x0c) rfl rest
  · subst newline
    exact .short (u := 0x0a) rfl rest
  · subst return_
    exact .short (u := 0x0d) rfl rest
  · subst tab
    exact .short (u := 0x09) rfl rest
  · have units : charUnits c = [UInt16.ofNat c.toNat] := if_pos (by omega)
    rw [units]
    exact .hex (hexUnit_control c.toNat control) rest
  · refine .plain ?_ rest
    have large : Nat.blt c.toNat 0x20 = false := by
      rw [Bool.eq_false_iff, Ne, Nat.blt_eq]
      exact control
    simp [plainChar, quote, backslash, large]

theorem inside_escapeUnit (u : UInt16) (rest : Inside us s r) :
    Inside (u :: us) (escapeUnit u ++ s) r := by
  have bound : u.toNat < 65536 := u.toNat_lt
  refine .hex ?_ rest
  rw [hexUnit, hexValue_hexDigit _ (by omega), hexValue_hexDigit _ (by omega),
    hexValue_hexDigit _ (by omega), hexValue_hexDigit _ (by omega)]
  have value : 4096 * (u.toNat / 4096) + 256 * (u.toNat / 256 % 16) + 16 * (u.toNat / 16 % 16) +
      u.toNat % 16 = u.toNat := by
    omega
  change some (UInt16.ofNat _) = _
  rw [value, UInt16.ofNat_toNat]

/-- A printed string is a quote and its inside. -/
theorem inside_text (k : Str) (r : List Char) :
    ∃ s, k.text ++ r = '"' :: s ∧ Inside k.units s r := by
  cases k with
  | wellFormed k =>
      refine ⟨k.toList.flatMap escape ++ '"' :: r, by simp [Str.text, quote], ?_⟩
      change Inside (k.toList.flatMap charUnits) _ r
      induction k.toList with
      | nil => exact .close
      | cons c cs ih =>
          rw [List.flatMap_cons, List.flatMap_cons, List.append_assoc]
          exact inside_escape c ih
  | illFormed units unpaired =>
      refine ⟨units.flatMap escapeUnit ++ '"' :: r, by simp [Str.text], ?_⟩
      change Inside units _ r
      clear unpaired
      induction units with
      | nil => exact .close
      | cons u units ih =>
          rw [List.flatMap_cons, List.append_assoc]
          exact inside_escapeUnit u ih

/-- A positive number has no leading zero. -/
theorem head_toDigits {n : Nat} (positive : 0 < n) : (Nat.toDigits 10 n).head? ≠ some '0' := by
  induction n using Nat.strong_induction_on with
  | _ n ih =>
      rw [Nat.toDigits_eq_if (by decide)]
      by_cases small : n < 10
      · rw [if_pos small, List.head?_cons, Ne, Option.some.injEq]
        intro zero
        have value : n.digitChar.toNat = 48 := congrArg Char.toNat zero
        rw [Nat.toNat_digitChar_of_lt_ten small] at value
        omega
      · rw [if_neg small, List.head?_append_of_ne_nil _ Nat.toDigits_ne_nil]
        exact ih (n / 10) (by omega) (by omega)

theorem intNumeral_grammatical (n : Int) : (intNumeral n).Grammatical := by
  refine ⟨?_, List.forall_mem_nil _, fun e is => by cases is⟩
  rcases Nat.eq_zero_or_pos n.natAbs with zero | positive
  · left
    rw [intNumeral, zero, Nat.toDigits_zero]
  · right
    refine ⟨⟨Nat.toDigits_ne_nil, fun c mem => ?_⟩, head_toDigits positive⟩
    exact Nat.isDigit_of_mem_toDigits (by decide) (by decide) mem

theorem derives_items {items : List Value} (some : items ≠ [])
    (each : ∀ v ∈ items, ∀ r, Derives (.value v.tree) (v.text ++ r) r) (r : List Char) :
    Derives (.items (items.map Value.tree)) (itemsText items ++ ']' :: r) r := by
  induction items with
  | nil => exact absurd rfl some
  | cons v rest ih =>
      have first := each v List.mem_cons_self
      cases rest with
      | nil => exact .lastItem .refl (first _) .refl
      | cons w rest =>
          rw [itemsText, List.append_assoc]
          exact .item .refl (first _) .refl
            (ih (List.cons_ne_nil _ _) fun u mem => each u (List.mem_cons_of_mem _ mem))

theorem derives_members {fields : Fields} (some : fields ≠ [])
    (each : ∀ f ∈ fields, ∀ r, Derives (.value f.2.tree) (f.2.text ++ r) r) (r : List Char) :
    Derives (.members (fields.map fun f => (f.1, f.2.tree))) (fieldsText fields ++ '}' :: r) r := by
  induction fields with
  | nil => exact absurd rfl some
  | cons f rest ih =>
      obtain ⟨k, v⟩ := f
      have first := each (k, v) List.mem_cons_self
      dsimp only at first
      cases rest with
      | nil =>
          obtain ⟨s, text, inside⟩ := inside_text k (':' :: (v.text ++ '}' :: r))
          have written : fieldsText [(k, v)] ++ '}' :: r = '"' :: s := by
            rw [← text, fieldsText, List.append_assoc, List.cons_append]
          rw [written, List.map_singleton, ← Str.ofUnits_units k]
          exact .lastMember .refl inside .refl .refl (first _) .refl
      | cons g rest =>
          obtain ⟨s, text, inside⟩ :=
            inside_text k (':' :: (v.text ++ ',' :: (fieldsText (g :: rest) ++ '}' :: r)))
          have written : fieldsText ((k, v) :: g :: rest) ++ '}' :: r = '"' :: s := by
            rw [← text, fieldsText]
            simp
          have more := ih (List.cons_ne_nil _ _) fun u mem => each u (List.mem_cons_of_mem _ mem)
          rw [written, List.map_cons, ← Str.ofUnits_units k]
          exact .member .refl inside .refl .refl (first _) .refl more

/-- **The printed text is one of the grammar.** -/
theorem derives_tree (v : Value) (integral : v.integral = true) (r : List Char) :
    Derives (.value v.tree) (v.text ++ r) r := by
  induction v using Value.ind generalizing r with
  | null =>
      rw [Value.tree, Value.text]
      exact .nullWord
  | bool b =>
      cases b with
      | false =>
          rw [Value.tree, Value.text]
          exact .falseWord
      | true =>
          rw [Value.tree, Value.text]
          exact .trueWord
  | num n =>
      obtain ⟨i, rfl, -⟩ := integral_num integral
      rw [Value.tree, Value.text, Number.text, ← intNumeral_text, Number.numeral]
      exact .num (intNumeral_grammatical i)
  | str k =>
      obtain ⟨s, text, inside⟩ := inside_text k r
      rw [Value.tree, Value.text, text]
      have derived := Derives.str inside
      rw [Str.ofUnits_units] at derived
      exact derived
  | arr items each =>
      rw [Value.tree, Value.text, itemTrees_eq, List.cons_append, List.append_assoc]
      rw [integral_arr] at integral
      by_cases some : items = []
      · subst some
        exact .emptyArr .refl
      · exact .arr (derives_items some (fun v mem r => each v mem (integral v mem) r) r)
  | obj fields each =>
      rw [Value.tree, Value.text, fieldTrees_eq, List.cons_append, List.append_assoc]
      rw [integral_obj] at integral
      by_cases some : fields = []
      · subst some
        exact .emptyObj .refl
      · exact .obj (derives_members some (fun f mem r => each f mem (integral f mem) r) r)

end Printing

/-! ## The value that is read back -/

section Reading

theorem define_perm {fields : Fields} {k : Str} {v : Value} (fresh : k ∉ fields.keys) :
    (fields.define k v).Perm ((k, v) :: fields) := by
  rw [Fields.define, if_neg fresh]
  refine List.perm_middle.trans ?_
  rw [List.takeWhile_append_dropWhile]

/-- An object with different names keeps all of its members. -/
theorem memberValues_perm {members : List (Str × Tree)} {fields : Fields}
    (distinct : (members.map Prod.fst).Nodup)
    (fresh : ∀ k ∈ members.map Prod.fst, k ∉ fields.keys) :
    (memberValues fields members).Perm (members.map (fun m => (m.1, m.2.value)) ++ fields) := by
  induction members generalizing fields with
  | nil => exact List.Perm.refl _
  | cons m members ih =>
      obtain ⟨k, t⟩ := m
      obtain ⟨first, rest⟩ := List.nodup_cons.mp distinct
      have defined := define_perm (v := t.value) (fresh k List.mem_cons_self)
      rw [memberValues]
      refine (ih rest fun k' mem => ?_).trans ?_
      · have keys := (defined.map Prod.fst).mem_iff (a := k')
        rw [Fields.keys, keys]
        intro inside
        rcases List.mem_cons.mp inside with rfl | inside
        · exact first mem
        · exact fresh k' (List.mem_cons_of_mem _ mem) inside
      · exact (defined.append_left _).trans List.perm_middle

theorem itemValues_eq (items : List Tree) : itemValues items = items.map Tree.value := by
  induction items with
  | nil => rfl
  | cons t rest ih => rw [itemValues, ih, List.map_cons]

/-- What is read is the printed value up to the order of members. -/
theorem value_tree (v : Value) (integral : v.integral = true) (plain : v.plain = true) :
    v.tree.value.plain = true ∧ v.tree.value.normalize = v.normalize := by
  induction v using Value.ind with
  | null => exact ⟨rfl, rfl⟩
  | bool b => exact ⟨rfl, rfl⟩
  | num n =>
      obtain ⟨i, rfl, small⟩ := integral_num integral
      rw [Value.tree, Tree.value, Number.numeral, Numeral.number_int small]
      exact ⟨rfl, rfl⟩
  | str s => exact ⟨rfl, rfl⟩
  | arr items each =>
      rw [integral_arr] at integral
      rw [plain_arr] at plain
      have read := fun v mem => each v mem (integral v mem) (plain v mem)
      rw [Value.tree, Tree.value, itemTrees_eq, itemValues_eq, List.map_map]
      constructor
      · rw [plain_arr, List.forall_mem_map]
        exact fun v mem => (read v mem).1
      · rw [Value.normalize_arr, Value.normalize_arr, List.map_map]
        congr 1
        exact List.map_congr_left fun v mem => (read v mem).2
  | obj fields each =>
      rw [integral_obj] at integral
      obtain ⟨distinct, plain⟩ := plain_obj.mp plain
      have read := fun f mem => each f mem (integral f mem) (plain f mem)
      rw [Value.tree, Tree.value, fieldTrees_eq]
      have names : (fields.map fun f => (f.1, f.2.tree)).map Prod.fst = fields.keys := by
        rw [List.map_map]
        rfl
      have perm : (memberValues [] (fields.map fun f => (f.1, f.2.tree))).Perm
          ((fields.map fun f => (f.1, f.2.tree)).map (fun m => (m.1, m.2.value)) ++ []) :=
        memberValues_perm (names ▸ distinct) fun _ _ => List.not_mem_nil
      rw [List.append_nil, List.map_map] at perm
      have distinct' :
          (Fields.keys (memberValues [] (fields.map fun f => (f.1, f.2.tree)))).Nodup := by
        rw [Fields.keys, (perm.map Prod.fst).nodup_iff, List.map_map]
        exact distinct
      constructor
      · refine plain_obj.mpr ⟨distinct', fun f mem => ?_⟩
        obtain ⟨g, inside, rfl⟩ := List.mem_map.mp (perm.mem_iff.mp mem)
        exact (read g inside).1
      · rw [Value.normalize_obj, Value.normalize_obj]
        congr 1
        refine Fields.normalize_ext distinct' distinct fun k u => ?_
        rw [Fields.mem_normalize, Fields.mem_normalize]
        constructor
        · rintro ⟨w, mem, rfl⟩
          obtain ⟨g, inside, same⟩ := List.mem_map.mp (perm.mem_iff.mp mem)
          obtain ⟨rfl, rfl⟩ := Prod.mk.inj same
          exact ⟨g.2, inside, (read g inside).2.symm⟩
        · rintro ⟨w, mem, rfl⟩
          refine ⟨w.tree.value, perm.mem_iff.mpr (List.mem_map.mpr ⟨(k, w), mem, rfl⟩), ?_⟩
          exact (read (k, w) mem).2

theorem jsonText_text (v : Value) (integral : v.integral = true) : JsonText v.tree v.text := by
  refine ⟨v.text, [], .refl, ?_, .refl⟩
  have derived := derives_tree v integral []
  rw [List.append_nil] at derived
  exact derived

/-- **`JSON.parse` reads back what `JSON.stringify` prints.** -/
theorem jsonParse_text (v : Value) (integral : v.integral = true) (plain : v.plain = true) :
    jsonParse v.text = some v.tree.value ∧ v.tree.value.Same v := by
  obtain ⟨plain', same⟩ := value_tree v integral plain
  exact ⟨jsonParse_iff.mpr ⟨v.tree, jsonText_text v integral, rfl⟩,
    .of_normalize same plain' plain⟩

end Reading

end Js
