import Knowledger.Lib.Program

/-!
# Versioned rows

A store that is written in batches can keep every value that a key ever had, each under the number
of the batch that wrote it.  `newest` reads a key from such rows, and `newestRows` all keys at once.
In the rows of a list of batches both find what the store held after a number of batches
(`newest_versions`, `mem_newestRows`).
-/

namespace Txn

/-- A value that a key had from a batch on. -/
structure Version (K V : Type) where
  key : K
  number : Int
  value : V

variable {K V W : Type} [DecidableEq K]

/-! ## Batches -/

/-- Write the batch into the rows of a table, which has one row a key. -/
def Writes.merge (p w : Writes K V) : Writes K V := w.foldl (fun p e => p.set e.1 e.2) p

/-- The store that the batches leave, in order. -/
def foldBatches (batches : List (Writes K V)) : K → Option V :=
  batches.foldl (fun s w => w.over s) fun _ => none

/-- The same writes, with every value spelled by `f`. -/
def Writes.spelled (f : V → W) (w : Writes K V) : Writes K W := w.map fun e => (e.1, f e.2)

section Batches

variable {p w : Writes K V} {batches : List (Writes K V)} {k : K}

theorem Writes.merge_cons (p w : Writes K V) (e : K × V) :
    p.merge (e :: w) = (p.set e.1 e.2).merge w :=
  rfl

theorem Writes.find_merge (nodup : (w.map Prod.fst).Nodup) :
    (p.merge w).find k = (w.find k).or (p.find k) := by
  induction w generalizing p with
  | nil => rfl
  | cons e w ih =>
      rw [List.map_cons, List.nodup_cons] at nodup
      rw [merge_cons, ih nodup.2, find_set, find_cons]
      by_cases same : e.1 = k
      · subst same
        rw [find_eq_none.mpr nodup.1, if_pos rfl, if_pos rfl]
        rfl
      · rw [if_neg same, if_neg same]

/-- The order of the writes does not matter. -/
theorem Writes.find_perm {w' : Writes K V} (perm : w.Perm w')
    (nodup : (w.map Prod.fst).Nodup) : w'.find k = w.find k := by
  have nodup' : (w'.map Prod.fst).Nodup := (perm.map Prod.fst).nodup_iff.mp nodup
  cases found : w.find k with
  | some v => exact find_of_mem nodup' (perm.mem_iff.mp (mem_of_find found))
  | none =>
      rw [find_eq_none] at found ⊢
      rwa [← (perm.map Prod.fst).mem_iff]

/-- A write that no other one follows can be applied before them. -/
theorem Writes.over_cons {s : K → Option V} {e : K × V} (fresh : e.1 ∉ w.map Prod.fst) :
    Writes.over (e :: w) s = w.over (Function.update s e.1 (some e.2)) := by
  funext k
  rw [over_apply, over_apply, find_cons]
  by_cases same : e.1 = k
  · subst same
    rw [if_pos rfl, find_eq_none.mpr fresh, Function.update_self]
    rfl
  · rw [if_neg same, Function.update_of_ne (Ne.symm same)]

theorem Writes.nodup_merge (nodup : (p.map Prod.fst).Nodup) :
    ((p.merge w).map Prod.fst).Nodup := by
  induction w generalizing p with
  | nil => exact nodup
  | cons e w ih => exact ih (nodup_set nodup)

theorem foldBatches_snoc (batches : List (Writes K V)) (w : Writes K V) :
    foldBatches (batches ++ [w]) = w.over (foldBatches batches) := by
  rw [foldBatches, List.foldl_append]
  rfl

omit [DecidableEq K] in
theorem Writes.keys_spelled (f : V → W) (w : Writes K V) :
    (w.spelled f).map Prod.fst = w.map Prod.fst := by
  rw [spelled, List.map_map]
  rfl

theorem Writes.find_spelled (f : V → W) : (w.spelled f).find k = (w.find k).map f := by
  induction w with
  | nil => rfl
  | cons e w ih =>
      rw [spelled, List.map_cons, find_cons, find_cons]
      by_cases same : e.1 = k
      · rw [if_pos same, if_pos same]
        rfl
      · rw [if_neg same, if_neg same]
        exact ih

/-- Spelling the batches spells what they leave. -/
theorem foldBatches_spelled (f : V → W) (batches : List (Writes K V)) :
    foldBatches (batches.map (Writes.spelled f)) = fun k => (foldBatches batches k).map f := by
  induction batches using List.reverseRecOn with
  | nil => rfl
  | append_singleton batches w ih =>
      rw [List.map_append, List.map_singleton, foldBatches_snoc, foldBatches_snoc, ih]
      funext k
      rw [Writes.over_apply, Writes.over_apply, Writes.find_spelled]
      cases w.find k <;> rfl

/-- Written batch by batch, a table holds what they leave. -/
theorem find_table (nodup : ∀ w ∈ batches, (w.map Prod.fst).Nodup) :
    (batches.foldl Writes.merge []).find k = foldBatches batches k := by
  induction batches using List.reverseRecOn with
  | nil => rfl
  | append_singleton batches w ih =>
      have earlier : ∀ w ∈ batches, (w.map Prod.fst).Nodup :=
        fun w mem => nodup w (List.mem_append_left _ mem)
      have last : (w.map Prod.fst).Nodup := nodup w (List.mem_append_right _ List.mem_cons_self)
      rw [List.foldl_append, List.foldl_cons, List.foldl_nil, Writes.find_merge last, ih earlier,
        foldBatches_snoc, Writes.over_apply]

theorem nodup_table (batches : List (Writes K V)) :
    ((batches.foldl Writes.merge []).map Prod.fst).Nodup := by
  induction batches using List.reverseRecOn with
  | nil => exact List.nodup_nil
  | append_singleton batches w ih =>
      rw [List.foldl_append]
      exact Writes.nodup_merge ih

end Batches

/-! ## Rows -/

/-- The rows of one batch. -/
def versionsOf (n : Int) (w : Writes K V) : List (Version K V) := w.map fun e => ⟨e.1, n, e.2⟩

/-- The rows of the batches, which are numbered from one. -/
def versions (batches : List (Writes K V)) : List (Version K V) :=
  (batches.zipIdx 1).flatMap fun b => versionsOf b.2 b.1

/-- The row with the higher number, the first of two. -/
def Version.later : Option (Version K V) → Version K V → Option (Version K V)
  | none, r => some r
  | some best, r => if best.number < r.number then some r else some best

/-- The row of a key with the highest number, among the numbers that `keep` allows. -/
def newest (rows : List (Version K V)) (keep : Int → Bool) (k : K) : Option (Version K V) :=
  (rows.filter fun r => decide (r.key = k) && keep r.number).foldl Version.later none

/-- The rows that are the newest of their keys. -/
def newestRows (rows : List (Version K V)) (keep : Int → Bool) : List (Version K V) :=
  let kept := rows.filter fun r => keep r.number
  kept.filter fun r => kept.all fun r' => decide (r'.key ≠ r.key) || decide (r'.number ≤ r.number)

section Rows

variable {rows : List (Version K V)} {batches : List (Writes K V)} {keep : Int → Bool} {k : K}

omit [DecidableEq K] in
theorem versions_snoc (batches : List (Writes K V)) (w : Writes K V) :
    versions (batches ++ [w]) = versions batches ++ versionsOf (batches.length + 1 : Nat) w := by
  rw [versions, List.zipIdx_append, List.flatMap_append, Nat.add_comm]
  simp [versions]

omit [DecidableEq K] in
theorem mem_versionsOf {n : Int} {w : Writes K V} {r : Version K V} :
    r ∈ versionsOf n w ↔ r.number = n ∧ (r.key, r.value) ∈ w := by
  rw [versionsOf, List.mem_map]
  constructor
  · rintro ⟨e, mem, rfl⟩
    exact ⟨rfl, mem⟩
  · rintro ⟨rfl, mem⟩
    exact ⟨_, mem, rfl⟩

omit [DecidableEq K] in
theorem versions_bound {r : Version K V} (mem : r ∈ versions batches) :
    1 ≤ r.number ∧ r.number ≤ batches.length := by
  induction batches using List.reverseRecOn with
  | nil => cases mem
  | append_singleton batches w ih =>
      rw [versions_snoc, List.mem_append] at mem
      rw [List.length_append, List.length_singleton]
      rcases mem with earlier | last
      · have bound := ih earlier
        omega
      · have number := (mem_versionsOf.mp last).1
        omega

omit [DecidableEq K] in
/-- The rows are in the order of their numbers. -/
theorem pairwise_versions (batches : List (Writes K V)) :
    (versions batches).Pairwise fun r r' => r.number ≤ r'.number := by
  induction batches using List.reverseRecOn with
  | nil => exact List.Pairwise.nil
  | append_singleton batches w ih =>
      rw [versions_snoc, List.pairwise_append]
      refine ⟨ih, ?_, fun r mem r' mem' => ?_⟩
      · refine List.pairwise_of_forall_mem_list fun r mem r' mem' => ?_
        rw [(mem_versionsOf.mp mem).1, (mem_versionsOf.mp mem').1]
      · have bound := versions_bound mem
        have here := (mem_versionsOf.mp mem').1
        omega

/-- A row is determined by its key and its number. -/
theorem versions_unique (nodup : ∀ w ∈ batches, (w.map Prod.fst).Nodup) {r r' : Version K V}
    (mem : r ∈ versions batches) (mem' : r' ∈ versions batches) (key : r.key = r'.key)
    (number : r.number = r'.number) : r = r' := by
  induction batches using List.reverseRecOn with
  | nil => cases mem
  | append_singleton batches w ih =>
      have earlier : ∀ w ∈ batches, (w.map Prod.fst).Nodup :=
        fun w mem => nodup w (List.mem_append_left _ mem)
      have last : (w.map Prod.fst).Nodup := nodup w (List.mem_append_right _ List.mem_cons_self)
      rw [versions_snoc, List.mem_append] at mem mem'
      rcases mem with old | new
      · rcases mem' with old' | new'
        · exact ih earlier old old'
        · have bound := versions_bound old
          have here := (mem_versionsOf.mp new').1
          omega
      · rcases mem' with old' | new'
        · have bound := versions_bound old'
          have here := (mem_versionsOf.mp new).1
          omega
        · have found := Writes.find_of_mem last (mem_versionsOf.mp new).2
          have found' := Writes.find_of_mem last (mem_versionsOf.mp new').2
          rw [key, found'] at found
          cases r
          cases r'
          simp_all

omit [DecidableEq K] in
theorem mem_of_later {best : Option (Version K V)} {r : Version K V}
    (found : rows.foldl Version.later best = some r) : r ∈ rows ∨ best = some r := by
  induction rows generalizing best with
  | nil => exact .inr found
  | cons head rows ih =>
      rcases ih found with inside | kept
      · exact .inl (List.mem_cons_of_mem _ inside)
      · rw [Version.later.eq_def] at kept
        split at kept
        · exact .inl (Option.some.inj kept ▸ List.mem_cons_self)
        · split_ifs at kept
          · exact .inl (Option.some.inj kept ▸ List.mem_cons_self)
          · exact .inr kept

/-- A batch has at most one row of a key. -/
theorem filter_versionsOf {w : Writes K V} {n : Int} (nodup : (w.map Prod.fst).Nodup) :
    (versionsOf n w).filter (fun r => decide (r.key = k) && keep r.number) =
      if keep n then ((w.find k).map fun v => (⟨k, n, v⟩ : Version K V)).toList else [] := by
  induction w with
  | nil => cases keep n <;> rfl
  | cons e w ih =>
      rw [List.map_cons, List.nodup_cons] at nodup
      have rest := ih nodup.2
      rw [versionsOf, List.map_cons, List.filter_cons, Writes.find_cons]
      by_cases same : e.1 = k
      · subst same
        rw [Writes.find_eq_none.mpr nodup.1] at rest
        cases keeps : keep n with
        | false => simpa [keeps, versionsOf] using rest
        | true => simpa [keeps, versionsOf] using rest
      · simpa [same, versionsOf] using rest

/-- Rows behind the others win where they speak of a key. -/
theorem newest_append {w : Writes K V} {n : Int} (nodup : (w.map Prod.fst).Nodup)
    (later : ∀ v, w.find k = some v → ∀ r ∈ rows, r.key = k → r.number < n) :
    newest (rows ++ versionsOf n w) keep k =
      if keep n then ((w.find k).map fun v => ⟨k, n, v⟩).or (newest rows keep k)
      else newest rows keep k := by
  rw [newest, List.filter_append, filter_versionsOf nodup]
  cases keeps : keep n with
  | false => simp [newest]
  | true =>
      cases here : w.find k with
      | none => simp [newest]
      | some v =>
          rw [if_pos rfl, if_pos rfl, Option.map_some, Option.toList_some, List.foldl_append,
            List.foldl_cons, List.foldl_nil, Option.some_or]
          cases before : (rows.filter fun r =>
              decide (r.key = k) && keep r.number).foldl Version.later none with
          | none => rfl
          | some r =>
              rcases mem_of_later before with inside | nothing
              · obtain ⟨mem, key⟩ := List.mem_filter.mp inside
                have key : r.key = k := of_decide_eq_true (Bool.and_eq_true_iff.mp key).1
                exact if_pos (later v here r mem key)
              · cases nothing

/-- **Rows keep every state.**  Among the rows up to a number, the newest one of a key has the
value that the key had after so many batches. -/
theorem newest_versions (nodup : ∀ w ∈ batches, (w.map Prod.fst).Nodup) (n : Nat) :
    (newest (versions batches) (fun m => decide (m ≤ n)) k).map Version.value =
      foldBatches (batches.take n) k := by
  induction batches using List.reverseRecOn with
  | nil => rw [List.take_nil]; rfl
  | append_singleton batches w ih =>
      have earlier : ∀ w ∈ batches, (w.map Prod.fst).Nodup :=
        fun w mem => nodup w (List.mem_append_left _ mem)
      have last : (w.map Prod.fst).Nodup := nodup w (List.mem_append_right _ List.mem_cons_self)
      have before : ∀ v, w.find k = some v → ∀ r ∈ versions batches, r.key = k →
          r.number < ((batches.length + 1 : Nat) : Int) := fun v _ r mem _ => by
        have bound := versions_bound mem
        omega
      rw [versions_snoc, newest_append last before]
      by_cases reached : batches.length + 1 ≤ n
      · rw [if_pos (by simpa using reached), List.take_of_length_le (by simpa using reached),
          foldBatches_snoc, Writes.over_apply]
        rw [List.take_of_length_le (Nat.le_of_succ_le reached)] at ih
        rw [← ih earlier]
        cases w.find k <;> rfl
      · rw [if_neg (by simpa using reached), ih earlier, List.take_append_of_le_length]
        omega

omit [DecidableEq K] in
/-- What is found is one of the rows that are kept, and no other of its key is newer. -/
theorem later_max {best : Option (Version K V)} {r : Version K V}
    (found : rows.foldl Version.later best = some r) :
    (∀ r' ∈ rows, r'.number ≤ r.number) ∧ ∀ b, best = some b → b.number ≤ r.number := by
  induction rows generalizing best with
  | nil =>
      refine ⟨List.forall_mem_nil _, fun b same => ?_⟩
      obtain rfl := Option.some.inj (same.symm.trans found)
      exact Int.le_refl _
  | cons head rows ih =>
      obtain ⟨rest, first⟩ := ih found
      rw [List.forall_mem_cons]
      cases best with
      | none => exact ⟨⟨first head rfl, rest⟩, fun b same => by cases same⟩
      | some b =>
          by_cases newer : b.number < head.number
          · have top := first head (if_pos newer)
            refine ⟨⟨top, rest⟩, fun b' same => ?_⟩
            obtain rfl := Option.some.inj same
            omega
          · have top := first b (if_neg newer)
            refine ⟨⟨by omega, rest⟩, fun b' same => ?_⟩
            obtain rfl := Option.some.inj same
            exact top

theorem newest_isSome {r : Version K V} (mem : r ∈ rows) (kept : keep r.number = true) :
    ∃ r', newest rows keep r.key = some r' := by
  rcases found : newest rows keep r.key with _ | r'
  · exfalso
    have inside : r ∈ rows.filter fun r' => decide (r'.key = r.key) && keep r'.number :=
      List.mem_filter.mpr ⟨mem, by simp [kept]⟩
    have started : ∀ (rows : List (Version K V)) (b : Version K V),
        rows.foldl Version.later (some b) ≠ none := by
      intro rows
      induction rows with
      | nil => exact fun b => Option.some_ne_none b
      | cons head rows ih =>
          intro b
          rw [List.foldl_cons, Version.later]
          split_ifs
          · exact ih head
          · exact ih b
    rw [newest] at found
    cases listed : rows.filter fun r' => decide (r'.key = r.key) && keep r'.number with
    | nil =>
        rw [listed] at inside
        cases inside
    | cons head rest =>
        rw [listed, List.foldl_cons] at found
        exact started rest head found
  · exact ⟨r', rfl⟩

theorem newest_some {r : Version K V} (found : newest rows keep k = some r) :
    r ∈ rows ∧ r.key = k ∧ keep r.number = true ∧
      ∀ r' ∈ rows, r'.key = k → keep r'.number = true → r'.number ≤ r.number := by
  rcases mem_of_later found with inside | nothing
  · obtain ⟨mem, here⟩ := List.mem_filter.mp inside
    obtain ⟨key, kept⟩ := Bool.and_eq_true_iff.mp here
    refine ⟨mem, of_decide_eq_true key, kept, fun r' mem' key' kept' => ?_⟩
    exact (later_max found).1 r' (List.mem_filter.mpr ⟨mem', by simp [key', kept']⟩)
  · cases nothing

/-- Read at once or one by one, the newest rows are the same. -/
theorem mem_newestRows (unique : ∀ r ∈ rows, ∀ r' ∈ rows, r.key = r'.key →
    r.number = r'.number → r = r') {r : Version K V} :
    r ∈ newestRows rows keep ↔ newest rows keep r.key = some r := by
  rw [newestRows, List.mem_filter, List.all_eq_true]
  constructor
  · intro ⟨inside, top⟩
    obtain ⟨mem, kept⟩ := List.mem_filter.mp inside
    obtain ⟨r', found⟩ := newest_isSome mem kept
    obtain ⟨mem', key, kept', most⟩ := newest_some found
    have bound := top r' (List.mem_filter.mpr ⟨mem', kept'⟩)
    have below : r'.number ≤ r.number := by simpa [key] using bound
    have above := most r mem rfl kept
    rw [found, unique r' mem' r mem key (Int.le_antisymm below above)]
  · intro found
    obtain ⟨mem, -, kept, most⟩ := newest_some found
    refine ⟨List.mem_filter.mpr ⟨mem, kept⟩, fun r' inside => ?_⟩
    obtain ⟨mem', kept'⟩ := List.mem_filter.mp inside
    by_cases same : r'.key = r.key
    · simp [most r' mem' same kept']
    · simp [same]

omit [DecidableEq K] in
/-- No row is newer than the last batch. -/
theorem filter_versions (f : Version K V → Bool) :
    ((versions batches).filter fun r => f r && decide (r.number ≤ batches.length)) =
      (versions batches).filter f := by
  refine List.filter_congr fun r mem => ?_
  rw [decide_eq_true (versions_bound mem).2, Bool.and_true]

theorem newest_all : newest (versions batches) (fun _ => true) =
    newest (versions batches) fun m => decide (m ≤ batches.length) := by
  funext k
  rw [newest, newest, filter_versions fun r => decide (r.key = k)]
  refine congrArg _ (List.filter_congr fun r _ => ?_)
  rw [Bool.and_true]

theorem newestRows_all : newestRows (versions batches) (fun _ => true) =
    newestRows (versions batches) fun m => decide (m ≤ batches.length) := by
  have kept := @filter_versions K V batches fun _ => true
  simp only [Bool.true_and] at kept
  rw [newestRows, newestRows, kept]

/-- Restricting the rows to some keys restricts what is found. -/
theorem newestRows_filter (p : K → Bool) :
    newestRows (rows.filter fun r => p r.key) keep =
      (newestRows rows keep).filter fun r => p r.key := by
  rw [newestRows, newestRows, List.filter_filter, List.filter_filter]
  simp only [List.filter_filter]
  refine List.filter_congr fun r mem => ?_
  cases inside : p r.key with
  | false => simp
  | true =>
      cases kept : keep r.number with
      | false => simp
      | true =>
          simp only [Bool.and_true, Bool.true_and, List.all_filter]
          refine List.all_congr rfl fun r' => ?_
          by_cases same : r'.key = r.key
          · simp [same, inside]
          · simp [same]

omit [DecidableEq K] in
theorem nodup_versions (nodup : ∀ w ∈ batches, (w.map Prod.fst).Nodup) :
    (versions batches).Nodup := by
  induction batches using List.reverseRecOn with
  | nil => exact List.nodup_nil
  | append_singleton batches w ih =>
      have earlier : ∀ w ∈ batches, (w.map Prod.fst).Nodup :=
        fun w mem => nodup w (List.mem_append_left _ mem)
      have last : (w.map Prod.fst).Nodup := nodup w (List.mem_append_right _ List.mem_cons_self)
      rw [versions_snoc, List.nodup_append]
      refine ⟨ih earlier, ?_, fun r mem r' mem' same => ?_⟩
      · refine (List.Nodup.of_map Prod.fst last).map fun e e' same => ?_
        rw [Version.mk.injEq] at same
        exact Prod.ext same.1 same.2.2
      · have bound := versions_bound mem
        have here := (mem_versionsOf.mp mem').1
        rw [same] at bound
        omega

section Many

variable (nodup : ∀ w ∈ batches, (w.map Prod.fst).Nodup) (n : Nat)

include nodup

/-- **Reading many keys at once** finds what each had after so many batches. -/
theorem mem_newestRows_versions {v : V} :
    (∃ r ∈ newestRows (versions batches) (fun m => decide (m ≤ n)), r.key = k ∧ r.value = v) ↔
      foldBatches (batches.take n) k = some v := by
  rw [← newest_versions nodup n, Option.map_eq_some_iff]
  have unique : ∀ r ∈ versions batches, ∀ r' ∈ versions batches, r.key = r'.key →
      r.number = r'.number → r = r' :=
    fun r mem r' mem' => versions_unique nodup mem mem'
  constructor
  · intro ⟨r, mem, key, value⟩
    refine ⟨r, ?_, value⟩
    rw [← key]
    exact (mem_newestRows unique).mp mem
  · intro ⟨r, found, value⟩
    obtain ⟨-, key, -⟩ := newest_some found
    refine ⟨r, (mem_newestRows unique).mpr ?_, key, value⟩
    rw [key, found]

theorem nodup_newestRows :
    ((newestRows (versions batches) fun m => decide (m ≤ n)).map Version.key).Nodup := by
  have unique : ∀ r ∈ versions batches, ∀ r' ∈ versions batches, r.key = r'.key →
      r.number = r'.number → r = r' :=
    fun r mem r' mem' => versions_unique nodup mem mem'
  refine List.Nodup.map_on (fun r mem r' mem' key => ?_) ?_
  · have found := (mem_newestRows unique).mp mem
    rw [key, (mem_newestRows unique).mp mem'] at found
    exact (Option.some.inj found).symm
  · exact ((nodup_versions nodup).filter _).filter _

end Many

end Rows

end Txn
