import Knowledger.Lib.OrderedMap

/-!
# The cache with two pools

The cache of search results and the selection cache of the browse index are one algorithm.  An
entry above the count limit is oversized; both pools share one map in the order of use, and the
usage of the normal pool is the total less that of the oversized one.  `Accounted` says that the
counters are the sums over the entries, `Bounded` that each pool keeps its limits.  `evict_spec`
is the loop of both pools: it ends, and evicts entries of its own pool only.
-/

namespace Knowledger.Storage

open OrderedMap

/-- Limits of a cache, all of them positive. -/
structure CacheLimits where
  maxEntries : Nat
  maxCount : Nat
  maxBytes : Nat
  maxOversizedBytes : Nat
  positive : 0 < maxEntries ∧ 0 < maxCount ∧ 0 < maxBytes ∧ 0 < maxOversizedBytes

structure CacheEntry (α μ : Type) where
  items : List α
  bytes : Nat
  /-- What the entry is bound to. -/
  mark : μ

structure PooledCache (K α μ : Type) where
  entries : List (K × CacheEntry α μ)
  count : Int
  bytes : Int
  oversizedKeys : Finset K
  oversizedCount : Int
  oversizedBytes : Int
  hits : Nat
  misses : Nat

namespace PooledCache

variable {K α μ : Type}

/-! ## The pools -/

def lengths (entries : List (K × CacheEntry α μ)) : Nat := (entries.map fun f => f.2.items.length).sum

def weights (entries : List (K × CacheEntry α μ)) : Nat := (entries.map fun f => f.2.bytes).sum

/-- The entries above the count limit, or the others. -/
def pool (limits : CacheLimits) (oversized : Bool) (entries : List (K × CacheEntry α μ)) :
    List (K × CacheEntry α μ) :=
  entries.filter fun f => decide (limits.maxCount < f.2.items.length) == oversized

/-- Each pool keeps its limits. -/
structure Bounded (limits : CacheLimits) (entries : List (K × CacheEntry α μ)) : Prop where
  normalEntries : (pool limits false entries).length ≤ limits.maxEntries
  normalCount : lengths (pool limits false entries) ≤ limits.maxCount
  normalBytes : weights (pool limits false entries) ≤ limits.maxBytes
  oversizedEntries : (pool limits true entries).length ≤ limits.maxEntries
  oversizedBytes : weights (pool limits true entries) ≤ limits.maxOversizedBytes

section Pools

variable {limits : CacheLimits} {oversized : Bool} {entries entries' : List (K × CacheEntry α μ)}

theorem mem_pool {f : K × CacheEntry α μ} : f ∈ pool limits oversized entries ↔
    f ∈ entries ∧ decide (limits.maxCount < f.2.items.length) = oversized := by
  rw [pool, List.mem_filter, beq_iff_eq]

theorem lengths_perm (same : entries.Perm entries') : lengths entries = lengths entries' :=
  (same.map _).sum_eq

theorem weights_perm (same : entries.Perm entries') : weights entries = weights entries' :=
  (same.map _).sum_eq

theorem pool_perm (same : entries.Perm entries') :
    (pool limits oversized entries).Perm (pool limits oversized entries') := same.filter _

theorem lengths_cons {f : K × CacheEntry α μ} :
    lengths (f :: entries) = f.2.items.length + lengths entries := List.sum_cons

theorem weights_cons {f : K × CacheEntry α μ} :
    weights (f :: entries) = f.2.bytes + weights entries := List.sum_cons

theorem pool_cons {f : K × CacheEntry α μ} : pool limits oversized (f :: entries) =
    if decide (limits.maxCount < f.2.items.length) = oversized
    then f :: pool limits oversized entries else pool limits oversized entries := by
  rw [pool, List.filter_cons]
  by_cases here : decide (limits.maxCount < f.2.items.length) = oversized
  · rw [if_pos here, if_pos (beq_iff_eq.mpr here)]
    rfl
  · rw [if_neg here, if_neg (fun same => here (beq_iff_eq.mp same))]
    rfl

theorem lengths_sublist (part : entries'.Sublist entries) : lengths entries' ≤ lengths entries :=
  (part.map _).sum_le_sum fun _ _ => Nat.zero_le _

theorem weights_sublist (part : entries'.Sublist entries) : weights entries' ≤ weights entries :=
  (part.map _).sum_le_sum fun _ _ => Nat.zero_le _

theorem Bounded.sublist (bounded : Bounded limits entries) (part : entries'.Sublist entries) :
    Bounded limits entries' where
  normalEntries := (part.filter _).length_le.trans bounded.normalEntries
  normalCount := (lengths_sublist (part.filter _)).trans bounded.normalCount
  normalBytes := (weights_sublist (part.filter _)).trans bounded.normalBytes
  oversizedEntries := (part.filter _).length_le.trans bounded.oversizedEntries
  oversizedBytes := (weights_sublist (part.filter _)).trans bounded.oversizedBytes

theorem Bounded.perm (bounded : Bounded limits entries) (same : entries.Perm entries') :
    Bounded limits entries' where
  normalEntries := (pool_perm same).length_eq ▸ bounded.normalEntries
  normalCount := lengths_perm (pool_perm same) ▸ bounded.normalCount
  normalBytes := weights_perm (pool_perm same) ▸ bounded.normalBytes
  oversizedEntries := (pool_perm same).length_eq ▸ bounded.oversizedEntries
  oversizedBytes := weights_perm (pool_perm same) ▸ bounded.oversizedBytes

/-- The pools are the entries. -/
theorem pools_perm : (pool limits true entries ++ pool limits false entries).Perm entries := by
  have other : pool limits false entries =
      entries.filter fun f => !(decide (limits.maxCount < f.2.items.length) == true) :=
    List.filter_congr fun f _ => by cases decide (limits.maxCount < f.2.items.length) <;> rfl
  rw [other]
  exact List.filter_append_perm _ _

theorem length_pools : (pool limits true entries).length + (pool limits false entries).length =
    entries.length := by
  rw [← List.length_append, pools_perm.length_eq]

theorem lengths_pools : lengths (pool limits true entries) + lengths (pool limits false entries) =
    lengths entries := by
  have same : lengths (pool limits true entries ++ pool limits false entries) = lengths entries :=
    lengths_perm pools_perm
  rw [← same, lengths, lengths, lengths, List.map_append, List.sum_append]

theorem weights_pools : weights (pool limits true entries) + weights (pool limits false entries) =
    weights entries := by
  have same : weights (pool limits true entries ++ pool limits false entries) = weights entries :=
    weights_perm pools_perm
  rw [← same, weights, weights, weights, List.map_append, List.sum_append]

theorem Bounded.cons_oversized {key : K} {entry : CacheEntry α μ}
    (bounded : Bounded limits entries) (large : limits.maxCount < entry.items.length)
    (room : (pool limits true entries).length < limits.maxEntries)
    (within : weights (pool limits true entries) + entry.bytes ≤ limits.maxOversizedBytes) :
    Bounded limits ((key, entry) :: entries) := by
  have other : pool limits false ((key, entry) :: entries) = pool limits false entries := by
    rw [pool_cons, if_neg (by simpa using large)]
  have more : pool limits true ((key, entry) :: entries) = (key, entry) :: pool limits true entries := by
    rw [pool_cons, if_pos (decide_eq_true large)]
  refine ⟨other ▸ bounded.normalEntries, other ▸ bounded.normalCount, other ▸ bounded.normalBytes,
    ?_, ?_⟩
  · rw [more]
    exact room
  · rw [more, weights_cons]
    dsimp only
    omega

theorem Bounded.cons_normal {key : K} {entry : CacheEntry α μ}
    (bounded : Bounded limits entries) (small : ¬ limits.maxCount < entry.items.length)
    (room : (pool limits false entries).length < limits.maxEntries)
    (few : lengths (pool limits false entries) + entry.items.length ≤ limits.maxCount)
    (within : weights (pool limits false entries) + entry.bytes ≤ limits.maxBytes) :
    Bounded limits ((key, entry) :: entries) := by
  have other : pool limits true ((key, entry) :: entries) = pool limits true entries := by
    rw [pool_cons, if_neg (by simpa using small)]
  have more : pool limits false ((key, entry) :: entries) =
      (key, entry) :: pool limits false entries := by
    rw [pool_cons, if_pos (by simpa using small)]
  refine ⟨?_, ?_, ?_, other ▸ bounded.oversizedEntries, other ▸ bounded.oversizedBytes⟩
  · rw [more]
    exact room
  · rw [more, lengths_cons]
    dsimp only
    omega
  · rw [more, weights_cons]
    dsimp only
    omega

end Pools

/-! ## The operations -/

variable [DecidableEq K]

def new : PooledCache K α μ := ⟨[], 0, 0, ∅, 0, 0, 0, 0⟩

/-- A hit moves the entry to the end. -/
def get (key : K) (c : PooledCache K α μ) : Option (CacheEntry α μ) × PooledCache K α μ :=
  match lookup key c.entries with
  | none => (none, { c with misses := c.misses + 1 })
  | some entry =>
      (some entry, { c with
        hits := c.hits + 1
        entries := set key entry (delete key c.entries) })

def remove (key : K) (c : PooledCache K α μ) : PooledCache K α μ :=
  match lookup key c.entries with
  | none => c
  | some entry =>
      let c := { c with
        entries := delete key c.entries
        count := c.count - entry.items.length
        bytes := c.bytes - entry.bytes }
      if key ∈ c.oversizedKeys then { c with
        oversizedKeys := c.oversizedKeys.erase key
        oversizedCount := c.oversizedCount - entry.items.length
        oversizedBytes := c.oversizedBytes - entry.bytes }
      else c

/-- The loop that evicts the oldest entry of a pool while the pool is full; `none` when the fuel
does not last. -/
def evict (full : PooledCache K α μ → Bool) (oversized : Bool) :
    Nat → PooledCache K α μ → Option (PooledCache K α μ)
  | 0, _ => none
  | fuel + 1, c =>
      if full c then
        match (c.entries.map Prod.fst).find? fun key => decide (key ∈ c.oversizedKeys) == oversized with
        | none => some c
        | some oldest => evict full oversized fuel (c.remove oldest)
      else some c

def fullOversized (limits : CacheLimits) (bytes : Nat) (c : PooledCache K α μ) : Bool :=
  decide (limits.maxEntries ≤ c.oversizedKeys.card) ||
    decide (limits.maxOversizedBytes < c.oversizedBytes + bytes)

def fullNormal (limits : CacheLimits) (count bytes : Nat) (c : PooledCache K α μ) : Bool :=
  decide ((limits.maxEntries : Int) ≤ c.entries.length - c.oversizedKeys.card) ||
    decide (limits.maxCount < c.count - c.oversizedCount + count) ||
    decide (limits.maxBytes < c.bytes - c.oversizedBytes + bytes)

def setEntry (key : K) (entry : CacheEntry α μ) (c : PooledCache K α μ) : PooledCache K α μ :=
  { c with
    entries := set key entry c.entries
    count := c.count + entry.items.length
    bytes := c.bytes + entry.bytes }

def addOversized (key : K) (entry : CacheEntry α μ) (c : PooledCache K α μ) : PooledCache K α μ :=
  { c with
    oversizedKeys := insert key c.oversizedKeys
    oversizedCount := c.oversizedCount + entry.items.length
    oversizedBytes := c.oversizedBytes + entry.bytes }

/-- What both caches do to store a list; `none` when an eviction does not end. -/
def store (limits : CacheLimits) (key : K) (entry : CacheEntry α μ) (c : PooledCache K α μ) :
    Option (PooledCache K α μ) :=
  let c := c.remove key
  -- Every round of a loop evicts an entry, and the last one finds none to evict.
  let fuel := c.entries.length + 1
  if limits.maxCount < entry.items.length then
    if limits.maxOversizedBytes < entry.bytes then some c
    else (evict (fullOversized limits entry.bytes) true fuel c).map fun c =>
      (c.addOversized key entry).setEntry key entry
  else if limits.maxBytes < entry.bytes then some c
  else (evict (fullNormal limits entry.items.length entry.bytes) false fuel c).map fun c =>
    c.setEntry key entry

/-- Drop the entry of the key if its mark is stale. -/
def dropIfStale (stale : μ → Bool) (c : PooledCache K α μ) (key : K) : PooledCache K α μ :=
  match lookup key c.entries with
  | some entry => if stale entry.mark then c.remove key else c
  | none => c

/-- Drop the entries whose mark is stale. -/
def dropStale (stale : μ → Bool) (c : PooledCache K α μ) : PooledCache K α μ :=
  (c.entries.map Prod.fst).foldl (dropIfStale stale) c

/-! ## The accounts -/

/-- The counters are exact. -/
structure Accounted (limits : CacheLimits) (c : PooledCache K α μ) : Prop where
  distinct : Distinct c.entries
  count : c.count = lengths c.entries
  bytes : c.bytes = weights c.entries
  oversizedKeys : ∀ key, key ∈ c.oversizedKeys ↔ key ∈ (pool limits true c.entries).map Prod.fst
  oversizedCount : c.oversizedCount = lengths (pool limits true c.entries)
  oversizedBytes : c.oversizedBytes = weights (pool limits true c.entries)

section Accounts

variable {limits : CacheLimits} {oversized : Bool} {c : PooledCache K α μ} {key : K}
  {entry : CacheEntry α μ} {entries : List (K × CacheEntry α μ)}

omit [DecidableEq K] in
theorem Accounted.perm (accounted : Accounted limits c) (same : c.entries.Perm entries) :
    Accounted limits { c with entries := entries } where
  distinct := (same.map Prod.fst).nodup_iff.mp accounted.distinct
  count := lengths_perm same ▸ accounted.count
  bytes := weights_perm same ▸ accounted.bytes
  oversizedKeys key :=
    (accounted.oversizedKeys key).trans ((pool_perm same).map Prod.fst).mem_iff
  oversizedCount := lengths_perm (pool_perm same) ▸ accounted.oversizedCount
  oversizedBytes := weights_perm (pool_perm same) ▸ accounted.oversizedBytes

/-- A stored key is in the oversized set exactly when its entry is above the count limit. -/
theorem Accounted.mem_oversizedKeys (accounted : Accounted limits c) {f : K × CacheEntry α μ}
    (mem : f ∈ c.entries) : f.1 ∈ c.oversizedKeys ↔ limits.maxCount < f.2.items.length := by
  rw [accounted.oversizedKeys, List.mem_map]
  constructor
  · rintro ⟨g, inside, same⟩
    obtain ⟨stored, large⟩ := mem_pool.mp inside
    rw [← accounted.distinct.eq stored mem same]
    exact of_decide_eq_true large
  · intro large
    exact ⟨f, mem_pool.mpr ⟨mem, decide_eq_true large⟩, rfl⟩

theorem Accounted.card (accounted : Accounted limits c) :
    c.oversizedKeys.card = (pool limits true c.entries).length := by
  have keys : c.oversizedKeys = ((pool limits true c.entries).map Prod.fst).toFinset := by
    ext key
    rw [List.mem_toFinset]
    exact accounted.oversizedKeys key
  have distinct : ((pool limits true c.entries).map Prod.fst).Nodup :=
    accounted.distinct.sublist List.filter_sublist
  rw [keys, List.toFinset_card_of_nodup distinct, List.length_map]

omit [DecidableEq K] in
theorem Accounted.new : Accounted limits (new : PooledCache K α μ) where
  distinct := List.nodup_nil
  count := rfl
  bytes := rfl
  oversizedKeys key := by simp [PooledCache.new, pool]
  oversizedCount := rfl
  oversizedBytes := rfl

/-! ## Removing -/

theorem remove_entries : (c.remove key).entries = delete key c.entries := by
  unfold remove
  split
  · rename_i none
    exact (delete_of_not_mem (lookup_eq_none.mp none)).symm
  · dsimp only
    split <;> rfl

theorem Accounted.remove (accounted : Accounted limits c) : Accounted limits (c.remove key) := by
  unfold PooledCache.remove
  cases found : lookup key c.entries with
  | none => exact accounted
  | some entry =>
      have split := perm_delete accounted.distinct found
      obtain ⟨distinct, count, bytes, oversizedKeys, oversizedCount, oversizedBytes⟩ :=
        accounted.perm split
      rw [lengths_cons] at count
      rw [weights_cons] at bytes
      have rest := distinct.sublist (List.sublist_cons_self _ _)
      have gone : key ∉ (pool limits true (delete key c.entries)).map Prod.fst := fun mem =>
        not_mem_keys_delete ((List.filter_sublist.map Prod.fst).mem mem)
      have member := accounted.mem_oversizedKeys (mem_of_lookup found)
      dsimp only at count bytes oversizedKeys oversizedCount oversizedBytes member ⊢
      rw [pool_cons] at oversizedCount oversizedBytes
      simp only [pool_cons] at oversizedKeys
      by_cases large : limits.maxCount < entry.items.length
      · rw [if_pos (decide_eq_true large)] at oversizedCount oversizedBytes
        rw [lengths_cons] at oversizedCount
        rw [weights_cons] at oversizedBytes
        dsimp only at oversizedCount oversizedBytes
        rw [if_pos (member.mpr large)]
        refine ⟨rest, ?_, ?_, fun k => ?_, ?_, ?_⟩
        · dsimp only
          omega
        · dsimp only
          omega
        · dsimp only
          rw [Finset.mem_erase, oversizedKeys, if_pos (decide_eq_true large), List.map_cons,
            List.mem_cons]
          constructor
          · rintro ⟨other, same | mem⟩
            · exact absurd same other
            · exact mem
          · intro mem
            refine ⟨?_, .inr mem⟩
            rintro rfl
            exact gone mem
        · dsimp only
          omega
        · dsimp only
          omega
      · rw [if_neg (by simpa using large)] at oversizedCount oversizedBytes
        rw [if_neg (fun mem => large (member.mp mem))]
        refine ⟨rest, ?_, ?_, fun k => ?_, oversizedCount, oversizedBytes⟩
        · dsimp only
          omega
        · dsimp only
          omega
        · rw [oversizedKeys, if_neg (by simpa using large)]

/-- An entry of a pool is one of its entries less, and the other pool keeps its own. -/
theorem pool_delete (accounted : Accounted limits c) {f : K × CacheEntry α μ}
    (mem : f ∈ pool limits oversized c.entries) :
    (pool limits oversized (delete f.1 c.entries)).length + 1 =
        (pool limits oversized c.entries).length ∧
      pool limits (!oversized) (delete f.1 c.entries) = pool limits (!oversized) c.entries := by
  obtain ⟨stored, here⟩ := mem_pool.mp mem
  constructor
  · have split := perm_delete accounted.distinct (lookup_of_mem accounted.distinct stored)
    rw [(pool_perm split).length_eq, pool_cons, if_pos here, List.length_cons]
  · rw [pool, pool, delete, List.filter_filter]
    apply List.filter_congr
    intro g inside
    rw [Bool.and_eq_left_iff_imp]
    intro there
    rw [decide_eq_true_iff]
    intro same
    obtain rfl := accounted.distinct.eq inside stored same
    rw [here] at there
    cases oversized <;> cases there

/-! ## Evicting -/

/-- **The loop of a pool ends**, with the pool no longer full and the other one as it was, if an
empty pool is not full. -/
theorem evict_spec {full : PooledCache K α μ → Bool}
    (empty : ∀ c, Accounted limits c → pool limits oversized c.entries = [] → full c = false)
    (fuel : Nat) (accounted : Accounted limits c)
    (enough : (pool limits oversized c.entries).length < fuel) :
    ∃ c', evict full oversized fuel c = some c' ∧ Accounted limits c' ∧ full c' = false ∧
      c'.entries.Sublist c.entries ∧
      pool limits (!oversized) c'.entries = pool limits (!oversized) c.entries := by
  induction fuel generalizing c with
  | zero => omega
  | succ fuel ih =>
      rw [evict]
      cases isFull : full c with
      | false => exact ⟨c, rfl, accounted, isFull, List.Sublist.refl _, rfl⟩
      | true =>
          rw [if_pos rfl]
          cases found : (c.entries.map Prod.fst).find?
              fun key => decide (key ∈ c.oversizedKeys) == oversized with
          | none =>
              -- The pool has no entry, so it is not full.
              have none : pool limits oversized c.entries = [] := by
                apply List.eq_nil_iff_forall_not_mem.mpr
                intro f mem
                obtain ⟨stored, here⟩ := mem_pool.mp mem
                have other := List.find?_eq_none.mp found f.1 (List.mem_map_of_mem stored)
                rw [beq_iff_eq, ← here] at other
                exact other (decide_eq_decide.mpr (accounted.mem_oversizedKeys stored))
              rw [empty c accounted none] at isFull
              cases isFull
          | some oldest =>
              obtain ⟨f, stored, rfl⟩ := List.mem_map.mp (List.mem_of_find?_eq_some found)
              have here := List.find?_some found
              rw [beq_iff_eq, decide_eq_decide.mpr (accounted.mem_oversizedKeys stored)] at here
              obtain ⟨less, other⟩ := pool_delete accounted (mem_pool.mpr ⟨stored, here⟩)
              rw [← remove_entries] at less other
              obtain ⟨c', run, accounted', notFull, part, same⟩ :=
                ih accounted.remove (c := c.remove f.1) (by omega)
              refine ⟨c', run, accounted', notFull, ?_, same.trans other⟩
              rw [remove_entries] at part
              exact part.trans delete_sublist

/-! ## Storing -/

theorem Accounted.setNormal (accounted : Accounted limits c)
    (fresh : key ∉ c.entries.map Prod.fst) (small : ¬ limits.maxCount < entry.items.length) :
    Accounted limits (c.setEntry key entry) := by
  obtain ⟨distinct, count, bytes, oversizedKeys, oversizedCount, oversizedBytes⟩ := accounted
  have same : pool limits true ((key, entry) :: c.entries) = pool limits true c.entries := by
    rw [pool_cons, if_neg (by simpa using small)]
  rw [← same] at oversizedCount oversizedBytes
  simp only [← same] at oversizedKeys
  have first : Accounted limits { c with
      entries := (key, entry) :: c.entries
      count := c.count + entry.items.length
      bytes := c.bytes + entry.bytes } := by
    refine ⟨List.nodup_cons.mpr ⟨fresh, distinct⟩, ?_, ?_, oversizedKeys, oversizedCount,
      oversizedBytes⟩
    · rw [lengths_cons]
      dsimp only
      omega
    · rw [weights_cons]
      dsimp only
      omega
  rw [setEntry, set_of_not_mem fresh]
  exact first.perm (List.perm_append_singleton _ _).symm

theorem Accounted.setOversized (accounted : Accounted limits c)
    (fresh : key ∉ c.entries.map Prod.fst) (large : limits.maxCount < entry.items.length) :
    Accounted limits ((c.addOversized key entry).setEntry key entry) := by
  obtain ⟨distinct, count, bytes, oversizedKeys, oversizedCount, oversizedBytes⟩ := accounted
  have more : pool limits true ((key, entry) :: c.entries) =
      (key, entry) :: pool limits true c.entries := by
    rw [pool_cons, if_pos (decide_eq_true large)]
  have first : Accounted limits { c with
      entries := (key, entry) :: c.entries
      count := c.count + entry.items.length
      bytes := c.bytes + entry.bytes
      oversizedKeys := insert key c.oversizedKeys
      oversizedCount := c.oversizedCount + entry.items.length
      oversizedBytes := c.oversizedBytes + entry.bytes } := by
    refine ⟨List.nodup_cons.mpr ⟨fresh, distinct⟩, ?_, ?_, fun k => ?_, ?_, ?_⟩
    · rw [lengths_cons]
      dsimp only
      omega
    · rw [weights_cons]
      dsimp only
      omega
    · rw [more, List.map_cons, List.mem_cons, Finset.mem_insert, oversizedKeys]
    · rw [more, lengths_cons]
      dsimp only
      omega
    · rw [more, weights_cons]
      dsimp only
      omega
  rw [setEntry, addOversized, set_of_not_mem fresh]
  exact first.perm (List.perm_append_singleton _ _).symm

theorem fullOversized_empty {bytes : Nat} (within : bytes ≤ limits.maxOversizedBytes)
    (accounted : Accounted limits c) (none : pool limits true c.entries = []) :
    fullOversized limits bytes c = false := by
  have card := accounted.card
  have weight := accounted.oversizedBytes
  rw [none] at card weight
  have positive := limits.positive.1
  change c.oversizedBytes = 0 at weight
  change c.oversizedKeys.card = 0 at card
  rw [fullOversized, Bool.or_eq_false_iff, decide_eq_false_iff_not, decide_eq_false_iff_not]
  omega

/-- What the counters of a cache say of its normal pool. -/
theorem Accounted.normal (accounted : Accounted limits c) :
    (c.entries.length : Int) - c.oversizedKeys.card = (pool limits false c.entries).length ∧
      c.count - c.oversizedCount = lengths (pool limits false c.entries) ∧
      c.bytes - c.oversizedBytes = weights (pool limits false c.entries) := by
  have card := accounted.card
  have count := accounted.count
  have bytes := accounted.bytes
  have oversizedCount := accounted.oversizedCount
  have oversizedBytes := accounted.oversizedBytes
  have first : (pool limits true c.entries).length + (pool limits false c.entries).length =
      c.entries.length := length_pools
  have second : lengths (pool limits true c.entries) + lengths (pool limits false c.entries) =
      lengths c.entries := lengths_pools
  have third : weights (pool limits true c.entries) + weights (pool limits false c.entries) =
      weights c.entries := weights_pools
  omega

theorem fullNormal_empty {count bytes : Nat} (few : count ≤ limits.maxCount)
    (within : bytes ≤ limits.maxBytes) (accounted : Accounted limits c)
    (none : pool limits false c.entries = []) : fullNormal limits count bytes c = false := by
  obtain ⟨length, total, weight⟩ := accounted.normal
  rw [none] at length total weight
  have positive := limits.positive.1
  change _ = 0 at length total weight
  rw [fullNormal, Bool.or_eq_false_iff, Bool.or_eq_false_iff, decide_eq_false_iff_not,
    decide_eq_false_iff_not, decide_eq_false_iff_not]
  omega

/-- The key of a cache holds the entry stored under it, and the other keys hold no other entry
than before. -/
def Holds (key : K) (entry : CacheEntry α μ) (before after : List (K × CacheEntry α μ)) : Prop :=
  ∀ f ∈ after, f = (key, entry) ∨ f.1 ≠ key ∧ f ∈ before

/-- The entry behind the entries that an eviction left. -/
theorem holds_setEntry (entry : CacheEntry α μ) {c' : PooledCache K α μ}
    (part : c'.entries.Sublist (delete key entries)) :
    key ∉ c'.entries.map Prod.fst ∧ Holds key entry entries (set key entry c'.entries) := by
  have fresh : key ∉ c'.entries.map Prod.fst := fun mem =>
    not_mem_keys_delete ((part.map Prod.fst).mem mem)
  refine ⟨fresh, fun f mem => ?_⟩
  rw [set_of_not_mem fresh] at mem
  rcases List.mem_append.mp mem with mem | mem
  · obtain ⟨inside, other⟩ := mem_delete.mp (part.mem mem)
    exact .inr ⟨other, inside⟩
  · exact .inl (List.mem_singleton.mp mem)

/-- **Storing** ends, keeps the accounts and the limits, and changes no other list. -/
theorem store_spec (key : K) (entry : CacheEntry α μ) (accounted : Accounted limits c)
    (bounded : Bounded limits c.entries) :
    ∃ c', c.store limits key entry = some c' ∧ Accounted limits c' ∧ Bounded limits c'.entries ∧
      Holds key entry c.entries c'.entries := by
  have removed : Accounted limits (c.remove key) := accounted.remove
  have rest : Bounded limits (c.remove key).entries := by
    rw [remove_entries]
    exact bounded.sublist delete_sublist
  have dropped : Holds key entry c.entries (c.remove key).entries := by
    intro f mem
    rw [remove_entries] at mem
    obtain ⟨inside, other⟩ := mem_delete.mp mem
    exact .inr ⟨other, inside⟩
  have enough : ∀ oversized, (pool limits oversized (c.remove key).entries).length <
      (c.remove key).entries.length + 1 := fun oversized =>
    Nat.lt_succ_of_le List.filter_sublist.length_le
  unfold store
  dsimp only
  by_cases large : limits.maxCount < entry.items.length
  · rw [if_pos large]
    by_cases tooLarge : limits.maxOversizedBytes < entry.bytes
    · rw [if_pos tooLarge]
      exact ⟨_, rfl, removed, rest, dropped⟩
    · rw [if_neg tooLarge]
      obtain ⟨c', run, accounted', notFull, part, -⟩ :=
        evict_spec (fun _ => fullOversized_empty (Nat.le_of_not_lt tooLarge)) _ removed (enough true)
      rw [run]
      rw [remove_entries] at part
      obtain ⟨fresh, holds⟩ := holds_setEntry entry part
      have card := accounted'.card
      have weight := accounted'.oversizedBytes
      rw [fullOversized, Bool.or_eq_false_iff, decide_eq_false_iff_not,
        decide_eq_false_iff_not] at notFull
      refine ⟨_, rfl, accounted'.setOversized fresh large, ?_, holds⟩
      change Bounded limits (set key entry c'.entries)
      rw [set_of_not_mem fresh]
      have left := bounded.sublist (part.trans delete_sublist)
      exact (left.cons_oversized large (by omega) (by omega)).perm
        (List.perm_append_singleton _ _).symm
  · rw [if_neg large]
    by_cases tooLarge : limits.maxBytes < entry.bytes
    · rw [if_pos tooLarge]
      exact ⟨_, rfl, removed, rest, dropped⟩
    · rw [if_neg tooLarge]
      obtain ⟨c', run, accounted', notFull, part, -⟩ :=
        evict_spec (fun _ => fullNormal_empty (Nat.le_of_not_lt large) (Nat.le_of_not_lt tooLarge)) _
          removed (enough false)
      rw [run]
      rw [remove_entries] at part
      obtain ⟨fresh, holds⟩ := holds_setEntry entry part
      obtain ⟨length, total, weight⟩ := accounted'.normal
      rw [fullNormal, Bool.or_eq_false_iff, Bool.or_eq_false_iff, decide_eq_false_iff_not,
        decide_eq_false_iff_not, decide_eq_false_iff_not] at notFull
      refine ⟨_, rfl, accounted'.setNormal fresh large, ?_, holds⟩
      change Bounded limits (set key entry c'.entries)
      rw [set_of_not_mem fresh]
      have left := bounded.sublist (part.trans delete_sublist)
      exact (left.cons_normal large (by omega) (by omega) (by omega)).perm
        (List.perm_append_singleton _ _).symm

/-! ## Reading and dropping -/

/-- A read finds what is stored, and leaves the entries in another order. -/
theorem get_spec (key : K) (accounted : Accounted limits c) :
    (c.get key).1 = lookup key c.entries ∧ c.entries.Perm (c.get key).2.entries ∧
      Accounted limits (c.get key).2 := by
  unfold get
  cases found : lookup key c.entries with
  | none =>
      obtain ⟨distinct, count, bytes, oversizedKeys, oversizedCount, oversizedBytes⟩ := accounted
      exact ⟨rfl, List.Perm.refl _, distinct, count, bytes, oversizedKeys, oversizedCount,
        oversizedBytes⟩
  | some entry =>
      have same : c.entries.Perm (set key entry (delete key c.entries)) := by
        rw [set_of_not_mem not_mem_keys_delete]
        exact (perm_delete accounted.distinct found).trans (List.perm_append_singleton _ _).symm
      obtain ⟨distinct, count, bytes, oversizedKeys, oversizedCount, oversizedBytes⟩ :=
        accounted.perm same
      exact ⟨rfl, same, distinct, count, bytes, oversizedKeys, oversizedCount, oversizedBytes⟩

theorem dropIfStale_spec {stale : μ → Bool} (accounted : Accounted limits c) (key : K) :
    Accounted limits (c.dropIfStale stale key) ∧ (c.dropIfStale stale key).entries =
      c.entries.filter fun f => !(decide (f.1 = key) && stale f.2.mark) := by
  unfold dropIfStale
  cases found : lookup key c.entries with
  | none =>
      refine ⟨accounted, (List.filter_eq_self.mpr fun f mem => ?_).symm⟩
      have other : f.1 ≠ key := fun same =>
        lookup_eq_none.mp found (List.mem_map.mpr ⟨f, mem, same⟩)
      rw [decide_eq_false other]
      rfl
  | some entry =>
      have stored := mem_of_lookup found
      dsimp only
      by_cases old : stale entry.mark = true
      · rw [if_pos old]
        refine ⟨accounted.remove, ?_⟩
        rw [remove_entries, delete]
        apply List.filter_congr
        intro f mem
        by_cases same : f.1 = key
        · obtain rfl := accounted.distinct.eq mem stored same
          simp [old]
        · simp [same]
      · rw [if_neg old]
        refine ⟨accounted, (List.filter_eq_self.mpr fun f mem => ?_).symm⟩
        by_cases same : f.1 = key
        · obtain rfl := accounted.distinct.eq mem stored same
          simp [old]
        · simp [same]

theorem foldl_dropIfStale {stale : μ → Bool} (keys : List K) (accounted : Accounted limits c) :
    Accounted limits (keys.foldl (dropIfStale stale) c) ∧
      (keys.foldl (dropIfStale stale) c).entries =
        c.entries.filter fun f => !(decide (f.1 ∈ keys) && stale f.2.mark) := by
  induction keys generalizing c with
  | nil => exact ⟨accounted, (List.filter_eq_self.mpr fun f _ => by simp).symm⟩
  | cons key keys ih =>
      obtain ⟨next, first⟩ := dropIfStale_spec accounted key
      obtain ⟨last, rest⟩ := ih next
      refine ⟨last, ?_⟩
      rw [List.foldl_cons, rest, first, List.filter_filter]
      apply List.filter_congr
      intro f _
      simp only [List.mem_cons]
      by_cases same : f.1 = key
      · cases old : stale f.2.mark
        all_goals simp [same, old]
      · simp [same]

/-- Dropping keeps the accounts and drops exactly the entries whose mark is stale. -/
theorem dropStale_spec (stale : μ → Bool) (accounted : Accounted limits c) :
    Accounted limits (c.dropStale stale) ∧
      (c.dropStale stale).entries = c.entries.filter fun f => !stale f.2.mark := by
  obtain ⟨kept, entries⟩ := foldl_dropIfStale (c.entries.map Prod.fst) accounted
  refine ⟨kept, entries.trans (List.filter_congr fun f mem => ?_)⟩
  rw [decide_eq_true (List.mem_map_of_mem mem), Bool.true_and]

end Accounts

end PooledCache

end Knowledger.Storage
