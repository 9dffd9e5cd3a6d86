import Knowledger.Lib.Machine
import Knowledger.Storage.BrowseIndex

/-!
# Runs of the caches

`SearchMatchCache` takes reads and writes, the browse index queries and commits.  Both keep exact
accounts and their limits in every run (`search_run`, `browse_run`), and what a key holds is the
list that the last write of the key stored.
-/

namespace Knowledger.Storage

open Js OrderedMap PooledCache

theorem eq_or_ends {α : Type} {later stretch rest : List α} {e x : α}
    (split : later ++ [e] = stretch ++ x :: rest) :
    (later = stretch ∧ e = x ∧ rest = []) ∨
      ∃ rest', later = stretch ++ x :: rest' ∧ rest = rest' ++ [e] := by
  rcases List.eq_nil_or_concat rest with rfl | ⟨rest', last, rfl⟩
  · obtain ⟨same, is⟩ := List.append_inj' split rfl
    exact .inl ⟨same, (List.cons.inj is).1, rfl⟩
  · have split' : later ++ [e] = (stretch ++ x :: rest') ++ [last] := by
      rw [split, List.concat_eq_append, List.append_assoc, List.cons_append]
    obtain ⟨same, is⟩ := List.append_inj' split' rfl
    exact .inr ⟨rest', same, by rw [(List.cons.inj is).1, List.concat_eq_append]⟩

/-! ## The cache of search results -/

/-- `Buffer.byteLength`; an unpaired surrogate is written as U+FFFD. -/
def byteLength : List UInt16 → Nat
  | [] => 0
  | c :: rest =>
      if c < 0x80 then 1 + byteLength rest
      else if c < 0x800 then 2 + byteLength rest
      else if 0xd800 ≤ c ∧ c ≤ 0xdbff then
        match rest with
        | [] => 3
        | next :: rest' =>
            if 0xdc00 ≤ next ∧ next ≤ 0xdfff then 4 + byteLength rest'
            else 3 + byteLength (next :: rest')
      else 3 + byteLength rest

theorem searchLimits_positive : 0 < 8 ∧ 0 < 20000 ∧ 0 < 2 * 1024 * 1024 ∧ 0 < 64 * 1024 * 1024 := by
  decide

theorem revisionLimits_positive :
    0 < 8 ∧ 0 < 16384 ∧ 0 < 512 * 1024 ∧ 0 < 16 * 1024 * 1024 := by
  decide

/-- The limits of a search cache that is given none. -/
def searchLimits : CacheLimits :=
  ⟨8, 20000, 2 * 1024 * 1024, 64 * 1024 * 1024, searchLimits_positive⟩

/-- The limits of a selection cache that is given none. -/
def revisionLimits : CacheLimits :=
  ⟨8, 16384, 512 * 1024, 16 * 1024 * 1024, revisionLimits_positive⟩

abbrev SearchMatchCache := PooledCache Str Str Unit

namespace SearchMatchCache

def get (key : Str) (c : SearchMatchCache) : Option (List Str) × SearchMatchCache :=
  match PooledCache.get key c with
  | (entry, c) => (entry.map CacheEntry.items, c)

def put (limits : CacheLimits) (key : Str) (ids : List Str) (c : SearchMatchCache) :
    Option SearchMatchCache :=
  c.store limits key
    ⟨ids, byteLength key.units + (ids.map fun id => byteLength id.units).sum, ()⟩

inductive Event
  | get (key : Str)
  | put (key : Str) (ids : List Str)

def step (limits : CacheLimits) (c : SearchMatchCache) : Event → Option SearchMatchCache
  | .get key => some (get key c).2
  | .put key ids => put limits key ids c

variable {limits : CacheLimits}

/-- The entry of a key is what the last write of the key stored. -/
def LastPut (events : List Event) (key : Str) (ids : List Str) : Prop :=
  ∃ earlier later, events = earlier ++ .put key ids :: later ∧ ∀ other, .put key other ∉ later

theorem LastPut.concat {events : List Event} {key : Str} {ids : List Str} {e : Event}
    (last : LastPut events key ids) (other : ∀ ids', e ≠ .put key ids') :
    LastPut (events ++ [e]) key ids := by
  obtain ⟨earlier, later, rfl, none⟩ := last
  refine ⟨earlier, later ++ [e], by rw [List.append_assoc, List.cons_append], fun ids' mem => ?_⟩
  rcases List.mem_append.mp mem with mem | mem
  · exact none ids' mem
  · exact other ids' (List.mem_singleton.mp mem).symm

/-- What every run of the cache keeps. -/
structure Kept (limits : CacheLimits) (events : List Event) (c : SearchMatchCache) : Prop where
  accounted : Accounted limits c
  bounded : Bounded limits c.entries
  last : ∀ f ∈ c.entries, LastPut events f.1 f.2.items

theorem Kept.step {events : List Event} {c : SearchMatchCache} (kept : Kept limits events c)
    (e : Event) : ∃ c', step limits c e = some c' ∧ Kept limits (events ++ [e]) c' := by
  cases e with
  | get key =>
      obtain ⟨-, same, accounted⟩ := get_spec key kept.accounted
      refine ⟨_, rfl, accounted, kept.bounded.perm same, fun f mem => ?_⟩
      exact (kept.last f (same.mem_iff.mpr mem)).concat fun ids' is => by cases is
  | put key ids =>
      obtain ⟨c', stored, accounted, bounded, holds⟩ := store_spec key
        ⟨ids, byteLength key.units + (ids.map fun id => byteLength id.units).sum, ()⟩
        kept.accounted kept.bounded
      refine ⟨c', stored, accounted, bounded, fun f mem => ?_⟩
      rcases holds f mem with rfl | ⟨other, inside⟩
      · exact ⟨events, [], rfl, fun _ => List.not_mem_nil⟩
      · refine (kept.last f inside).concat fun ids' is => ?_
        cases is
        exact other rfl

theorem search_run (limits : CacheLimits) (events : List Event) :
    ∃ c, Machine.run (step limits) .new events = some c ∧ Kept limits events c := by
  induction events using List.reverseRecOn with
  | nil =>
      refine ⟨.new, rfl, Accounted.new, ⟨?_, ?_, ?_, ?_, ?_⟩, List.forall_mem_nil _⟩
      all_goals exact Nat.zero_le _
  | append_singleton events e ih =>
      obtain ⟨c, run, kept⟩ := ih
      obtain ⟨c', taken, kept'⟩ := kept.step e
      exact ⟨c', Machine.run_concat run taken, kept'⟩

end SearchMatchCache

/-! ## The selection cache -/

namespace Browse

inductive Event
  | query (query : RevisionBrowseQuery)
  | commit (prepared : Prepared)

/-- A commit that throws changes nothing, and a query that throws neither. -/
def step (localeCompare : String → String → Ordering) (index : VerifiedBrowseIndex) :
    Event → Option VerifiedBrowseIndex
  | .query query => (index.query query).map Prod.snd
  | .commit prepared => some ((index.commit localeCompare prepared).getD index)

/-- The query passes the checks and finds no selection in the cache: it stores one. -/
structure VerifiedBrowseIndex.Misses (index : VerifiedBrowseIndex) (query : RevisionBrowseQuery) :
    Prop where
  checked : index.check query = .ok ()
  miss : lookup (revisionCacheKey query) index.revisionCache.entries = none

variable {localeCompare : String → String → Ordering} {start : VerifiedBrowseIndex}

/-- The selection of a key is the one that the last query to miss the key made. -/
def LastStored (localeCompare : String → String → Ordering) (start : VerifiedBrowseIndex)
    (events : List Event) (key : List Char) (refs : List RevisionBrowseRef) : Prop :=
  ∃ earlier query later before, events = earlier ++ .query query :: later ∧
    Machine.run (step localeCompare) start earlier = some before ∧ before.Misses query ∧
    revisionCacheKey query = key ∧ refs = before.selected query ∧
    ∀ between other rest middle, later = between ++ .query other :: rest →
      Machine.run (step localeCompare) start (earlier ++ .query query :: between) = some middle →
      revisionCacheKey other = key → ¬ middle.Misses other

theorem LastStored.concat {events : List Event} {key : List Char} {refs : List RevisionBrowseRef}
    {e : Event} {index : VerifiedBrowseIndex} (last : LastStored localeCompare start events key refs)
    (run : Machine.run (step localeCompare) start events = some index)
    (keeps : ∀ query, e = .query query → revisionCacheKey query = key → ¬ index.Misses query) :
    LastStored localeCompare start (events ++ [e]) key refs := by
  obtain ⟨earlier, query, later, before, rfl, first, missed, sameKey, selected, none⟩ := last
  refine ⟨earlier, query, later ++ [e], before, by rw [List.append_assoc, List.cons_append], first,
    missed, sameKey, selected, fun between other rest middle split reached otherKey => ?_⟩
  rcases eq_or_ends split with ⟨rfl, rfl, rfl⟩ | ⟨rest', rfl, rfl⟩
  · rw [run] at reached
    obtain rfl := Option.some.inj reached
    exact keeps other rfl otherKey
  · exact none between other rest' middle rfl reached otherKey

/-- What every run of the index keeps of its cache. -/
structure Kept (localeCompare : String → String → Ordering) (start : VerifiedBrowseIndex)
    (events : List Event) (index : VerifiedBrowseIndex) : Prop where
  limits : index.limits = start.limits
  accounted : Accounted start.limits index.revisionCache
  bounded : Bounded start.limits index.revisionCache.entries
  last : ∀ f ∈ index.revisionCache.entries,
    LastStored localeCompare start events f.1 f.2.items

/-- What the events do to the cache: queries that are refused and commits that are read nothing of
it. -/
theorem invalidate_spec {limits : CacheLimits} {cache : RevisionCache}
    (touched : List RevisionBrowseRef) (accounted : Accounted limits cache) :
    Accounted limits (invalidate touched cache) ∧
      (invalidate touched cache).entries.Sublist cache.entries := by
  unfold invalidate
  split
  · exact ⟨accounted, List.Sublist.refl _⟩
  · obtain ⟨kept, entries⟩ := dropStale_spec _ accounted
    refine ⟨kept, ?_⟩
    rw [entries]
    exact List.filter_sublist

theorem commit_cache {index index' : VerifiedBrowseIndex} {prepared : Prepared}
    (committed : index.commit localeCompare prepared = some index') :
    index'.limits = index.limits ∧
      ∃ touched, index'.revisionCache = invalidate touched index.revisionCache := by
  unfold VerifiedBrowseIndex.commit at committed
  simp only [Option.bind_eq_bind, Option.bind_eq_some_iff, Option.pure_def, Option.some.injEq]
    at committed
  obtain ⟨⟨freshR, demotedR⟩, -, ⟨freshP, demotedP⟩, -, ⟨freshA, demotedA⟩, -, moreR, -, moreP, -,
    moreA, -, rfl⟩ := committed
  exact ⟨rfl, _, rfl⟩

theorem Kept.step {events : List Event} {index : VerifiedBrowseIndex}
    (kept : Kept localeCompare start events index)
    (run : Machine.run (step localeCompare) start events = some index) (e : Event) :
    ∃ index', step localeCompare index e = some index' ∧
      Kept localeCompare start (events ++ [e]) index' := by
  cases e with
  | commit prepared =>
      have others : ∀ f ∈ index.revisionCache.entries,
          LastStored localeCompare start (events ++ [.commit prepared]) f.1 f.2.items := by
        intro f mem
        refine (kept.last f mem).concat run fun query is => ?_
        cases is
      refine ⟨_, rfl, ?_⟩
      cases committed : index.commit localeCompare prepared with
      | none => exact ⟨kept.limits, kept.accounted, kept.bounded, others⟩
      | some index' =>
          obtain ⟨limits, touched, cache⟩ := commit_cache committed
          obtain ⟨accounted, part⟩ := invalidate_spec touched kept.accounted
          rw [← cache] at accounted part
          exact ⟨limits.trans kept.limits, accounted, kept.bounded.sublist part,
            fun f mem => others f (part.mem mem)⟩
  | query query =>
      cases checked : index.check query with
      | error thrown =>
          have taken : Browse.step localeCompare index (.query query) = some index := by
            rw [Browse.step, VerifiedBrowseIndex.query, checked]
            rfl
          refine ⟨index, taken, kept.limits, kept.accounted, kept.bounded, fun f mem => ?_⟩
          refine (kept.last f mem).concat run fun other is _ missed => ?_
          cases is
          rw [missed.checked] at checked
          cases checked
      | ok passed =>
          obtain ⟨found, same, accounted⟩ := get_spec (revisionCacheKey query) kept.accounted
          have bounded := kept.bounded.perm same
          cases got : index.revisionCache.get (revisionCacheKey query) with
          | mk cached cache =>
              rw [got] at found same accounted bounded
              dsimp only at found same accounted bounded
              cases cached with
              | some cached =>
                  have taken : Browse.step localeCompare index (.query query) =
                      some { index with revisionCache := cache } := by
                    rw [Browse.step, VerifiedBrowseIndex.query, checked]
                    dsimp only
                    rw [got]
                    rfl
                  refine ⟨_, taken, kept.limits, accounted, bounded, fun f mem => ?_⟩
                  refine (kept.last f (same.mem_iff.mpr mem)).concat run fun other is _ missed => ?_
                  cases is
                  rw [missed.miss] at found
                  cases found
              | none =>
                  obtain ⟨cache', stored, accounted', bounded', holds⟩ :=
                    store_spec (revisionCacheKey query) ⟨index.selected query,
                      (Utf8.encode (revisionCacheKey query)).length +
                        (index.selected query).length * ESTIMATED_REF_POINTER_BYTES, query.at_⟩
                      accounted bounded
                  have taken : Browse.step localeCompare index (.query query) =
                      some { index with revisionCache := cache' } := by
                    rw [Browse.step, VerifiedBrowseIndex.query, checked]
                    dsimp only
                    rw [got]
                    dsimp only
                    rw [cacheRevisions, kept.limits, stored]
                    rfl
                  refine ⟨_, taken, kept.limits, accounted', bounded', fun f mem => ?_⟩
                  rcases holds f mem with rfl | ⟨other, inside⟩
                  · exact ⟨events, query, [], index, rfl, run, ⟨checked, found.symm⟩, rfl, rfl,
                      fun between other rest middle split => by cases between <;> cases split⟩
                  · refine (kept.last f (same.mem_iff.mpr inside)).concat run fun q is sameKey _ => ?_
                    cases is
                    exact other sameKey.symm

theorem browse_run (localeCompare : String → String → Ordering) (channelId : Str)
    (limits : CacheLimits) (events : List Event) :
    ∃ index, Machine.run (step localeCompare) (.new channelId limits) events = some index ∧
      Kept localeCompare (.new channelId limits) events index := by
  induction events using List.reverseRecOn with
  | nil =>
      refine ⟨_, rfl, rfl, Accounted.new, ⟨?_, ?_, ?_, ?_, ?_⟩, List.forall_mem_nil _⟩
      all_goals exact Nat.zero_le _
  | append_singleton events e ih =>
      obtain ⟨index, run, kept⟩ := ih
      obtain ⟨index', taken, kept'⟩ := kept.step run e
      exact ⟨index', Machine.run_concat run taken, kept'⟩

end Browse

/-! ## Both caches -/

/-- **Cache accounting is exact and bounded.**  Every run of either cache ends, so every eviction
does; behind it the counters are the sums over the entries and both pools keep their limits, and a
hit gives the list that was last stored under the key. -/
theorem caches_accounted :
    (∀ (limits : CacheLimits) (events : List SearchMatchCache.Event),
      ∃ c, Machine.run (SearchMatchCache.step limits) .new events = some c ∧
        Accounted limits c ∧ Bounded limits c.entries ∧
        ∀ key ids, (SearchMatchCache.get key c).1 = some ids →
          SearchMatchCache.LastPut events key ids) ∧
    ∀ (localeCompare : String → String → Ordering) (channelId : Str) (limits : CacheLimits)
        (events : List Browse.Event),
      ∃ index, Machine.run (Browse.step localeCompare) (.new channelId limits) events = some index ∧
        Accounted limits index.revisionCache ∧ Bounded limits index.revisionCache.entries ∧
        ∀ query entry, index.check query = .ok () →
          (index.revisionCache.get (Browse.revisionCacheKey query)).1 = some entry →
          (∃ index', index.query query =
            some (.ok (Browse.page entry.items query.offset query.limit), index')) ∧
          Browse.LastStored localeCompare (.new channelId limits) events
            (Browse.revisionCacheKey query) entry.items := by
  constructor
  · intro limits events
    obtain ⟨c, run, kept⟩ := SearchMatchCache.search_run limits events
    refine ⟨c, run, kept.accounted, kept.bounded, fun key ids hit => ?_⟩
    obtain ⟨found, -, -⟩ := get_spec key kept.accounted
    change ((PooledCache.get key c).1.map CacheEntry.items) = some ids at hit
    rw [found] at hit
    obtain ⟨entry, stored, rfl⟩ := Option.map_eq_some_iff.mp hit
    exact kept.last _ (mem_of_lookup stored)
  · intro localeCompare channelId limits events
    obtain ⟨index, run, kept⟩ := Browse.browse_run localeCompare channelId limits events
    refine ⟨index, run, kept.accounted, kept.bounded, fun query entry checked hit => ⟨?_, ?_⟩⟩
    · unfold Browse.VerifiedBrowseIndex.query
      rw [checked]
      dsimp only
      cases got : index.revisionCache.get (Browse.revisionCacheKey query) with
      | mk cached cache =>
          rw [got] at hit
          dsimp only at hit
          rw [hit]
          exact ⟨_, rfl⟩
    · obtain ⟨found, -, -⟩ := get_spec (Browse.revisionCacheKey query) kept.accounted
      rw [found] at hit
      exact kept.last _ (mem_of_lookup hit)

end Knowledger.Storage
