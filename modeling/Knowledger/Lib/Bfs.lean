import Knowledger.Lib.MemoSearch

/-!
# Breadth-first search of a labelled multigraph

`search` takes the nodes off a queue in order, and appends every node it meets for the first
time, with the edge that led there and the number of edges from the root.  Edges whose label
is not allowed are passed over.  `search_exact`: the search finds each node that the allowed
edges lead to from the root, the root apart, exactly once, and its depth is the length of a
shortest path.
-/

namespace Bfs

open MemoSearch (Path)

variable {V E : Type} [DecidableEq V]

/-- The edges that leave a node, each with its label. -/
abbrev Graph (V E : Type) := V → List (V × E)

/-- The allowed edges alone. -/
def ahead (g : Graph V E) (allowed : E → Bool) : MemoSearch.Graph V := fun v =>
  (g v).filterMap fun e => if allowed e.2 then some (some e.1) else none

/-- How a node was met: from which node, over how many edges, by which label. -/
structure Found (V E : Type) where
  via : V
  depth : Nat
  label : E

/-- The nodes met so far, and those of them whose edges are still to be followed. -/
structure State (V E : Type) where
  visited : List (V × Found V E)
  pending : List (V × Nat)
  seen : List V

/-- Follow the edges of `u`, which was met at depth `k`. -/
def scan (allowed : E → Bool) (u : V) (k : Nat) : List (V × E) → State V E → State V E
  | [], s => s
  | (w, e) :: rest, s =>
      if w ∈ s.seen ∨ allowed e = false then scan allowed u k rest s
      else scan allowed u k rest
        { visited := s.visited ++ [(w, ⟨u, k + 1, e⟩)]
          pending := s.pending ++ [(w, k + 1)]
          seen := s.seen ++ [w] }

/-- Take nodes off the queue, at most `fuel` of them. -/
def explore (g : Graph V E) (allowed : E → Bool) : Nat → State V E → State V E
  | 0, s => s
  | fuel + 1, s =>
      match s.pending with
      | [] => s
      | (u, k) :: rest => explore g allowed fuel (scan allowed u k (g u) { s with pending := rest })

def start (root : V) : State V E := ⟨[], [(root, 0)], [root]⟩

/-- The nodes met from `root`, in the order in which they were met. -/
def search (g : Graph V E) (allowed : E → Bool) (fuel : Nat) (root : V) : List (V × Found V E) :=
  (explore g allowed fuel (start root)).visited

omit [DecidableEq V] in
theorem mem_ahead {g : Graph V E} {allowed : E → Bool} {v w : V} :
    MemoSearch.Edge (ahead g allowed) v w ↔ ∃ e, (w, e) ∈ g v ∧ allowed e = true := by
  simp only [MemoSearch.Edge, ahead, List.mem_filterMap, Prod.exists, Option.ite_none_right_eq_some,
    Option.some.injEq]
  constructor
  · rintro ⟨x, e, mem, ok, rfl⟩
    exact ⟨e, mem, ok⟩
  · rintro ⟨e, mem, ok⟩
    exact ⟨w, e, mem, ok, rfl⟩

/-! ## The queue -/

/-- The node was met at this depth. -/
def Queued (root : V) (s : State V E) (v : V) (n : Nat) : Prop :=
  (v = root ∧ n = 0) ∨ ∃ f, (v, f) ∈ s.visited ∧ f.depth = n

/-- Every allowed edge of the node leads to a node that was met, one level down at most. -/
def Closed (g : Graph V E) (allowed : E → Bool) (root : V) (s : State V E) (v : V) (n : Nat) :
    Prop :=
  ∀ w, MemoSearch.Edge (ahead g allowed) v w → ∃ m ≤ n + 1, Queued root s w m

/-- What holds whenever a node is taken off the queue, and while its edges are followed. -/
structure Marked (g : Graph V E) (allowed : E → Bool) (root : V) (s : State V E) : Prop where
  seen : s.seen = root :: s.visited.map Prod.fst
  unique : s.seen.Nodup
  sound : ∀ v n, Queued root s v n → Path (ahead g allowed) root n v
  labelled : ∀ v f, (v, f) ∈ s.visited → (v, f.label) ∈ g f.via ∧ allowed f.label = true ∧
    ∃ n, f.depth = n + 1 ∧ Queued root s f.via n
  queued : ∀ p ∈ s.pending, Queued root s p.1 p.2
  sorted : s.pending.Pairwise fun p q => p.2 ≤ q.2
  short : s.pending.length ≤ s.visited.length + 1

/-- The invariant of the queue. -/
structure Inv (g : Graph V E) (allowed : E → Bool) (root : V) (s : State V E) : Prop
    extends Marked g allowed root s where
  near : ∀ p ∈ s.pending, ∀ v n, Queued root s v n → n ≤ p.2 + 1
  closed : ∀ v n, Queued root s v n → (v, n) ∈ s.pending ∨ Closed g allowed root s v n

/-- The invariant while the edges of `u` are followed. -/
structure Scanning (g : Graph V E) (allowed : E → Bool) (root u : V) (k : Nat) (s : State V E) :
    Prop extends Marked g allowed root s where
  current : Queued root s u k
  low : ∀ p ∈ s.pending, k ≤ p.2
  high : ∀ v n, Queued root s v n → n ≤ k + 1
  closed : ∀ v n, Queued root s v n →
    (v = u ∧ n = k) ∨ (v, n) ∈ s.pending ∨ Closed g allowed root s v n

section Invariant

variable {g : Graph V E} {allowed : E → Bool} {root u : V} {k : Nat} {s t : State V E}

omit [DecidableEq V] in
theorem Queued.mono (more : ∀ p ∈ s.visited, p ∈ t.visited) {v : V} {n : Nat}
    (queued : Queued root s v n) : Queued root t v n := by
  rcases queued with first | ⟨f, mem, depth⟩
  · exact Or.inl first
  · exact Or.inr ⟨f, more _ mem, depth⟩

omit [DecidableEq V] in
theorem Closed.mono (more : ∀ p ∈ s.visited, p ∈ t.visited) {v : V} {n : Nat}
    (closed : Closed g allowed root s v n) : Closed g allowed root t v n := by
  intro w edge
  obtain ⟨m, le, queued⟩ := closed w edge
  exact ⟨m, le, queued.mono more⟩

omit [DecidableEq V] in
theorem Marked.mem_seen (marked : Marked g allowed root s) {v : V} :
    v ∈ s.seen ↔ ∃ n, Queued root s v n := by
  rw [marked.seen, List.mem_cons, List.mem_map]
  constructor
  · rintro (rfl | ⟨⟨w, f⟩, mem, rfl⟩)
    · exact ⟨0, Or.inl ⟨rfl, rfl⟩⟩
    · exact ⟨f.depth, Or.inr ⟨f, mem, rfl⟩⟩
  · rintro ⟨n, ⟨rfl, _⟩ | ⟨f, mem, _⟩⟩
    · exact Or.inl rfl
    · exact Or.inr ⟨_, mem, rfl⟩

omit [DecidableEq V] in
/-- A node is met once. -/
theorem Marked.depth_unique (marked : Marked g allowed root s) {v : V} {m n : Nat}
    (first : Queued root s v m) (second : Queued root s v n) : m = n := by
  have unique := marked.unique
  rw [marked.seen, List.nodup_cons] at unique
  rcases first with ⟨rfl, rfl⟩ | ⟨f, memF, rfl⟩
  · rcases second with ⟨_, rfl⟩ | ⟨f, mem, _⟩
    · rfl
    · exact absurd (List.mem_map.mpr ⟨_, mem, rfl⟩) unique.1
  · rcases second with ⟨rfl, _⟩ | ⟨h, memH, rfl⟩
    · exact absurd (List.mem_map.mpr ⟨_, memF, rfl⟩) unique.1
    · have same := List.inj_on_of_nodup_map unique.2 memF memH rfl
      rw [(Prod.mk.inj same).2]

omit [DecidableEq V] in
theorem Scanning.inv (h : Scanning g allowed root u k s)
    (done : Closed g allowed root s u k) : Inv g allowed root s where
  toMarked := h.toMarked
  near p mem v n queued := by
    have le := h.high v n queued
    have low := h.low p mem
    omega
  closed v n queued := by
    rcases h.closed v n queued with ⟨rfl, rfl⟩ | pending | closed
    · exact Or.inr done
    · exact Or.inl pending
    · exact Or.inr closed

omit [DecidableEq V] in
/-- The head of the queue is taken off. -/
theorem Inv.scanning {rest : List (V × Nat)} (inv : Inv g allowed root s)
    (head : s.pending = (u, k) :: rest) :
    Scanning g allowed root u k { s with pending := rest } := by
  have sorted := inv.sorted
  have short := inv.short
  have inside : ∀ p ∈ rest, p ∈ s.pending := fun p mem => by
    rw [head]
    exact List.mem_cons_of_mem _ mem
  have first : (u, k) ∈ s.pending := by
    rw [head]
    exact List.mem_cons_self
  rw [head, List.pairwise_cons] at sorted
  rw [head, List.length_cons] at short
  exact
    { seen := inv.seen
      unique := inv.unique
      sound := inv.sound
      labelled := inv.labelled
      queued := fun p mem => inv.queued p (inside p mem)
      sorted := sorted.2
      short := by
        dsimp only
        omega
      current := inv.queued _ first
      low := fun p mem => sorted.1 p mem
      high := fun v n queued => inv.near _ first v n queued
      closed := fun v n queued => by
        rcases inv.closed v n queued with pending | closed
        · rw [head] at pending
          rcases List.mem_cons.mp pending with same | later
          · exact Or.inl ⟨(Prod.mk.inj same).1, (Prod.mk.inj same).2⟩
          · exact Or.inr (Or.inl later)
        · exact Or.inr (Or.inr closed) }

omit [DecidableEq V] in
/-- A node that was not met before is appended. -/
theorem Scanning.meet {w : V} {e : E} (h : Scanning g allowed root u k s) (edge : (w, e) ∈ g u)
    (ok : allowed e = true) (fresh : w ∉ s.seen) :
    Scanning g allowed root u k
      { visited := s.visited ++ [(w, ⟨u, k + 1, e⟩)]
        pending := s.pending ++ [(w, k + 1)]
        seen := s.seen ++ [w] } := by
  have more : ∀ p ∈ s.visited, p ∈ s.visited ++ [(w, (⟨u, k + 1, e⟩ : Found V E))] :=
    fun p mem => List.mem_append_left _ mem
  let next : State V E :=
    { visited := s.visited ++ [(w, ⟨u, k + 1, e⟩)]
      pending := s.pending ++ [(w, k + 1)]
      seen := s.seen ++ [w] }
  have split : ∀ v n, Queued root next v n → Queued root s v n ∨ (v = w ∧ n = k + 1) := by
    intro v n queued
    rcases queued with first | ⟨f, mem, depth⟩
    · exact Or.inl (Or.inl first)
    · rcases List.mem_append.mp mem with old | new
      · exact Or.inl (Or.inr ⟨f, old, depth⟩)
      · obtain ⟨rfl, rfl⟩ := Prod.mk.inj (List.mem_singleton.mp new)
        exact Or.inr ⟨rfl, depth.symm⟩
  have added : Queued root next w (k + 1) :=
    Or.inr ⟨_, List.mem_append_right _ (List.mem_singleton.mpr rfl), rfl⟩
  have step : MemoSearch.Edge (ahead g allowed) u w := mem_ahead.mpr ⟨e, edge, ok⟩
  exact
    { seen := by simp [h.seen]
      unique := by
        rw [List.nodup_append]
        refine ⟨h.unique, List.nodup_singleton w, fun a mem b single => ?_⟩
        rw [List.mem_singleton.mp single]
        rintro rfl
        exact fresh mem
      sound := fun v n queued => by
        rcases split v n queued with old | ⟨rfl, rfl⟩
        · exact h.sound v n old
        · exact (h.sound u k h.current).snoc step
      labelled := fun v f mem => by
        rcases List.mem_append.mp mem with old | new
        · obtain ⟨leads, label, n, depth, queued⟩ := h.labelled v f old
          exact ⟨leads, label, n, depth, queued.mono more⟩
        · obtain ⟨rfl, rfl⟩ := Prod.mk.inj (List.mem_singleton.mp new)
          exact ⟨edge, ok, k, rfl, h.current.mono more⟩
      queued := fun p mem => by
        rcases List.mem_append.mp mem with old | new
        · exact (h.queued p old).mono more
        · rw [List.mem_singleton.mp new]
          exact added
      sorted := by
        rw [List.pairwise_append]
        refine ⟨h.sorted, List.pairwise_singleton _ _, fun p mem q single => ?_⟩
        rw [List.mem_singleton.mp single]
        exact h.high _ _ (h.queued p mem)
      short := by
        have short := h.short
        simp only [List.length_append, List.length_singleton]
        omega
      current := h.current.mono more
      low := fun p mem => by
        rcases List.mem_append.mp mem with old | new
        · exact h.low p old
        · rw [List.mem_singleton.mp new]
          exact Nat.le_succ k
      high := fun v n queued => by
        rcases split v n queued with old | ⟨rfl, rfl⟩
        · exact h.high v n old
        · exact le_refl _
      closed := fun v n queued => by
        rcases split v n queued with old | ⟨rfl, rfl⟩
        · rcases h.closed v n old with current | pending | closed
          · exact Or.inl current
          · exact Or.inr (Or.inl (List.mem_append_left _ pending))
          · exact Or.inr (Or.inr (closed.mono more))
        · exact Or.inr (Or.inl (List.mem_append_right _ (List.mem_singleton.mpr rfl))) }

/-- **One node.**  Its edges are followed: each leads to a node that has been met. -/
theorem scan_spec (es : List (V × E)) (h : Scanning g allowed root u k s)
    (edges : ∀ e ∈ es, e ∈ g u) :
    Scanning g allowed root u k (scan allowed u k es s) ∧
      (∀ p ∈ s.visited, p ∈ (scan allowed u k es s).visited) ∧
      (scan allowed u k es s).visited.length + s.pending.length =
        (scan allowed u k es s).pending.length + s.visited.length ∧
      ∀ w e, (w, e) ∈ es → allowed e = true →
        ∃ m ≤ k + 1, Queued root (scan allowed u k es s) w m := by
  induction es generalizing s with
  | nil => exact ⟨h, fun _ mem => mem, Nat.add_comm _ _, fun _ _ mem => nomatch mem⟩
  | cons first rest ih =>
      obtain ⟨w, e⟩ := first
      have later : ∀ e ∈ rest, e ∈ g u := fun e mem => edges e (List.mem_cons_of_mem _ mem)
      unfold scan
      by_cases skip : w ∈ s.seen ∨ allowed e = false
      · rw [if_pos skip]
        obtain ⟨scanned, more, count, met⟩ := ih h later
        refine ⟨scanned, more, count, fun x l mem ok => ?_⟩
        rcases List.mem_cons.mp mem with same | inside
        · obtain ⟨rfl, rfl⟩ := Prod.mk.inj same
          rcases skip with old | refused
          · obtain ⟨n, queued⟩ := h.toMarked.mem_seen.mp old
            exact ⟨n, h.high _ n queued, queued.mono more⟩
          · rw [ok] at refused
            cases refused
        · exact met x l inside ok
      · rw [if_neg skip]
        obtain ⟨fresh, label⟩ := not_or.mp skip
        have ok : allowed e = true := by simpa using label
        have next := h.meet (edges _ List.mem_cons_self) ok fresh
        obtain ⟨scanned, more, count, met⟩ := ih next later
        refine ⟨scanned, fun p mem => more p (List.mem_append_left _ mem), ?_,
          fun x l mem okay => ?_⟩
        · simp only [List.length_append, List.length_singleton] at count
          omega
        · rcases List.mem_cons.mp mem with same | inside
          · obtain ⟨rfl, rfl⟩ := Prod.mk.inj same
            refine ⟨k + 1, le_refl _, Or.inr ⟨⟨u, k + 1, l⟩, more _ ?_, rfl⟩⟩
            exact List.mem_append_right _ (List.mem_singleton.mpr rfl)
          · exact met x l inside okay

/-- Taking one node off the queue keeps the invariant. -/
theorem Inv.step {rest : List (V × Nat)} (inv : Inv g allowed root s)
    (head : s.pending = (u, k) :: rest) :
    Inv g allowed root (scan allowed u k (g u) { s with pending := rest }) ∧
      (scan allowed u k (g u) { s with pending := rest }).visited.length + rest.length =
        (scan allowed u k (g u) { s with pending := rest }).pending.length + s.visited.length := by
  obtain ⟨scanned, _, count, met⟩ := scan_spec (g u) (inv.scanning head) fun _ mem => mem
  refine ⟨scanned.inv fun w edge => ?_, count⟩
  obtain ⟨e, mem, ok⟩ := mem_ahead.mp edge
  exact met w e mem ok

omit [DecidableEq V] in
theorem inv_start : Inv g allowed root (start root) := by
  have only : ∀ v n, Queued root (start root : State V E) v n → v = root ∧ n = 0 := by
    rintro v n (first | ⟨f, mem, _⟩)
    · exact first
    · cases mem
  exact
    { seen := rfl
      unique := List.nodup_singleton root
      sound := fun v n queued => by
        obtain ⟨rfl, rfl⟩ := only v n queued
        exact .nil
      labelled := fun _ _ mem => nomatch mem
      queued := fun p mem => by
        rw [List.mem_singleton.mp mem]
        exact Or.inl ⟨rfl, rfl⟩
      sorted := List.pairwise_singleton _ _
      short := le_refl 1
      near := fun p mem v n queued => by
        rw [(only v n queued).2]
        exact Nat.zero_le _
      closed := fun v n queued => by
        obtain ⟨rfl, rfl⟩ := only v n queued
        exact Or.inl (List.mem_singleton.mpr rfl) }

omit [DecidableEq V] in
/-- No more nodes are met than there are. -/
theorem Marked.length_le (marked : Marked g allowed root s) {nodes : List V}
    (inside : root ∈ nodes) (targets : ∀ v w e, (w, e) ∈ g v → w ∈ nodes) :
    s.visited.length + 1 ≤ nodes.length := by
  have length : s.seen.length = s.visited.length + 1 := by
    rw [marked.seen, List.length_cons, List.length_map]
  rw [← length]
  refine (marked.unique.subperm fun v mem => ?_).length_le
  rw [marked.seen, List.mem_cons, List.mem_map] at mem
  rcases mem with rfl | ⟨⟨w, f⟩, found, rfl⟩
  · exact inside
  · exact targets _ _ _ (marked.labelled w f found).1

/-- **The whole search.**  With one unit of fuel for each node the queue runs empty. -/
theorem explore_spec {nodes : List V} (inside : root ∈ nodes)
    (targets : ∀ v w e, (w, e) ∈ g v → w ∈ nodes) {fuel : Nat} (inv : Inv g allowed root s)
    (enough : nodes.length + s.pending.length ≤ fuel + s.visited.length + 1) :
    Inv g allowed root (explore g allowed fuel s) ∧ (explore g allowed fuel s).pending = [] := by
  induction fuel generalizing s with
  | zero =>
      have le := inv.toMarked.length_le inside targets
      exact ⟨inv, List.eq_nil_of_length_eq_zero (show s.pending.length = 0 by omega)⟩
  | succ fuel ih =>
      unfold explore
      cases pending : s.pending with
      | nil => exact ⟨inv, pending⟩
      | cons head rest =>
          obtain ⟨u, k⟩ := head
          obtain ⟨next, count⟩ := inv.step pending
          rw [pending, List.length_cons] at enough
          exact ih next (by omega)

omit [DecidableEq V] in
/-- Once the queue is empty, no path is shorter than the depth a node was met at. -/
theorem Inv.complete (inv : Inv g allowed root s) (empty : s.pending = []) {v w : V} {m n : Nat}
    (queued : Queued root s v n) (path : Path (ahead g allowed) v m w) :
    ∃ k ≤ n + m, Queued root s w k := by
  induction path generalizing n with
  | nil => exact ⟨n, le_refl _, queued⟩
  | cons edge _ ih =>
      rcases inv.closed _ _ queued with pending | closed
      · rw [empty] at pending
        cases pending
      · obtain ⟨i, le, next⟩ := closed _ edge
        obtain ⟨j, bound, last⟩ := ih next
        exact ⟨j, by omega, last⟩

end Invariant

/-- The length of a shortest path from `root` to `v`. -/
def Distance (g : MemoSearch.Graph V) (root v : V) (d : Nat) : Prop :=
  Path g root d v ∧ ∀ m, Path g root m v → d ≤ m

/-- **Breadth-first search is exact.** -/
theorem search_exact {g : Graph V E} (allowed : E → Bool) {root : V} {nodes : List V}
    (inside : root ∈ nodes) (targets : ∀ v w e, (w, e) ∈ g v → w ∈ nodes) :
    (root :: (search g allowed nodes.length root).map Prod.fst).Nodup ∧
    (∀ v f, (v, f) ∈ search g allowed nodes.length root →
      Distance (ahead g allowed) root v f.depth ∧ (v, f.label) ∈ g f.via ∧ allowed f.label = true) ∧
    ∀ v m, Path (ahead g allowed) root m v →
      v = root ∨ ∃ f, (v, f) ∈ search g allowed nodes.length root := by
  have enough : nodes.length + (start root : State V E).pending.length ≤
      nodes.length + (start root : State V E).visited.length + 1 := by simp [start]
  have begin : Inv g allowed root (start root) := inv_start
  obtain ⟨inv, empty⟩ := explore_spec inside targets begin enough
  have first : Queued root (explore g allowed nodes.length (start root)) root 0 :=
    Or.inl ⟨rfl, rfl⟩
  refine ⟨inv.seen ▸ inv.unique, fun v f mem => ⟨⟨inv.sound v _ (Or.inr ⟨f, mem, rfl⟩),
    fun m path => ?_⟩, (inv.labelled v f mem).1, (inv.labelled v f mem).2.1⟩, fun v m path => ?_⟩
  · obtain ⟨k, le, queued⟩ := inv.complete empty first path
    have same := inv.toMarked.depth_unique queued (Or.inr ⟨f, mem, rfl⟩)
    omega
  · obtain ⟨k, _, found | ⟨f, mem, _⟩⟩ := inv.complete empty first path
    · exact Or.inl found.1
    · exact Or.inr ⟨f, mem⟩

end Bfs
