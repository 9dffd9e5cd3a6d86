import Mathlib

/-!
# Memoised search with a depth limit

`search` walks a graph depth first, refuses to go deeper than its fuel, and enters no node
twice.  The depth of a node is the length of the path on which it is met first, which is the
path that takes the earliest useful edge at every node (`FirstPath`); a longer path to a node
that was entered before is followed for its last edge alone.  `search_isSome_iff` says exactly
when the search of an acyclic graph succeeds: the depths that count are those of the first
paths, not those of all paths.
-/

namespace MemoSearch

variable {N : Type}

/-! ## Graphs -/

/-- What the edges of a node lead to, in their order: another node, or nothing to enter. -/
abbrev Graph (N : Type) := N → List (Option N)

def Edge (g : Graph N) (a b : N) : Prop := some b ∈ g a

instance [DecidableEq N] {g : Graph N} : DecidableRel (Edge g) := fun a b =>
  inferInstanceAs (Decidable (some b ∈ g a))

abbrev Reaches (g : Graph N) : N → N → Prop := Relation.ReflTransGen (Edge g)

/-- A path of `k` edges. -/
inductive Path (g : Graph N) : N → Nat → N → Prop
  | nil {a : N} : Path g a 0 a
  | cons {a b c : N} {k : Nat} (edge : Edge g a b) (rest : Path g b k c) : Path g a (k + 1) c

/-- The path to `v` that starts with the earliest of the edges that leads there, and goes on
so, has `d` edges. -/
inductive FirstPath (g : Graph N) (v : N) : List (Option N) → Nat → Prop
  | found {rest : List (Option N)} : FirstPath g v (some v :: rest) 1
  | down {m : N} {rest : List (Option N)} {d : Nat} (other : m ≠ v)
      (below : FirstPath g v (g m) d) : FirstPath g v (some m :: rest) (d + 1)
  | skip {e : Option N} {rest : List (Option N)} {d : Nat}
      (useless : ∀ m, e = some m → ¬ Reaches g m v) (later : FirstPath g v rest d) :
      FirstPath g v (e :: rest) d

/-- The first path from `n` to `v` has `d` edges. -/
def FirstDepth (g : Graph N) (n v : N) (d : Nat) : Prop :=
  (v = n ∧ d = 0) ∨ (v ≠ n ∧ FirstPath g v (g n) d)

/-- Every edge leads to a smaller rank. -/
def Ranked (g : Graph N) (rank : N → Nat) : Prop := ∀ a b, Edge g a b → rank b < rank a

section Paths

variable {g : Graph N} {a b v : N} {k d : Nat} {es : List (Option N)}

theorem Path.reaches (path : Path g a k b) : Reaches g a b := by
  induction path with
  | nil => exact .refl
  | cons edge _ ih => exact .head edge ih

theorem Reaches.path (reaches : Reaches g a b) : ∃ k, Path g a k b := by
  induction reaches using Relation.ReflTransGen.head_induction_on with
  | refl => exact ⟨0, .nil⟩
  | head edge _ ih =>
      obtain ⟨k, path⟩ := ih
      exact ⟨k + 1, .cons edge path⟩

theorem reaches_iff : Reaches g a b ↔ b = a ∨ ∃ m, Edge g a m ∧ Reaches g m b := by
  unfold Reaches
  rw [Relation.ReflTransGen.cases_head_iff, eq_comm]

theorem Path.snoc {c : N} (path : Path g a k b) (edge : Edge g b c) : Path g a (k + 1) c := by
  induction path with
  | nil => exact .cons edge .nil
  | cons first _ ih => exact .cons first (ih edge)

/-- A path backwards. -/
theorem Path.flip {h : Graph N} (back : ∀ a b, Edge g a b → Edge h b a) (path : Path g a k b) :
    Path h b k a := by
  induction path with
  | nil => exact .nil
  | cons edge _ ih => exact ih.snoc (back _ _ edge)

theorem FirstPath.path (first : FirstPath g v es d) :
    ∃ m k, some m ∈ es ∧ d = k + 1 ∧ Path g m k v := by
  induction first with
  | found => exact ⟨v, 0, List.mem_cons_self, rfl, .nil⟩
  | @down m _ _ _ _ ih =>
      obtain ⟨n, k, edge, rfl, path⟩ := ih
      exact ⟨m, k + 1, List.mem_cons_self, rfl, .cons edge path⟩
  | skip _ _ ih =>
      obtain ⟨m, k, mem, same, path⟩ := ih
      exact ⟨m, k, List.mem_cons_of_mem _ mem, same, path⟩

theorem FirstDepth.path (first : FirstDepth g a v d) : Path g a d v := by
  rcases first with ⟨rfl, rfl⟩ | ⟨-, first⟩
  · exact .nil
  · obtain ⟨m, k, edge, rfl, path⟩ := first.path
    exact .cons edge path

/-- The first path through an edge goes on as the first path from its target. -/
theorem FirstDepth.cons {rest : List (Option N)} (first : FirstDepth g a v d) :
    FirstPath g v (some a :: rest) (d + 1) := by
  rcases first with ⟨rfl, rfl⟩ | ⟨other, first⟩
  · exact .found
  · exact .down (Ne.symm other) first

theorem Ranked.reaches {rank : N → Nat} (ranked : Ranked g rank) (reaches : Reaches g a b) :
    rank b ≤ rank a := by
  induction reaches with
  | refl => exact le_rfl
  | tail _ edge ih => exact (ranked _ _ edge).le.trans ih

/-- A first path that starts with the edge to `m`, when `m` leads to its end. -/
theorem FirstPath.of_cons {m : N} {rest : List (Option N)}
    (first : FirstPath g v (some m :: rest) d) (reaches : Reaches g m v) :
    ∃ k, d = k + 1 ∧ FirstDepth g m v k := by
  cases first with
  | found => exact ⟨0, rfl, Or.inl ⟨rfl, rfl⟩⟩
  | down other below => exact ⟨_, rfl, Or.inr ⟨Ne.symm other, below⟩⟩
  | skip useless _ => exact absurd reaches (useless m rfl)

/-- A first path that starts with a later edge, when `m` does not lead to its end. -/
theorem FirstPath.of_cons_not {m : N} {rest : List (Option N)}
    (first : FirstPath g v (some m :: rest) d) (apart : ¬ Reaches g m v) :
    FirstPath g v rest d := by
  cases first with
  | found => exact absurd .refl apart
  | down _ below =>
      obtain ⟨n, k, edge, -, path⟩ := below.path
      exact absurd (.head edge path.reaches) apart
  | skip _ later => exact later

end Paths

/-! ## The search -/

/-- Follow the edges one after the other, with the nodes seen so far. -/
def searchAll (visit : List N → N → Option (List N)) :
    List (Option N) → List N → Option (List N)
  | [], seen => some seen
  | none :: _, _ => none
  | some m :: rest, seen => do
      let seen ← visit seen m
      searchAll visit rest seen

/-- The nodes seen after walking from `n`, if the limits allow it. -/
def search [DecidableEq N] (g : Graph N) (limit : Nat) :
    Nat → List N → List N → N → Option (List N)
  | 0, _, _, _ => none
  | fuel + 1, path, seen, n =>
      if n ∈ path then none
      else if n ∈ seen then some seen
      else if seen.length + 1 > limit then none
      else searchAll (fun seen m => search g limit fuel (n :: path) seen m) (g n) (n :: seen)

/-- A node off the path that was seen was left with its edges followed. -/
def Closed (g : Graph N) (path seen : List N) : Prop :=
  ∀ u ∈ seen, u ∉ path → ∀ m, Edge g u m → m ∈ seen

/-- What lies below a node of smaller rank than the path is seen with it. -/
theorem Closed.reaches {g : Graph N} {rank : N → Nat} (ranked : Ranked g rank)
    {path seen : List N} (closed : Closed g path seen) {a b : N} (mem : a ∈ seen)
    (small : ∀ p ∈ path, rank a < rank p) (reaches : Reaches g a b) : b ∈ seen := by
  induction reaches with
  | refl => exact mem
  | @tail c d reached edge ih =>
      apply closed c ih _ d edge
      intro inside
      exact absurd (small c inside) (Nat.not_lt.mpr (ranked.reaches reached))

/-- Entering a node puts it on the path. -/
theorem Closed.enter {g : Graph N} {path seen : List N} {n : N} (closed : Closed g path seen) :
    Closed g (n :: path) (n :: seen) := by
  intro u mem off m edge
  obtain ⟨notSelf, offPath⟩ := not_or.mp (List.mem_cons.not.mp off)
  have seenBefore := (List.mem_cons.mp mem).resolve_left notSelf
  exact List.mem_cons_of_mem _ (closed u seenBefore offPath m edge)

theorem Ranked.below {g : Graph N} {rank : N → Nat} (ranked : Ranked g rank) {path : List N}
    {n m : N} (small : ∀ p ∈ path, rank n < rank p) (edge : Edge g n m) :
    ∀ p ∈ n :: path, rank m < rank p := by
  intro p mem
  rcases List.mem_cons.mp mem with rfl | above
  · exact ranked _ _ edge
  · exact (ranked _ _ edge).trans (small p above)

/-- What a successful walk from `n` says. -/
structure Walked (g : Graph N) (limit fuel : Nat) (seen : List N) (n : N) (seen' : List N) :
    Prop where
  fuel_pos : 1 ≤ fuel
  mem : ∀ x, x ∈ seen' ↔ x ∈ seen ∨ Reaches g n x
  nodup : seen.Nodup → seen'.Nodup
  bounded : seen' = seen ∨ seen'.length ≤ limit
  fits : ∀ v, Reaches g n v → v ∉ seen →
    none ∉ g v ∧ ∀ d, FirstDepth g n v d → g v ≠ [] → d + 1 < fuel

/-- What a successful walk along the edges says. -/
structure WalkedAll (g : Graph N) (limit fuel : Nat) (seen : List N) (es : List (Option N))
    (seen' : List N) : Prop where
  fuel_pos : es ≠ [] → 1 ≤ fuel
  entered : none ∉ es
  mem : ∀ x, x ∈ seen' ↔ x ∈ seen ∨ ∃ m, some m ∈ es ∧ Reaches g m x
  nodup : seen.Nodup → seen'.Nodup
  bounded : seen' = seen ∨ seen'.length ≤ limit
  fits : ∀ v m, some m ∈ es → Reaches g m v → v ∉ seen →
    none ∉ g v ∧ ∀ d, FirstPath g v es d → g v ≠ [] → d < fuel

section Sound

variable {g : Graph N} {limit fuel : Nat} {seen seen' path : List N} {n : N}
  {es : List (Option N)}

theorem Walked.closed (h : Walked g limit fuel seen n seen') (closed : Closed g path seen) :
    Closed g path seen' := by
  intro u mem off m edge
  rw [h.mem] at mem ⊢
  rcases mem with old | reached
  · exact Or.inl (closed u old off m edge)
  · exact Or.inr (reached.tail edge)

theorem WalkedAll.nil : WalkedAll g limit fuel seen [] seen where
  fuel_pos := nofun
  entered := List.not_mem_nil
  mem x := by simp
  nodup := id
  bounded := Or.inl rfl
  fits _ _ mem := by cases mem

/-- One edge after the other. -/
theorem WalkedAll.cons {m : N} {middle : List N} (first : Walked g limit fuel seen m middle)
    (rest : WalkedAll g limit fuel middle es seen') :
    WalkedAll g limit fuel seen (some m :: es) seen' where
  fuel_pos _ := first.fuel_pos
  entered := by simpa using rest.entered
  mem x := by
    rw [rest.mem, first.mem]
    simp only [List.mem_cons, Option.some.injEq, or_and_right, exists_or, exists_eq_left, or_assoc]
  nodup distinct := rest.nodup (first.nodup distinct)
  bounded := by
    rcases rest.bounded with rfl | bounded
    · exact first.bounded
    · exact Or.inr bounded
  fits v l mem reaches fresh := by
    by_cases below : Reaches g m v
    · obtain ⟨entered, depth⟩ := first.fits v below fresh
      refine ⟨entered, fun d path edges => ?_⟩
      obtain ⟨k, rfl, start⟩ := path.of_cons below
      exact depth k start edges
    · have later : some l ∈ es := by
        rcases List.mem_cons.mp mem with same | later
        · exact absurd (Option.some.inj same ▸ reaches) below
        · exact later
      have still : v ∉ middle := by
        rw [first.mem]
        exact not_or.mpr ⟨fresh, below⟩
      obtain ⟨entered, depth⟩ := rest.fits v l later reaches still
      exact ⟨entered, fun d path edges => depth d (path.of_cons_not below) edges⟩

theorem searchAll_walked {visit : List N → N → Option (List N)}
    (walked : ∀ m seen seen', some m ∈ es → Closed g path seen → visit seen m = some seen' →
      Walked g limit fuel seen m seen')
    (closed : Closed g path seen) (run : searchAll visit es seen = some seen') :
    WalkedAll g limit fuel seen es seen' := by
  induction es generalizing seen with
  | nil =>
      obtain rfl := Option.some.inj run
      exact .nil
  | cons e rest ih =>
      cases e with
      | none => cases run
      | some m =>
          obtain ⟨middle, visited, run⟩ := Option.bind_eq_some_iff.mp run
          have first := walked m seen middle List.mem_cons_self closed visited
          exact .cons first (ih (fun l seen seen' mem => walked l seen seen'
            (List.mem_cons_of_mem _ mem)) (first.closed closed) run)

theorem search_walked [DecidableEq N] {rank : N → Nat} (ranked : Ranked g rank)
    (small : ∀ p ∈ path, rank n < rank p) (closed : Closed g path seen)
    (run : search g limit fuel path seen n = some seen') : Walked g limit fuel seen n seen' := by
  induction fuel generalizing path seen n seen' with
  | zero => cases run
  | succ fuel ih =>
      rw [search] at run
      split_ifs at run with onPath old full
      · obtain rfl := Option.some.inj run
        have within (x) (reached : Reaches g n x) : x ∈ seen :=
          closed.reaches ranked old small reached
        refine ⟨Nat.le_add_left _ _, fun x => ?_, id, Or.inl rfl, fun v reached fresh => ?_⟩
        · exact ⟨Or.inl, fun h => h.elim id (within x)⟩
        · exact absurd (within v reached) fresh
      · have all : WalkedAll g limit fuel (n :: seen) (g n) seen' :=
          searchAll_walked (fun m seen seen' edge closed run =>
            ih (ranked.below small edge) closed run) closed.enter run
        refine ⟨Nat.le_add_left _ _, fun x => ?_, fun distinct => ?_, Or.inr ?_, ?_⟩
        · rw [all.mem, List.mem_cons, reaches_iff, or_comm (a := x = n), or_assoc]
          rfl
        · exact all.nodup (List.nodup_cons.mpr ⟨old, distinct⟩)
        · rcases all.bounded with rfl | bounded
          · simpa using full
          · exact bounded
        · intro v reached fresh
          rcases reaches_iff.mp reached with rfl | ⟨m, edge, below⟩
          · refine ⟨all.entered, fun d first edges => ?_⟩
            have positive := all.fuel_pos edges
            rcases first with ⟨-, rfl⟩ | ⟨other, -⟩
            · omega
            · exact absurd rfl other
          · by_cases same : v = n
            · subst same
              exact absurd (ranked.reaches below) (Nat.not_le.mpr (ranked _ _ edge))
            · obtain ⟨clean, depth⟩ := all.fits v m edge below
                (List.mem_cons.not.mpr (not_or.mpr ⟨same, fresh⟩))
              refine ⟨clean, fun d first edges => ?_⟩
              rcases first with ⟨is, -⟩ | ⟨-, first⟩
              · exact absurd is same
              · exact Nat.succ_lt_succ (depth d first edges)

end Sound

/-! ## When the search succeeds -/

/-- The walk from `n` stays within the limits, where `all` has room for what it sees. -/
structure Allowed (g : Graph N) (fuel : Nat) (all seen : List N) (n : N) : Prop where
  fuel_pos : 1 ≤ fuel
  distinct : seen.Nodup
  before : seen ⊆ all
  room : ∀ x, Reaches g n x → x ∈ all
  fits : ∀ v, Reaches g n v → v ∉ seen →
    none ∉ g v ∧ ∀ d, FirstDepth g n v d → g v ≠ [] → d + 1 < fuel

/-- The walk along the edges stays within the limits. -/
structure AllowedAll (g : Graph N) (fuel : Nat) (all seen : List N) (es : List (Option N)) :
    Prop where
  fuel_pos : es ≠ [] → 1 ≤ fuel
  distinct : seen.Nodup
  before : seen ⊆ all
  entered : none ∉ es
  room : ∀ m, some m ∈ es → ∀ x, Reaches g m x → x ∈ all
  fits : ∀ v m, some m ∈ es → Reaches g m v → v ∉ seen →
    none ∉ g v ∧ ∀ d, FirstPath g v es d → g v ≠ [] → d < fuel

section Complete

variable {g : Graph N} {limit fuel : Nat} {all seen path : List N} {n m : N}
  {es : List (Option N)}

theorem AllowedAll.head (h : AllowedAll g fuel all seen (some m :: es)) :
    Allowed g fuel all seen m where
  fuel_pos := h.fuel_pos (List.cons_ne_nil _ _)
  distinct := h.distinct
  before := h.before
  room := h.room m List.mem_cons_self
  fits v reaches fresh := by
    obtain ⟨entered, depth⟩ := h.fits v m List.mem_cons_self reaches fresh
    exact ⟨entered, fun d first edges => depth (d + 1) first.cons edges⟩

theorem AllowedAll.tail {middle : List N} (h : AllowedAll g fuel all seen (some m :: es))
    (walked : Walked g limit fuel seen m middle) : AllowedAll g fuel all middle es where
  fuel_pos _ := h.fuel_pos (List.cons_ne_nil _ _)
  distinct := walked.nodup h.distinct
  before := by
    intro x mem
    rcases (walked.mem x).mp mem with old | reached
    · exact h.before old
    · exact h.room m List.mem_cons_self x reached
  entered inside := h.entered (List.mem_cons_of_mem _ inside)
  room l mem := h.room l (List.mem_cons_of_mem _ mem)
  fits v l mem reaches fresh := by
    obtain ⟨old, apart⟩ := not_or.mp ((walked.mem v).not.mp fresh)
    obtain ⟨entered, depth⟩ := h.fits v l (List.mem_cons_of_mem _ mem) reaches old
    refine ⟨entered, fun d first edges => depth d (.skip ?_ first) edges⟩
    rintro _ ⟨⟩
    exact apart

/-- The walk below a node that is entered. -/
theorem Allowed.enter (h : Allowed g (fuel + 1) all seen n) (fresh : n ∉ seen) :
    AllowedAll g fuel all (n :: seen) (g n) where
  fuel_pos edges := by
    have := (h.fits n .refl fresh).2 0 (Or.inl ⟨rfl, rfl⟩) edges
    omega
  distinct := List.nodup_cons.mpr ⟨fresh, h.distinct⟩
  before := List.cons_subset.mpr ⟨h.room n .refl, h.before⟩
  entered := (h.fits n .refl fresh).1
  room m edge x reaches := h.room x (.head edge reaches)
  fits v m edge reaches new := by
    obtain ⟨other, off⟩ := not_or.mp (List.mem_cons.not.mp new)
    obtain ⟨entered, depth⟩ := h.fits v (.head edge reaches) off
    refine ⟨entered, fun d first edges => ?_⟩
    have := depth d (Or.inr ⟨other, first⟩) edges
    omega

theorem searchAll_isSome {visit : List N → N → Option (List N)}
    (walked : ∀ m seen seen', some m ∈ es → Closed g path seen → visit seen m = some seen' →
      Walked g limit fuel seen m seen')
    (visits : ∀ m seen, some m ∈ es → Closed g path seen → Allowed g fuel all seen m →
      ∃ seen', visit seen m = some seen')
    (closed : Closed g path seen) (allowed : AllowedAll g fuel all seen es) :
    ∃ seen', searchAll visit es seen = some seen' := by
  induction es generalizing seen with
  | nil => exact ⟨seen, rfl⟩
  | cons e rest ih =>
      cases e with
      | none => exact absurd List.mem_cons_self allowed.entered
      | some m =>
          obtain ⟨middle, visited⟩ := visits m seen List.mem_cons_self closed allowed.head
          have first := walked m seen middle List.mem_cons_self closed visited
          obtain ⟨seen', run⟩ := ih
            (fun l seen seen' mem => walked l seen seen' (List.mem_cons_of_mem _ mem))
            (fun l seen mem => visits l seen (List.mem_cons_of_mem _ mem))
            (first.closed closed) (allowed.tail first)
          exact ⟨seen', Option.bind_eq_some_iff.mpr ⟨middle, visited, run⟩⟩

theorem search_isSome [DecidableEq N] {rank : N → Nat} (ranked : Ranked g rank)
    (small : ∀ p ∈ path, rank n < rank p) (closed : Closed g path seen)
    (room : all.length ≤ limit) (allowed : Allowed g fuel all seen n) :
    ∃ seen', search g limit fuel path seen n = some seen' := by
  induction fuel generalizing path seen n with
  | zero => exact absurd allowed.fuel_pos (by omega)
  | succ fuel ih =>
      have offPath : n ∉ path := fun mem => absurd (small n mem) (lt_irrefl _)
      rw [search, if_neg offPath]
      split_ifs with old full
      · exact ⟨seen, rfl⟩
      · have inside := allowed.enter old
        have fits := (List.subperm_of_subset inside.distinct inside.before).length_le
        rw [List.length_cons] at fits
        omega
      · have entered : Closed g (n :: path) (n :: seen) := closed.enter
        have walked (m seen seen') (edge : Edge g n m) (closed : Closed g (n :: path) seen)
            (run : search g limit fuel (n :: path) seen m = some seen') :
            Walked g limit fuel seen m seen' :=
          search_walked ranked (ranked.below small edge) closed run
        exact searchAll_isSome walked (fun m seen edge closed allowed =>
          ih (ranked.below small edge) closed allowed) entered (allowed.enter old)

end Complete

/-! ## Limits -/

/-- Every edge below the root can be followed, no path is longer than `depth`, and at most
`limit` nodes are reached. -/
structure Within (g : Graph N) (limit depth : Nat) (root : N) : Prop where
  entered : ∀ v, Reaches g root v → none ∉ g v
  paths : ∀ k v, Path g root k v → k ≤ depth
  nodes : {v | Reaches g root v}.encard ≤ limit

section Limits

variable [DecidableEq N] {g : Graph N} {rank : N → Nat} {limit depth : Nat} {root : N}

/-- The search of an acyclic graph succeeds just when every edge can be followed, few nodes are
reached, and every node with edges is first met above the depth limit. -/
theorem search_isSome_iff (ranked : Ranked g rank) :
    (∃ seen, search g limit (depth + 1) [] [] root = some seen) ↔
      (∀ v, Reaches g root v → none ∉ g v) ∧ {v | Reaches g root v}.encard ≤ limit ∧
        ∀ v d, FirstDepth g root v d → g v ≠ [] → d < depth := by
  have small : ∀ p ∈ ([] : List N), rank root < rank p := nofun
  have closed : Closed g [] ([] : List N) := nofun
  constructor
  · rintro ⟨seen, run⟩
    have walked := search_walked ranked small closed run
    refine ⟨fun v reaches => (walked.fits v reaches List.not_mem_nil).1, ?_, ?_⟩
    · have same : {v | Reaches g root v} = ↑seen.toFinset := by
        ext v
        simp [walked.mem]
      rw [same, Set.encard_coe_eq_coe_finsetCard,
        List.toFinset_card_of_nodup (walked.nodup List.nodup_nil)]
      rcases walked.bounded with rfl | bounded
      · exact bot_le
      · exact_mod_cast bounded
    · intro v d first edges
      have := (walked.fits v first.path.reaches List.not_mem_nil).2 d first edges
      omega
  · rintro ⟨entered, nodes, depths⟩
    have finite := Set.finite_of_encard_le_coe nodes
    have room : finite.toFinset.toList.length ≤ limit := by
      rw [Finset.length_toList]
      rw [finite.encard_eq_coe_toFinset_card] at nodes
      exact_mod_cast nodes
    have allowed : Allowed g (depth + 1) finite.toFinset.toList [] root := by
      refine ⟨by omega, List.nodup_nil, List.nil_subset _, by simp, fun v reaches _ => ?_⟩
      exact ⟨entered v reaches, fun d first edges => Nat.succ_lt_succ (depths v d first edges)⟩
    exact search_isSome ranked small closed room allowed

end Limits

end MemoSearch
