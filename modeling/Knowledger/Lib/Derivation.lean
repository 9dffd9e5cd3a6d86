import Mathlib

/-!
# Bounded derivations

A graph in which a node stands for a label and requires some of its neighbours, each with
the label it must stand for.  A node is derivable when everything it requires is; `Tree` is
the shape of a derivation, with its size and its height.

`search` decides derivability depth first with one budget for all branches and no node
twice on a path.  It finds exactly the derivations within the bounds (`search_some_iff`),
whatever the order of the edges (`searchAll_perm`), and `Blocked` says when a node that
cannot be looked up stops it.
-/

namespace Derivation

variable {N D E : Type}

/-! ## Trees -/

/-- A node above the derivations of what it requires. -/
inductive Tree (N : Type)
  | node (root : N) (children : List (Tree N))

def Tree.root : Tree N → N
  | .node n _ => n

mutual
/-- The number of nodes, a shared one counted once for each occurrence. -/
def Tree.size : Tree N → Nat
  | .node _ children => sizes children + 1

def sizes : List (Tree N) → Nat
  | [] => 0
  | t :: ts => t.size + sizes ts
end

mutual
/-- The number of edges of the longest path. -/
def Tree.height : Tree N → Nat
  | .node _ children => heights children

def heights : List (Tree N) → Nat
  | [] => 0
  | t :: ts => max (t.height + 1) (heights ts)
end

/-- No node repeats on a path, and none is in `seen`. -/
inductive Avoids : List N → Tree N → Prop
  | node {seen : List N} {n : N} {children : List (Tree N)} (fresh : n ∉ seen)
      (below : ∀ t ∈ children, Avoids (n :: seen) t) : Avoids seen (.node n children)

@[simp] theorem sizes_append (ts us : List (Tree N)) : sizes (ts ++ us) = sizes ts + sizes us := by
  induction ts with
  | nil => simp [sizes]
  | cons t ts ih => simp [sizes, ih, Nat.add_assoc]

theorem sizes_eq (ts : List (Tree N)) : sizes ts = (ts.map Tree.size).sum := by
  induction ts with
  | nil => rfl
  | cons t ts ih => rw [sizes, ih, List.map_cons, List.sum_cons]

theorem heights_lt_iff {ts : List (Tree N)} {n : Nat} :
    heights ts < n + 1 ↔ ∀ t ∈ ts, t.height < n := by
  induction ts with
  | nil => simp [heights]
  | cons t ts ih =>
      rw [heights, Nat.max_lt, ih, List.forall_mem_cons, Nat.add_lt_add_iff_right]

theorem Avoids.fresh {seen : List N} {t : Tree N} (avoids : Avoids seen t) : t.root ∉ seen := by
  cases avoids with
  | node fresh _ => exact fresh

theorem Avoids.mono {seen seen' : List N} {t : Tree N} (avoids : Avoids seen t)
    (sub : ∀ n ∈ seen', n ∈ seen) : Avoids seen' t := by
  induction avoids generalizing seen' with
  | node fresh _ ih =>
      refine .node (fun mem => fresh (sub _ mem)) fun t mem => ih t mem fun m inside => ?_
      rcases List.mem_cons.mp inside with rfl | old
      · exact List.mem_cons_self
      · exact List.mem_cons_of_mem _ (sub m old)

/-! ## Derivations -/

/-- What each node stands for and the edges it requires. -/
abbrev Graph (N D : Type) := N → Option (D × List (N × D))

mutual
/-- The tree derives its root with the label. -/
inductive Derives (g : Graph N D) : Tree N → D → Prop
  | node {n : N} {d : D} {edges : List (N × D)} {children : List (Tree N)}
      (found : g n = some (d, edges)) (below : DerivesAll g edges children) :
      Derives g (.node n children) d

/-- The trees derive the targets of the edges with the labels the edges name. -/
inductive DerivesAll (g : Graph N D) : List (N × D) → List (Tree N) → Prop
  | nil : DerivesAll g [] []
  | cons {n : N} {d : D} {edges : List (N × D)} {t : Tree N} {ts : List (Tree N)}
      (root : t.root = n) (first : Derives g t d) (rest : DerivesAll g edges ts) :
      DerivesAll g ((n, d) :: edges) (t :: ts)
end

section Derives

variable {g g' : Graph N D}

theorem derivesAll_iff {edges : List (N × D)} {ts : List (Tree N)} :
    DerivesAll g edges ts ↔ List.Forall₂ (fun e t => t.root = e.1 ∧ Derives g t e.2) edges ts := by
  constructor
  · intro all
    induction edges generalizing ts with
    | nil => cases all; exact .nil
    | cons e edges ih =>
        cases all with
        | cons root first rest => exact .cons ⟨root, first⟩ (ih rest)
  · intro all
    induction all with
    | nil => exact .nil
    | cons first rest ih => exact .cons first.1 first.2 ih

theorem DerivesAll.append {edges more : List (N × D)} {ts us : List (Tree N)}
    (first : DerivesAll g edges ts) (second : DerivesAll g more us) :
    DerivesAll g (edges ++ more) (ts ++ us) :=
  derivesAll_iff.mpr (List.rel_append (derivesAll_iff.mp first) (derivesAll_iff.mp second))

theorem DerivesAll.imp {edges : List (N × D)} {ts : List (Tree N)}
    (each : ∀ t ∈ ts, ∀ d, Derives g t d → Derives g' t d) (all : DerivesAll g edges ts) :
    DerivesAll g' edges ts := by
  induction edges generalizing ts with
  | nil => cases all; exact .nil
  | cons e edges ih =>
      cases all with
      | cons root first rest =>
          exact .cons root (each _ List.mem_cons_self _ first)
            (ih (fun t mem => each t (List.mem_cons_of_mem _ mem)) rest)

/-- A derivation depends on the nodes of its tree alone. -/
theorem Derives.congr {t : Tree N} {d : D} {seen : List N} (derives : Derives g t d)
    (avoids : Avoids seen t) (same : ∀ n, n ∉ seen → g' n = g n) : Derives g' t d := by
  induction avoids generalizing d with
  | @node seen n children fresh _ ih =>
      cases derives with
      | node found below =>
          refine .node ((same n fresh).trans found) (below.imp fun t mem d inner => ?_)
          exact ih t mem inner fun m out => same m fun inside => out (List.mem_cons_of_mem _ inside)

/-- The nodes of the derivation of a node, to a depth of `fuel`. -/
def count (g : Graph N D) : Nat → N → Nat
  | 0, _ => 0
  | fuel + 1, n => ((g n).elim 0 fun found => (found.2.map fun e => count g fuel e.1).sum) + 1

theorem DerivesAll.count {fuel : Nat} {edges : List (N × D)} {ts : List (Tree N)}
    (each : ∀ t ∈ ts, ∀ d, Derives g t d → count g fuel t.root = t.size)
    (all : DerivesAll g edges ts) :
    (edges.map fun e => Derivation.count g fuel e.1).sum = sizes ts := by
  induction edges generalizing ts with
  | nil => cases all; rfl
  | cons e edges ih =>
      cases all with
      | cons root first rest =>
          rw [List.map_cons, List.sum_cons, sizes, ← root, each _ List.mem_cons_self _ first,
            ih (fun t mem => each t (List.mem_cons_of_mem _ mem)) rest]

/-- A derivation has the nodes its root leads to. -/
theorem Derives.count {t : Tree N} {d : D} {fuel : Nat} (derives : Derives g t d)
    (low : t.height < fuel) : Derivation.count g fuel t.root = t.size := by
  induction fuel generalizing t d with
  | zero => omega
  | succ fuel ih =>
      cases derives with
      | node found below =>
          rw [Tree.height, heights_lt_iff] at low
          rw [Tree.root, Derivation.count, found, Option.elim_some, Tree.size,
            below.count fun t mem d inner => ih inner (low t mem)]

end Derives

/-! ## Search -/

/-- Visit the targets of the edges in order with what is left of the budget. -/
def searchAll [DecidableEq D] (visit : Nat → N → Except E (Option (D × Nat))) :
    List (N × D) → Nat → Except E (Option Nat)
  | [], used => .ok (some used)
  | (n, d) :: edges, used => do
      match ← visit used n with
      | none => return none
      | some (d', used) => if d' = d then searchAll visit edges used else return none

/-- Look for a derivation of `n` of height less than `fuel`, with `used` nodes already
visited of at most `limit`. -/
def search [DecidableEq N] [DecidableEq D] (look : N → Except E (Option (D × List (N × D))))
    (limit : Nat) : Nat → List N → Nat → N → Except E (Option (D × Nat))
  | 0, _, _, _ => .ok none
  | fuel + 1, seen, used, n =>
      if n ∈ seen then .ok none
      else if limit < used + 1 then .ok none
      else do
        match ← look n with
        | none => return none
        | some (d, edges) =>
            match ← searchAll (search look limit fuel (n :: seen)) edges (used + 1) with
            | none => return none
            | some used => return some (d, used)

/-- The nodes that can be looked up. -/
def graphOf (look : N → Except E (Option (D × List (N × D)))) : Graph N D :=
  fun n => (look n).toOption.join

theorem graphOf_eq {look : N → Except E (Option (D × List (N × D)))} {n : N} {d : D}
    {edges : List (N × D)} : graphOf look n = some (d, edges) ↔ look n = .ok (some (d, edges)) := by
  unfold graphOf
  cases look n with
  | error e => simp [Except.toOption]
  | ok o => simp [Except.toOption]

section Search

variable [DecidableEq N] [DecidableEq D] {look : N → Except E (Option (D × List (N × D)))}
  {limit : Nat}

/-- The trees are within the bounds that a path `seen` leaves. -/
def Within (seen : List N) (fuel : Nat) (ts : List (Tree N)) : Prop :=
  ∀ t ∈ ts, Avoids seen t ∧ t.height < fuel

omit [DecidableEq N] in
theorem searchAll_some_iff {g : Graph N D} {visit : Nat → N → Except E (Option (D × Nat))}
    {seen : List N} {fuel : Nat}
    (visits : ∀ {used n d used'}, visit used n = .ok (some (d, used')) ↔ ∃ t, t.root = n ∧
      Derives g t d ∧ Avoids seen t ∧ t.height < fuel ∧ used' = used + t.size ∧ used' ≤ limit)
    {edges : List (N × D)} {used used' : Nat} (within : used ≤ limit) :
    searchAll visit edges used = .ok (some used') ↔ ∃ ts, DerivesAll g edges ts ∧
      Within seen fuel ts ∧ used' = used + sizes ts ∧ used' ≤ limit := by
  induction edges generalizing used used' with
  | nil =>
      simp only [searchAll, Except.ok.injEq, Option.some.injEq]
      constructor
      · rintro rfl
        exact ⟨[], .nil, by simp [Within], rfl, within⟩
      · rintro ⟨ts, all, -, same, -⟩
        cases all
        exact same.symm
  | cons e edges ih =>
      obtain ⟨n, d⟩ := e
      constructor
      · intro run
        cases first : visit used n with
        | error e => simp [searchAll, first, bind, Except.bind] at run
        | ok o =>
            cases o with
            | none => simp [searchAll, first, bind, Except.bind, pure, Except.pure] at run
            | some found =>
                obtain ⟨d', next⟩ := found
                obtain ⟨t, root, derives, avoids, low, rfl, fits⟩ := visits.mp first
                simp only [searchAll, first, bind, Except.bind] at run
                split_ifs at run with same
                · subst same
                  obtain ⟨ts, all, rest, rfl, bound⟩ := (ih fits).mp run
                  refine ⟨t :: ts, .cons root derives all, ?_, by simp [sizes, Nat.add_assoc], bound⟩
                  exact List.forall_mem_cons.mpr ⟨⟨avoids, low⟩, rest⟩
                · cases run
      · rintro ⟨ts, all, inside, rfl, bound⟩
        cases all with
        | @cons _ _ _ t ts root derives rest =>
            obtain ⟨⟨avoids, low⟩, others⟩ := List.forall_mem_cons.mp inside
            rw [sizes] at bound ⊢
            have fits : used + t.size ≤ limit := by omega
            have first := visits.mpr ⟨t, root, derives, avoids, low, rfl, fits⟩
            have next : searchAll visit edges (used + t.size) =
                .ok (some (used + t.size + sizes ts)) :=
              (ih fits).mpr ⟨ts, rest, others, rfl, by omega⟩
            simp only [searchAll, first, bind, Except.bind, if_true]
            rw [next, Nat.add_assoc]

/-- A node on the path is not visited again. -/
theorem search_seen {fuel : Nat} {seen : List N} {used : Nat} {n : N} (repeated : n ∈ seen) :
    search look limit fuel seen used n = .ok none := by
  cases fuel with
  | zero => rfl
  | succ fuel => rw [search, if_pos repeated]

/-- **The search finds the derivations within the bounds.** -/
theorem search_some_iff {fuel : Nat} {seen : List N} {used used' : Nat} {n : N} {d : D} :
    search look limit fuel seen used n = .ok (some (d, used')) ↔ ∃ t, t.root = n ∧
      Derives (graphOf look) t d ∧ Avoids seen t ∧ t.height < fuel ∧ used' = used + t.size ∧
      used' ≤ limit := by
  induction fuel generalizing seen used used' n d with
  | zero => simp [search]
  | succ fuel ih =>
      rw [search]
      split_ifs with repeated full
      · constructor
        · exact nofun
        · rintro ⟨t, rfl, -, avoids, -⟩
          exact absurd repeated avoids.fresh
      · constructor
        · exact nofun
        · rintro ⟨⟨m, children⟩, -, -, -, -, rfl, bound⟩
          rw [Tree.size] at bound
          omega
      · have room : used + 1 ≤ limit := by omega
        constructor
        · intro run
          cases found : look n with
          | error e => simp [found, bind, Except.bind] at run
          | ok o =>
              cases o with
              | none => simp [found, bind, Except.bind, pure, Except.pure] at run
              | some p =>
                  obtain ⟨label, edges⟩ := p
                  simp only [found, bind, Except.bind] at run
                  cases below : searchAll (search look limit fuel (n :: seen)) edges (used + 1) with
                  | error e => simp [below] at run
                  | ok o =>
                      cases o with
                      | none => simp [below, pure, Except.pure] at run
                      | some last =>
                          simp only [below, pure, Except.pure, Except.ok.injEq, Option.some.injEq,
                            Prod.mk.injEq] at run
                          obtain ⟨rfl, rfl⟩ := run
                          obtain ⟨ts, all, inside, rfl, bound⟩ :=
                            (searchAll_some_iff ih room).mp below
                          refine ⟨.node n ts, rfl, .node (graphOf_eq.mpr found) all,
                            .node repeated fun t mem => (inside t mem).1,
                            heights_lt_iff.mpr fun t mem => (inside t mem).2, ?_, bound⟩
                          rw [Tree.size]
                          omega
        · rintro ⟨⟨m, children⟩, rfl, derives, avoids, low, rfl, bound⟩
          rw [Tree.size] at bound ⊢
          cases derives with
          | @node _ _ edges _ found all =>
              cases avoids with
              | node _ inside =>
                  rw [Tree.height, heights_lt_iff] at low
                  have below : searchAll (search look limit fuel (m :: seen)) edges (used + 1) =
                      .ok (some (used + 1 + sizes children)) :=
                    (searchAll_some_iff ih room).mpr ⟨children, all,
                      fun t mem => ⟨inside t mem, low t mem⟩, rfl, by omega⟩
                  simp only [Tree.root, graphOf_eq.mp found, bind, Except.bind, below, pure,
                    Except.pure]
                  rw [Nat.add_assoc, Nat.add_comm 1]

omit [DecidableEq N] [DecidableEq D] in
/-- The bounds of a node that is put above derivations of what it requires. -/
theorem derives_root_iff {g g' : Graph N D} {n : N} {d : D} {edges : List (N × D)} {fuel : Nat}
    {ts : List (Tree N)} (root : g' n = some (d, edges)) (others : ∀ m, m ≠ n → g' m = g m)
    (all : DerivesAll g edges ts) (within : Within [n] fuel ts) :
    (∃ t d, t.root = n ∧ Derives g' t d ∧ Avoids [] t ∧ t.height ≤ fuel ∧ t.size ≤ limit) ↔
      sizes ts + 1 ≤ limit := by
  constructor
  · rintro ⟨⟨m, children⟩, d', rfl, derives, avoids, low, small⟩
    cases derives with
    | node found below =>
        cases root.symm.trans found
        cases avoids with
        | node _ inside =>
            rw [Tree.height, ← Nat.lt_succ_iff, heights_lt_iff] at low
            have before : DerivesAll g edges children := below.imp fun t mem d inner =>
              inner.congr (inside t mem) fun k out => (others k fun same => out (List.mem_singleton.mpr same)).symm
            have counted := before.count fun t mem d inner => inner.count (low t mem)
            have counted' := all.count fun t mem d inner => inner.count (within t mem).2
            rw [Tree.size] at small
            omega
  · intro room
    have after : DerivesAll g' edges ts := all.imp fun t mem d inner =>
      inner.congr (within t mem).1 fun k out => others k fun same => out (List.mem_singleton.mpr same)
    refine ⟨.node n ts, d, rfl, .node root after,
      .node (List.not_mem_nil) fun t mem => (within t mem).1, ?_, ?_⟩
    · rw [Tree.height, ← Nat.lt_succ_iff, heights_lt_iff]
      exact fun t mem => (within t mem).2
    · rwa [Tree.size]

/-! ## Nodes that cannot be looked up -/

/-- The search comes to a node that cannot be looked up before any other obstacle. -/
inductive Blocked (look : N → Except E (Option (D × List (N × D)))) (limit : Nat) (e : E) :
    Nat → List N → Nat → N → Prop
  | here {fuel : Nat} {seen : List N} {used : Nat} {n : N} (fresh : n ∉ seen)
      (room : used + 1 ≤ limit) (fails : look n = .error e) :
      Blocked look limit e (fuel + 1) seen used n
  | under {fuel : Nat} {seen : List N} {used : Nat} {n m : N} {d d' : D}
      {before after : List (N × D)} {ts : List (Tree N)} (fresh : n ∉ seen)
      (found : look n = .ok (some (d, before ++ (m, d') :: after)))
      (derived : DerivesAll (graphOf look) before ts) (within : Within (n :: seen) fuel ts)
      (room : used + 1 + sizes ts ≤ limit)
      (next : Blocked look limit e fuel (n :: seen) (used + 1 + sizes ts) m) :
      Blocked look limit e (fuel + 1) seen used n

omit [DecidableEq N] [DecidableEq D] in
theorem Blocked.fails {e : E} {fuel : Nat} {seen : List N} {used : Nat} {n : N}
    (blocked : Blocked look limit e fuel seen used n) : ∃ m, look m = .error e := by
  induction blocked with
  | here _ _ fails => exact ⟨_, fails⟩
  | under _ _ _ _ _ _ ih => exact ih

omit [DecidableEq N] in
theorem searchAll_error_iff {g : Graph N D} {visit : Nat → N → Except E (Option (D × Nat))}
    {seen : List N} {fuel : Nat} {e : E}
    (visits : ∀ {used n d used'}, visit used n = .ok (some (d, used')) ↔ ∃ t, t.root = n ∧
      Derives g t d ∧ Avoids seen t ∧ t.height < fuel ∧ used' = used + t.size ∧ used' ≤ limit)
    {edges : List (N × D)} {used : Nat} (room : used ≤ limit) :
    searchAll visit edges used = .error e ↔ ∃ before m d after ts,
      edges = before ++ (m, d) :: after ∧ DerivesAll g before ts ∧ Within seen fuel ts ∧
      used + sizes ts ≤ limit ∧ visit (used + sizes ts) m = .error e := by
  induction edges generalizing used with
  | nil => simp [searchAll]
  | cons edge edges ih =>
      obtain ⟨n, d⟩ := edge
      constructor
      · intro run
        cases first : visit used n with
        | error e' =>
            simp only [searchAll, first, bind, Except.bind, Except.error.injEq] at run
            subst run
            exact ⟨[], n, d, edges, [], rfl, .nil, by simp [Within], by simpa [sizes],
              by simpa [sizes]⟩
        | ok o =>
            cases o with
            | none => simp [searchAll, first, bind, Except.bind, pure, Except.pure] at run
            | some found =>
                obtain ⟨d', next⟩ := found
                obtain ⟨t, root, derives, avoids, low, rfl, fits⟩ := visits.mp first
                simp only [searchAll, first, bind, Except.bind] at run
                split_ifs at run with same
                · subst same
                  obtain ⟨before, m, d, after, ts, rfl, all, inside, bound, fails⟩ :=
                    (ih fits).mp run
                  refine ⟨(n, d') :: before, m, d, after, t :: ts, rfl, .cons root derives all,
                    List.forall_mem_cons.mpr ⟨⟨avoids, low⟩, inside⟩, ?_, ?_⟩
                  · rwa [sizes, ← Nat.add_assoc]
                  · rwa [sizes, ← Nat.add_assoc]
                · cases run
      · rintro ⟨before, m, label, after, ts, split, all, inside, bound, fails⟩
        cases before with
        | nil =>
            cases all
            obtain ⟨⟨rfl, rfl⟩, rfl⟩ : (n = m ∧ d = label) ∧ edges = after := by
              simpa using split
            simp only [sizes, Nat.add_zero] at fails
            simp [searchAll, fails, bind, Except.bind]
        | cons edge before =>
            obtain ⟨rfl, rfl⟩ : (n, d) = edge ∧ edges = before ++ (m, label) :: after := by
              simpa using split
            cases all with
            | @cons _ _ _ t ts root derives rest =>
                obtain ⟨⟨avoids, low⟩, others⟩ := List.forall_mem_cons.mp inside
                rw [sizes, ← Nat.add_assoc] at bound fails
                have fits : used + t.size ≤ limit := by omega
                have first := visits.mpr ⟨t, root, derives, avoids, low, rfl, fits⟩
                have next : searchAll visit (before ++ (m, label) :: after) (used + t.size) =
                    .error e :=
                  (ih fits).mpr ⟨before, m, label, after, ts, rfl, rest, others, bound, fails⟩
                simp only [searchAll, first, bind, Except.bind, if_true]
                exact next

/-- **The search fails exactly where it is blocked.** -/
theorem search_error_iff {fuel : Nat} {seen : List N} {used : Nat} {n : N} {e : E} :
    search look limit fuel seen used n = .error e ↔ Blocked look limit e fuel seen used n := by
  induction fuel generalizing seen used n with
  | zero =>
      rw [search]
      exact ⟨nofun, nofun⟩
  | succ fuel ih =>
      rw [search]
      split_ifs with repeated full
      · refine ⟨nofun, fun blocked => ?_⟩
        cases blocked with
        | here fresh => exact absurd repeated fresh
        | under fresh => exact absurd repeated fresh
      · refine ⟨nofun, fun blocked => ?_⟩
        cases blocked with
        | here _ room => omega
        | under _ _ _ _ room => omega
      · have room : used + 1 ≤ limit := by omega
        constructor
        · intro run
          cases found : look n with
          | error e' =>
              simp only [found, bind, Except.bind, Except.error.injEq] at run
              subst run
              exact .here repeated room found
          | ok o =>
              cases o with
              | none => simp [found, bind, Except.bind, pure, Except.pure] at run
              | some p =>
                  obtain ⟨label, edges⟩ := p
                  simp only [found, bind, Except.bind] at run
                  cases inner : searchAll (search look limit fuel (n :: seen)) edges (used + 1) with
                  | ok o => cases o <;> simp [inner, pure, Except.pure] at run
                  | error e' =>
                      simp only [inner, Except.error.injEq] at run
                      subst run
                      obtain ⟨before, m, d, after, ts, rfl, all, inside, bound, fails⟩ :=
                        (searchAll_error_iff search_some_iff room).mp inner
                      exact .under repeated found all inside bound (ih.mp fails)
        · intro blocked
          cases blocked with
          | here _ _ fails => simp [fails, bind, Except.bind]
          | @under _ _ _ _ m _ d' before after ts _ found derived inside bound next =>
              have inner := (searchAll_error_iff search_some_iff room).mpr
                ⟨before, m, d', after, ts, rfl, derived, inside, bound, ih.mpr next⟩
              simp only [found, bind, Except.bind, inner]

/-! ## The order of the edges -/

omit [DecidableEq N] [DecidableEq D] in
/-- The targets of edges in another order are derived by the trees in that order. -/
theorem DerivesAll.perm {g : Graph N D} {edges edges' : List (N × D)} {ts : List (Tree N)}
    (same : edges.Perm edges') (all : DerivesAll g edges ts) :
    ∃ ts', DerivesAll g edges' ts' ∧ ts.Perm ts' := by
  induction same generalizing ts with
  | nil => exact ⟨ts, all, .refl _⟩
  | cons e _ ih =>
      cases all with
      | cons root first rest =>
          obtain ⟨us, all, perm⟩ := ih rest
          exact ⟨_, .cons root first all, perm.cons _⟩
  | swap e f edges =>
      cases all with
      | cons root first rest =>
          cases rest with
          | cons root' first' rest => exact ⟨_, .cons root' first' (.cons root first rest), .swap _ _ _⟩
  | trans _ _ ih ih' =>
      obtain ⟨us, all, perm⟩ := ih all
      obtain ⟨vs, all, perm'⟩ := ih' all
      exact ⟨vs, all, perm.trans perm'⟩

omit [DecidableEq N] [DecidableEq D] in
/-- Derivations that are replaced one by one. -/
theorem DerivesAll.replace {g g' : Graph N D} {same : Tree N → Tree N → Prop}
    {edges : List (N × D)} {ts : List (Tree N)} (all : DerivesAll g edges ts)
    (each : ∀ t ∈ ts, ∀ d, Derives g t d → ∃ u, u.root = t.root ∧ Derives g' u d ∧ same t u) :
    ∃ us, DerivesAll g' edges us ∧ List.Forall₂ same ts us := by
  induction edges generalizing ts with
  | nil => cases all; exact ⟨[], .nil, .nil⟩
  | cons e edges ih =>
      cases all with
      | cons root first rest =>
          obtain ⟨u, root', derives, alike⟩ := each _ List.mem_cons_self _ first
          obtain ⟨us, others, alikes⟩ := ih rest fun t mem => each t (List.mem_cons_of_mem _ mem)
          exact ⟨u :: us, .cons (root'.trans root) derives others, .cons alike alikes⟩

omit [DecidableEq N] [DecidableEq D] in
theorem heights_perm {ts us : List (Tree N)} (same : ts.Perm us) : heights ts = heights us := by
  induction same with
  | nil => rfl
  | cons t _ ih => rw [heights, heights, ih]
  | swap t u ts => simp only [heights]; omega
  | trans _ _ ih ih' => exact ih.trans ih'

omit [DecidableEq N] [DecidableEq D] in
theorem sizes_perm {ts us : List (Tree N)} (same : ts.Perm us) : sizes ts = sizes us := by
  rw [sizes_eq, sizes_eq]
  exact (same.map _).sum_eq

/-- Two trees with the same bounds. -/
def SameBounds (seen : List N) (t u : Tree N) : Prop :=
  Avoids seen u ∧ u.height = t.height ∧ u.size = t.size

omit [DecidableEq N] [DecidableEq D] in
theorem sameBounds_children {seen : List N} {ts us : List (Tree N)}
    (same : List.Forall₂ (SameBounds seen) ts us) :
    (∀ u ∈ us, Avoids seen u) ∧ heights us = heights ts ∧ sizes us = sizes ts := by
  induction same with
  | nil => exact ⟨List.forall_mem_nil _, rfl, rfl⟩
  | cons first _ ih =>
      obtain ⟨avoids, height, size⟩ := first
      obtain ⟨inside, high, large⟩ := ih
      exact ⟨List.forall_mem_cons.mpr ⟨avoids, inside⟩, by rw [heights, heights, height, high],
        by rw [sizes, sizes, size, large]⟩

omit [DecidableEq N] [DecidableEq D] in
/-- **The edges of every node in another order** have a derivation with the same bounds. -/
theorem Derives.reorder {g g' : Graph N D} {t : Tree N} {d : D} {seen : List N}
    (derives : Derives g t d) (avoids : Avoids seen t)
    (same : ∀ n d edges, g n = some (d, edges) →
      ∃ edges', g' n = some (d, edges') ∧ edges.Perm edges') :
    ∃ u, u.root = t.root ∧ Derives g' u d ∧ SameBounds seen t u := by
  induction avoids generalizing d with
  | @node seen n children fresh _ ih =>
      cases derives with
      | node found below =>
          obtain ⟨edges', found', perm⟩ := same n d _ found
          obtain ⟨ts, all, moved⟩ := below.perm perm
          obtain ⟨us, all', alike⟩ := all.replace fun t mem d inner =>
            ih t (moved.mem_iff.mpr mem) inner
          obtain ⟨inside, high, large⟩ := sameBounds_children alike
          refine ⟨.node n us, rfl, .node found' all', .node fresh inside, ?_, ?_⟩
          · rw [Tree.height, Tree.height, high, heights_perm moved]
          · rw [Tree.size, Tree.size, large, sizes_perm moved]

omit [DecidableEq N] in
/-- Edges in another order use as much of the budget. -/
theorem searchAll_perm {g : Graph N D} {visit : Nat → N → Except E (Option (D × Nat))}
    {seen : List N} {fuel : Nat}
    (visits : ∀ {used n d used'}, visit used n = .ok (some (d, used')) ↔ ∃ t, t.root = n ∧
      Derives g t d ∧ Avoids seen t ∧ t.height < fuel ∧ used' = used + t.size ∧ used' ≤ limit)
    {edges edges' : List (N × D)} {used used' : Nat} (room : used ≤ limit)
    (same : edges.Perm edges') (run : searchAll visit edges used = .ok (some used')) :
    searchAll visit edges' used = .ok (some used') := by
  obtain ⟨ts, all, inside, rfl, bound⟩ := (searchAll_some_iff visits room).mp run
  obtain ⟨us, all', perm⟩ := all.perm same
  have size : sizes us = sizes ts := (sizes_perm perm).symm
  exact (searchAll_some_iff visits room).mpr ⟨us, all', fun t mem => inside t (perm.mem_iff.mpr mem),
    by rw [size], bound⟩

end Search

end Derivation
