import Knowledger.Once
import Knowledger.Lib.MemoSearch
import Knowledger.Lib.Utf8

/-!
# Dependency limits

`validatePublishedDependencyGraph` is the memoised search of the graph of the published
revisions, with at most 256 nodes and a depth of eight.  The graph of a channel is acyclic,
since a revision is published after what it depends on.  What is refused is over the limits;
what is accepted may still have a longer path, when its end was met on a shorter one before.
-/

namespace Knowledger

open Js Txn MemoSearch

section Limits

variable [Sha256]

/-! ## The graph of a store -/

/-- The revision published under the digest. -/
def publishedAt (s : Store) (digest : Digest) : Option DocumentRevision := do
  let value ← present (s (keyFor.revision digest.1))
  let r ← (validateRevision (some value)).toOption
  if r.revisionDigest = digest then some r else none

/-- The target of the dependency is published under the slot that the dependency names. -/
def DependencyMet (s : Store) (dependency : RevisionDependency) : Prop :=
  ∃ target, publishedAt s dependency.revisionDigest = some target ∧
    target.payload.toSlot = dependency.toSlot

instance {s : Store} {dependency : RevisionDependency} : Decidable (DependencyMet s dependency) :=
  decidable_of_iff ((publishedAt s dependency.revisionDigest).any
    fun target => sameSlot target.payload.toSlot dependency.toSlot) (by
      simp [DependencyMet, Option.any_eq_true, sameSlot_iff])

def edgesOf (s : Store) (r : DocumentRevision) : List (Option Digest) :=
  r.payload.dependencies.map fun dependency =>
    if DependencyMet s dependency then some dependency.revisionDigest else none

/-- The dependencies of the published revisions and of the new one. -/
def dependencyGraph (s : Store) (root : DocumentRevision) : Graph Digest := fun digest =>
  if digest = root.revisionDigest then edgesOf s root
  else ((publishedAt s digest).map (edgesOf s)).getD []

section Walk

variable {s : Store} {root r : DocumentRevision}

theorem publishedAt_some {digest : Digest} :
    publishedAt s digest = some r ↔ (∃ value, present (s (keyFor.revision digest.1)) = some value ∧
      validateRevision (some value) = .ok r) ∧ r.revisionDigest = digest := by
  simp only [publishedAt, Option.bind_eq_bind, Option.bind_eq_some_iff,
    Option.ite_none_right_eq_some]
  constructor
  · rintro ⟨value, stored, t, valid, named, ⟨⟩⟩
    cases run : validateRevision (some value) with
    | error e => simp [run, Except.toOption] at valid
    | ok t =>
        rw [run] at valid
        obtain rfl := Option.some.inj valid
        exact ⟨⟨value, stored, run⟩, named⟩
  · rintro ⟨⟨value, stored, valid⟩, named⟩
    exact ⟨value, stored, r, by rw [valid]; rfl, named, rfl⟩

/-- One dependency after the other. -/
theorem walkTargets_ok {visit : DocumentRevision → List Digest → Read (List Digest)}
    {search : List Digest → Digest → Option (List Digest)} {dependencies : List RevisionDependency}
    {seen seen' : List Digest}
    (visits : ∀ target seen seen', publishedAt s target.revisionDigest = some target →
      ((visit target seen).eval s = .ok seen' ↔ search seen target.revisionDigest = some seen')) :
    (walkTargets visit dependencies seen).eval s = .ok seen' ↔
      searchAll search (dependencies.map fun dependency =>
        if DependencyMet s dependency then some dependency.revisionDigest else none) seen =
          some seen' := by
  induction dependencies generalizing seen with
  | nil => simp [walkTargets, searchAll]
  | cons dependency rest ih =>
      simp only [walkTargets, eval_bind_ok, requireRecord_ok, eval_check, checked_ok, ensure_ok,
        Bool.and_eq_true, beq_iff_eq, sameSlot_iff, List.map_cons, exists_const]
      split_ifs with met
      · obtain ⟨target, published, slot⟩ := met
        obtain ⟨⟨value, stored, valid⟩, named⟩ := publishedAt_some.mp published
        simp only [stored, Option.some.injEq, exists_eq_left', valid, Except.ok.injEq, named, slot,
          and_self, true_and, ih, searchAll, Option.bind_eq_bind, Option.bind_eq_some_iff,
          visits target seen _ (named ▸ published)]
      · refine iff_of_false ?_ (by simp [searchAll])
        rintro ⟨value, stored, target, valid, ⟨named, slot⟩, -⟩
        exact met ⟨target, publishedAt_some.mpr ⟨⟨value, stored, valid⟩, named⟩, slot⟩

/-- The new revision is not published under its digest. -/
def Unpublished (s : Store) (r : DocumentRevision) : Prop :=
  present (s (keyFor.revision r.revisionDigest.1)) = none

theorem Unpublished.publishedAt (fresh : Unpublished s r) :
    publishedAt s r.revisionDigest = none := by
  rw [Knowledger.publishedAt, fresh]
  rfl

theorem dependencyGraph_root : dependencyGraph s root root.revisionDigest = edgesOf s root :=
  if_pos rfl

theorem dependencyGraph_published (fresh : Unpublished s root) {digest : Digest}
    (published : publishedAt s digest = some r) :
    dependencyGraph s root digest = edgesOf s r := by
  have other : digest ≠ root.revisionDigest := by
    rintro rfl
    rw [fresh.publishedAt] at published
    cases published
  rw [dependencyGraph, if_neg other, published]
  rfl

/-- The code walks the graph as the search does. -/
theorem walkPublished_ok (fresh : Unpublished s root) {current : DocumentRevision}
    {fuel depth : Nat} {path seen seen' : List Digest} (left : depth + fuel = maxDependencyDepth + 1)
    (node : dependencyGraph s root current.revisionDigest = edgesOf s current) :
    (walkPublished current depth path seen).eval s = .ok seen' ↔
      search (dependencyGraph s root) maxDependencyNodes fuel path seen current.revisionDigest =
        some seen' := by
  induction fuel generalizing current depth path seen seen' with
  | zero =>
      rw [walkPublished, dif_pos (by omega)]
      simp [search]
  | succ fuel ih =>
      rw [walkPublished, dif_neg (by omega), search]
      simp only [List.contains_eq_mem, decide_eq_true_eq]
      split_ifs
      · simp
      · simp
      · simp
      · rw [node]
        exact walkTargets_ok fun target seen seen' published =>
          ih (by omega) (dependencyGraph_published fresh published)

theorem validatePublishedDependencyGraph_ok (fresh : Unpublished s root) :
    (validatePublishedDependencyGraph root).eval s = .ok () ↔
      ∃ seen, search (dependencyGraph s root) maxDependencyNodes (maxDependencyDepth + 1) [] []
        root.revisionDigest = some seen := by
  simp only [validatePublishedDependencyGraph, eval_bind_ok, Query.eval_pure, and_true,
    walkPublished_ok fresh (Nat.zero_add _) dependencyGraph_root]

end Walk

/-! ## Published revisions -/

/-- The revisions of the store were published one after the other. -/
inductive Published : Store → Prop
  | none {s : Store} (empty : ∀ d : Digest, present (s (keyFor.revision d.1)) = none) : Published s
  | publish {s t : Store} {r : DocumentRevision} (before : Published s) (fresh : Unpublished s r)
      (passed : (validatePublishedDependencyGraph r).eval s = .ok ())
      (stored : publishedAt t r.revisionDigest = some r)
      (others : ∀ d : Digest, d ≠ r.revisionDigest →
        present (t (keyFor.revision d.1)) = present (s (keyFor.revision d.1))) : Published t

/-- Everything a published revision depends on is published, with a smaller rank. -/
structure Layered (s : Store) (rank : Digest → Nat) (next : Nat) : Prop where
  bounded : ∀ d, rank d < next
  below : ∀ d r, publishedAt s d = some r → ∀ dependency ∈ r.payload.dependencies,
    DependencyMet s dependency ∧ rank dependency.revisionDigest < rank d

section Layers

variable {s t : Store} {root r : DocumentRevision} {rank : Digest → Nat} {next : Nat}

theorem mem_edgesOf {d : Digest} :
    some d ∈ edgesOf s r ↔
      ∃ dependency ∈ r.payload.dependencies, DependencyMet s dependency ∧
        dependency.revisionDigest = d := by
  simp only [edgesOf, List.mem_map, Option.ite_none_right_eq_some, Option.some.injEq]

theorem none_mem_edgesOf :
    none ∈ edgesOf s r ↔ ∃ dependency ∈ r.payload.dependencies, ¬ DependencyMet s dependency := by
  simp only [edgesOf, List.mem_map]
  refine exists_congr fun dependency => and_congr_right fun _ => ?_
  split_ifs with met <;> simp [met]

theorem DependencyMet.published {dependency : RevisionDependency} (met : DependencyMet s dependency)
    (fresh : Unpublished s root) : dependency.revisionDigest ≠ root.revisionDigest := by
  obtain ⟨target, published, -⟩ := met
  intro same
  rw [same, fresh.publishedAt] at published
  cases published

/-- A new revision stands above all others. -/
theorem Layered.ranked (h : Layered s rank next) (fresh : Unpublished s root) :
    Ranked (dependencyGraph s root) (Function.update rank root.revisionDigest next) := by
  intro a b edge
  by_cases isRoot : a = root.revisionDigest
  · subst isRoot
    rw [Edge, dependencyGraph_root, mem_edgesOf] at edge
    obtain ⟨dependency, -, met, rfl⟩ := edge
    rw [Function.update_self, Function.update_of_ne (met.published fresh)]
    exact h.bounded _
  · rw [Edge, dependencyGraph, if_neg isRoot] at edge
    cases published : publishedAt s a with
    | none => simp [published] at edge
    | some r =>
        simp only [published, Option.map_some, Option.getD_some, mem_edgesOf] at edge
        obtain ⟨dependency, mem, met, rfl⟩ := edge
        rw [Function.update_of_ne isRoot, Function.update_of_ne (met.published fresh)]
        exact (h.below a r published dependency mem).2

theorem publishedAt_congr {d : Digest}
    (same : present (t (keyFor.revision d.1)) = present (s (keyFor.revision d.1))) :
    publishedAt t d = publishedAt s d := by
  rw [publishedAt, publishedAt, same]

/-- Another publication keeps what is published. -/
theorem DependencyMet.keeps {dependency : RevisionDependency} (met : DependencyMet s dependency)
    (fresh : Unpublished s root) (others : ∀ d : Digest, d ≠ root.revisionDigest →
      present (t (keyFor.revision d.1)) = present (s (keyFor.revision d.1))) :
    DependencyMet t dependency := by
  obtain ⟨target, published, slot⟩ := met
  have other := DependencyMet.published ⟨target, published, slot⟩ fresh
  exact ⟨target, (publishedAt_congr (others _ other)).trans published, slot⟩

/-- What the search accepts has its dependencies published. -/
theorem Layered.accepted (h : Layered s rank next) (fresh : Unpublished s root)
    (passed : (validatePublishedDependencyGraph root).eval s = .ok ()) :
    ∀ dependency ∈ root.payload.dependencies, DependencyMet s dependency := by
  have found := (validatePublishedDependencyGraph_ok fresh).mp passed
  have entered := ((search_isSome_iff (h.ranked fresh)).mp found).1 _ .refl
  rw [dependencyGraph_root, none_mem_edgesOf] at entered
  intro dependency mem
  by_contra unmet
  exact entered ⟨dependency, mem, unmet⟩

theorem Layered.publish (h : Layered s rank next) (fresh : Unpublished s root)
    (passed : (validatePublishedDependencyGraph root).eval s = .ok ())
    (stored : publishedAt t root.revisionDigest = some root)
    (others : ∀ d : Digest, d ≠ root.revisionDigest →
      present (t (keyFor.revision d.1)) = present (s (keyFor.revision d.1))) :
    Layered t (Function.update rank root.revisionDigest next) (next + 1) := by
  refine ⟨fun d => ?_, fun d u published dependency mem => ?_⟩
  · by_cases isRoot : d = root.revisionDigest
    · rw [isRoot, Function.update_self]
      omega
    · rw [Function.update_of_ne isRoot]
      exact (h.bounded d).trans (Nat.lt_succ_self next)
  · by_cases isRoot : d = root.revisionDigest
    · subst isRoot
      rw [stored] at published
      obtain rfl := Option.some.inj published
      have met := h.accepted fresh passed dependency mem
      rw [Function.update_self, Function.update_of_ne (met.published fresh)]
      exact ⟨met.keeps fresh others, h.bounded _⟩
    · rw [publishedAt_congr (others d isRoot)] at published
      obtain ⟨met, smaller⟩ := h.below d u published dependency mem
      rw [Function.update_of_ne isRoot, Function.update_of_ne (met.published fresh)]
      exact ⟨met.keeps fresh others, smaller⟩

theorem Published.layered (published : Published s) : ∃ rank next, Layered s rank next := by
  induction published with
  | none empty =>
      refine ⟨fun _ => 0, 1, fun _ => Nat.one_pos, fun d r is => ?_⟩
      obtain ⟨⟨value, stored, -⟩, -⟩ := publishedAt_some.mp is
      rw [empty d] at stored
      cases stored
  | publish _ fresh passed stored others ih =>
      obtain ⟨rank, next, layers⟩ := ih
      exact ⟨_, _, layers.publish fresh passed stored others⟩

end Layers

/-! ## Reachable stores -/

section Reachable

variable {s t : Store} {L : State} {config : DomainConfig} {ctx : TxContext} {command : Value}

theorem Published.congr (published : Published s)
    (same : ∀ d : Digest, present (t (keyFor.revision d.1)) = present (s (keyFor.revision d.1))) :
    Published t := by
  cases published with
  | none empty => exact .none fun d => (same d).trans (empty d)
  | publish before fresh passed stored others =>
      exact .publish before fresh passed ((publishedAt_congr (same _)).trans stored)
        fun d other => (same d).trans (others d other)

theorem Represents.read_published (h : Represents L s) (d : Digest) :
    present (s (keyFor.revision d.1)) = (L (.revision d)).map (Key.toValue (.revision d)) :=
  h.read (.revision d)

theorem Represents.publishedAt (h : Represents L s) (d : Digest) :
    publishedAt s d = L.revision d := by
  rw [Knowledger.publishedAt, h.read_published]
  cases found : L (.revision d) with
  | none =>
      rw [State.revision, found]
      rfl
  | some r =>
      rw [State.revision, found]
      simp [validateRevision_stored, r.2.2, Except.toOption]

/-- Only a publication writes revisions. -/
theorem Performs.revisions {ctx : Context} {command : DomainCommand} {r : Value}
    {es : List Entry} (performs : Performs L ctx config command r es) :
    (∀ e ∈ es, ¬ e.1.kind = .revision) ∨
      ∃ c : Publishing L ctx config command.input, es = c.entries := by
  cases performs with
  | republish c type => exact Or.inl (by simp)
  | publish c type => exact Or.inr ⟨c, rfl⟩
  | propose c type => exact Or.inl (by simp [Proposing.entries])
  | decide c type =>
      rw [Deciding.entries]
      cases c.suspension <;> exact Or.inl (by simp [decisionEntries, Suspension.entries, closeEntries])
  | activate c type =>
      refine Or.inl fun e mem => ?_
      simp only [Activating.entries, activatedEntries, List.cons_append, List.mem_cons,
        List.mem_append, List.not_mem_nil, or_false] at mem
      rcases mem with rfl | superseded | rfl | rfl | rfl
      · simp
      · simp [supersededEntries_kind e superseded]
      all_goals simp
  | withdraw c type => exact Or.inl (by simp [StatusChange.entries, closeEntries])
  | suspend c type => exact Or.inl (by simp [StatusChange.entries, closeEntries])
  | fence c type => exact Or.inl (by simp [Fencing.entries])

/-- **One step.**  A call publishes a revision that passes the check, or none. -/
theorem Execution.published (c : Execution L ctx command) (h : Represents L s)
    (published : Published s) : Published ((putAll [] c.entries).over s) := by
  have after := represents_putAll h c.entries
  have others (d : Digest) (performed : L.putAll c.performed (.revision d) = L (.revision d)) :
      present ((putAll [] c.entries).over s (keyFor.revision d.1)) =
        present (s (keyFor.revision d.1)) := by
    rw [after.read_published, h.read_published, ← performed, Execution.entries,
      State.putAll_append, State.putAll_cons, State.putAll_nil, State.set_other (by simp)]
  rcases c.performs.revisions with none | ⟨p, same⟩
  · exact published.congr fun d => others d
      (State.putAll_of_notMem fun e mem same => none e mem (same ▸ rfl))
  · have writes : (L.putAll c.entries).revision p.publication.revision.revisionDigest =
        some p.publication.revision := by
      simp [Execution.entries, same, Publishing.entries]
    refine .publish published ((h.read_none (.revision _)).mpr p.fresh) (p.graph s h)
      ((after.publishedAt _).trans writes) fun d other => others d ?_
    rw [same]
    exact State.putAll_of_notMem fun e mem is => by
      simp only [Publishing.entries, List.mem_cons, List.not_mem_nil, or_false] at mem
      rcases mem with rfl | rfl
      · exact other (by simpa using is.symm)
      · cases is

theorem Bootstrapped.published (b : Bootstrapped s) : Published s := by
  obtain ⟨ctx, input, result, w, run, rfl⟩ := b
  have start : Represents State.empty (Writes.over [] Store.empty) := by
    rw [Writes.over_nil]
    exact represents_empty
  obtain ⟨c, rfl, rfl⟩ := (bootstrap_ok start).mp run
  have after := represents_putAll represents_empty c.entries
  exact .none fun d => (after.read_none (.revision d)).mpr
    (c.other (by simp) (by simp) (by simp))

/-- **One run.** -/
theorem Published.runAll (published : Published s) (h : Holds s L config) (calls : List Call) :
    Published (runAll calls s) := by
  induction calls generalizing s L with
  | nil => exact published
  | cons c calls ih =>
      obtain ⟨M, next, -⟩ := h.commit c
      refine ih ?_ next
      unfold Call.commit Knowledger.commit
      cases run : c.program.simulate s [] with
      | error e => exact published
      | ok outcome =>
          obtain ⟨result, w⟩ := outcome
          rcases (execute_ok h.represents).mp run with ⟨replay, rfl, rfl⟩ | ⟨x, rfl, rfl⟩
          · exact published
          · exact x.published h.represents published

/-- Every reachable store has its revisions published one after the other. -/
theorem Reachable.published (h : Reachable s) : Published s := by
  obtain ⟨s₀, calls, b, rfl⟩ := h
  obtain ⟨L, config, holds, -⟩ := b.holds
  exact b.published.runAll holds calls

end Reachable

/-! ## A path that is missed -/

/-- The revisions stored under their digests. -/
def holding (rs : List DocumentRevision) : Store := fun key =>
  (rs.find? fun r => keyFor.revision r.revisionDigest.1 = key).map DocumentRevision.toJson

def listedEdges (rs : List DocumentRevision) (r : DocumentRevision) : List (Option Digest) :=
  r.payload.dependencies.map fun dependency =>
    if (rs.find? fun target => target.revisionDigest = dependency.revisionDigest).any
        fun target => target.payload.toSlot = dependency.toSlot then some dependency.revisionDigest
    else none

/-- The graph of the revisions, read off the list. -/
def listedGraph (rs : List DocumentRevision) (root : DocumentRevision) : Graph Digest := fun digest =>
  if digest = root.revisionDigest then listedEdges rs root
  else ((rs.find? fun r => r.revisionDigest = digest).map (listedEdges rs)).getD []

def listedSearch (rs : List DocumentRevision) (root : DocumentRevision) : Option (List Digest) :=
  search (listedGraph rs root) maxDependencyNodes (maxDependencyDepth + 1) [] [] root.revisionDigest

/-- Each revision of the list is new and accepted after those that follow it. -/
def publishedInTurn : List DocumentRevision → Bool
  | [] => true
  | r :: rs => publishedInTurn rs && (rs.find? fun other => other.revisionDigest = r.revisionDigest).isNone
      && (listedSearch rs r).isSome

section Listed

variable {rs : List DocumentRevision} {r root : DocumentRevision}

omit [Sha256] in
theorem holding_present (d : Digest) : present (holding rs (keyFor.revision d.1)) =
    (rs.find? fun r => r.revisionDigest = d).map DocumentRevision.toJson := by
  have same (r : DocumentRevision) :
      decide (keyFor.revision r.revisionDigest.1 = keyFor.revision d.1) =
        decide (r.revisionDigest = d) := by
    refine decide_eq_decide.mpr ⟨fun h => ?_, fun h => h ▸ rfl⟩
    exact Key.revision.inj (Key.text_inj h)
  simp only [holding, same]
  cases rs.find? fun r => r.revisionDigest = d <;> rfl

theorem holding_publishedAt (valid : ∀ r ∈ rs, r.Valid) (d : Digest) :
    publishedAt (holding rs) d = rs.find? fun r => r.revisionDigest = d := by
  rw [publishedAt, holding_present]
  cases found : rs.find? fun r => r.revisionDigest = d with
  | none => rfl
  | some r =>
      have listed := List.mem_of_find?_eq_some found
      have named : r.revisionDigest = d := by simpa using List.find?_some found
      simp [validateRevision_json (valid r listed), Except.toOption, named]

/-- The list of what is published gives the graph of a store. -/
theorem listedGraph_of_published {s : Store}
    (published : ∀ d, publishedAt s d = rs.find? fun r => r.revisionDigest = d) :
    dependencyGraph s root = listedGraph rs root := by
  have edges : edgesOf s = listedEdges rs := by
    funext r
    simp only [edgesOf, listedEdges, DependencyMet, published, Option.any_eq_true,
      decide_eq_true_eq]
  funext d
  simp only [dependencyGraph, listedGraph, edges, published]

theorem listedGraph_eq (valid : ∀ r ∈ rs, r.Valid) :
    dependencyGraph (holding rs) root = listedGraph rs root :=
  listedGraph_of_published (holding_publishedAt valid)

omit [Sha256] in
theorem holding_unpublished (absent : (rs.find? fun r => r.revisionDigest = root.revisionDigest) = none) :
    Unpublished (holding rs) root := by
  rw [Unpublished, holding_present, absent]
  rfl

theorem listedSearch_ok (valid : ∀ r ∈ rs, r.Valid)
    (absent : (rs.find? fun r => r.revisionDigest = root.revisionDigest) = none)
    (found : (listedSearch rs root).isSome = true) :
    (validatePublishedDependencyGraph root).eval (holding rs) = .ok () := by
  rw [validatePublishedDependencyGraph_ok (holding_unpublished absent), listedGraph_eq valid]
  exact Option.isSome_iff_exists.mp found

theorem holding_published (valid : ∀ r ∈ rs, r.Valid) (inTurn : publishedInTurn rs = true) :
    Published (holding rs) := by
  induction rs with
  | nil => exact .none fun _ => rfl
  | cons r rs ih =>
      simp only [publishedInTurn, Bool.and_eq_true, Option.isNone_iff_eq_none] at inTurn
      obtain ⟨⟨before, absent⟩, found⟩ := inTurn
      have validRest : ∀ q ∈ rs, q.Valid := fun q mem => valid q (List.mem_cons_of_mem _ mem)
      refine .publish (ih validRest before) (holding_unpublished absent)
        (listedSearch_ok validRest absent found) ?_ fun d other => ?_
      · rw [holding_publishedAt valid]
        simp
      · rw [holding_present, holding_present, List.find?_cons_of_neg (by simpa using Ne.symm other)]

end Listed

end Limits

/-! ## The size of a canonical text -/

theorem escape_length (c : Char) : (escape c).length ≤ 6 := by
  unfold escape
  split_ifs <;> simp

theorem quote_length (s : String) : (quote s).length ≤ 6 * s.toList.length + 2 := by
  have body : ∀ cs : List Char, (cs.flatMap escape).length ≤ 6 * cs.length := by
    intro cs
    induction cs with
    | nil => simp
    | cons c cs ih =>
        have := escape_length c
        simp only [List.flatMap_cons, List.length_append, List.length_cons]
        omega
  have := body s.toList
  simp only [quote, List.length_cons, List.length_append, List.length_nil]
  omega

theorem fieldsText_length {fields : Fields} {n : Nat}
    (each : ∀ f ∈ fields, f.1.text.length + f.2.text.length ≤ n) :
    (fieldsText fields).length ≤ fields.length * (n + 2) := by
  induction fields with
  | nil => simp [fieldsText]
  | cons f rest ih =>
      obtain ⟨first, later⟩ := List.forall_mem_cons.mp each
      have tail := ih later
      cases rest with
      | nil =>
          simp only [fieldsText, List.length_append, List.length_cons, List.length_nil]
          omega
      | cons g rest =>
          simp only [fieldsText, List.length_append, List.length_cons] at tail ⊢
          rw [Nat.succ_mul]
          omega

theorem itemsText_length {items : List Value} {n : Nat}
    (each : ∀ v ∈ items, v.text.length ≤ n) :
    (itemsText items).length ≤ items.length * (n + 1) := by
  induction items with
  | nil => simp [itemsText]
  | cons v rest ih =>
      obtain ⟨first, later⟩ := List.forall_mem_cons.mp each
      have tail := ih later
      cases rest with
      | nil =>
          simp only [itemsText, List.length_cons, List.length_nil]
          omega
      | cons w rest =>
          simp only [itemsText, List.length_append, List.length_cons] at tail ⊢
          rw [Nat.succ_mul]
          omega

theorem jsonString_length (s : String) :
    (jsonString s).normalize.text.length ≤ 6 * s.toList.length + 2 := by
  rw [normalize_jsonString]
  exact quote_length s

/-- The size of an array's canonical text. -/
theorem arr_length {items : List Value} {n : Nat}
    (each : ∀ v ∈ items, v.normalize.text.length ≤ n) :
    (Value.arr items).normalize.text.length ≤ items.length * (n + 1) + 2 := by
  have text : (itemsText (items.map Value.normalize)).length ≤ _ :=
    itemsText_length (List.forall_mem_map.mpr each)
  rw [Value.normalize_arr, Value.text]
  simp only [List.length_cons, List.length_append, List.length_nil, List.length_map] at text ⊢
  omega

/-- The size of a record's canonical text. -/
theorem record_length {l : List (String × Option Value)} {n : Nat}
    (each : ∀ f ∈ l, ∀ v ∈ f.2, 6 * f.1.toList.length + v.normalize.text.length + 2 ≤ n) :
    (record l).normalize.text.length ≤ l.length * (n + 2) + 2 := by
  have size : (recordFields l).normalize.length ≤ l.length := by
    simp only [Fields.normalize, List.length_insertionSort, normalizeFields_eq, List.length_map]
    exact List.length_filterMap_le _ _
  have text : (fieldsText (recordFields l).normalize).length ≤
      (recordFields l).normalize.length * (n + 2) := by
    refine fieldsText_length fun f mem => ?_
    rw [normalize_sorted] at mem
    obtain ⟨g, inside, rfl⟩ := List.mem_map.mp mem
    obtain ⟨h, listed, is⟩ := List.mem_filterMap.mp ((List.mem_insertionSort fieldLe).mp inside)
    obtain ⟨v, given, rfl⟩ := Option.map_eq_some_iff.mp is
    have := each h listed v given
    have := quote_length h.1
    simp only [Str.text]
    omega
  have := Nat.mul_le_mul_right (n + 2) size
  rw [record, Value.normalize_obj, Value.text]
  simp only [List.length_cons, List.length_append, List.length_nil]
  omega

/-- The fields of an object, each with its name and its separators. -/
def fieldsSize (fields : Fields) : Nat :=
  (fields.map fun f => f.1.text.length + f.2.text.length + 2).sum

theorem fieldsText_size (fields : Fields) : (fieldsText fields).length ≤ fieldsSize fields := by
  induction fields with
  | nil => simp [fieldsText]
  | cons f rest ih =>
      rw [fieldsSize, List.map_cons, List.sum_cons, ← fieldsSize]
      cases rest with
      | nil =>
          simp only [fieldsText, List.length_append, List.length_cons, List.length_nil]
          omega
      | cons g rest =>
          simp only [fieldsText, List.length_append, List.length_cons] at ih ⊢
          omega

/-- The size of a field of a record, if it is given. -/
def fieldSize (f : String × Option Value) : Nat :=
  f.2.elim 0 fun v => 6 * f.1.toList.length + v.normalize.text.length + 4

theorem fieldSize_le {key : String} {v : Value} {n : Nat}
    (small : 6 * key.toList.length + v.normalize.text.length + 2 ≤ n) :
    fieldSize (key, some v) ≤ n + 2 := by
  simp only [fieldSize, Option.elim_some]
  omega

theorem sizes_le {l : List (String × Option Value)} {n : Nat} (each : ∀ f ∈ l, fieldSize f ≤ n) :
    (l.map fieldSize).sum ≤ l.length * n := by
  have := List.sum_le_card_nsmul (l.map fieldSize) n (List.forall_mem_map.mpr each)
  simpa using this

theorem recordFields_size (l : List (String × Option Value)) :
    fieldsSize ((recordFields l).map fun f => (f.1, f.2.normalize)) ≤ (l.map fieldSize).sum := by
  induction l with
  | nil => exact Nat.le_refl 0
  | cons f l ih =>
      obtain ⟨name, o⟩ := f
      rw [List.map_cons, List.sum_cons]
      cases o with
      | none => exact ih.trans (Nat.le_add_left _ _)
      | some v =>
          have quoted := quote_length name
          have text : (Str.wellFormed name).text = quote name := rfl
          rw [show recordFields ((name, some v) :: l) = (.wellFormed name, v) :: recordFields l
            from rfl, List.map_cons, fieldsSize, List.map_cons, List.sum_cons, ← fieldsSize]
          simp only [fieldSize, text, Option.elim_some]
          omega

/-- The size of a record's canonical text, field by field. -/
theorem record_size (l : List (String × Option Value)) :
    (record l).normalize.text.length ≤ (l.map fieldSize).sum + 2 := by
  have moved : fieldsSize (recordFields l).normalize =
      fieldsSize ((recordFields l).map fun f => (f.1, f.2.normalize)) := by
    rw [Fields.normalize, normalizeFields_eq]
    exact ((List.perm_insertionSort _ _).map _).sum_eq
  have each := recordFields_size l
  have := fieldsText_size (recordFields l).normalize
  rw [record, Value.normalize_obj, Value.text]
  simp only [List.length_cons, List.length_append, List.length_nil]
  omega

namespace Demo

def page (id : Id) (targets : List Digest) : DocumentRevisionPayload where
  toSlot := slot (name "doc")
  revisionId := id
  title := ⟨"t", by decide⟩
  bodyMarkdown := ⟨"b", by decide⟩
  parents := []
  dependencies := targets.map fun digest =>
    { slot (name "doc") with
      revisionDigest := digest
      relationship := ⟨"depends_on", by decide⟩
      enforcement := .requiresActive }
  metadata :=
    { authorId := owner.actorId
      createdAt := ⟨"c", by decide⟩
      sourceKind := .approvedImport
      sharedAssertions := []
      authorOrgId := owner.orgId }

/-- Records with one sorted form have the same fields. -/
theorem get_of_normalize {l m : List (String × Option Value)}
    (same : (record l).normalize = (record m).normalize) (name : String) :
    ((recordFields l).get name).map Value.normalize =
      ((recordFields m).get name).map Value.normalize := by
  rw [← Fields.get_normalize, ← Fields.get_normalize]
  simp only [record, Value.normalize_obj, Value.obj.injEq] at same
  rw [same]

/-- The canonical text of the payload. -/
def textOf (p : DocumentRevisionPayload) : List Char :=
  (canonicalizeValue p.toJson 0).toOption.getD []

def link₀ : DocumentRevision where
  revisionDigest := ⟨"sha256:913b783df973a9d9cb785ed72aee2362506d9c894f9fa6ff378f458b588542b0", by decide⟩
  payload := page (name "link-0") []

def link₁ : DocumentRevision where
  revisionDigest := ⟨"sha256:c94c6b585b6f3f3443d38675c4434b983e1a716ce2e9ca817648c50dd587c576", by decide⟩
  payload := page (name "link-1") [link₀.revisionDigest]

def link₂ : DocumentRevision where
  revisionDigest := ⟨"sha256:e53505362cc622ead230a6cfa1229b2482ebfcd3b673d9954c760d949c9ecfbf", by decide⟩
  payload := page (name "link-2") [link₁.revisionDigest]

def link₃ : DocumentRevision where
  revisionDigest := ⟨"sha256:3164b5d983a5f84b0b8cc5732bd113998a0a4da91efdc50f8269bd9c8a1b4e0d", by decide⟩
  payload := page (name "link-3") [link₂.revisionDigest]

def link₄ : DocumentRevision where
  revisionDigest := ⟨"sha256:64f8cadb6901f6663c8e71049c224da2c7fb146bfbe3bff044aee093351d0f6b", by decide⟩
  payload := page (name "link-4") [link₃.revisionDigest]

def link₅ : DocumentRevision where
  revisionDigest := ⟨"sha256:e4ac343b8887fa9ea55b05be068af9cbf8afe8aab2a1421e08587bdc11001aaa", by decide⟩
  payload := page (name "link-5") [link₄.revisionDigest]

def link₆ : DocumentRevision where
  revisionDigest := ⟨"sha256:d2158e5a1b1f90d855a90eeb980b7a29f8c2b920d5ec3f83c7cad1ff0a000d27", by decide⟩
  payload := page (name "link-6") [link₅.revisionDigest]

def link₇ : DocumentRevision where
  revisionDigest := ⟨"sha256:91ff908139dc2d6b7706c6314d98bea991b5c989c5b8273d01955808ef3fac91", by decide⟩
  payload := page (name "link-7") [link₆.revisionDigest]

def link₈ : DocumentRevision where
  revisionDigest := ⟨"sha256:6be4177a53450399cac3a048d9448c15ba0bbf09e5fbce08a06e39d15a75a576", by decide⟩
  payload := page (name "link-8") [link₇.revisionDigest]

/-- The published revisions, each depending on the one after it. -/
def chain : List DocumentRevision :=
  [link₈, link₇, link₆, link₅, link₄, link₃, link₂, link₁, link₀]

/-- The new revision, which depends on the middle of the chain and then on its top. -/
def joining : DocumentRevision where
  revisionDigest := ⟨"sha256:8a24c1f5fb65b54295230e0b543b5b7048d13ff1df7c54468dd04c2715b7eb00", by decide⟩
  payload := page (name "root") [link₄.revisionDigest, link₈.revisionDigest]

theorem page_valid (id : Id) {targets : List Digest} (few : targets.length ≤ 32)
    (distinct : targets.Nodup) : (page id targets).Valid where
  body := by
    change "b".utf8ByteSize ≤ 262144
    decide
  parents := Nat.zero_le _
  parentsNodup := List.nodup_nil
  dependencies := by simpa [page] using few
  dependenciesUnique := by
    rw [assertUniqueCanonical_ok]
    constructor
    · intro v mem
      obtain ⟨d, -, rfl⟩ := List.mem_map.mp mem
      exact canonicalize_isOk d.canonicalizable_json
    · simp only [page, List.map_map]
      refine distinct.map fun d e same => Subtype.ext ?_
      have digests := get_of_normalize same "revision_digest"
      exact jsonString_inj.mp (Option.some.inj digests)
  channel := by
    intro d mem
    obtain ⟨_, _, rfl⟩ := List.mem_map.mp mem
    rfl
  metadata := rfl

theorem page_canonical (id : Id) {targets : List Digest} (few : targets.length ≤ 32) :
    canonicalize (page id targets).toJson = .ok (String.ofList (textOf (page id targets))) := by
  have fits : canonicalizable (page id targets).toJson 0 = true := by
    have items : canonicalizable (.arr ((page id targets).dependencies.map
        RevisionDependency.toJson)) 1 = true := by
      rw [canonicalizable_arr]
      refine ⟨by decide, ?_, fun d _ => ?_⟩
      · simpa [page, maxCanonicalArrayItems] using few.trans (by decide)
      · simp [RevisionDependency.toJson, canonicalizable_record, maxCanonicalDepth]
    simp only [DocumentRevisionPayload.toJson, canonicalizable_record]
    simp [page, RevisionMetadata.toJson, canonicalizable_record, maxCanonicalDepth]
    simp only [page, List.map_map] at items
    exact ⟨rfl, items, rfl⟩
  obtain ⟨text, is⟩ := canonicalizeValue_isOk _ 0 fits
  rw [textOf, canonicalize, is]
  rfl

theorem digest_length (d : Digest) : d.1.toList.length = 71 := by
  have named := d.2
  simp only [isDigest, Bool.and_eq_true, beq_iff_eq, List.length_drop] at named
  have := named.2
  omega

theorem string_field {key s : String} {n : Nat}
    (small : 6 * key.toList.length + 6 * s.toList.length + 4 ≤ n) :
    6 * key.toList.length + (jsonString s).normalize.text.length + 2 ≤ n := by
  have := jsonString_length s
  omega

theorem dependency_small {id : Id} {targets : List Digest} :
    ∀ d ∈ (page id targets).dependencies, d.toJson.normalize.text.length ≤ 4178 := by
  intro d mem
  obtain ⟨digest, -, rfl⟩ := List.mem_map.mp mem
  refine (record_length (n := 520) ?_).trans (by simp)
  simp only [List.forall_mem_cons, Option.mem_some_iff, forall_eq', List.not_mem_nil,
    false_imp_iff, implies_true, and_true]
  refine ⟨string_field ?_, string_field ?_, string_field ?_, string_field ?_, string_field ?_,
    string_field ?_, string_field ?_, string_field ?_⟩
  · rw [digest_length]
    decide
  all_goals decide

theorem metadata_small {id : Id} {targets : List Digest} :
    (page id targets).metadata.toJson.normalize.text.length ≤ 1512 := by
  refine (record_length (n := 300) ?_).trans (by simp)
  simp only [List.forall_mem_cons, Option.mem_some_iff, forall_eq', List.not_mem_nil,
    false_imp_iff, implies_true, and_true]
  dsimp only [page]
  exact ⟨string_field (by decide), string_field (by decide), string_field (by decide),
    by decide, string_field (by decide)⟩

/-- The canonical text of a page is short. -/
theorem page_small {id : Id} {targets : List Digest} (few : targets.length ≤ 2)
    (short : id.1.toList.length ≤ 64) :
    (page id targets).toJson.normalize.text.length ≤ 131072 := by
  have metadata := @metadata_small id targets
  have dependencies : (Value.arr ((page id targets).dependencies.map
      RevisionDependency.toJson)).normalize.text.length ≤ 8360 := by
    refine (arr_length (List.forall_mem_map.mpr dependency_small)).trans ?_
    simp only [page, List.length_map]
    omega
  refine (record_length (n := 8500) ?_).trans (by simp)
  simp only [List.forall_mem_cons, Option.mem_some_iff, forall_eq', List.not_mem_nil,
    false_imp_iff, implies_true, and_true]
  dsimp only [page] at metadata dependencies ⊢
  refine ⟨string_field (by decide), by decide, string_field ?_, string_field (by decide),
    string_field (by decide), string_field (by decide), string_field (by decide),
    string_field (by decide), string_field (by decide), string_field (by decide),
    string_field (by decide), by decide, ?_, ?_⟩
  · have key : "revision_id".toList.length = 11 := rfl
    omega
  · have key : "dependencies".toList.length = 12 := rfl
    omega
  · have key : "metadata".toList.length = 8 := rfl
    omega

/-- Different pages have different canonical texts. -/
theorem page_text_inj {id other : Id} {targets others : List Digest} (few : targets.length ≤ 32)
    (few' : others.length ≤ 32) (same : textOf (page id targets) = textOf (page other others)) :
    id = other := by
  have canonical := page_canonical other few'
  rw [← same] at canonical
  have ids := get_of_normalize (canonicalize_inj (page_canonical id few) canonical) "revision_id"
  exact Subtype.ext (jsonString_inj.mp (Option.some.inj ids))

/-- The published revisions and the new one. -/
def pages : List DocumentRevision := joining :: chain

/-- SHA-256, with the digests of the revisions looked up. -/
@[reducible] def tabled (rs : List DocumentRevision) : Sha256 where
  hexDigest text :=
    match rs.find? fun r => String.ofList (textOf r.payload) = text with
    | some r => String.ofList (r.revisionDigest.1.toList.drop 7)
    | none => sha256.hexDigest text
  length_hexDigest text := by
    cases rs.find? fun r => String.ofList (textOf r.payload) = text with
    | none => exact sha256.length_hexDigest text
    | some r =>
        have named := r.revisionDigest.2
        simp only [isDigest, Bool.and_eq_true, beq_iff_eq] at named
        rw [String.toList_ofList, named.2]
  hex_hexDigest text c mem := by
    cases found : rs.find? fun r => String.ofList (textOf r.payload) = text with
    | none =>
        rw [found] at mem
        exact sha256.hex_hexDigest text c mem
    | some r =>
        rw [found, String.toList_ofList] at mem
        have named := r.revisionDigest.2
        simp only [isDigest, Bool.and_eq_true, List.all_eq_true] at named
        have hex := named.1.2 c mem
        simp only [hexChar, digitChar, inRange, Bool.or_eq_true, Bool.and_eq_true, Nat.ble_eq] at hex
        rcases hex with digit | letter
        · exact Or.inl (by simpa [Char.isDigit, UInt32.le_iff_toNat_le] using digit)
        · exact Or.inr letter

/-- The revision of a text is the one that is looked up. -/
theorem tabled_find {rs : List DocumentRevision} (nodup : (rs.map fun r => textOf r.payload).Nodup)
    {r : DocumentRevision} (mem : r ∈ rs) :
    rs.find? (fun q => String.ofList (textOf q.payload) = String.ofList (textOf r.payload)) =
      some r := by
  cases found : rs.find? fun q =>
      String.ofList (textOf q.payload) = String.ofList (textOf r.payload) with
  | none => simpa using List.find?_eq_none.mp found r mem
  | some q =>
      have listed := List.mem_of_find?_eq_some found
      have same := List.find?_some found
      simp only [decide_eq_true_eq, String.ofList_inj] at same
      exact congrArg some (List.inj_on_of_nodup_map nodup listed mem same)

/-- A revision in the table is valid when its payload is. -/
theorem tabled_valid {rs : List DocumentRevision} (nodup : (rs.map fun r => textOf r.payload).Nodup)
    {r : DocumentRevision} (mem : r ∈ rs) (payload : r.payload.Valid)
    (canonical : canonicalize r.payload.toJson = .ok (String.ofList (textOf r.payload)))
    (small : r.payload.toJson.normalize.text.length ≤ 131072) :
    @DocumentRevision.Valid (tabled rs) r := by
  have text := String.ofList_injective (canonicalize_eq canonical).1
  rw [← text] at small
  refine @DocumentRevision.Valid.mk (tabled rs) r payload
    ⟨String.ofList (textOf r.payload), canonical, ?_, ?_⟩
  · rw [Utf8.utf8ByteSize_ofList]
    have := Utf8.length_encode_le (textOf r.payload)
    omega
  · have named := r.revisionDigest.2
    simp only [isDigest, Bool.and_eq_true, beq_iff_eq] at named
    have hash : (tabled rs).hexDigest (String.ofList (textOf r.payload)) =
        String.ofList (r.revisionDigest.1.toList.drop 7) := by
      unfold tabled
      dsimp only
      rw [tabled_find nodup mem]
    rw [hash, ← String.toList_inj, String.toList_append]
    calc r.revisionDigest.1.toList
        = r.revisionDigest.1.toList.take 7 ++ r.revisionDigest.1.toList.drop 7 :=
          (List.take_append_drop 7 _).symm
      _ = "sha256:".toList ++ r.revisionDigest.1.toList.drop 7 := by rw [named.1.1]
      _ = _ := congrArg ("sha256:".toList ++ ·) String.toList_ofList.symm

/-- SHA-256, with the digests of the pages looked up. -/
@[reducible] def lookedUp : Sha256 := tabled pages

@[reducible] local instance : Sha256 := lookedUp

theorem pages_shape : ∀ r ∈ pages, ∃ id targets, r.payload = page id targets ∧
    targets.length ≤ 2 ∧ targets.Nodup ∧ id.1.toList.length ≤ 64 := by
  simp only [pages, chain, List.forall_mem_cons]
  refine ⟨⟨_, _, rfl, ?_⟩, ⟨_, _, rfl, ?_⟩, ⟨_, _, rfl, ?_⟩, ⟨_, _, rfl, ?_⟩, ⟨_, _, rfl, ?_⟩,
    ⟨_, _, rfl, ?_⟩, ⟨_, _, rfl, ?_⟩, ⟨_, _, rfl, ?_⟩, ⟨_, _, rfl, ?_⟩, ⟨_, _, rfl, ?_⟩, nofun⟩
  all_goals decide

theorem pages_ids : (pages.map fun r => r.payload.revisionId).Nodup := by decide

theorem pages_texts : (pages.map fun r => textOf r.payload).Nodup := by
  refine (List.Nodup.of_map _ pages_ids).map_on fun r mem q mem' same => ?_
  obtain ⟨id, targets, shape, few, -, -⟩ := pages_shape r mem
  obtain ⟨other, others, shape', few', -, -⟩ := pages_shape q mem'
  rw [shape, shape'] at same
  have ids := page_text_inj (few.trans (by decide)) (few'.trans (by decide)) same
  refine List.inj_on_of_nodup_map pages_ids mem mem' ?_
  rw [shape, shape']
  exact ids

theorem pages_valid : ∀ r ∈ pages, r.Valid := by
  intro r mem
  obtain ⟨id, targets, shape, few, distinct, short⟩ := pages_shape r mem
  have room : targets.length ≤ 32 := few.trans (by decide)
  exact tabled_valid pages_texts mem (shape ▸ page_valid id room distinct)
    (shape ▸ page_canonical id room) (shape ▸ page_small few short)

theorem chain_inTurn : publishedInTurn chain = true := by decide +kernel

end Demo

end Knowledger
