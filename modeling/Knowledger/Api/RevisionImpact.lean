import Knowledger.Api.Paging
import Knowledger.Lib.Bfs

/-!
# Impact of a revision

`revisionImpact` gathers the references of all published revisions into one reverse multigraph,
and searches it breadth first from a digest, once over all edges and once over those that
require an active target.  What it lists is what depends on the digest, each revision once,
under the kind and at the depth that the paths between them have (`Impact`).
-/

namespace Knowledger.Api

open Js Txn MemoSearch

/-! ## Gathering the references -/

structure Reference where
  digest : Digest
  dependency : RevisionDependency

structure Gathered where
  refs : Writes Digest RevisionBrowseRef
  reverse : Writes Digest (List Reference)
  edges : Nat

def maxImpactRevisions : Nat := 100000
def maxImpactReferences : Nat := 500000
def impactBatch : Nat := 1000

def impactCapacityExceeded {α : Type} (message : String) : Except ApiError α :=
  apiFail "IMPACT_CAPACITY_EXCEEDED" message 503

def addReference (digest : Digest) (g : Gathered) (dependency : RevisionDependency) :
    Except ApiError Gathered :=
  if maxImpactReferences < g.edges + 1 then
    impactCapacityExceeded "이 설치의 참조 조회 상한을 넘었습니다."
  else
    let list := (g.reverse.find dependency.revisionDigest).getD []
    .ok { g with
      edges := g.edges + 1
      reverse := g.reverse.set dependency.revisionDigest (list ++ [⟨digest, dependency⟩]) }

section Impact

variable [Sha256]

def addRevision (state : Store) (g : Gathered) (ref : RevisionBrowseRef) :
    Except ApiError Gathered := do
  let revision ← readIndexedRevision state ref
  revision.payload.dependencies.foldlM (addReference ref.revisionDigest)
    { g with refs := g.refs.set ref.revisionDigest ref }

/-- Batch after batch, up to the total. -/
def gatherFrom (state : Store) (all : List RevisionBrowseRef) (offset : Nat) (g : Gathered) :
    Except ApiError Gathered :=
  let batch := queryBrowse all offset impactBatch
  if maxImpactRevisions < all.length then
    impactCapacityExceeded "이 설치의 영향 조회 상한을 넘었습니다."
  else
    match batch.foldlM (addRevision state) g with
    | .error e => .error e
    | .ok g =>
        if last : all.length ≤ offset + batch.length then .ok g
        else if empty : batch = [] then projectionInvalid "영향 조회 페이지를 확인할 수 없습니다."
        else gatherFrom state all (offset + batch.length) g
termination_by all.length - offset
decreasing_by
  change all.length - (offset + batch.length) < all.length - offset
  have some := List.length_pos_of_ne_nil empty
  omega

def gather (state : Store) (all : List RevisionBrowseRef) : Except ApiError Gathered :=
  gatherFrom state all 0 ⟨[], [], 0⟩

/-- Every dependency names the slot of the revision that it refers to. -/
def checkReferences (g : Gathered) : Except ApiError Unit :=
  if g.reverse.all fun entry =>
      match g.refs.find entry.1 with
      | none => false
      | some ref => entry.2.all fun edge => sameSlot ref.slot edge.dependency.toSlot
  then .ok ()
  else projectionInvalid "의존 참조와 공유 개정 범위가 일치하지 않습니다."

/-! ## The two searches -/

/-- The references to a revision: the reverse graph. -/
def dependents (g : Gathered) : Bfs.Graph Digest RevisionDependency := fun digest =>
  ((g.reverse.find digest).getD []).map fun edge => (edge.digest, edge.dependency)

def followed (requiredOnly : Bool) (dependency : RevisionDependency) : Bool :=
  !(requiredOnly && dependency.enforcement != .requiresActive)

/-- Each digest enters the queue once, so there is one round for each revision at most. -/
def traverse (g : Gathered) (digest : Digest) (requiredOnly : Bool) :
    Writes Digest (Bfs.Found Digest RevisionDependency) :=
  Bfs.search (dependents g) (followed requiredOnly) g.refs.length digest

inductive ImpactKind
  | required
  | informational
  deriving DecidableEq

structure Impact where
  kind : ImpactKind
  viaRevisionDigest : Digest
  depth : Nat
  relationship : Relationship
  deriving DecidableEq

/-- What both searches found. -/
structure Traversed where
  all : Writes Digest (Bfs.Found Digest RevisionDependency)
  required : Writes Digest (Bfs.Found Digest RevisionDependency)

def traversed (g : Gathered) (digest : Digest) : Traversed :=
  ⟨traverse g digest false, traverse g digest true⟩

/-- `required.get(id) ?? all.get(id)` -/
def Traversed.found (t : Traversed) (id : Digest) : Option (Bfs.Found Digest RevisionDependency) :=
  (t.required.find id).or (t.all.find id)

def Traversed.kind (t : Traversed) (id : Digest) : ImpactKind :=
  if (t.required.find id).isSome then .required else .informational

def Traversed.impact (t : Traversed) (id : Digest) : Option Impact :=
  (t.found id).map fun found => ⟨t.kind id, found.via, found.depth, found.label.relationship⟩

def ImpactKind.rank : ImpactKind → Nat
  | .required => 0
  | .informational => 1

/-- Required before informational, then by depth, then by digest; `localeCompare` orders
digests as their characters do. -/
def impactOrder (kind : ImpactKind) (depth : Nat) (id : Digest) : Nat ×ₗ Nat ×ₗ String :=
  toLex (kind.rank, toLex (depth, id.1))

def Traversed.order (t : Traversed) (id : Digest) : Nat ×ₗ Nat ×ₗ String :=
  impactOrder (t.kind id) ((t.found id).elim 0 Bfs.Found.depth) id

def Traversed.affected (t : Traversed) : List Digest :=
  (t.all.map Prod.fst).mergeSort fun a b => t.order a ≤ t.order b

/-! ## The request -/

structure ImpactPage (C : Type) where
  revisionDigest : Digest
  checkpoint : C
  revisions : List (DocumentRevision × Impact)
  total : Nat
  requiredCount : Nat
  informationalCount : Nat
  nextCursor : Option String

/-- What a `TypeError` is answered with. -/
def internalError {α : Type} : Except ApiError α :=
  apiFail "INTERNAL_ERROR" "요청을 처리하지 못했습니다." 500

def describeImpact (state : Store) (g : Gathered) (t : Traversed) (id : Digest) :
    Except ApiError (DocumentRevision × Impact) :=
  match g.refs.find id, t.impact id with
  | some ref, some impact => do
      let revision ← readIndexedRevision state ref
      return (revision, impact)
  | _, _ => internalError

/-- What the list of a digest is read from. -/
def impactAt (state : Store) (all : List RevisionBrowseRef) (digest : Digest) :
    Except ApiError (Gathered × Traversed) := do
  let g ← gather state all
  if (g.refs.find digest).isNone then
    apiFail "NOT_FOUND" "공유 개정을 찾을 수 없습니다." 404
  checkReferences g
  return (g, traversed g digest)

variable {C : Type} [CursorSeal C]

def ofDomain {α : Type} : Except DomainError α → Except ApiError α :=
  Except.mapError fun e => ⟨e.code, e.message, e.status, e.retryable⟩

/-- The request at a time when `head` is the newest checkpoint; `before` and `after` are what
the checks of the actor say, before and after the reads. -/
def revisionImpact (ledger : ReadLedger C) (head : C) (before after : Except ApiError Unit)
    (actor : Actor) (digest : String) (input : PageInput) : Except ApiError (ImpactPage C) :=
  if valid : isDigest digest = true then do
    before
    let digest : Digest := ⟨digest, valid⟩
    let binding ← ofDomain (pageBinding actor "revision-impact" (jsonString digest.1))
    let page ← page ledger head binding input
    let (g, t) ← impactAt (ledger.state page.checkpoint) (ledger.revisions page.checkpoint) digest
    let affected := t.affected
    let selected := (affected.drop page.offset).take page.limit
    let revisions ← selected.mapM (describeImpact (ledger.state page.checkpoint) g t)
    after
    return {
      revisionDigest := digest
      checkpoint := page.checkpoint
      revisions
      total := affected.length
      requiredCount := t.required.length
      informationalCount := t.all.length - t.required.length
      nextCursor := nextCursor page affected.length none }
  else apiFail "INVALID_INPUT" "올바른 공유 개정 digest가 필요합니다." 400

/-! ## What is gathered -/

/-- The references of a listed revision. -/
def referencesOf (s : Store) (ref : RevisionBrowseRef) : List Reference :=
  ((publishedAt s ref.revisionDigest).map fun r =>
    r.payload.dependencies.map (Reference.mk ref.revisionDigest)).getD []

/-- The index refers to the revision as it is published. -/
def Indexed (s : Store) (ref : RevisionBrowseRef) : Prop :=
  ref.key = keyFor.revision ref.revisionDigest.1 ∧
    ∃ r, publishedAt s ref.revisionDigest = some r ∧ r.payload.toSlot = ref.slot

/-- What the revisions and the references gathered so far make of the maps. -/
structure Gathers (g : Gathered) (refs : List RevisionBrowseRef) (references : List Reference) :
    Prop where
  refs : g.refs = refs.map fun ref => (ref.revisionDigest, ref)
  edges : g.edges = references.length
  reverse : ∀ d, (g.reverse.find d).getD [] =
    references.filter fun edge => edge.dependency.revisionDigest = d
  unique : (g.reverse.map Prod.fst).Nodup
  referenced : ∀ entry ∈ g.reverse, entry.2 ≠ []

section Gathering

variable {s : Store} {g : Gathered} {refs : List RevisionBrowseRef} {rs : List Reference}
  {ref : RevisionBrowseRef} {r : DocumentRevision} {digest : Digest}

omit [Sha256] in
theorem Gathers.start : Gathers ⟨[], [], 0⟩ [] [] where
  refs := rfl
  edges := rfl
  reverse _ := rfl
  unique := List.nodup_nil
  referenced _ mem := nomatch mem

omit [Sha256] in
/-- One reference. -/
theorem Gathers.addedReference (h : Gathers g refs rs) (digest : Digest)
    (dependency : RevisionDependency) (capacity : rs.length < maxImpactReferences) :
    ∃ g', addReference digest g dependency = .ok g' ∧
      Gathers g' refs (rs ++ [⟨digest, dependency⟩]) := by
  have free : ¬ maxImpactReferences < g.edges + 1 := by
    rw [h.edges]
    omega
  unfold addReference
  rw [if_neg free]
  refine ⟨_, rfl, h.refs, ?_, fun d => ?_, Writes.nodup_set h.unique, fun entry mem => ?_⟩
  · simp [h.edges]
  · rw [Writes.find_set, List.filter_append, List.filter_singleton]
    by_cases target : dependency.revisionDigest = d
    · subst target
      simp [h.reverse]
    · simp [target, Ne.symm target, h.reverse]
  · rcases Writes.mem_set mem with same | old
    · rw [same]
      simp
    · exact h.referenced entry old

omit [Sha256] in
/-- The references of one revision. -/
theorem Gathers.addedReferences (h : Gathers g refs rs) (digest : Digest)
    (dependencies : List RevisionDependency)
    (capacity : rs.length + dependencies.length ≤ maxImpactReferences) :
    ∃ g', dependencies.foldlM (addReference digest) g = .ok g' ∧
      Gathers g' refs (rs ++ dependencies.map (Reference.mk digest)) := by
  induction dependencies generalizing g rs with
  | nil => exact ⟨g, rfl, by simpa using h⟩
  | cons dependency rest ih =>
      rw [List.length_cons] at capacity
      obtain ⟨g', run, next⟩ := h.addedReference digest dependency (by omega)
      obtain ⟨last, runs, gathers⟩ := ih next (by
        rw [List.length_append, List.length_singleton]
        omega)
      refine ⟨last, ?_, ?_⟩
      · rw [List.foldlM_cons, run]
        exact runs
      · rw [List.map_cons, List.append_cons]
        exact gathers

theorem readIndexedRevision_ok (indexed : Indexed s ref)
    (published : publishedAt s ref.revisionDigest = some r) : readIndexedRevision s ref = .ok r := by
  obtain ⟨key, t, is, slot⟩ := indexed
  rw [published] at is
  obtain rfl := Option.some.inj is
  unfold readIndexedRevision
  rw [if_neg (not_not.mpr key), published]
  dsimp only
  rw [if_pos (sameSlot_iff.mpr slot)]

/-- One revision. -/
theorem Gathers.addedRevision (h : Gathers g refs rs) (indexed : Indexed s ref)
    (fresh : ref.revisionDigest ∉ refs.map RevisionBrowseRef.revisionDigest)
    (capacity : (rs ++ referencesOf s ref).length ≤ maxImpactReferences) :
    ∃ g', addRevision s g ref = .ok g' ∧ Gathers g' (refs ++ [ref]) (rs ++ referencesOf s ref) := by
  obtain ⟨r, published, -⟩ := indexed.2
  have references : referencesOf s ref =
      r.payload.dependencies.map (Reference.mk ref.revisionDigest) := by
    rw [referencesOf, published]
    rfl
  rw [references, List.length_append, List.length_map] at capacity
  have added : Gathers { g with refs := g.refs.set ref.revisionDigest ref } (refs ++ [ref]) rs :=
    { h with
      refs := by
        have absent : ref.revisionDigest ∉ g.refs.map Prod.fst := by
          rw [h.refs, List.map_map]
          exact fresh
        rw [Writes.set_of_not_mem absent, h.refs, List.map_append]
        rfl }
  obtain ⟨g', run, gathers⟩ := added.addedReferences ref.revisionDigest _ capacity
  refine ⟨g', ?_, references ▸ gathers⟩
  unfold addRevision
  rw [readIndexedRevision_ok indexed published]
  exact run

/-- The revisions of a batch. -/
theorem Gathers.addedRevisions (h : Gathers g refs rs) (batch : List RevisionBrowseRef)
    (indexed : ∀ ref ∈ batch, Indexed s ref)
    (unique : ((refs ++ batch).map RevisionBrowseRef.revisionDigest).Nodup)
    (capacity : (rs ++ batch.flatMap (referencesOf s)).length ≤ maxImpactReferences) :
    ∃ g', batch.foldlM (addRevision s) g = .ok g' ∧
      Gathers g' (refs ++ batch) (rs ++ batch.flatMap (referencesOf s)) := by
  induction batch generalizing g refs rs with
  | nil => exact ⟨g, rfl, by simpa using h⟩
  | cons ref rest ih =>
      rw [List.flatMap_cons, ← List.append_assoc] at capacity
      have fresh : ref.revisionDigest ∉ refs.map RevisionBrowseRef.revisionDigest := by
        rw [List.map_append, List.map_cons] at unique
        intro mem
        exact (List.nodup_append.mp unique).2.2 _ mem _ List.mem_cons_self rfl
      obtain ⟨g', run, next⟩ := h.addedRevision (indexed ref List.mem_cons_self) fresh (by
        rw [List.length_append] at capacity
        omega)
      rw [List.append_cons] at unique
      obtain ⟨last, runs, gathers⟩ :=
        ih next (fun ref mem => indexed ref (List.mem_cons_of_mem _ mem)) unique capacity
      refine ⟨last, ?_, ?_⟩
      · rw [List.foldlM_cons, run]
        exact runs
      · rw [List.append_cons, List.flatMap_cons, ← List.append_assoc]
        exact gathers

/-- All batches from an offset on. -/
theorem Gathers.batches {all : List RevisionBrowseRef} {offset : Nat}
    (h : Gathers g (all.take offset) ((all.take offset).flatMap (referencesOf s)))
    (indexed : ∀ ref ∈ all, Indexed s ref)
    (unique : (all.map RevisionBrowseRef.revisionDigest).Nodup)
    (revisions : all.length ≤ maxImpactRevisions)
    (references : (all.flatMap (referencesOf s)).length ≤ maxImpactReferences) :
    ∃ g', gatherFrom s all offset g = .ok g' ∧ Gathers g' all (all.flatMap (referencesOf s)) := by
  induction rounds : all.length - offset using Nat.strong_induction_on generalizing offset g with
  | _ n ih =>
      have joined : all.take offset ++ queryBrowse all offset impactBatch =
          all.take (offset + impactBatch) := by
        rw [queryBrowse, List.take_add]
      have prefixed : all.take (offset + impactBatch) ++ all.drop (offset + impactBatch) = all :=
        List.take_append_drop _ _
      have inside : ∀ ref ∈ queryBrowse all offset impactBatch, Indexed s ref := fun ref mem =>
        indexed ref (List.mem_of_mem_drop (List.mem_of_mem_take mem))
      have once : ((all.take offset ++ queryBrowse all offset impactBatch).map
          RevisionBrowseRef.revisionDigest).Nodup := by
        rw [joined, List.map_take]
        exact unique.sublist (List.take_sublist _ _)
      have fits : ((all.take offset).flatMap (referencesOf s) ++
          (queryBrowse all offset impactBatch).flatMap (referencesOf s)).length ≤
            maxImpactReferences := by
        rw [← List.flatMap_append, joined]
        refine le_trans ?_ references
        nth_rewrite 2 [← prefixed]
        rw [List.flatMap_append, List.length_append]
        omega
      obtain ⟨g', run, next⟩ := h.addedRevisions _ inside once fits
      rw [← List.flatMap_append, joined] at next
      have length : (queryBrowse all offset impactBatch).length =
          min impactBatch (all.length - offset) := by
        rw [queryBrowse, List.length_take, List.length_drop]
      unfold gatherFrom
      dsimp only
      rw [if_neg (not_lt.mpr revisions), run]
      dsimp only
      split_ifs with last empty
      · have whole : all.take (offset + impactBatch) = all := List.take_of_length_le (by
          rw [length] at last
          omega)
        rw [whole] at next
        exact ⟨g', rfl, next⟩
      · rw [empty, List.length_nil] at length
        rw [empty, List.length_nil] at last
        simp only [impactBatch] at length
        omega
      · have full : (queryBrowse all offset impactBatch).length = impactBatch := by
          rw [length] at last ⊢
          omega
        have some : 0 < impactBatch := by decide
        rw [full] at last ⊢
        exact ih _ (by omega) next rfl

end Gathering

/-! ## The dependencies of the published revisions -/

/-- What the published revisions depend on, by the edges that a search follows. -/
def dependsOn (s : Store) (requiredOnly : Bool) : Graph Digest := fun digest =>
  ((publishedAt s digest).map fun r =>
    (r.payload.dependencies.filter (followed requiredOnly)).map
      fun dependency => some dependency.revisionDigest).getD []

/-- The browse index of a checkpoint lists each published revision once. -/
structure Listed (s : Store) (all : List RevisionBrowseRef) : Prop where
  unique : (all.map RevisionBrowseRef.revisionDigest).Nodup
  indexed : ∀ ref ∈ all, Indexed s ref
  complete : ∀ d r, publishedAt s d = some r → d ∈ all.map RevisionBrowseRef.revisionDigest

/-- The two capacity limits. -/
def WithinCapacity (s : Store) (all : List RevisionBrowseRef) : Prop :=
  all.length ≤ maxImpactRevisions ∧ (all.flatMap (referencesOf s)).length ≤ maxImpactReferences

section Searching

variable {s : Store} {g : Gathered} {all : List RevisionBrowseRef} {a b d id : Digest}
  {requiredOnly : Bool} {dependency : RevisionDependency} {k : Nat}

theorem edge_dependsOn : Edge (dependsOn s requiredOnly) a b ↔
    ∃ r, publishedAt s a = some r ∧ ∃ dependency ∈ r.payload.dependencies,
      dependency.revisionDigest = b ∧ followed requiredOnly dependency = true := by
  unfold Edge dependsOn
  cases publishedAt s a with
  | none => simp
  | some r =>
      simp only [Option.map_some, Option.getD_some, List.mem_map, List.mem_filter,
        Option.some.injEq, exists_eq_left']
      exact exists_congr fun dependency => ⟨fun ⟨⟨mem, ok⟩, is⟩ => ⟨mem, is, ok⟩,
        fun ⟨mem, is, ok⟩ => ⟨⟨mem, ok⟩, is⟩⟩

/-- What is published after what it depends on is not reached from itself. -/
theorem acyclic (published : Published s) : ¬ Path (dependsOn s requiredOnly) a (k + 1) a := by
  obtain ⟨rank, next, layers⟩ := published.layered
  have descends : ∀ {a b : Digest} {k : Nat}, Path (dependsOn s requiredOnly) a k b →
      rank b + k ≤ rank a := by
    intro a b k path
    induction path with
    | nil => omega
    | cons edge _ ih =>
        obtain ⟨r, is, dependency, mem, rfl, -⟩ := edge_dependsOn.mp edge
        have smaller := (layers.below _ r is dependency mem).2
        omega
  intro path
  have := descends path
  omega

theorem Listed.mem_references (listed : Listed s all) {edge : Reference} :
    edge ∈ all.flatMap (referencesOf s) ↔
      ∃ r, publishedAt s edge.digest = some r ∧ edge.dependency ∈ r.payload.dependencies := by
  rw [List.mem_flatMap]
  constructor
  · rintro ⟨ref, mem, inside⟩
    obtain ⟨-, r, published, -⟩ := listed.indexed ref mem
    rw [referencesOf, published] at inside
    obtain ⟨dependency, isMem, rfl⟩ := List.mem_map.mp inside
    exact ⟨r, published, isMem⟩
  · rintro ⟨r, published, mem⟩
    obtain ⟨ref, isMem, same⟩ := List.mem_map.mp (listed.complete _ r published)
    refine ⟨ref, isMem, ?_⟩
    rw [referencesOf, same, published]
    exact List.mem_map.mpr ⟨_, mem, rfl⟩

/-- The reverse graph has the edges of the published revisions, backwards. -/
theorem Gathers.mem_dependents (h : Gathers g all (all.flatMap (referencesOf s)))
    (listed : Listed s all) :
    (a, dependency) ∈ dependents g b ↔ dependency.revisionDigest = b ∧
      ∃ r, publishedAt s a = some r ∧ dependency ∈ r.payload.dependencies := by
  unfold dependents
  rw [h.reverse, List.mem_map]
  constructor
  · rintro ⟨edge, mem, same⟩
    obtain ⟨rfl, rfl⟩ := Prod.mk.inj same
    obtain ⟨inside, target⟩ := List.mem_filter.mp mem
    exact ⟨of_decide_eq_true target, listed.mem_references.mp inside⟩
  · rintro ⟨target, is⟩
    refine ⟨⟨a, dependency⟩, List.mem_filter.mpr ⟨?_, decide_eq_true target⟩, rfl⟩
    exact listed.mem_references.mpr is

theorem Gathers.edge (h : Gathers g all (all.flatMap (referencesOf s))) (listed : Listed s all) :
    Edge (Bfs.ahead (dependents g) (followed requiredOnly)) a b ↔
      Edge (dependsOn s requiredOnly) b a := by
  rw [Bfs.mem_ahead, edge_dependsOn]
  constructor
  · rintro ⟨dependency, mem, ok⟩
    obtain ⟨target, r, published, inside⟩ := (h.mem_dependents listed).mp mem
    exact ⟨r, published, dependency, inside, target, ok⟩
  · rintro ⟨r, published, dependency, inside, target, ok⟩
    exact ⟨dependency, (h.mem_dependents listed).mpr ⟨target, r, published, inside⟩, ok⟩

theorem Gathers.path (h : Gathers g all (all.flatMap (referencesOf s))) (listed : Listed s all) :
    Path (Bfs.ahead (dependents g) (followed requiredOnly)) a k b ↔
      Path (dependsOn s requiredOnly) b k a :=
  ⟨Path.flip fun _ _ edge => (h.edge listed).mp edge,
    Path.flip fun _ _ edge => (h.edge listed).mpr edge⟩

theorem Gathers.distance (h : Gathers g all (all.flatMap (referencesOf s)))
    (listed : Listed s all) :
    Bfs.Distance (Bfs.ahead (dependents g) (followed requiredOnly)) a b k ↔
      Bfs.Distance (dependsOn s requiredOnly) b a k := by
  unfold Bfs.Distance
  simp only [h.path listed]

omit [Sha256] in
theorem Gathers.find {refs : List RevisionBrowseRef} {references : List Reference}
    (h : Gathers g refs references) (unique : (refs.map RevisionBrowseRef.revisionDigest).Nodup)
    {ref : RevisionBrowseRef} :
    g.refs.find d = some ref ↔ ref ∈ refs ∧ ref.revisionDigest = d := by
  have keys : (g.refs.map Prod.fst).Nodup := by
    rw [h.refs, List.map_map]
    exact unique
  constructor
  · intro hit
    have mem := Writes.mem_of_find hit
    rw [h.refs] at mem
    obtain ⟨other, inside, same⟩ := List.mem_map.mp mem
    obtain ⟨rfl, rfl⟩ := Prod.mk.inj same
    exact ⟨inside, rfl⟩
  · rintro ⟨mem, rfl⟩
    refine Writes.find_of_mem keys ?_
    rw [h.refs]
    exact List.mem_map.mpr ⟨ref, mem, rfl⟩

/-- Every listed dependency names the slot of its target. -/
theorem Gathers.checked (h : Gathers g all (all.flatMap (referencesOf s))) (listed : Listed s all)
    (published : Published s) : checkReferences g = .ok () := by
  obtain ⟨rank, next, layers⟩ := published.layered
  have met : ∀ entry ∈ g.reverse, ∀ edge ∈ entry.2, edge.dependency.revisionDigest = entry.1 ∧
      DependencyMet s edge.dependency := by
    intro entry mem edge inside
    have found := h.reverse entry.1
    rw [Writes.find_of_mem h.unique mem] at found
    rw [Option.getD_some] at found
    rw [found] at inside
    obtain ⟨isMem, target⟩ := List.mem_filter.mp inside
    obtain ⟨r, is, dependency⟩ := listed.mem_references.mp isMem
    exact ⟨of_decide_eq_true target, (layers.below _ r is _ dependency).1⟩
  unfold checkReferences
  rw [if_pos]
  rw [List.all_eq_true]
  intro entry mem
  have slots : ∀ edge ∈ entry.2, ∃ target, publishedAt s entry.1 = some target ∧
      target.payload.toSlot = edge.dependency.toSlot := by
    intro edge inside
    obtain ⟨same, target, is, slot⟩ := met entry mem edge inside
    exact ⟨target, same ▸ is, slot⟩
  obtain ⟨first, isFirst⟩ := List.exists_mem_of_ne_nil _ (h.referenced entry mem)
  obtain ⟨target, is, -⟩ := slots first isFirst
  obtain ⟨ref, isRef, same⟩ := List.mem_map.mp (listed.complete _ _ is)
  rw [(h.find listed.unique).mpr ⟨isRef, same⟩]
  dsimp only
  rw [List.all_eq_true]
  intro edge inside
  obtain ⟨other, isOther, slot⟩ := slots edge inside
  obtain ⟨-, t, isT, slotT⟩ := listed.indexed ref isRef
  rw [same, isOther] at isT
  obtain rfl := Option.some.inj isT
  rw [sameSlot_iff, ← slotT, slot]

/-- **One search.** -/
theorem Gathers.traverse_exact (h : Gathers g all (all.flatMap (referencesOf s)))
    (requiredOnly : Bool) (listed : Listed s all) (published : Published s)
    (known : d ∈ all.map RevisionBrowseRef.revisionDigest) :
    (d :: (traverse g d requiredOnly).map Prod.fst).Nodup ∧
    (∀ id found, (id, found) ∈ traverse g d requiredOnly →
      Bfs.Distance (dependsOn s requiredOnly) id d found.depth) ∧
    ∀ id, (∃ k, Path (dependsOn s requiredOnly) id (k + 1) d) ↔
      id ∈ (traverse g d requiredOnly).map Prod.fst := by
  have length : g.refs.length = (all.map RevisionBrowseRef.revisionDigest).length := by
    rw [h.refs, List.length_map, List.length_map]
  have targets : ∀ v w e, (w, e) ∈ dependents g v → w ∈ all.map RevisionBrowseRef.revisionDigest := by
    intro v w e mem
    obtain ⟨-, r, is, -⟩ := (h.mem_dependents listed).mp mem
    exact listed.complete _ r is
  have exact := Bfs.search_exact (followed requiredOnly) known targets
  rw [← length] at exact
  obtain ⟨unique, sound, complete⟩ := exact
  have distances : ∀ id found, (id, found) ∈ traverse g d requiredOnly →
      Bfs.Distance (dependsOn s requiredOnly) id d found.depth := fun id found mem =>
    (h.distance listed).mp (sound id found mem).1
  refine ⟨unique, distances, fun id => ⟨?_, fun mem => ?_⟩⟩
  · rintro ⟨k, path⟩
    rcases complete id _ ((h.path listed).mpr path) with rfl | ⟨found, mem⟩
    · exact absurd path (acyclic published)
    · exact List.mem_map.mpr ⟨_, mem, rfl⟩
  · obtain ⟨⟨i, found⟩, isMem, rfl⟩ := List.mem_map.mp mem
    have path := (distances i found isMem).1
    cases depth : found.depth with
    | zero =>
        rw [depth] at path
        cases path
        exact absurd mem (List.nodup_cons.mp unique).1
    | succ k => exact ⟨k, depth ▸ path⟩

end Searching

/-! ## The list -/

/-- An entry of the list: the published revision, and its impact. -/
def impactEntry (s : Store) (t : Traversed) (id : Digest) : Option (DocumentRevision × Impact) :=
  (publishedAt s id).bind fun r => (t.impact id).map fun impact => (r, impact)

/-- The whole list of a checkpoint, of which the pages show a part each. -/
def impactList (s : Store) (all : List RevisionBrowseRef) (digest : Digest) :
    List (DocumentRevision × Impact) :=
  match impactAt s all digest with
  | .error _ => []
  | .ok (_, t) => t.affected.filterMap (impactEntry s t)

/-- **What the list says.**  It has every revision that depends on the digest over one edge or
more, and no other; the kind and the depth are those of the paths; the order is that of the
kind, the depth and the digest. -/
structure ImpactExact (s : Store) (d : Digest) (list : List (DocumentRevision × Impact)) :
    Prop where
  unique : (list.map fun entry => entry.1.revisionDigest).Nodup
  published : ∀ entry ∈ list, publishedAt s entry.1.revisionDigest = some entry.1
  affected : ∀ id, id ∈ list.map (fun entry => entry.1.revisionDigest) ↔
    ∃ k, Path (dependsOn s false) id (k + 1) d
  required : ∀ entry ∈ list, entry.2.kind = .required ↔
    ∃ k, Path (dependsOn s true) entry.1.revisionDigest (k + 1) d
  depth : ∀ entry ∈ list, Bfs.Distance (dependsOn s (entry.2.kind == .required))
    entry.1.revisionDigest d entry.2.depth
  ordered : list.Pairwise fun a b =>
    impactOrder a.2.kind a.2.depth a.1.revisionDigest <
      impactOrder b.2.kind b.2.depth b.1.revisionDigest

/-- How many entries have the kind. -/
def countKind (kind : ImpactKind) (list : List (DocumentRevision × Impact)) : Nat :=
  list.countP fun entry => entry.2.kind = kind

section Listing

variable {s : Store} {g : Gathered} {t : Traversed} {all : List RevisionBrowseRef} {d id : Digest}

theorem impactEntry_some {entry : DocumentRevision × Impact} :
    impactEntry s t id = some entry ↔
      publishedAt s id = some entry.1 ∧ t.impact id = some entry.2 := by
  unfold impactEntry
  cases publishedAt s id with
  | none => simp
  | some r =>
      cases t.impact id with
      | none => simp
      | some impact => simp [Prod.ext_iff]

/-- The digest is a digest of the list. -/
theorem impactEntry_digest {entry : DocumentRevision × Impact}
    (is : impactEntry s t id = some entry) : entry.1.revisionDigest = id :=
  (publishedAt_some.mp (impactEntry_some.mp is).1).2

/-- What is known of both searches. -/
structure Searched (s : Store) (d : Digest) (t : Traversed) : Prop where
  unique : (t.all.map Prod.fst).Nodup
  uniqueRequired : (t.required.map Prod.fst).Nodup
  distance : ∀ id found, (id, found) ∈ t.all →
    Bfs.Distance (dependsOn s false) id d found.depth
  distanceRequired : ∀ id found, (id, found) ∈ t.required →
    Bfs.Distance (dependsOn s true) id d found.depth
  affected : ∀ id, (∃ k, Path (dependsOn s false) id (k + 1) d) ↔ id ∈ t.all.map Prod.fst
  required : ∀ id, (∃ k, Path (dependsOn s true) id (k + 1) d) ↔ id ∈ t.required.map Prod.fst

theorem Gathers.searched (h : Gathers g all (all.flatMap (referencesOf s)))
    (listed : Listed s all) (published : Published s)
    (known : d ∈ all.map RevisionBrowseRef.revisionDigest) : Searched s d (traversed g d) := by
  obtain ⟨unique, distance, affected⟩ :=
    h.traverse_exact false listed published known
  obtain ⟨uniqueRequired, distanceRequired, required⟩ :=
    h.traverse_exact true listed published known
  exact ⟨(List.nodup_cons.mp unique).2, (List.nodup_cons.mp uniqueRequired).2, distance,
    distanceRequired, affected, required⟩

/-- A required edge is an edge. -/
theorem dependsOn_required {a b : Digest} (edge : Edge (dependsOn s true) a b) :
    Edge (dependsOn s false) a b := by
  obtain ⟨r, published, dependency, mem, target, -⟩ := edge_dependsOn.mp edge
  exact edge_dependsOn.mpr ⟨r, published, dependency, mem, target, rfl⟩

theorem path_required {a b : Digest} {k : Nat} (path : Path (dependsOn s true) a k b) :
    Path (dependsOn s false) a k b := by
  induction path with
  | nil => exact .nil
  | cons edge _ ih => exact .cons (dependsOn_required edge) ih

theorem Searched.subset (h : Searched s d t) {id : Digest}
    (mem : id ∈ t.required.map Prod.fst) : id ∈ t.all.map Prod.fst := by
  obtain ⟨k, path⟩ := (h.required id).mpr mem
  exact (h.affected id).mp ⟨k, path_required path⟩

theorem Searched.kind (h : Searched s d t) :
    t.kind id = .required ↔ id ∈ t.required.map Prod.fst := by
  have := h.uniqueRequired
  unfold Traversed.kind
  cases hit : t.required.find id with
  | none =>
      rw [Writes.find_eq_none] at hit
      simp [hit]
  | some found => simpa using ⟨found, Writes.mem_of_find hit⟩

/-- What was found of an affected revision. -/
theorem Searched.found (h : Searched s d t) (mem : id ∈ t.all.map Prod.fst) :
    ∃ found, t.found id = some found ∧
      Bfs.Distance (dependsOn s (t.kind id == .required)) id d found.depth := by
  unfold Traversed.found Traversed.kind
  cases hit : t.required.find id with
  | some found => exact ⟨found, rfl, h.distanceRequired id found (Writes.mem_of_find hit)⟩
  | none =>
      cases other : t.all.find id with
      | none => exact absurd mem (Writes.find_eq_none.mp other)
      | some found => exact ⟨found, rfl, h.distance id found (Writes.mem_of_find other)⟩

theorem Searched.entry (h : Searched s d t) (mem : id ∈ t.all.map Prod.fst) :
    ∃ entry, impactEntry s t id = some entry ∧ entry.2.kind = t.kind id ∧
      Bfs.Distance (dependsOn s (entry.2.kind == .required)) id d entry.2.depth ∧
      impactOrder entry.2.kind entry.2.depth id = t.order id := by
  obtain ⟨found, is, distance⟩ := h.found mem
  obtain ⟨k, path⟩ := (h.affected id).mpr mem
  have published : ∃ r, publishedAt s id = some r := by
    cases path with
    | cons edge _ =>
        obtain ⟨r, published, -⟩ := edge_dependsOn.mp edge
        exact ⟨r, published⟩
  obtain ⟨r, published⟩ := published
  refine ⟨(r, ⟨t.kind id, found.via, found.depth, found.label.relationship⟩),
    impactEntry_some.mpr ⟨published, ?_⟩, rfl, distance, ?_⟩
  · rw [Traversed.impact, is]
    rfl
  · rw [Traversed.order, is]
    rfl

omit [Sha256] in
theorem Traversed.mem_affected : id ∈ t.affected ↔ id ∈ t.all.map Prod.fst :=
  List.mem_mergeSort

/-- The entries stand for the affected digests, one by one. -/
theorem Searched.entries (h : Searched s d t) (ids : List Digest)
    (affected : ∀ id ∈ ids, id ∈ t.all.map Prod.fst) :
    List.Forall₂ (fun id entry => impactEntry s t id = some entry) ids
      (ids.filterMap (impactEntry s t)) := by
  induction ids with
  | nil => exact .nil
  | cons id rest ih =>
      obtain ⟨entry, is, -⟩ := h.entry (affected id List.mem_cons_self)
      rw [List.filterMap_cons, is]
      exact .cons is (ih fun id mem => affected id (List.mem_cons_of_mem _ mem))

theorem Searched.digests (h : Searched s d t) :
    (t.affected.filterMap (impactEntry s t)).map (fun entry => entry.1.revisionDigest) =
      t.affected := by
  have entries := h.entries t.affected fun id mem => Traversed.mem_affected.mp mem
  generalize t.affected.filterMap (impactEntry s t) = list at entries ⊢
  generalize t.affected = ids at entries ⊢
  induction entries with
  | nil => rfl
  | cons is _ ih => rw [List.map_cons, impactEntry_digest is, ih]

/-- **The list is exact.** -/
theorem Searched.exact (h : Searched s d t) :
    ImpactExact s d (t.affected.filterMap (impactEntry s t)) := by
  have unique : t.affected.Nodup := List.nodup_mergeSort.mpr h.unique
  have inside : ∀ entry ∈ t.affected.filterMap (impactEntry s t),
      entry.1.revisionDigest ∈ t.all.map Prod.fst ∧
        impactEntry s t entry.1.revisionDigest = some entry := by
    intro entry mem
    obtain ⟨id, isMem, is⟩ := List.mem_filterMap.mp mem
    obtain rfl := impactEntry_digest is
    exact ⟨Traversed.mem_affected.mp isMem, is⟩
  have described : ∀ entry ∈ t.affected.filterMap (impactEntry s t),
      entry.2.kind = t.kind entry.1.revisionDigest ∧
        Bfs.Distance (dependsOn s (entry.2.kind == .required)) entry.1.revisionDigest d
          entry.2.depth ∧
        impactOrder entry.2.kind entry.2.depth entry.1.revisionDigest =
          t.order entry.1.revisionDigest := by
    intro entry mem
    obtain ⟨isMem, is⟩ := inside entry mem
    obtain ⟨other, same, facts⟩ := h.entry isMem
    rw [is] at same
    obtain rfl := Option.some.inj same
    exact facts
  have sorted : t.affected.Pairwise fun a b => t.order a < t.order b := by
    have le : t.affected.Pairwise fun a b => t.order a ≤ t.order b := by
      have total : ∀ a b : Digest, (decide (t.order a ≤ t.order b) ||
          decide (t.order b ≤ t.order a)) = true := fun a b => by
        simpa using le_total (t.order a) (t.order b)
      have trans : ∀ a b c : Digest, decide (t.order a ≤ t.order b) = true →
          decide (t.order b ≤ t.order c) = true → decide (t.order a ≤ t.order c) = true :=
        fun a b c ab bc => decide_eq_true
          (le_trans (of_decide_eq_true ab) (of_decide_eq_true bc))
      have sorts : t.affected.Pairwise fun a b => decide (t.order a ≤ t.order b) = true := by
        apply List.pairwise_mergeSort trans total
      exact sorts.imp fun le => of_decide_eq_true le
    refine (le.and unique).imp fun ⟨le, other⟩ => lt_of_le_of_ne le fun same => other ?_
    have third := congrArg (fun o => (ofLex (ofLex o).2).2) same
    exact Subtype.ext third
  exact
    { unique := by
        rw [h.digests]
        exact unique
      published := fun entry mem => (impactEntry_some.mp (inside entry mem).2).1
      affected := fun id => by
        rw [h.digests, Traversed.mem_affected, h.affected]
      required := fun entry mem => by
        rw [(described entry mem).1, h.kind, h.required]
      depth := fun entry mem => (described entry mem).2.1
      ordered := by
        have digests := h.digests
        rw [← digests, List.pairwise_map] at sorted
        refine sorted.imp_of_mem fun memA memB lt => ?_
        rw [(described _ memA).2.2, (described _ memB).2.2]
        exact lt }

/-! ## The counts -/

theorem Searched.length (h : Searched s d t) :
    (t.affected.filterMap (impactEntry s t)).length = t.affected.length := by
  have digests := congrArg List.length h.digests
  rwa [List.length_map] at digests

omit [Sha256] in
theorem affected_length : t.affected.length = t.all.length := by
  rw [Traversed.affected, (List.mergeSort_perm _ _).length_eq, List.length_map]

/-- Each revision that was found over required edges counts as required, and no other. -/
theorem Searched.required_count (h : Searched s d t) :
    t.required.length = countKind .required (t.affected.filterMap (impactEntry s t)) := by
  have digests := h.digests
  have exact := h.exact
  set list := t.affected.filterMap (impactEntry s t) with is
  have same : List.Perm ((list.filter fun entry => entry.2.kind = .required).map
      fun entry => entry.1.revisionDigest) (t.required.map Prod.fst) := by
    rw [List.perm_ext_iff_of_nodup (exact.unique.sublist (List.filter_sublist.map _))
      h.uniqueRequired]
    intro id
    simp only [List.mem_map, List.mem_filter, decide_eq_true_eq]
    constructor
    · rintro ⟨entry, ⟨mem, kind⟩, rfl⟩
      exact List.mem_map.mp ((h.required _).mp ((exact.required entry mem).mp kind))
    · intro mem
      have inside := h.subset (List.mem_map.mpr mem)
      rw [← h.affected, ← exact.affected, List.mem_map] at inside
      obtain ⟨entry, isMem, rfl⟩ := inside
      exact ⟨entry, ⟨isMem, (exact.required entry isMem).mpr
        ((h.required _).mpr (List.mem_map.mpr mem))⟩, rfl⟩
  have keys : (t.required.map Prod.fst).length = t.required.length := List.length_map _
  rw [countKind, List.countP_eq_length_filter, ← keys, ← same.length_eq, List.length_map]

omit [Sha256] in
theorem countKind_add (list : List (DocumentRevision × Impact)) :
    countKind .required list + countKind .informational list = list.length := by
  induction list with
  | nil => rfl
  | cons entry rest ih =>
      unfold countKind at ih ⊢
      rw [List.countP_cons, List.countP_cons, List.length_cons, ← ih]
      cases entry.2.kind <;> simp <;> omega

end Listing

/-! ## The requests -/

section Requests

variable {C : Type} [CursorSeal C] {ledger : ReadLedger C} {head : C} {actor : Actor} {d : Digest}
  {input : PageInput} {p : ImpactPage C}

theorem pageBinding_isOk (actor : Actor) (kind : String) (filter : Value)
    (fits : canonicalizable filter 1 = true) :
    ∃ binding, ofDomain (pageBinding actor kind filter) = .ok binding := by
  obtain ⟨text, run⟩ := canonicalize_isOk (v := .arr [jsonString actor.orgId.1,
    jsonString actor.actorId.1, jsonString actor.kind.text, jsonString kind, filter]) (by
      simp [canonicalizable, canonicalizableItems, jsonString, fits, maxCanonicalArrayItems,
        maxCanonicalDepth])
  refine ⟨Sha256.hexDigest text, ?_⟩
  unfold pageBinding
  rw [run]
  rfl

theorem gather_ok {s : Store} {all : List RevisionBrowseRef} (listed : Listed s all)
    (capacity : WithinCapacity s all) :
    ∃ g, gather s all = .ok g ∧ Gathers g all (all.flatMap (referencesOf s)) := by
  have start : Gathers ⟨[], [], 0⟩ (all.take 0) ((all.take 0).flatMap (referencesOf s)) :=
    Gathers.start
  exact start.batches listed.indexed listed.unique capacity.1 capacity.2

/-- Within the capacity, a published digest is answered. -/
theorem impactAt_ok {s : Store} {all : List RevisionBrowseRef} (listed : Listed s all)
    (published : Published s) (capacity : WithinCapacity s all)
    (known : d ∈ all.map RevisionBrowseRef.revisionDigest) :
    ∃ g, impactAt s all d = .ok (g, traversed g d) ∧ Searched s d (traversed g d) ∧
      Gathers g all (all.flatMap (referencesOf s)) := by
  obtain ⟨g, run, gathers⟩ := gather_ok listed capacity
  obtain ⟨ref, isRef, same⟩ := List.mem_map.mp known
  have hit := (gathers.find listed.unique).mpr ⟨isRef, same⟩
  refine ⟨g, ?_, gathers.searched listed published known, gathers⟩
  unfold impactAt
  rw [run, ok_bind, hit, gathers.checked listed published]
  rfl

theorem impactAt_unknown {s : Store} {all : List RevisionBrowseRef} (listed : Listed s all)
    (capacity : WithinCapacity s all) (unknown : d ∉ all.map RevisionBrowseRef.revisionDigest) :
    impactAt s all d = apiFail "NOT_FOUND" "공유 개정을 찾을 수 없습니다." 404 := by
  obtain ⟨g, run, gathers⟩ := gather_ok listed capacity
  have miss : g.refs.find d = none := by
    rw [Writes.find_eq_none, gathers.refs, List.map_map]
    exact unknown
  unfold impactAt
  rw [run, ok_bind, miss]
  rfl

theorem describeImpact_ok {s : Store} {all : List RevisionBrowseRef} {g : Gathered}
    {t : Traversed} (listed : Listed s all) (gathers : Gathers g all (all.flatMap (referencesOf s)))
    {id : Digest} {entry : DocumentRevision × Impact} (is : impactEntry s t id = some entry) :
    describeImpact s g t id = .ok entry := by
  obtain ⟨published, impact⟩ := impactEntry_some.mp is
  obtain ⟨ref, isRef, rfl⟩ := List.mem_map.mp (listed.complete _ _ published)
  unfold describeImpact
  rw [(gathers.find listed.unique).mpr ⟨isRef, rfl⟩, impact]
  dsimp only
  rw [readIndexedRevision_ok (listed.indexed ref isRef) published]
  rfl

omit [Sha256] in
theorem mapM_forall₂ {α β ε : Type} {f : α → Except ε β} {l : List α} {m : List β}
    (each : List.Forall₂ (fun a b => f a = .ok b) l m) : l.mapM f = .ok m := by
  induction each with
  | nil => rfl
  | cons first _ ih =>
      rw [List.mapM_cons, first, ok_bind, ih]
      rfl

/-- The page that a list is answered with. -/
def impactPage (d : Digest) (ctx : PageContext C) (list : List (DocumentRevision × Impact)) :
    ImpactPage C where
  revisionDigest := d
  checkpoint := ctx.checkpoint
  revisions := (list.drop ctx.offset).take ctx.limit
  total := list.length
  requiredCount := countKind .required list
  informationalCount := countKind .informational list
  nextCursor := nextCursor ctx list.length none

/-- **One request.**  Within the capacity, a digest that is published at the checkpoint of the
page is answered with a part of the exact list, and another digest is not found. -/
theorem revisionImpact_eq {binding : String} {ctx : PageContext C}
    (bound : ofDomain (pageBinding actor "revision-impact" (jsonString d.1)) = .ok binding)
    (asked : page ledger head binding input = .ok ctx)
    (listed : Listed (ledger.state ctx.checkpoint) (ledger.revisions ctx.checkpoint))
    (published : Published (ledger.state ctx.checkpoint))
    (capacity : WithinCapacity (ledger.state ctx.checkpoint) (ledger.revisions ctx.checkpoint)) :
    let list := impactList (ledger.state ctx.checkpoint) (ledger.revisions ctx.checkpoint) d
    ((∃ r, publishedAt (ledger.state ctx.checkpoint) d = some r) →
      ImpactExact (ledger.state ctx.checkpoint) d list) ∧
    revisionImpact ledger head (.ok ()) (.ok ()) actor d.1 input =
      if (publishedAt (ledger.state ctx.checkpoint) d).isSome then .ok (impactPage d ctx list)
      else apiFail "NOT_FOUND" "공유 개정을 찾을 수 없습니다." 404 := by
  dsimp only
  unfold revisionImpact
  rw [dif_pos d.2]
  simp only [ok_bind, Subtype.coe_eta, bound, asked]
  by_cases known : d ∈ (ledger.revisions ctx.checkpoint).map RevisionBrowseRef.revisionDigest
  · obtain ⟨g, run, searched, gathers⟩ := impactAt_ok listed published capacity known
    obtain ⟨ref, isRef, same⟩ := List.mem_map.mp known
    obtain ⟨-, r, is, -⟩ := listed.indexed ref isRef
    rw [same] at is
    have entries := searched.entries (traversed g d).affected fun id mem =>
      Traversed.mem_affected.mp mem
    have list : impactList (ledger.state ctx.checkpoint) (ledger.revisions ctx.checkpoint) d =
        (traversed g d).affected.filterMap
          (impactEntry (ledger.state ctx.checkpoint) (traversed g d)) := by
      unfold impactList
      rw [run]
    have selected := mapM_forall₂ ((List.forall₂_take ctx.limit
      (List.forall₂_drop ctx.offset entries)).imp fun _ _ is => describeImpact_ok listed gathers is)
    have total := searched.length
    have required := searched.required_count
    have sum := countKind_add ((traversed g d).affected.filterMap
      (impactEntry (ledger.state ctx.checkpoint) (traversed g d)))
    refine ⟨fun _ => list ▸ searched.exact, ?_⟩
    rw [run, is, if_pos Option.isSome_some, list]
    simp only [ok_bind, selected]
    unfold impactPage
    have informational : (traversed g d).all.length - (traversed g d).required.length =
        countKind .informational ((traversed g d).affected.filterMap
          (impactEntry (ledger.state ctx.checkpoint) (traversed g d))) := by
      rw [← affected_length, ← total, required]
      omega
    rw [informational, required, total]
    rfl
  · have unpublished : publishedAt (ledger.state ctx.checkpoint) d = none := by
      cases is : publishedAt (ledger.state ctx.checkpoint) d with
      | none => rfl
      | some r => exact absurd (listed.complete _ r is) known
    rw [impactAt_unknown listed capacity known, unpublished]
    exact ⟨nofun, rfl⟩

/-- What is asked for, and what is answered, at some time. -/
def ImpactAsked (ledger : ReadLedger C) (actor : Actor) (d : Digest) (input : PageInput)
    (p : ImpactPage C) : Prop :=
  ∃ head, revisionImpact ledger head (.ok ()) (.ok ()) actor d.1 input = .ok p

/-- What is answered is a page of the list. -/
theorem ImpactAsked.answer {binding : String}
    (listed : ∀ c, Listed (ledger.state c) (ledger.revisions c))
    (published : ∀ c, Published (ledger.state c))
    (bound : ofDomain (pageBinding actor "revision-impact" (jsonString d.1)) = .ok binding)
    (asked : ImpactAsked ledger actor d input p)
    (capacity : WithinCapacity (ledger.state p.checkpoint) (ledger.revisions p.checkpoint)) :
    ∃ head ctx, page ledger head binding input = .ok ctx ∧
      p = impactPage d ctx
        (impactList (ledger.state ctx.checkpoint) (ledger.revisions ctx.checkpoint) d) ∧
      (∃ r, publishedAt (ledger.state ctx.checkpoint) d = some r) ∧
      ImpactExact (ledger.state ctx.checkpoint) d
        (impactList (ledger.state ctx.checkpoint) (ledger.revisions ctx.checkpoint) d) := by
  obtain ⟨head, run⟩ := asked
  have steps := run
  unfold revisionImpact at steps
  rw [dif_pos d.2] at steps
  simp only [ok_bind, Subtype.coe_eta, bound, bind_ok, pure_ok] at steps
  obtain ⟨ctx, paged, _, _, _, _, rfl⟩ := steps
  obtain ⟨exact, is⟩ := revisionImpact_eq bound paged (listed _) (published _) capacity
  rw [run] at is
  split_ifs at is with known
  · obtain ⟨r, isPublished⟩ := Option.isSome_iff_exists.mp known
    exact ⟨head, ctx, paged, Except.ok.inj is, ⟨r, isPublished⟩, exact ⟨r, isPublished⟩⟩
  · cases is

/-- A digest that is published is answered. -/
theorem revisionImpact_first (listed : ∀ c, Listed (ledger.state c) (ledger.revisions c))
    (published : ∀ c, Published (ledger.state c)) {limit : Option Value} {n : Nat} {c : C}
    (limited : pageLimit limit = some n)
    (capacity : WithinCapacity (ledger.state c) (ledger.revisions c))
    (known : ∃ r, publishedAt (ledger.state c) d = some r) :
    ∃ p, p.checkpoint = c ∧
      revisionImpact ledger c (.ok ()) (.ok ()) actor d.1 ⟨limit, none⟩ = .ok p := by
  obtain ⟨binding, bound⟩ := pageBinding_isOk actor "revision-impact" (jsonString d.1) rfl
  have paged : page ledger c binding ⟨limit, none⟩ = .ok ⟨n, 0, c, binding, none⟩ := by
    unfold page
    rw [limited]
  obtain ⟨-, is⟩ := revisionImpact_eq bound paged (listed c) (published c) capacity
  rw [if_pos (Option.isSome_iff_exists.mpr known)] at is
  exact ⟨_, rfl, is⟩

/-- The request for the page after an answer is answered. -/
theorem revisionImpact_next (listed : ∀ c, Listed (ledger.state c) (ledger.revisions c))
    (published : ∀ c, Published (ledger.state c)) {limit : Option Value} {n : Nat} {text : String}
    (limited : pageLimit limit = some n) (asked : ImpactAsked ledger actor d input p)
    (capacity : WithinCapacity (ledger.state p.checkpoint) (ledger.revisions p.checkpoint))
    (accepts : ledger.accepts p.checkpoint = true) (follow : p.nextCursor = some text) (head : C) :
    ∃ q, q.checkpoint = p.checkpoint ∧
      revisionImpact ledger head (.ok ()) (.ok ()) actor d.1 ⟨limit, some text⟩ = .ok q := by
  obtain ⟨binding, bound⟩ := pageBinding_isOk actor "revision-impact" (jsonString d.1) rfl
  obtain ⟨first, ctx, paged, rfl, known, -⟩ := asked.answer listed published bound capacity
  obtain ⟨-, rfl⟩ := nextCursor_some.mp follow
  have next : page ledger head binding ⟨limit, some (CursorSeal.sealed ⟨ctx.binding,
      ctx.checkpoint, ctx.offset + ctx.limit, none⟩)⟩ =
      .ok ⟨n, ctx.offset + ctx.limit, ctx.checkpoint, binding, none⟩ :=
    page_sealed.mpr ⟨(page_limit paged).2.2, accepts, n, limited, rfl⟩
  obtain ⟨-, is⟩ := revisionImpact_eq bound next (listed _) (published _) capacity
  rw [if_pos (Option.isSome_iff_exists.mpr known)] at is
  refine ⟨_, ?_, is⟩
  rfl

/-- What a chain of pages says of a list: the parts of it, at one checkpoint, and the counts of
the whole on every page. -/
structure ImpactPages (ledger : ReadLedger C) (d : Digest) (ps : List (ImpactPage C)) (c : C)
    (list : List (DocumentRevision × Impact)) : Prop where
  exact : ImpactExact (ledger.state c) d list
  checkpoint : ∀ p ∈ ps, p.checkpoint = c
  total : ∀ p ∈ ps, p.total = list.length
  required_count : ∀ p ∈ ps, p.requiredCount = countKind .required list
  informational_count : ∀ p ∈ ps, p.informationalCount = countKind .informational list
  sum : ∀ p ∈ ps, p.requiredCount + p.informationalCount = p.total
  initial : ps.flatMap ImpactPage.revisions <+: list
  bounded : ps.length ≤ list.length + 1
  complete : (∀ p, ps.getLast? = some p → p.nextCursor = none) →
    ps.flatMap ImpactPage.revisions = list

/-- The pages that follow from a request without a cursor. -/
theorem impact_pages {ps : List (ImpactPage C)}
    (listed : ∀ c, Listed (ledger.state c) (ledger.revisions c))
    (published : ∀ c, Published (ledger.state c))
    (capacity : ∀ p ∈ ps, WithinCapacity (ledger.state p.checkpoint) (ledger.revisions p.checkpoint))
    (pages : Pages (ImpactAsked ledger actor d) ImpactPage.nextCursor none ps) :
    ∃ c list, ImpactPages ledger d ps c list := by
  obtain ⟨binding, bound⟩ := pageBinding_isOk actor "revision-impact" (jsonString d.1) rfl
  let all : C → List (DocumentRevision × Impact) := fun c =>
    impactList (ledger.state c) (ledger.revisions c) d
  let request : PageInput → ImpactPage C → Prop := fun input p =>
    ImpactAsked ledger actor d input p ∧
      WithinCapacity (ledger.state p.checkpoint) (ledger.revisions p.checkpoint)
  have within : Pages request ImpactPage.nextCursor none ps :=
    pages.mono fun p mem input asked => ⟨asked, capacity p mem⟩
  have answers : ∀ p ∈ ps, ∃ ctx : PageContext C, p = impactPage d ctx (all ctx.checkpoint) ∧
      ImpactExact (ledger.state ctx.checkpoint) d (all ctx.checkpoint) := by
    intro p mem
    obtain ⟨input, asked⟩ := pages.asked.2 p mem
    obtain ⟨_, ctx, _, is, _, exact⟩ := asked.answer listed published bound (capacity p mem)
    exact ⟨ctx, is, exact⟩
  have cuts : ∀ input p, request input p → ∃ head ctx, page ledger head binding input = .ok ctx ∧
      Cut ImpactPage.nextCursor ImpactPage.checkpoint ImpactPage.revisions all ctx p := by
    intro input p asked
    obtain ⟨head, ctx, paged, rfl, -⟩ := asked.1.answer listed published bound asked.2
    exact ⟨head, ctx, paged, rfl, rfl, none, rfl⟩
  obtain ⟨c, offset, enumerates, first, -⟩ := within.enumerates cuts
  rw [first rfl, List.drop_zero] at enumerates
  have cut : ∀ p ∈ ps, ∃ ctx : PageContext C, ctx.checkpoint = c ∧ p = impactPage d ctx (all c) := by
    intro p mem
    obtain ⟨ctx, rfl, -⟩ := answers p mem
    have same : ctx.checkpoint = c := enumerates.checkpoint _ mem
    exact ⟨ctx, same, by rw [same]⟩
  obtain ⟨p, mem⟩ := List.exists_mem_of_ne_nil _ pages.asked.1
  obtain ⟨ctx, rfl, exact⟩ := answers p mem
  obtain rfl : ctx.checkpoint = c := enumerates.checkpoint _ mem
  refine ⟨ctx.checkpoint, all ctx.checkpoint, exact, enumerates.checkpoint, ?_, ?_, ?_, ?_,
    enumerates.initial, enumerates.bounded, enumerates.complete⟩
  all_goals
    intro q inside
    obtain ⟨other, _, rfl⟩ := cut q inside
  · rfl
  · rfl
  · rfl
  · exact countKind_add _

/-- **Impact analysis is exact.**  A published digest is answered at every checkpoint within
the capacity, every cursor that is given leads on, and the pages show the exact list. -/
theorem revision_impact_exact (listed : ∀ c, Listed (ledger.state c) (ledger.revisions c))
    (published : ∀ c, Published (ledger.state c)) :
    (∀ c limit n, pageLimit limit = some n → WithinCapacity (ledger.state c) (ledger.revisions c) →
      (∃ r, publishedAt (ledger.state c) d = some r) → ∃ p, p.checkpoint = c ∧
        revisionImpact ledger c (.ok ()) (.ok ()) actor d.1 ⟨limit, none⟩ = .ok p) ∧
    (∀ input p text limit n, ImpactAsked ledger actor d input p → p.nextCursor = some text →
      WithinCapacity (ledger.state p.checkpoint) (ledger.revisions p.checkpoint) →
      ledger.accepts p.checkpoint = true → pageLimit limit = some n →
      ∀ head, ∃ q, q.checkpoint = p.checkpoint ∧
        revisionImpact ledger head (.ok ()) (.ok ()) actor d.1 ⟨limit, some text⟩ = .ok q) ∧
    ∀ ps, (∀ p ∈ ps, WithinCapacity (ledger.state p.checkpoint) (ledger.revisions p.checkpoint)) →
      Pages (ImpactAsked ledger actor d) ImpactPage.nextCursor none ps →
      ∃ c list, ImpactPages ledger d ps c list := by
  refine ⟨fun c limit n limited capacity known => ?_,
    fun input p text limit n asked follow capacity accepts limited => ?_,
    fun ps capacity pages => impact_pages listed published capacity pages⟩
  · exact revisionImpact_first listed published limited capacity known
  · exact revisionImpact_next listed published limited asked capacity accepts follow

end Requests

end Impact

namespace Demo

open Knowledger.Demo

@[reducible] local instance impactSha256 : Sha256 := lookedUp

def browseRef (r : DocumentRevision) : RevisionBrowseRef :=
  ⟨keyFor.revision r.revisionDigest.1, r.revisionDigest, r.payload.toSlot⟩

theorem listed_holding (rs : List DocumentRevision) (valid : ∀ r ∈ rs, r.Valid)
    (unique : (rs.map DocumentRevision.revisionDigest).Nodup) :
    Listed (holding rs) (rs.map browseRef) where
  unique := by
    rw [List.map_map]
    exact unique
  indexed ref mem := by
    obtain ⟨r, inside, rfl⟩ := List.mem_map.mp mem
    refine ⟨rfl, r, ?_, rfl⟩
    rw [holding_publishedAt valid]
    cases found : rs.find? fun q => q.revisionDigest = (browseRef r).revisionDigest with
    | none => simpa [browseRef] using List.find?_eq_none.mp found r inside
    | some q =>
        have same := List.find?_some found
        rw [decide_eq_true_eq] at same
        rw [List.inj_on_of_nodup_map unique (List.mem_of_find?_eq_some found) inside same]
  complete d r published := by
    rw [holding_publishedAt valid] at published
    have named := List.find?_some published
    rw [decide_eq_true_eq] at named
    rw [List.map_map]
    exact List.mem_map.mpr ⟨r, List.mem_of_find?_eq_some published, named⟩

/-- Before and after the revisions of the chain were published. -/
def chainLedger : ReadLedger Bool where
  accepts _ := true
  state c := if c then holding chain else holding []
  revisions c := if c then chain.map browseRef else []

theorem chain_valid : ∀ r ∈ chain, r.Valid := fun r mem =>
  pages_valid r (List.mem_cons_of_mem _ mem)

theorem chain_listed (c : Bool) : Listed (chainLedger.state c) (chainLedger.revisions c) := by
  cases c with
  | false => exact listed_holding [] nofun List.nodup_nil
  | true => exact listed_holding chain chain_valid (by decide)

theorem chain_published (c : Bool) : Published (chainLedger.state c) := by
  cases c with
  | false => exact .none fun _ => rfl
  | true => exact holding_published chain_valid chain_inTurn

theorem chain_capacity : WithinCapacity (chainLedger.state true) (chainLedger.revisions true) := by
  refine ⟨by decide, ?_⟩
  have references : referencesOf (holding chain) = fun ref =>
      ((chain.find? fun r => r.revisionDigest = ref.revisionDigest).map fun r =>
        r.payload.dependencies.map (Reference.mk ref.revisionDigest)).getD [] := by
    funext ref
    rw [referencesOf, holding_publishedAt chain_valid]
  change ((chain.map browseRef).flatMap (referencesOf (holding chain))).length ≤ _
  rw [references]
  decide

@[reducible] noncomputable local instance impactSeal : CursorSeal Bool :=
  textSeal Bool.toNat (by decide)

def reader : Actor := ⟨⟨"org-a", by decide⟩, ⟨"reader", by decide⟩, .human⟩

/-- What depends on the first revision of the chain. -/
theorem revision_impact_exact_chain :
    ∃ p, ImpactAsked chainLedger reader link₀.revisionDigest ⟨none, none⟩ p ∧ p.checkpoint = true ∧
      ∃ c list, ImpactPages chainLedger link₀.revisionDigest [p] c list := by
  obtain ⟨answers, -, lists⟩ := @revision_impact_exact _ Bool _ chainLedger reader
    link₀.revisionDigest chain_listed chain_published
  obtain ⟨p, at_, run⟩ := answers true none 20 rfl chain_capacity ⟨link₀, by
    change publishedAt (holding chain) _ = _
    rw [holding_publishedAt chain_valid]
    rfl⟩
  refine ⟨p, ⟨true, run⟩, at_, lists [p] (fun q mem => ?_) (.one ⟨true, run⟩)⟩
  rw [List.mem_singleton.mp mem, at_]
  exact chain_capacity

end Demo

end Knowledger.Api
