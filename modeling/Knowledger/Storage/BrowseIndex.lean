import Knowledger.Lib.Utf8
import Knowledger.Storage.PooledCache
import Knowledger.Validation

/-!
# The browse index

`VerifiedBrowseIndex` keeps compact references to the committed revisions, proposals and
agreements, latest first, and a cache of the selections that its queries made.  A commit merges
what was prepared into the lists, and drops the selections that are bound to a checkpoint at or
behind the earliest revision it brings.
-/

namespace Knowledger.Storage.Browse

open Js OrderedMap PooledCache

/-! ## References -/

structure Checkpoint where
  channelId : Str
  blockNumber : Int
  transactionIndex : Int
  transactionId : Str
  blockHash : Str
  deriving DecidableEq

def checkpointOrder (left right : Checkpoint) : Ordering :=
  (compare left.blockNumber right.blockNumber).then
    (compare left.transactionIndex right.transactionIndex)

structure RevisionBrowseRef where
  key : String
  revisionDigest : String
  slot : Slot
  publishedCheckpoint : Checkpoint
  deriving DecidableEq

structure ProposalBrowseRef where
  key : String
  proposalId : String
  revisionDigest : String
  slot : Slot
  createdAt : String
  publishedCheckpoint : Checkpoint
  deriving DecidableEq

structure AgreementBrowseRef where
  key : String
  agreementId : String
  revisionDigest : String
  slot : Slot
  activatedAt : String
  publishedCheckpoint : Checkpoint
  deriving DecidableEq

/-- What the index needs of one kind of reference. -/
structure Kind (Ref : Type) where
  key : Ref → String
  published : Ref → Checkpoint
  /-- The immutable fields are the same. -/
  staticMatches : Ref → Ref → Bool
  compare : Ref → Ref → Ordering

section Kinds

-- `String.prototype.localeCompare` of the host.
variable (localeCompare : String → String → Ordering)

def revisionKind : Kind RevisionBrowseRef where
  key := (·.key)
  published := (·.publishedCheckpoint)
  staticMatches existing next := existing.key == next.key &&
    existing.revisionDigest == next.revisionDigest && sameSlot existing.slot next.slot
  compare left right :=
    (checkpointOrder right.publishedCheckpoint left.publishedCheckpoint).then
      (localeCompare left.revisionDigest right.revisionDigest)

def proposalKind : Kind ProposalBrowseRef where
  key := (·.key)
  published := (·.publishedCheckpoint)
  staticMatches existing next := existing.key == next.key &&
    existing.proposalId == next.proposalId && existing.revisionDigest == next.revisionDigest &&
    existing.createdAt == next.createdAt && sameSlot existing.slot next.slot
  compare left right :=
    (localeCompare right.createdAt left.createdAt).then
      (localeCompare left.proposalId right.proposalId)

end Kinds

/-- The order of the code units, the greater first. -/
def descending (left right : String) : Ordering :=
  if left = right then .eq
  else if leUnits (Str.wellFormed right).units (Str.wellFormed left).units then .lt
  else .gt

def agreementKind : Kind AgreementBrowseRef where
  key := (·.key)
  published := (·.publishedCheckpoint)
  staticMatches existing next := existing.key == next.key &&
    existing.agreementId == next.agreementId && existing.revisionDigest == next.revisionDigest &&
    existing.activatedAt == next.activatedAt && sameSlot existing.slot next.slot
  compare left right :=
    (descending left.activatedAt right.activatedAt).then
      (descending left.agreementId right.agreementId)

/-! ## Merging a delta -/

section Merge

variable {Ref : Type} (kind : Kind Ref)

/-- The references in the order of the kind; `Array.prototype.sort` is stable. -/
def sorted (refs : List Ref) : List Ref := refs.mergeSort fun a b => kind.compare a b != .gt

/-- New references go before the others when they are all later, and are sorted in otherwise. -/
def prependLatest (added existing : List Ref) : List Ref :=
  match added.getLast?, existing with
  | none, existing => existing
  | some _, [] => added
  | some last, first :: rest =>
      if kind.compare last first = .lt then added ++ first :: rest
      else sorted kind (added ++ first :: rest)

/-- An index of the references by a property of theirs. -/
abbrev Bucket (Ref : Type) := List (String × List Ref)

def mergeBucket (keyOf : Ref → String) (demoted incoming : List Ref) (bucket : Bucket Ref) :
    Bucket Ref :=
  let keep (item : Ref) := !(demoted.map kind.key).contains (kind.key item)
  let bucket := (demoted.map keyOf).eraseDups.foldl (fun bucket bucketKey =>
    set bucketKey (((lookup bucketKey bucket).getD []).filter keep) bucket) bucket
  let grouped : Bucket Ref := incoming.foldl (fun grouped ref =>
    set (keyOf ref) ((lookup (keyOf ref) grouped).getD [] ++ [ref]) grouped) []
  grouped.foldl (fun bucket group =>
    set group.1 (prependLatest kind (sorted kind group.2) ((lookup group.1 bucket).getD []))
      bucket) bucket

def mergeByKey (demoted incoming : List Ref) (byKey : List (String × Ref)) : List (String × Ref) :=
  let byKey := (demoted.map kind.key).foldl (fun byKey key => delete key byKey) byKey
  incoming.foldl (fun byKey ref => set (kind.key ref) ref byKey) byKey

def mergeAll (demoted incoming : List Ref) (all : List Ref) : List Ref :=
  prependLatest kind incoming
    (all.filter fun item => !(demoted.map kind.key).contains (kind.key item))

/-- The added references that are new, and those that move a stored one to an earlier checkpoint.
A stored reference with other immutable fields is a conflict. -/
def compareAdded (byKey : List (String × Ref)) : List Ref → Option (List Ref × List Ref)
  | [] => some ([], [])
  | ref :: added =>
      match lookup (kind.key ref) byKey with
      | none => (compareAdded byKey added).map fun (fresh, demoted) => (ref :: fresh, demoted)
      | some existing =>
          if kind.staticMatches existing ref then
            (compareAdded byKey added).map fun (fresh, demoted) =>
              if checkpointOrder (kind.published ref) (kind.published existing) = .lt
              then (fresh, ref :: demoted) else (fresh, demoted)
          else none

def collectDemoted (byKey : List (String × Ref)) : List Ref → Option (List Ref)
  | [] => some []
  | ref :: candidates =>
      match lookup (kind.key ref) byKey with
      | none => collectDemoted byKey candidates
      | some existing =>
          if kind.staticMatches existing ref then
            (collectDemoted byKey candidates).map fun demoted =>
              if checkpointOrder (kind.published ref) (kind.published existing) = .lt
              then ref :: demoted else demoted
          else none

end Merge

/-! ## The index -/

structure BrowseState where
  revisionsByKey : List (String × RevisionBrowseRef)
  revisions : List RevisionBrowseRef
  revisionsBySlot : Bucket RevisionBrowseRef
  revisionsByDocument : Bucket RevisionBrowseRef
  proposalsByKey : List (String × ProposalBrowseRef)
  proposals : List ProposalBrowseRef
  proposalsByRevision : Bucket ProposalBrowseRef
  agreementsByKey : List (String × AgreementBrowseRef)
  agreementsByRevision : Bucket AgreementBrowseRef

def emptyState : BrowseState := ⟨[], [], [], [], [], [], [], [], []⟩

/-- The selection cache: lists of references by the text of a query, each bound to its
checkpoint. -/
abbrev RevisionCache := PooledCache (List Char) RevisionBrowseRef Checkpoint

structure VerifiedBrowseIndex where
  channelId : Str
  limits : CacheLimits
  state : BrowseState
  revisionCache : RevisionCache

def VerifiedBrowseIndex.new (channelId : Str) (limits : CacheLimits) : VerifiedBrowseIndex :=
  ⟨channelId, limits, emptyState, .new⟩

/-- What `prepare` collects from its batches, whatever they are: what it adds, and earlier writes
of what was committed when it ran. -/
structure Prepared where
  addedRevisions : List RevisionBrowseRef
  addedProposals : List ProposalBrowseRef
  pendingAgreements : List AgreementBrowseRef
  demoteCandidatesRevisions : List RevisionBrowseRef
  demoteCandidatesProposals : List ProposalBrowseRef
  demoteCandidatesAgreements : List AgreementBrowseRef

/-- The earliest checkpoint of the references. -/
def minCommitted (first : RevisionBrowseRef) (rest : List RevisionBrowseRef) : Checkpoint :=
  (first :: rest).foldl (fun earliest ref =>
    if checkpointOrder ref.publishedCheckpoint earliest = .lt then ref.publishedCheckpoint
    else earliest) first.publishedCheckpoint

/-- A selection is stale when a revision comes in at or before its checkpoint. -/
def invalidate (touched : List RevisionBrowseRef) (cache : RevisionCache) : RevisionCache :=
  match touched with
  | [] => cache
  | first :: rest =>
      let earliest := minCommitted first rest
      cache.dropStale fun at_ => checkpointOrder earliest at_ != .gt

/-- `commit`; `none` is the throw of a conflict, which comes before any change. -/
def VerifiedBrowseIndex.commit (localeCompare : String → String → Ordering) (prepared : Prepared)
    (index : VerifiedBrowseIndex) : Option VerifiedBrowseIndex := do
  let state := index.state
  let revisions := revisionKind localeCompare
  let proposals := proposalKind localeCompare
  let agreements := agreementKind
  let (freshR, demotedR) ← compareAdded revisions state.revisionsByKey prepared.addedRevisions
  let (freshP, demotedP) ← compareAdded proposals state.proposalsByKey prepared.addedProposals
  let (freshA, demotedA) ← compareAdded agreements state.agreementsByKey prepared.pendingAgreements
  let moreR ← collectDemoted revisions state.revisionsByKey prepared.demoteCandidatesRevisions
  let moreP ← collectDemoted proposals state.proposalsByKey prepared.demoteCandidatesProposals
  let moreA ← collectDemoted agreements state.agreementsByKey prepared.demoteCandidatesAgreements
  let demotedR := demotedR ++ moreR
  let demotedP := demotedP ++ moreP
  let demotedA := demotedA ++ moreA
  let incomingR := sorted revisions (freshR ++ demotedR)
  let incomingP := sorted proposals (freshP ++ demotedP)
  let incomingA := sorted agreements (freshA ++ demotedA)
  return { index with
    revisionCache := invalidate (freshR ++ demotedR) index.revisionCache
    state := {
      revisionsByKey := mergeByKey revisions demotedR incomingR state.revisionsByKey
      revisions := mergeAll revisions demotedR incomingR state.revisions
      revisionsBySlot :=
        mergeBucket revisions (fun ref => slotKey ref.slot) demotedR incomingR state.revisionsBySlot
      revisionsByDocument := mergeBucket revisions (fun ref => ref.slot.documentId.1) demotedR
        incomingR state.revisionsByDocument
      proposalsByKey := mergeByKey proposals demotedP incomingP state.proposalsByKey
      proposals := mergeAll proposals demotedP incomingP state.proposals
      proposalsByRevision :=
        mergeBucket proposals (·.revisionDigest) demotedP incomingP state.proposalsByRevision
      agreementsByKey := mergeByKey agreements demotedA incomingA state.agreementsByKey
      agreementsByRevision :=
        mergeBucket agreements (·.revisionDigest) demotedA incomingA state.agreementsByRevision } }

/-! ## Queries -/

inductive RevisionMode
  | latestPerSlot
  | all
  | slot
  | document
  deriving DecidableEq

def RevisionMode.text : RevisionMode → String
  | .latestPerSlot => "latest-per-slot"
  | .all => "all"
  | .slot => "slot"
  | .document => "document"

/-- The slot of a query, of any shape. -/
structure SlotSelector where
  channelId : Str
  documentId : Str
  contextId : Str
  scopeId : Str
  usageScope : Str

def SlotSelector.fields (slot : SlotSelector) : List Str :=
  [slot.channelId, slot.documentId, slot.contextId, slot.scopeId, slot.usageScope]

/-- `slotKey`, which checks the shape of the slot. -/
def SlotSelector.key (slot : SlotSelector) : Except DomainError String :=
  (assertSlotShape [("channel_id", .str slot.channelId), ("document_id", .str slot.documentId),
    ("context_id", .str slot.contextId), ("scope_id", .str slot.scopeId),
    ("usage_scope", .str slot.usageScope)]).map slotKey

structure RevisionBrowseQuery where
  at_ : Checkpoint
  offset : Int
  limit : Int
  mode : RevisionMode
  slot : Option SlotSelector
  documentId : Option Str
  contextId : Option Str
  scopeId : Option Str
  usageScope : Option Str

structure BrowsePage (α : Type) where
  items : List α
  total : Nat
  deriving DecidableEq

def page {α : Type} (values : List α) (offset limit : Int) : BrowsePage α :=
  ⟨(values.drop offset.toNat).take limit.toNat, values.length⟩

/-- The text of a query, its key in the cache. -/
def revisionCacheKey (query : RevisionBrowseQuery) : List Char :=
  let slot := match query.slot with
    | some slot => Value.arr (slot.fields.map Value.str)
    | none => .null
  let selector (value : Option Str) := (value.map Value.str).getD .null
  (Value.arr [.str query.at_.channelId, .num (.int query.at_.blockNumber),
    .num (.int query.at_.transactionIndex), .str query.at_.transactionId,
    .str query.at_.blockHash, .str query.mode.text, slot, selector query.documentId,
    selector query.contextId, selector query.scopeId, selector query.usageScope]).text

def assertCheckpoint (value : Checkpoint) (channelId : Str) : Except Thrown Unit :=
  if value.channelId ≠ channelId ∨ ¬ isSafeInteger value.blockNumber ∨ value.blockNumber < 0 ∨
      ¬ isSafeInteger value.transactionIndex ∨ value.transactionIndex < -1 ∨
      (if value.transactionIndex = -1 then value.transactionId ≠ .wellFormed ""
        else value.transactionId.units.length < 1) ∨
      value.blockHash.units.length < 1
  then .error (.error "Invalid browse checkpoint")
  else .ok ()

def assertRange (offset limit : Int) : Except Thrown Unit :=
  if ¬ isSafeInteger offset ∨ offset < 0 ∨ ¬ isSafeInteger limit ∨ limit < 1 ∨ limit > 1000
  then .error (.error "Invalid browse page range")
  else .ok ()

def assertSelectors (selectors : List (Option Str)) : Except Thrown Unit :=
  if ∃ s ∈ selectors.reduceOption, s.units.length < 1
  then .error (.error "Invalid browse revision selector")
  else .ok ()

/-- The checks of the modes; the type of a mode leaves no other. -/
def assertMode (channelId : Str) (query : RevisionBrowseQuery) : Except Thrown Unit :=
  match query.mode with
  | .slot =>
      match query.slot with
      | none => .error (.error "Invalid browse slot")
      | some slot =>
          if slot.channelId ≠ channelId then .error (.error "Invalid browse slot")
          else
            match slot.key with
            | .error e => .error (.domain e)
            | .ok _ => .ok ()
  | .document =>
      if query.documentId = none then .error (.error "Invalid browse document") else .ok ()
  | .all => .ok ()
  | .latestPerSlot => .ok ()

/-- The checks of a query, made before the cache is read. -/
def VerifiedBrowseIndex.check (index : VerifiedBrowseIndex) (query : RevisionBrowseQuery) :
    Except Thrown Unit := do
  assertCheckpoint query.at_ index.channelId
  assertRange query.offset query.limit
  assertSelectors [query.documentId, query.contextId, query.scopeId, query.usageScope]
  assertMode index.channelId query

def visible (checkpoint at_ : Checkpoint) : Bool := checkpointOrder checkpoint at_ != .gt

/-- The first reference of every slot. -/
def latestPerSlot (seen : List String) : List RevisionBrowseRef → List RevisionBrowseRef
  | [] => []
  | item :: rest =>
      if slotKey item.slot ∈ seen then latestPerSlot seen rest
      else item :: latestPerSlot (slotKey item.slot :: seen) rest

/-- The selected references, computed from the lists of the index. -/
def VerifiedBrowseIndex.selected (index : VerifiedBrowseIndex) (query : RevisionBrowseQuery) :
    List RevisionBrowseRef :=
  let candidates := match query.mode with
    | .slot =>
        match query.slot.map SlotSelector.key with
        | some (.ok key) => (lookup key index.state.revisionsBySlot).getD []
        | _ => []
    | .document =>
        match query.documentId with
        | some (.wellFormed id) => (lookup id index.state.revisionsByDocument).getD []
        | _ => []
    | .all => index.state.revisions
    | .latestPerSlot => index.state.revisions
  let selects (selector : Option Str) (value : String) := match selector with
    | none => true
    | some s => s == .wellFormed value
  let selected := candidates.filter fun item =>
    visible item.publishedCheckpoint query.at_ &&
      selects query.documentId item.slot.documentId.1 &&
      selects query.contextId item.slot.contextId.1 &&
      selects query.scopeId item.slot.scopeId.1 &&
      selects query.usageScope item.slot.usageScope.1
  if query.mode = .latestPerSlot then latestPerSlot [] selected else selected

def ESTIMATED_REF_POINTER_BYTES : Nat := 16

def cacheRevisions (limits : CacheLimits) (key : List Char) (refs : List RevisionBrowseRef)
    (at_ : Checkpoint) (cache : RevisionCache) : Option RevisionCache :=
  cache.store limits key
    ⟨refs, (Utf8.encode key).length + refs.length * ESTIMATED_REF_POINTER_BYTES, at_⟩

/-- A query for revisions: its page or what it throws, and the index behind it; `none` when an
eviction does not end. -/
def VerifiedBrowseIndex.query (query : RevisionBrowseQuery) (index : VerifiedBrowseIndex) :
    Option (Except Thrown (BrowsePage RevisionBrowseRef) × VerifiedBrowseIndex) :=
  match index.check query with
  | .error e => some (.error e, index)
  | .ok _ =>
      let key := revisionCacheKey query
      match index.revisionCache.get key with
      | (some cached, cache) =>
          some (.ok (page cached.items query.offset query.limit),
            { index with revisionCache := cache })
      | (none, cache) =>
          let selected := index.selected query
          (cacheRevisions index.limits key selected query.at_ cache).map fun cache =>
            (.ok (page selected query.offset query.limit), { index with revisionCache := cache })

end Knowledger.Storage.Browse
