import Knowledger.Connectors.SourceContract
import Knowledger.Validation

/-!
# The store of a private source

One actor's record of a source, with the drafts its files were imported to and the receipts of the
operations.  An operation is one transaction: it is answered from its receipt, or performed on the
state of the expected version, and what it wrote is rolled back when it throws.  The properties of a
stored record are those of its structure, and a date is the time it was written at.
-/

namespace Knowledger.Source

open Js

/-! ## Records -/

inductive EntryStatus
  | present
  | removed
  deriving DecidableEq

/-- A time that `new Date()` can hold. -/
abbrev Instant : Type := {n : Nat // n ≤ 8640000000000000}

structure SourceEntry extends SourceFileMapping where
  sha256 : String
  byteLength : Nat
  draftId : String
  revisionDigest : String
  status : EntryStatus
  updatedAt : Instant
  origin : Option ConfluenceOrigin
  deriving DecidableEq

structure SourceState where
  sourceId : String
  version : Nat
  entries : List SourceEntry
  updatedAt : Instant
  deriving DecidableEq

def SourceEntry.isPresent (e : SourceEntry) : Bool := e.status == .present

def presentOf (entries : List SourceEntry) : List SourceEntry :=
  entries.filter SourceEntry.isPresent

def bytesOf (entries : List SourceEntry) : Nat := (entries.map (·.byteLength)).sum

/-- At most the files and the bytes that a source may hold. -/
def withinLimits (entries : List SourceEntry) : Bool :=
  Nat.ble (presentOf entries).length MAX_SOURCE_FILES &&
    Nat.ble (bytesOf (presentOf entries)) MAX_SOURCE_BYTES

def SourceEntry.valid (e : SourceEntry) : Bool :=
  (match e.origin with
   | some origin => origin.valid && e.path == pagePath origin.pageId
   | none => true) &&
    e.toSourceFileMapping.valid && isId e.draftId &&
    Nat.ble 1 e.byteLength && Nat.ble e.byteLength (256 * 1024) &&
    isDigest e.revisionDigest && isSha256 e.sha256

def SourceState.valid (s : SourceState) (id : String) : Bool :=
  isId s.sourceId && s.sourceId == id && Nat.ble 1 s.version && isSafeInteger s.version &&
    Nat.ble s.entries.length (MAX_SOURCE_FILES * 2) &&
    s.entries.all SourceEntry.valid && decide (s.entries.map (·.path)).Nodup &&
    withinLimits s.entries

def corrupt {α : Type} : Except Failure α := .error (.store "PRIVATE_SOURCE_CORRUPT" 503)

def validateSourceState (value : SourceState) (id : String) : Except Failure SourceState :=
  if value.valid id then .ok value else corrupt

/-- A draft, with where its file came from. -/
structure Draft where
  revision : Value
  filename : String
  byteLength : Nat
  sha256 : String
  sourceId : String
  path : String
  policyId : String
  policyVersion : Nat
  origin : Option ConfluenceOrigin

inductive Result
  | file (unchanged : Bool) (source : SourceState) (draftId : String)
  | reconciled (source : SourceState) (removedCount : Nat)
  deriving DecidableEq

def Result.source : Result → SourceState
  | .file _ source _ => source
  | .reconciled source _ => source

structure Receipt where
  requestDigest : String
  result : Result

/-- The private records of the actor that the operations on the source touch. -/
structure Store where
  source : Option SourceState
  drafts : List (String × Draft)
  receipts : List (String × Receipt)

def Store.empty : Store := ⟨none, [], []⟩

/-! ## Operations -/

inductive Kind
  | markdown
  | confluence
  | reconcile
  deriving DecidableEq

def Kind.text : Kind → String
  | .markdown => "markdown"
  | .confluence => "confluence"
  | .reconcile => "reconcile"

/-- `atomic`: what was written is rolled back when the operation throws. -/
def atomic {α : Type} (operation : Store → Except Failure α × Store) (s : Store) :
    Except Failure α × Store :=
  match operation s with
  | (.ok a, t) => (.ok a, t)
  | (.error e, _) => (.error e, s)

def entriesOf (state : Option SourceState) : List SourceEntry := state.elim [] (·.entries)

def versionOf (state : Option SourceState) : Nat := state.elim 0 (·.version)

def Store.get (s : Store) (id : String) : Except Failure (Option SourceState) :=
  match s.source with
  | some state => some <$> validateSourceState state id
  | none => .ok none

section

variable [Sha256]

def operationKey (id operationId : String) : String :=
  "source-op-" ++ String.ofList
    ((Sha256.hexDigest (String.ofList (Value.arr [jsonString id, jsonString operationId]).text)
      ).toList.take 48)

def requestText (kind : Kind) (id : String) (input : Fields) : Except DomainError String :=
  canonicalize (record [("kind", jsonString kind.text), ("source_id", jsonString id),
    ("input", Value.obj input)])

/-- What a receipt answers: its result, checked again. -/
def replay (id : String) (kind : Kind) (input : Fields) (digest : String) (receipt : Receipt) :
    Except Failure Result :=
  if receipt.requestDigest ≠ digest then .error (.store "IDEMPOTENCY_CONFLICT" 409)
  else if receipt.result.source.valid id then
    match kind, receipt.result with
    | .reconcile, .reconciled _ removedCount =>
        if isSafeInteger removedCount then .ok receipt.result else corrupt
    | .reconcile, .file .. => corrupt
    | _, .file _ source draftId =>
        if source.entries.any fun e => e.draftId == draftId && text (input.get "path") == some e.path
        then .ok receipt.result else corrupt
    | _, .reconciled .. => corrupt
  else corrupt

/-- The transaction of an operation. -/
def transaction (id : String) (kind : Kind) (input : Fields) (key digest : String) (expected : Nat)
    (perform : Option SourceState → Store → Except Failure Result × Store) (s : Store) :
    Except Failure Result × Store :=
  match s.receipts.lookup key with
  | some receipt => (replay id kind input digest receipt, s)
  | none =>
      match s.get id with
      | .ok state =>
          if versionOf state = expected then
            match perform state s with
            | (.ok result, t) =>
                match validateSourceState result.source id with
                | .ok source => (.ok result, { t with
                    source := some source, receipts := (key, ⟨digest, result⟩) :: t.receipts })
                | .error e => (.error e, t)
            | (.error e, t) => (.error e, t)
          else (.error (.store "SOURCE_VERSION_CONFLICT" 409), s)
      | .error e => (.error e, s)

/-- The checks of an operation's input: its key, its digest and the version it expects. -/
def admission (id : String) (input : Fields) (kind : Kind) : Except Failure (String × String × Nat) := do
  let _ ← sourceId (some (jsonString id))
  let operationId ← sourceId (input.get "operation_id")
  let expected ← sourceVersion (input.get "expected_version")
  let text ← (requestText kind id input).mapError Failure.domain
  return (operationKey id operationId, Sha256.hexDigest text, expected)

def operation (id : String) (input : Fields) (kind : Kind)
    (perform : Option SourceState → Store → Except Failure Result × Store) (s : Store) :
    Except Failure Result × Store :=
  match admission id input kind with
  | .ok (key, digest, expected) =>
      atomic (transaction id kind input key digest expected perform) s
  | .error e => (.error e, s)

/-! ## Imports -/

/-- An import whose input passed its checks. -/
structure Import where
  mapping : SourceFileMapping
  origin : Option ConfluenceOrigin
  decoded : DecodedMarkdownImport

def parseOrigin : Option Value → Except Failure (Option ConfluenceOrigin)
  | some value => some <$> confluenceOrigin value
  | none => .ok none

/-- The path of a page is that of its origin. -/
def checkPath (mapping : SourceFileMapping) : Option ConfluenceOrigin → Except Failure Unit
  | some origin =>
      if mapping.path = pagePath origin.pageId then .ok ()
      else .error (.store "INVALID_SOURCE" 400)
  | none => .ok ()

def parseImport (input : Fields) : Except Failure Import := do
  let mapping ← sourceMapping input
  let origin ← parseOrigin (input.get "origin")
  checkPath mapping origin
  let decoded ← decodeMarkdownImport (filenameOf mapping.path) (input.get "content_base64")
  return ⟨mapping, origin, decoded⟩

/-- What `build` returns. -/
structure Built where
  draftId : String
  revision : Value

/-- `revision.revision_digest` -/
def digestOf (revision : Value) : String :=
  match isRecord revision with
  | some fields => (text (fields.get "revision_digest")).getD ""
  | none => ""

/-- The provider or the site of an entry is another. -/
def originConflict (r : Import) (entries : List SourceEntry) : Bool :=
  entries.any fun e =>
    match r.origin, e.origin with
    | some origin, some other => other.cloudId != origin.cloudId
    | some _, none => true
    | none, other => other.isSome

/-- The page goes back, or its version has another content. -/
def versionConflict (r : Import) (before : Option SourceEntry) : Bool :=
  match r.origin, before.bind (·.origin) with
  | some origin, some old =>
      Nat.blt origin.pageVersion old.pageVersion ||
        origin.pageVersion == old.pageVersion && origin.adfSha256 != old.adfSha256
  | _, _ => false

/-- The file, its mapping and its origin are those of the entry. -/
def SourceEntry.same (e : SourceEntry) (r : Import) : Bool :=
  e.sha256 == r.decoded.sha256 && decide (e.toSourceFileMapping = r.mapping) &&
    decide (e.origin = r.origin)

/-- The draft of an entry still holds the file. -/
def draftHolds (actor : Actor) (r : Import) (e : SourceEntry) (s : Store) : Bool :=
  match s.drafts.lookup e.draftId with
  | some draft =>
      match validateRevision (some draft.revision) with
      | .ok revision =>
          revision.payload.bodyMarkdown.1 == r.decoded.content &&
            revision.payload.title.1 == r.mapping.title &&
            revision.revisionDigest.1 == e.revisionDigest &&
            decide (revision.payload.metadata.authorOrgId = actor.orgId) &&
            decide (revision.payload.metadata.authorId = actor.actorId) &&
            decide (draft.origin = r.origin)
      | .error _ => false
  | none => false

def draftOf (id : String) (r : Import) (built : Built) : Draft where
  revision := built.revision
  filename := r.decoded.filename
  byteLength := r.decoded.byteLength
  sha256 := r.decoded.sha256
  sourceId := id
  path := r.mapping.path
  policyId := r.mapping.policyId
  policyVersion := r.mapping.policyVersion
  origin := r.origin

/-- The draft that `build` makes is put, under an id that is new. -/
def Store.putDraft (s : Store) (id : String) (r : Import) (built : Option Built) :
    Except Failure Built × Store :=
  match built with
  | some built =>
      if (s.drafts.lookup built.draftId).isSome then (.error .constraint, s)
      else (.ok built, { s with drafts := (built.draftId, draftOf id r built) :: s.drafts })
  | none => (.error .build, s)

/-- The entries that a new path finds room in: when the list is full, the removed ones go. -/
def pruned (new : Bool) (entries : List SourceEntry) : List SourceEntry :=
  if new && Nat.ble (MAX_SOURCE_FILES * 2) entries.length then presentOf entries else entries

def entryOf (r : Import) (draftId revisionDigest : String) (now : Instant) : SourceEntry where
  toSourceFileMapping := r.mapping
  sha256 := r.decoded.sha256
  byteLength := r.decoded.byteLength
  draftId := draftId
  revisionDigest := revisionDigest
  status := .present
  updatedAt := now
  origin := r.origin

/-- The entries with one more. -/
def pushed (entries : List SourceEntry) (e : SourceEntry) : List SourceEntry :=
  entries.filter (fun other => other.path != e.path) ++ [e]

/-- The end of an import, once its draft is known. -/
def store (id : String) (state : Option SourceState) (new unchanged : Bool) (e : SourceEntry) :
    Except Failure Result :=
  let entries := pruned new (entriesOf state)
  if new && Nat.ble (MAX_SOURCE_FILES * 2) entries.length then .error (.store "SOURCE_LIMIT" 409)
  else if withinLimits (pushed entries e) then
    .ok (.file unchanged ⟨id, versionOf state + 1, pushed entries e, e.updatedAt⟩ e.draftId)
  else .error (.store "SOURCE_LIMIT" 409)

/-- A file that is new or has changed gets a draft of its own. -/
def importBuilt (id : String) (r : Import) (built : Option Built) (now : Instant)
    (state : Option SourceState) (new : Bool) (s : Store) : Except Failure Result × Store :=
  match s.putDraft id r built with
  | (.ok built, t) =>
      (store id state new false (entryOf r built.draftId (digestOf built.revision) now), t)
  | (.error e, t) => (.error e, t)

def performImport (id : String) (actor : Actor) (r : Import) (built : Option Built)
    (now : Instant) (state : Option SourceState) (s : Store) : Except Failure Result × Store :=
  if originConflict r (entriesOf state) then (.error (.store "SOURCE_ORIGIN_CONFLICT" 409), s)
  else
    let before := (entriesOf state).find? fun e => e.path == r.mapping.path
    if versionConflict r before then (.error (.store "CONFLUENCE_VERSION_CONFLICT" 409), s)
    else
      match before, state with
      | some e, some current =>
          if e.same r then
            if draftHolds actor r e s then
              if e.isPresent then (.ok (.file true current e.draftId), s)
              else (store id state false true (entryOf r e.draftId e.revisionDigest now), s)
            else (corrupt, s)
          else importBuilt id r built now state false s
      | _, _ => importBuilt id r built now state true s

def Import.kind (r : Import) : Kind := if r.origin.isSome then .confluence else .markdown

/-- `importMarkdown`; `built` is what `build` returns if it is called, unless it throws. -/
def importMarkdown (id : String) (actor : Actor) (input : Fields) (built : Option Built)
    (now : Instant) (s : Store) : Except Failure Result × Store :=
  match parseImport input with
  | .ok r => operation id input r.kind (performImport id actor r built now) s
  | .error e => (.error e, s)

/-! ## Reconciliations -/

def invalidSource {α : Type} : Except Failure α := .error (.store "INVALID_SOURCE" 400)

def eachPath : List Value → Except Failure (List String)
  | [] => .ok []
  | v :: rest => do
      let path ← sourcePath (some v)
      let paths ← eachPath rest
      return path :: paths

def parsePaths (input : Fields) : Except Failure (List String) :=
  match input.get "present_paths" with
  | some (.arr values) =>
      if values.length > MAX_SOURCE_FILES then invalidSource
      else do
        let paths ← eachPath values
        if paths.Nodup then .ok paths else invalidSource
  | _ => invalidSource

/-- A present entry of another path is removed. -/
def SourceEntry.stale (e : SourceEntry) (paths : List String) : Bool :=
  e.isPresent && !paths.contains e.path

def SourceEntry.reconcile (e : SourceEntry) (paths : List String) (now : Instant) : SourceEntry :=
  if e.stale paths then { e with status := .removed, updatedAt := now } else e

/-- The state whose present entries are those of the paths; the first call makes one. -/
def reconciledState (id : String) (paths : List String) (now : Instant) :
    Option SourceState → SourceState
  | none => ⟨id, 1, [], now⟩
  | some current =>
      let changed := current.entries.any (·.stale paths)
      ⟨id, if changed then current.version + 1 else current.version,
        current.entries.map (·.reconcile paths now), if changed then now else current.updatedAt⟩

def performReconcile (id : String) (paths : List String) (now : Instant)
    (state : Option SourceState) (s : Store) : Except Failure Result × Store :=
  if paths.any fun path => !(entriesOf state).any fun e => e.path == path && e.isPresent then
    (invalidSource, s)
  else
    (.ok (.reconciled (reconciledState id paths now state)
      ((entriesOf state).filter (·.stale paths)).length), s)

def reconcile (id : String) (input : Fields) (now : Instant) (s : Store) :
    Except Failure Result × Store :=
  match parsePaths input with
  | .ok paths => operation id input .reconcile (performReconcile id paths now) s
  | .error e => (.error e, s)

/-! ## Calls -/

inductive Call
  | importMarkdown (input : Fields) (built : Option Built) (now : Instant)
  | reconcile (input : Fields) (now : Instant)

def Call.input : Call → Fields
  | .importMarkdown input .. => input
  | .reconcile input _ => input

variable (id : String) (actor : Actor)

def Store.call (s : Store) : Call → Except Failure Result × Store
  | .importMarkdown input built now => Source.importMarkdown id actor input built now s
  | .reconcile input now => Source.reconcile id input now s

/-- The store after a call. -/
def Store.step (s : Store) (c : Call) : Option Store := some (s.call id actor c).2

end

/-! ## What the operations do -/

section

variable [Sha256] {id : String} {actor : Actor} {s t : Store}

theorem Store.get_ok {state : Option SourceState} (got : s.get id = .ok state) :
    state = s.source ∧ ∀ current, s.source = some current → current.valid id = true := by
  unfold Store.get at got
  cases source : s.source with
  | none =>
      rw [source] at got
      exact ⟨(Except.ok.inj got).symm, fun current is => by cases is⟩
  | some current =>
      rw [source] at got
      dsimp only [validateSourceState] at got
      split_ifs at got with valid
      · exact ⟨(Except.ok.inj got).symm, fun other is => Option.some.inj is ▸ valid⟩
      · cases got

/-- An operation that does not throw is answered from its receipt or performed. -/
theorem transaction_ok {kind : Kind} {input : Fields} {key digest : String} {expected : Nat}
    {perform : Option SourceState → Store → Except Failure Result × Store} {result : Result}
    (answer : transaction id kind input key digest expected perform s = (.ok result, t)) :
    (∃ receipt, s.receipts.lookup key = some receipt ∧
      replay id kind input digest receipt = .ok result ∧ t = s) ∨
    (s.receipts.lookup key = none ∧
      (∀ current, s.source = some current → current.valid id = true) ∧
      versionOf s.source = expected ∧ ∃ u, perform s.source s = (.ok result, u) ∧
        result.source.valid id = true ∧ t = { u with
          source := some result.source, receipts := (key, ⟨digest, result⟩) :: u.receipts }) := by
  unfold transaction at answer
  split at answer
  · next receipt found =>
      obtain ⟨replayed, rfl⟩ := Prod.mk.inj answer
      exact .inl ⟨receipt, found, replayed, rfl⟩
  · next absent =>
      refine .inr ⟨absent, ?_⟩
      split at answer
      · next state got =>
          obtain ⟨rfl, valid⟩ := Store.get_ok got
          split_ifs at answer with version
          · split at answer
            · next done u performed =>
                dsimp only [validateSourceState] at answer
                split_ifs at answer with accepted
                · obtain ⟨same, rfl⟩ := Prod.mk.inj answer
                  obtain rfl := Except.ok.inj same
                  exact ⟨valid, version, u, performed, accepted, rfl⟩
                · cases (Prod.mk.inj answer).1
            · cases (Prod.mk.inj answer).1
          · cases (Prod.mk.inj answer).1
      · cases (Prod.mk.inj answer).1

/-- An operation rolls back what it wrote when it throws. -/
theorem operation_cases {kind : Kind} {input : Fields}
    {perform : Option SourceState → Store → Except Failure Result × Store}
    {answer : Except Failure Result} (is : operation id input kind perform s = (answer, t)) :
    (∃ e, answer = .error e ∧ t = s) ∨
      ∃ key digest expected result, admission id input kind = .ok (key, digest, expected) ∧
        answer = .ok result ∧
        transaction id kind input key digest expected perform s = (.ok result, t) := by
  unfold operation at is
  split at is
  · next key digest expected admitted =>
      unfold atomic at is
      split at is
      · next result u done =>
          obtain ⟨rfl, rfl⟩ := Prod.mk.inj is
          exact .inr ⟨key, digest, expected, result, admitted, rfl, done⟩
      · next e u failed =>
          obtain ⟨rfl, rfl⟩ := Prod.mk.inj is
          exact .inl ⟨e, rfl, rfl⟩
  · next e refused =>
      obtain ⟨rfl, rfl⟩ := Prod.mk.inj is
      exact .inl ⟨e, rfl, rfl⟩

theorem store_ok {state : Option SourceState} {new unchanged : Bool} {e : SourceEntry}
    {result : Result} (stored : store id state new unchanged e = .ok result) :
    (new = true → (pruned true (entriesOf state)).length < MAX_SOURCE_FILES * 2) ∧
      withinLimits (pushed (pruned new (entriesOf state)) e) = true ∧
      result = .file unchanged
        ⟨id, versionOf state + 1, pushed (pruned new (entriesOf state)) e, e.updatedAt⟩
        e.draftId := by
  unfold store at stored
  dsimp only at stored
  split_ifs at stored with full within
  refine ⟨fun new => ?_, within, (Except.ok.inj stored).symm⟩
  subst new
  rw [Bool.true_and, Nat.ble_eq] at full
  exact Nat.not_le.mp full

/-- What an import that is performed does. -/
inductive Imported (id : String) (actor : Actor) (r : Import) (built : Option Built) (now : Instant)
    (state : Option SourceState) (s : Store) : Result → Store → Prop
  | kept {e : SourceEntry} {current : SourceState} (is : state = some current)
      (found : (entriesOf state).find? (fun e => e.path == r.mapping.path) = some e)
      (same : e.same r = true) (present : e.isPresent = true) :
      Imported id actor r built now state s (.file true current e.draftId) s
  | restored {e : SourceEntry} {result : Result}
      (found : (entriesOf state).find? (fun e => e.path == r.mapping.path) = some e)
      (removed : e.isPresent = false)
      (stored : store id state false true (entryOf r e.draftId e.revisionDigest now) = .ok result) :
      Imported id actor r built now state s result s
  | built {b : Built} {result : Result} (is : built = some b)
      (unlike : ∀ e, (entriesOf state).find? (fun e => e.path == r.mapping.path) = some e →
        e.same r = false)
      (fresh : s.drafts.lookup b.draftId = none)
      (stored : store id state
        ((entriesOf state).find? fun e => e.path == r.mapping.path).isNone false
        (entryOf r b.draftId (digestOf b.revision) now) = .ok result) :
      Imported id actor r built now state s result
        { s with drafts := (b.draftId, draftOf id r b) :: s.drafts }

theorem importBuilt_ok {r : Import} {built : Option Built} {now : Instant}
    {state : Option SourceState} {new : Bool} {result : Result}
    (done : importBuilt id r built now state new s = (.ok result, t)) :
    ∃ b, built = some b ∧ s.drafts.lookup b.draftId = none ∧
      store id state new false (entryOf r b.draftId (digestOf b.revision) now) = .ok result ∧
      t = { s with drafts := (b.draftId, draftOf id r b) :: s.drafts } := by
  unfold importBuilt Store.putDraft at done
  split at done
  · next b u put =>
      split at put
      · split_ifs at put with taken
        · cases (Prod.mk.inj put).1
        · obtain ⟨same, rfl⟩ := Prod.mk.inj put
          obtain rfl := Except.ok.inj same
          obtain ⟨stored, rfl⟩ := Prod.mk.inj done
          exact ⟨_, rfl, Option.not_isSome_iff_eq_none.mp taken, stored, rfl⟩
      · cases (Prod.mk.inj put).1
  · cases (Prod.mk.inj done).1

theorem performImport_ok {r : Import} {built : Option Built} {now : Instant}
    {state : Option SourceState} {result : Result}
    (done : performImport id actor r built now state s = (.ok result, t)) :
    originConflict r (entriesOf state) = false ∧
      versionConflict r ((entriesOf state).find? fun e => e.path == r.mapping.path) = false ∧
      Imported id actor r built now state s result t := by
  unfold performImport at done
  split_ifs at done with origin
  · cases (Prod.mk.inj done).1
  refine ⟨Bool.not_eq_true _ ▸ origin, ?_⟩
  dsimp only at done
  split_ifs at done with version
  · cases (Prod.mk.inj done).1
  refine ⟨Bool.not_eq_true _ ▸ version, ?_⟩
  -- An entry that is found is one of a state.
  have absent (unfound : ∀ e current,
      ((entriesOf state).find? fun e => e.path == r.mapping.path) = some e →
        state = some current → False) :
      ((entriesOf state).find? fun e => e.path == r.mapping.path) = none := by
    cases found : (entriesOf state).find? fun e => e.path == r.mapping.path with
    | none => rfl
    | some e =>
        cases state with
        | none => cases found
        | some current => exact (unfound e current found rfl).elim
  split at done
  · next e current found =>
      split_ifs at done with same holds present
      · obtain ⟨same', rfl⟩ := Prod.mk.inj done
        obtain rfl := Except.ok.inj same'
        exact .kept rfl found same present
      · obtain ⟨stored, rfl⟩ := Prod.mk.inj done
        exact .restored found (Bool.not_eq_true _ ▸ present) stored
      · cases (Prod.mk.inj done).1
      · obtain ⟨b, is, fresh, stored, rfl⟩ := importBuilt_ok done
        refine .built is (fun other found' => ?_) fresh ?_
        · rw [found] at found'
          exact Option.some.inj found' ▸ Bool.not_eq_true _ ▸ same
        · rw [found]
          exact stored
  · next unfound =>
      obtain ⟨b, is, fresh, stored, rfl⟩ := importBuilt_ok done
      have absent := absent unfound
      refine .built is (fun other found' => ?_) fresh ?_
      · rw [absent] at found'
        cases found'
      · rw [absent]
        exact stored

theorem performReconcile_ok {paths : List String} {now : Instant} {state : Option SourceState}
    {result : Result} (done : performReconcile id paths now state s = (.ok result, t)) :
    (∀ path ∈ paths, ∃ e ∈ entriesOf state, e.path = path ∧ e.isPresent = true) ∧ t = s ∧
      result = .reconciled (reconciledState id paths now state)
        ((entriesOf state).filter (·.stale paths)).length := by
  unfold performReconcile at done
  split_ifs at done with unknown
  · cases (Prod.mk.inj done).1
  · obtain ⟨same, rfl⟩ := Prod.mk.inj done
    refine ⟨fun path mem => ?_, rfl, (Except.ok.inj same).symm⟩
    simp only [List.any_eq_true, Bool.not_eq_true', List.any_eq_false, not_exists, not_and,
      Bool.and_eq_true, beq_iff_eq] at unknown
    have known := unknown path mem
    push Not at known
    exact known

/-- What a call performs when its input passes the checks of its kind. -/
def Call.parse (id : String) (actor : Actor) : Call →
    Except Failure (Kind × (Option SourceState → Store → Except Failure Result × Store))
  | .importMarkdown input built now =>
      (parseImport input).map fun r => (r.kind, performImport id actor r built now)
  | .reconcile input now =>
      (parsePaths input).map fun paths => (.reconcile, performReconcile id paths now)

theorem Store.call_eq (c : Call) : s.call id actor c =
    match c.parse id actor with
    | .ok (kind, perform) => operation id c.input kind perform s
    | .error e => (.error e, s) := by
  cases c with
  | importMarkdown input built now =>
      dsimp only [Store.call, importMarkdown, Call.parse]
      cases parseImport input <;> rfl
  | reconcile input now =>
      dsimp only [Store.call, reconcile, Call.parse]
      cases parsePaths input <;> rfl

/-- A call throws and changes nothing, or it is answered from its receipt or performed. -/
theorem Store.call_cases {c : Call} {answer : Except Failure Result}
    (is : s.call id actor c = (answer, t)) : (∃ e, answer = .error e ∧ t = s) ∨
      ∃ kind perform key digest expected result, c.parse id actor = .ok (kind, perform) ∧
        admission id c.input kind = .ok (key, digest, expected) ∧ answer = .ok result ∧
        transaction id kind c.input key digest expected perform s = (.ok result, t) := by
  rw [Store.call_eq] at is
  split at is
  · next kind perform parsed =>
      rcases operation_cases is with failed | ⟨key, digest, expected, result, admitted, rest⟩
      · exact .inl failed
      · exact .inr ⟨kind, perform, key, digest, expected, result, parsed, admitted, rest⟩
  · next e refused =>
      obtain ⟨rfl, rfl⟩ := Prod.mk.inj is
      exact .inl ⟨e, rfl, rfl⟩

end

end Knowledger.Source
