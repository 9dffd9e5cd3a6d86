import Knowledger.Connectors.SourceStore

/-!
# Requests of a client

The bodies that a client sends, and when the store takes them.  The body of a valid file passes the
checks of an import, and what is performed on a valid state leaves a valid one.
-/

namespace Knowledger.Source

open Js

/-! ## Bodies -/

/-- The body of an import. -/
def importBody (operationId : String) (expected : Nat) (mapping : SourceFileMapping)
    (content : String) (origin : Option ConfluenceOrigin) : Fields :=
  recordFields [("operation_id", jsonString operationId), ("expected_version", jsonNat expected),
    ("path", jsonString mapping.path), ("policy_id", jsonString mapping.policyId),
    ("policy_version", jsonNat mapping.policyVersion), ("title", jsonString mapping.title),
    ("content_base64", jsonString content), ("origin", origin.map ConfluenceOrigin.toJson)]

/-- The body of a reconciliation. -/
def reconcileBody (operationId : String) (expected : Nat) (paths : List String) : Fields :=
  recordFields [("operation_id", jsonString operationId), ("expected_version", jsonNat expected),
    ("present_paths", Value.arr (paths.map jsonString))]

@[simp] theorem text_json (s : String) : text (some (jsonString s)) = some s := rfl

theorem isSafeInteger_nat {n : Nat} : isSafeInteger n = true ↔ n ≤ 9007199254740991 := by
  unfold isSafeInteger maxSafeInteger
  rw [Bool.and_eq_true, decide_eq_true_eq, decide_eq_true_eq]
  omega

theorem safeInteger_json {n : Nat} (safe : n ≤ 9007199254740991) :
    safeInteger (some (jsonNat n)) = some (n : Int) :=
  if_pos (isSafeInteger_nat.mpr safe)

theorem sourceId_json {s : String} (valid : isId s = true) :
    sourceId (some (jsonString s)) = .ok s :=
  if_pos valid

theorem sourceVersion_json {n : Nat} (safe : n ≤ 9007199254740991) :
    sourceVersion (some (jsonNat n)) = .ok n := by
  unfold sourceVersion
  rw [safeInteger_json safe]
  exact if_pos (Int.natCast_nonneg n)

theorem sourcePath_json {s : String} (valid : isSourcePath s = true) :
    sourcePath (some (jsonString s)) = .ok s :=
  if_pos valid

/-- The checks of a mapping, one by one. -/
theorem SourceFileMapping.valid_iff {m : SourceFileMapping} : m.valid = true ↔
    isSourcePath m.path = true ∧ isId m.policyId = true ∧ 1 ≤ m.policyVersion ∧
      m.policyVersion ≤ 9007199254740991 ∧ isTitle m.title = true := by
  simp only [SourceFileMapping.valid, Bool.and_eq_true, Nat.ble_eq, isSafeInteger_nat, and_assoc]

theorem sourceMapping_body {operationId content : String} {expected : Nat}
    {mapping : SourceFileMapping} {origin : Option ConfluenceOrigin}
    (valid : mapping.valid = true) :
    sourceMapping (importBody operationId expected mapping content origin) = .ok mapping := by
  obtain ⟨path, policy, low, high, title⟩ := SourceFileMapping.valid_iff.mp valid
  have version : (1 : Int) ≤ mapping.policyVersion := by omega
  simp [sourceMapping, importBody, safeInteger_json high, sourcePath_json path,
    sourceId_json policy, version, title]

/-- The checks of an origin, one by one. -/
theorem ConfluenceOrigin.valid_iff {o : ConfluenceOrigin} : o.valid = true ↔
    isCloudId o.cloudId = true ∧ isPageId o.pageId = true ∧ 1 ≤ o.pageVersion ∧
      o.pageVersion ≤ 9007199254740991 ∧ isSha256 o.adfSha256 = true := by
  simp only [ConfluenceOrigin.valid, Bool.and_eq_true, Nat.ble_eq, isSafeInteger_nat, and_assoc]

theorem confluenceOrigin_json {o : ConfluenceOrigin} (valid : o.valid = true) :
    confluenceOrigin o.toJson = .ok o := by
  obtain ⟨-, -, -, high, -⟩ := ConfluenceOrigin.valid_iff.mp valid
  have keys : Storage.hasFields (recordFields [("kind", some (jsonString "confluence")),
      ("cloud_id", some (jsonString o.cloudId)), ("page_id", some (jsonString o.pageId)),
      ("page_version", some (jsonNat o.pageVersion)), ("adf_sha256", some (jsonString o.adfSha256))])
      ["adf_sha256", "cloud_id", "kind", "page_id", "page_version"] = true := by
    have plain : (recordFields [("kind", some (jsonString "confluence")),
        ("cloud_id", some (jsonString o.cloudId)), ("page_id", some (jsonString o.pageId)),
        ("page_version", some (jsonNat o.pageVersion)),
        ("adf_sha256", some (jsonString o.adfSha256))]).keys =
          ["kind", "cloud_id", "page_id", "page_version", "adf_sha256"].map Str.wellFormed := rfl
    unfold Storage.hasFields
    rw [plain]
    decide
  simp [confluenceOrigin, ConfluenceOrigin.toJson, record, isRecord, safeInteger_json high, keys,
    valid]

variable [Sha256] {id : String} {actor : Actor} {s t u : Store}

theorem parseImport_body (operationId : String) {content : String} (expected : Nat)
    {mapping : SourceFileMapping} {origin : Option ConfluenceOrigin}
    {decoded : DecodedMarkdownImport} (valid : mapping.valid = true)
    (origins : ∀ o, origin = some o → o.valid = true ∧ mapping.path = pagePath o.pageId)
    (decodes : decodeMarkdownImport (filenameOf mapping.path) (some (jsonString content)) =
      .ok decoded) :
    parseImport (importBody operationId expected mapping content origin) =
      .ok ⟨mapping, origin, decoded⟩ := by
  have file : (importBody operationId expected mapping content origin).get "content_base64" =
      some (jsonString content) := by simp [importBody]
  have own : (importBody operationId expected mapping content origin).get "origin" =
      origin.map ConfluenceOrigin.toJson := by simp [importBody]
  unfold parseImport
  rw [sourceMapping_body valid, ok_bind, own, file]
  cases origin with
  | none =>
      dsimp only [Option.map_none, parseOrigin, ok_bind, checkPath]
      rw [decodes]
      rfl
  | some o =>
      obtain ⟨isValid, path⟩ := origins o rfl
      dsimp only [Option.map_some, parseOrigin]
      rw [confluenceOrigin_json isValid]
      change (checkPath mapping (some o) >>= _) = _
      rw [checkPath, if_pos path, ok_bind, decodes]
      rfl

theorem requestText_importBody (id : String) (kind : Kind) (operationId content : String)
    {expected : Nat}
    {mapping : SourceFileMapping} {origin : Option ConfluenceOrigin}
    (safe : expected ≤ 9007199254740991) (valid : mapping.valid = true)
    (origins : ∀ o, origin = some o → o.valid = true) :
    ∃ request, requestText kind id (importBody operationId expected mapping content origin) =
      .ok request := by
  obtain ⟨-, -, -, high, -⟩ := SourceFileMapping.valid_iff.mp valid
  have own : ∀ o ∈ origin, o.pageVersion ≤ 9007199254740991 := fun o is =>
    (ConfluenceOrigin.valid_iff.mp (origins o is)).2.2.2.1
  have body : Value.obj (importBody operationId expected mapping content origin) = record
      [("operation_id", jsonString operationId), ("expected_version", jsonNat expected),
        ("path", jsonString mapping.path), ("policy_id", jsonString mapping.policyId),
        ("policy_version", jsonNat mapping.policyVersion), ("title", jsonString mapping.title),
        ("content_base64", jsonString content), ("origin", origin.map ConfluenceOrigin.toJson)] :=
    rfl
  refine canonicalize_isOk ?_
  rw [body]
  simpa [canonicalizable_record, maxCanonicalDepth, safe, high, ConfluenceOrigin.toJson] using own

theorem requestText_reconcileBody {operationId : String} {expected : Nat} {paths : List String}
    (safe : expected ≤ 9007199254740991) (few : paths.length ≤ MAX_SOURCE_FILES) :
    ∃ request, requestText .reconcile id (reconcileBody operationId expected paths) =
      .ok request := by
  have body : Value.obj (reconcileBody operationId expected paths) = record
      [("operation_id", jsonString operationId), ("expected_version", jsonNat expected),
        ("present_paths", Value.arr (paths.map jsonString))] := rfl
  have small : paths.length ≤ maxCanonicalArrayItems := few.trans (by decide)
  refine canonicalize_isOk ?_
  rw [body]
  simp [canonicalizable_record, canonicalizable_arr, maxCanonicalDepth, safe, small]

theorem admit_body {kind : Kind} {input : Fields} {operationId : String} {expected : Nat}
    {request : String} (isSource : isId id = true) (isOperation : isId operationId = true)
    (safe : expected ≤ 9007199254740991)
    (named : input.get "operation_id" = some (jsonString operationId))
    (version : input.get "expected_version" = some (jsonNat expected))
    (text : requestText kind id input = .ok request) :
    admission id input kind =
      .ok (operationKey id operationId, Sha256.hexDigest request, expected) := by
  unfold admission
  rw [named, version, sourceId_json isSource, ok_bind, sourceId_json isOperation, ok_bind,
    sourceVersion_json safe, ok_bind, text]
  rfl

theorem parsePaths_body {operationId : String} {expected : Nat} {paths : List String}
    (few : paths.length ≤ MAX_SOURCE_FILES) (valid : ∀ path ∈ paths, isSourcePath path = true)
    (distinct : paths.Nodup) : parsePaths (reconcileBody operationId expected paths) = .ok paths := by
  have each : ∀ paths : List String, (∀ path ∈ paths, isSourcePath path = true) →
      eachPath (paths.map jsonString) = .ok paths := by
    intro paths valid
    induction paths with
    | nil => rfl
    | cons path rest ih =>
        rw [List.map_cons, eachPath, sourcePath_json (valid path List.mem_cons_self), ok_bind,
          ih fun other mem => valid other (List.mem_cons_of_mem _ mem)]
        rfl
  have own : (reconcileBody operationId expected paths).get "present_paths" =
      some (.arr (paths.map jsonString)) := by simp [reconcileBody]
  unfold parsePaths
  rw [own]
  dsimp only
  rw [if_neg (by rw [List.length_map]; exact Nat.not_lt.mpr few), each paths valid, ok_bind,
    if_pos distinct]

/-! ## Valid states -/

/-- The checks of a state, one by one. -/
theorem SourceState.valid_iff {state : SourceState} : state.valid id = true ↔
    isId state.sourceId = true ∧ state.sourceId = id ∧ 1 ≤ state.version ∧
      state.version ≤ 9007199254740991 ∧ state.entries.length ≤ 200 ∧
      (∀ e ∈ state.entries, e.valid = true) ∧ (state.entries.map (·.path)).Nodup ∧
      withinLimits state.entries = true := by
  simp only [SourceState.valid, Bool.and_eq_true, beq_iff_eq, Nat.ble_eq, isSafeInteger_nat,
    List.all_eq_true, decide_eq_true_eq, MAX_SOURCE_FILES, and_assoc, Nat.reduceMul]

/-- The entries of a valid state, or those of none. -/
structure ValidEntries (entries : List SourceEntry) : Prop where
  few : entries.length ≤ 200
  each : ∀ e ∈ entries, e.valid = true
  nodup : (entries.map (·.path)).Nodup
  limits : withinLimits entries = true

theorem ValidEntries.nil : ValidEntries [] :=
  ⟨by decide, fun _ mem => (List.not_mem_nil mem).elim, List.nodup_nil, rfl⟩

theorem SourceState.valid_of {state : SourceState} (source : isId id = true)
    (named : state.sourceId = id) (low : 1 ≤ state.version)
    (high : state.version ≤ 9007199254740991) (entries : ValidEntries state.entries) :
    state.valid id = true :=
  SourceState.valid_iff.mpr
    ⟨named ▸ source, named, low, high, entries.few, entries.each, entries.nodup, entries.limits⟩

theorem SourceState.validEntries {state : SourceState} (valid : state.valid id = true) :
    ValidEntries state.entries := by
  obtain ⟨-, -, -, -, few, each, nodup, limits⟩ := SourceState.valid_iff.mp valid
  exact ⟨few, each, nodup, limits⟩

theorem validEntriesOf {state : Option SourceState}
    (valid : ∀ current, state = some current → current.valid id = true) :
    ValidEntries (entriesOf state) := by
  cases state with
  | none => exact .nil
  | some current => exact SourceState.validEntries (valid current rfl)

theorem presentOf_pruned (new : Bool) (entries : List SourceEntry) :
    presentOf (pruned new entries) = presentOf entries := by
  unfold pruned
  split_ifs
  · exact List.filter_filter.trans (by simp [presentOf])
  · rfl

theorem presentOf_pushed {e : SourceEntry} (present : e.isPresent = true)
    (entries : List SourceEntry) :
    presentOf (pushed entries e) =
      (presentOf entries).filter (fun other => other.path != e.path) ++ [e] := by
  unfold presentOf pushed
  rw [List.filter_append, List.filter_singleton, present, List.filter_filter, List.filter_filter]
  simp [Bool.and_comm]

/-- The limits that an import keeps, whether the list was full or not. -/
theorem withinLimits_pushed {e : SourceEntry} (present : e.isPresent = true) (new : Bool)
    (entries : List SourceEntry) :
    withinLimits (pushed (pruned new entries) e) = withinLimits (pushed entries e) := by
  unfold withinLimits
  rw [presentOf_pushed present, presentOf_pushed present, presentOf_pruned]

theorem length_pruned {entries : List SourceEntry} (valid : ValidEntries entries) :
    (pruned true entries).length < 200 := by
  have limits := valid.limits
  simp only [withinLimits, MAX_SOURCE_FILES, Bool.and_eq_true, Nat.ble_eq] at limits
  unfold pruned MAX_SOURCE_FILES
  split_ifs with full
  · omega
  · simp only [Bool.true_and, Nat.ble_eq] at full
    omega

/-- Whether the path of an entry is new. -/
def isNew (entries : List SourceEntry) (e : SourceEntry) : Bool :=
  (entries.find? fun other => other.path == e.path).isNone

theorem isNew_iff {entries : List SourceEntry} {e : SourceEntry} :
    isNew entries e = true ↔ ∀ other ∈ entries, other.path ≠ e.path := by
  simp [isNew]

theorem length_pushed {entries : List SourceEntry} {e : SourceEntry}
    (valid : ValidEntries entries) :
    (pushed (pruned (isNew entries e) entries) e).length ≤ 200 := by
  unfold pushed
  rw [List.length_append, List.length_singleton]
  cases new : isNew entries e with
  | true =>
      have fewer := List.length_filter_le (fun other : SourceEntry => other.path != e.path)
        (pruned true entries)
      have few := length_pruned valid
      omega
  | false =>
      -- The entry of the path makes room for the new one.
      obtain ⟨other, mem, same⟩ : ∃ other ∈ entries, other.path = e.path := by
        by_contra none
        push Not at none
        rw [isNew_iff.mpr none] at new
        cases new
      have kept : pruned false entries = entries := if_neg (by simp)
      have fewer : (entries.filter fun other => other.path != e.path).length < entries.length :=
        List.length_filter_lt_length_iff_exists.mpr ⟨other, mem, by simp [same]⟩
      have few := valid.few
      rw [kept]
      omega

/-- What an import leaves within the limits is valid. -/
theorem ValidEntries.pushed {entries : List SourceEntry} {e : SourceEntry}
    (valid : ValidEntries entries) (own : e.valid = true)
    (within : withinLimits (Source.pushed (pruned (isNew entries e) entries) e) = true) :
    ValidEntries (Source.pushed (pruned (isNew entries e) entries) e) where
  few := length_pushed valid
  each other mem := by
    rcases List.mem_append.mp mem with mem | mem
    · have inside := List.mem_of_mem_filter mem
      unfold pruned at inside
      split_ifs at inside
      · exact valid.each other (List.mem_of_mem_filter inside)
      · exact valid.each other inside
    · exact List.mem_singleton.mp mem ▸ own
  nodup := by
    have kept : ((pruned (isNew entries e) entries).map (·.path)).Nodup := by
      unfold pruned
      split_ifs
      · exact valid.nodup.sublist (List.filter_sublist.map _)
      · exact valid.nodup
    unfold Source.pushed
    rw [List.map_append, List.nodup_append]
    refine ⟨kept.sublist (List.filter_sublist.map _), List.nodup_singleton _, ?_⟩
    intro a first b second same
    obtain ⟨other, mem, rfl⟩ := List.mem_map.mp first
    obtain rfl := List.mem_singleton.mp second
    simpa [same] using (List.mem_filter.mp mem).2
  limits := within

/-- A reconciled entry keeps its path. -/
@[simp] theorem SourceEntry.reconcile_path (e : SourceEntry) (paths : List String) (now : Instant) :
    (e.reconcile paths now).path = e.path := by
  unfold SourceEntry.reconcile
  split_ifs <;> rfl

theorem SourceEntry.reconcile_valid (e : SourceEntry) (paths : List String) (now : Instant) :
    (e.reconcile paths now).valid = e.valid := by
  unfold SourceEntry.reconcile
  split_ifs <;> rfl

theorem SourceEntry.reconcile_isPresent (e : SourceEntry) (paths : List String) (now : Instant) :
    (e.reconcile paths now).isPresent = (e.isPresent && paths.contains e.path) := by
  unfold SourceEntry.reconcile SourceEntry.stale
  split_ifs with stale
  · simp only [Bool.and_eq_true, Bool.not_eq_true'] at stale
    rw [stale.2, Bool.and_false]
    rfl
  · cases present : e.isPresent <;> cases inside : paths.contains e.path <;>
      simp_all

/-- The present entries that a reconciliation leaves are those of its paths. -/
theorem presentOf_reconcile (entries : List SourceEntry) (paths : List String) (now : Instant) :
    presentOf (entries.map (·.reconcile paths now)) =
      (presentOf entries).filter fun e => paths.contains e.path := by
  induction entries with
  | nil => rfl
  | cons e rest ih =>
      unfold presentOf at ih ⊢
      rw [List.map_cons, List.filter_cons, SourceEntry.reconcile_isPresent, ih,
        @List.filter_cons _ _ rest]
      cases present : e.isPresent with
      | false => rfl
      | true =>
          rw [Bool.true_and, if_pos rfl, List.filter_cons (x := e)]
          cases inside : paths.contains e.path with
          | false => rfl
          | true =>
              have kept : e.reconcile paths now = e :=
                if_neg (by rw [SourceEntry.stale, inside, Bool.not_true, Bool.and_false]; simp)
              rw [kept]

theorem ValidEntries.reconcile {entries : List SourceEntry} (valid : ValidEntries entries)
    (paths : List String) (now : Instant) :
    ValidEntries (entries.map (·.reconcile paths now)) where
  few := by rw [List.length_map]; exact valid.few
  each e mem := by
    obtain ⟨old, inside, rfl⟩ := List.mem_map.mp mem
    rw [SourceEntry.reconcile_valid]
    exact valid.each old inside
  nodup := by
    have same : (entries.map (·.reconcile paths now)).map (·.path) = entries.map (·.path) := by
      rw [List.map_map]
      exact List.map_congr_left fun e _ => SourceEntry.reconcile_path e paths now
    rw [same]
    exact valid.nodup
  limits := by
    have limits := valid.limits
    simp only [withinLimits, Bool.and_eq_true, Nat.ble_eq] at limits ⊢
    rw [presentOf_reconcile]
    refine ⟨(List.length_filter_le _ _).trans limits.1, ?_⟩
    exact ((List.filter_sublist.map _).sum_le_sum (fun _ _ => Nat.zero_le _)).trans limits.2

/-! ## What is performed -/

theorem find_path {entries : List SourceEntry} {path : String} {e : SourceEntry}
    (found : entries.find? (fun e => e.path == path) = some e) : e ∈ entries ∧ e.path = path := by
  have is := List.find?_some found
  exact ⟨List.mem_of_find?_eq_some found, eq_of_beq is⟩

/-- The state that an import of the entry leaves. -/
def importedState (id : String) (state : Option SourceState) (e : SourceEntry) : SourceState :=
  ⟨id, versionOf state + 1, pushed (pruned (isNew (entriesOf state) e) (entriesOf state)) e,
    e.updatedAt⟩

theorem importedState_valid {state : Option SourceState} {e : SourceEntry}
    (source : isId id = true)
    (valid : ∀ current, state = some current → current.valid id = true)
    (high : versionOf state + 1 ≤ 9007199254740991) (own : e.valid = true)
    (present : e.isPresent = true) (within : withinLimits (pushed (entriesOf state) e) = true) :
    (importedState id state e).valid id = true := by
  refine SourceState.valid_of source rfl (Nat.le_add_left _ _) high ?_
  refine (validEntriesOf valid).pushed own ?_
  rw [withinLimits_pushed present]
  exact within

theorem reconciledState_valid {state : Option SourceState} {paths : List String} {now : Instant}
    (source : isId id = true)
    (valid : ∀ current, state = some current → current.valid id = true)
    (high : (reconciledState id paths now state).version ≤ 9007199254740991) :
    (reconciledState id paths now state).valid id = true := by
  cases state with
  | none => exact SourceState.valid_of source rfl (Nat.le_refl _) high .nil
  | some current =>
      have low := (SourceState.valid_iff.mp (valid current rfl)).2.2.1
      refine SourceState.valid_of source rfl ?_ high
        ((SourceState.validEntries (valid current rfl)).reconcile paths now)
      unfold reconciledState
      dsimp only
      split_ifs <;> omega

theorem store_within {state : Option SourceState} {unchanged : Bool} {e : SourceEntry}
    (entries : ValidEntries (entriesOf state)) (present : e.isPresent = true)
    (within : withinLimits (pushed (entriesOf state) e) = true) :
    store id state (isNew (entriesOf state) e) unchanged e =
      .ok (.file unchanged (importedState id state e) e.draftId) := by
  unfold store
  dsimp only
  rw [if_neg, if_pos]
  · rfl
  · rwa [withinLimits_pushed present]
  · simp only [Bool.and_eq_true, Nat.ble_eq, not_and, MAX_SOURCE_FILES]
    intro new
    rw [new]
    have few := length_pruned entries
    omega

theorem store_over {state : Option SourceState} {new unchanged : Bool} {e : SourceEntry}
    (present : e.isPresent = true) (exceeds : withinLimits (pushed (entriesOf state) e) = false) :
    store id state new unchanged e = .error (.store "SOURCE_LIMIT" 409) := by
  unfold store
  dsimp only
  rw [withinLimits_pushed present, exceeds]
  split_ifs <;> first | rfl | contradiction

/-- A call that is performed. -/
theorem Store.call_performs {c : Call} {kind : Kind}
    {perform : Option SourceState → Store → Except Failure Result × Store} {key digest : String}
    {result : Result} (parsed : c.parse id actor = .ok (kind, perform))
    (admitted : admission id c.input kind = .ok (key, digest, versionOf s.source))
    (fresh : s.receipts.lookup key = none)
    (valid : ∀ current, s.source = some current → current.valid id = true)
    (performed : perform s.source s = (.ok result, u))
    (accepted : result.source.valid id = true) :
    s.call id actor c = (.ok result, { u with
      source := some result.source, receipts := (key, ⟨digest, result⟩) :: u.receipts }) := by
  have got : s.get id = .ok s.source := by
    unfold Store.get
    cases source : s.source with
    | none => rfl
    | some current => exact congrArg (some <$> ·) (if_pos (valid current source))
  rw [Store.call_eq, parsed]
  dsimp only [operation]
  rw [admitted]
  dsimp only [atomic, transaction]
  rw [fresh, got]
  dsimp only
  rw [if_pos rfl, performed]
  dsimp only [validateSourceState]
  rw [if_pos accepted]

/-- A call whose operation throws. -/
theorem Store.call_throws {c : Call} {kind : Kind}
    {perform : Option SourceState → Store → Except Failure Result × Store} {key digest : String}
    {e : Failure} (parsed : c.parse id actor = .ok (kind, perform))
    (admitted : admission id c.input kind = .ok (key, digest, versionOf s.source))
    (fresh : s.receipts.lookup key = none)
    (valid : ∀ current, s.source = some current → current.valid id = true)
    (throws : perform s.source s = (.error e, u)) : s.call id actor c = (.error e, s) := by
  have got : s.get id = .ok s.source := by
    unfold Store.get
    cases source : s.source with
    | none => rfl
    | some current => exact congrArg (some <$> ·) (if_pos (valid current source))
  rw [Store.call_eq, parsed]
  dsimp only [operation]
  rw [admitted]
  dsimp only [atomic, transaction]
  rw [fresh, got]
  dsimp only
  rw [if_pos rfl, throws]

theorem importBuilt_eq {r : Import} {b : Built} {now : Instant} {state : Option SourceState}
    {new : Bool} (fresh : s.drafts.lookup b.draftId = none) :
    importBuilt id r (some b) now state new s =
      (store id state new false (entryOf r b.draftId (digestOf b.revision) now),
        { s with drafts := (b.draftId, draftOf id r b) :: s.drafts }) := by
  unfold importBuilt Store.putDraft
  dsimp only
  rw [fresh]
  rfl

/-- The import of a file that is new or has changed. -/
theorem performImport_built {r : Import} {b : Built} {now : Instant} {state : Option SourceState}
    (origin : originConflict r (entriesOf state) = false)
    (version : versionConflict r ((entriesOf state).find? fun e => e.path == r.mapping.path) =
      false)
    (unlike : ∀ e ∈ entriesOf state, e.path = r.mapping.path → e.same r = false)
    (fresh : s.drafts.lookup b.draftId = none) :
    performImport id actor r (some b) now state s =
      (store id state (isNew (entriesOf state) (entryOf r b.draftId (digestOf b.revision) now))
        false (entryOf r b.draftId (digestOf b.revision) now),
        { s with drafts := (b.draftId, draftOf id r b) :: s.drafts }) := by
  unfold performImport
  dsimp only
  rw [if_neg (by rw [origin]; exact Bool.false_ne_true),
    if_neg (by rw [version]; exact Bool.false_ne_true)]
  cases found : (entriesOf state).find? fun e => e.path == r.mapping.path with
  | none =>
      have new : isNew (entriesOf state) (entryOf r b.draftId (digestOf b.revision) now) = true := by
        unfold isNew entryOf
        dsimp only
        rw [found]
        rfl
      rw [new]
      exact importBuilt_eq fresh
  | some e =>
      have new : isNew (entriesOf state) (entryOf r b.draftId (digestOf b.revision) now) =
          false := by
        unfold isNew entryOf
        dsimp only
        rw [found]
        rfl
      obtain ⟨mem, path⟩ := find_path found
      cases state with
      | none => cases mem
      | some current =>
          dsimp only
          rw [if_neg (by rw [unlike e mem path]; exact Bool.false_ne_true), importBuilt_eq fresh,
            new]

/-- The import of a file that was removed and is the same. -/
theorem performImport_restored {r : Import} {built : Option Built} {now : Instant}
    {state : Option SourceState} {e : SourceEntry}
    (origin : originConflict r (entriesOf state) = false)
    (version : versionConflict r (some e) = false)
    (found : (entriesOf state).find? (fun e => e.path == r.mapping.path) = some e)
    (same : e.same r = true) (holds : draftHolds actor r e s = true)
    (removed : e.isPresent = false) :
    performImport id actor r built now state s =
      (store id state (isNew (entriesOf state) (entryOf r e.draftId e.revisionDigest now)) true
        (entryOf r e.draftId e.revisionDigest now), s) := by
  unfold performImport
  dsimp only
  rw [if_neg (by rw [origin]; exact Bool.false_ne_true), found,
    if_neg (by rw [version]; exact Bool.false_ne_true)]
  have new : isNew (entriesOf state) (entryOf r e.draftId e.revisionDigest now) = false := by
    unfold isNew entryOf
    dsimp only
    rw [found]
    rfl
  cases state with
  | none => cases found
  | some current =>
      dsimp only
      rw [if_pos same, if_pos holds, if_neg (by rw [removed]; exact Bool.false_ne_true), new]

/-! ## Calls -/

theorem isSha256_hexDigest (content : String) : isSha256 (Sha256.hexDigest content) = true := by
  unfold isSha256
  rw [List.all_eq_true.mpr (hexChar_hexDigest content), Sha256.length_hexDigest]
  rfl

theorem decodeMarkdownImport_ok {filename : String} {o : Option Value} {d : DecodedMarkdownImport}
    (decodes : decodeMarkdownImport filename o = .ok d) :
    1 ≤ d.byteLength ∧ d.byteLength ≤ 256 * 1024 ∧ d.sha256 = Sha256.hexDigest d.content := by
  unfold decodeMarkdownImport at decodes
  simp only [bind_ok] at decodes
  obtain ⟨_, -, bytes, isBytes, decodes⟩ := decodes
  split at decodes
  · split_ifs at decodes
    obtain rfl := Except.ok.inj decodes
    unfold decodeCanonicalBase64 at isBytes
    split at isBytes
    · dsimp only at isBytes
      split_ifs at isBytes with padded empty canonical large
      obtain rfl := Except.ok.inj isBytes
      refine ⟨?_, ?_, rfl⟩
      · exact List.length_pos_iff.mpr (mt List.isEmpty_iff.mpr empty)
      · simpa [MAX_MARKDOWN_BYTES] using large
    · cases isBytes
  · cases decodes

/-- The entry of a file that passed the checks of an import. -/
theorem entryOf_valid {r : Import} {o : Option Value} {draftId digest : String} {now : Instant}
    (mapping : r.mapping.valid = true)
    (origins : ∀ o, r.origin = some o → o.valid = true ∧ r.mapping.path = pagePath o.pageId)
    (decodes : decodeMarkdownImport (filenameOf r.mapping.path) o = .ok r.decoded)
    (draft : isId draftId = true) (isDigest : Knowledger.isDigest digest = true) :
    (entryOf r draftId digest now).valid = true := by
  obtain ⟨low, high, hash⟩ := decodeMarkdownImport_ok decodes
  have hex : isSha256 r.decoded.sha256 = true := hash ▸ isSha256_hexDigest _
  have bytes : (Nat.ble 1 r.decoded.byteLength && Nat.ble r.decoded.byteLength (256 * 1024)) =
      true := by
    rw [Bool.and_eq_true, Nat.ble_eq, Nat.ble_eq]
    exact ⟨low, high⟩
  have bytes := Bool.and_eq_true_iff.mp bytes
  unfold SourceEntry.valid entryOf
  dsimp only
  rw [mapping, draft, bytes.1, bytes.2, isDigest, hex]
  cases origin : r.origin with
  | none => rfl
  | some o =>
      obtain ⟨valid, path⟩ := origins o origin
      simp [valid, path]

/-- What a client knows of a file that it sends for the first time. -/
structure Sendable (id : String) (s : Store) (r : Import) (operationId content : String)
    (b : Built) : Prop where
  source : isId id = true
  operation : isId operationId = true
  valid : ∀ current, s.source = some current → current.valid id = true
  version : versionOf s.source + 1 ≤ 9007199254740991
  mapping : r.mapping.valid = true
  origins : ∀ o, r.origin = some o → o.valid = true ∧ r.mapping.path = pagePath o.pageId
  decodes : decodeMarkdownImport (filenameOf r.mapping.path) (some (jsonString content)) =
    .ok r.decoded
  unsent : s.receipts.lookup (operationKey id operationId) = none
  sameOrigin : originConflict r (entriesOf s.source) = false
  newer : versionConflict r ((entriesOf s.source).find? fun e => e.path == r.mapping.path) = false
  unlike : ∀ e ∈ entriesOf s.source, e.path = r.mapping.path → e.same r = false
  draft : isId b.draftId = true
  fresh : s.drafts.lookup b.draftId = none
  digest : isDigest (digestOf b.revision) = true

theorem Sendable.admitted {r : Import} {operationId content : String} {b : Built}
    (sendable : Sendable id s r operationId content b) :
    ∃ request, admission id
      (importBody operationId (versionOf s.source) r.mapping content r.origin) r.kind =
        .ok (operationKey id operationId, Sha256.hexDigest request, versionOf s.source) := by
  have safe : versionOf s.source ≤ 9007199254740991 := by
    have version := sendable.version
    omega
  obtain ⟨request, text⟩ := requestText_importBody id r.kind operationId content safe
    sendable.mapping
    fun o is => (sendable.origins o is).1
  exact ⟨request, admit_body sendable.source sendable.operation safe (by simp [importBody])
    (by simp [importBody]) text⟩

theorem Sendable.parsed {r : Import} {operationId content : String} {b : Built}
    (sendable : Sendable id s r operationId content b) (built : Option Built) (now : Instant) :
    (Call.importMarkdown (importBody operationId (versionOf s.source) r.mapping content r.origin)
      built now).parse id actor = .ok (r.kind, performImport id actor r built now) := by
  have parsed : parseImport (importBody operationId (versionOf s.source) r.mapping content r.origin) =
      .ok r := parseImport_body _ _ sendable.mapping sendable.origins sendable.decodes
  unfold Call.parse
  dsimp only
  rw [parsed]
  rfl

theorem Sendable.performs {r : Import} {operationId content : String} {b : Built}
    (sendable : Sendable id s r operationId content b) (actor : Actor) {now : Instant}
    {e : SourceEntry} (is : e = entryOf r b.draftId (digestOf b.revision) now) :
    performImport id actor r (some b) now s.source s =
      (store id s.source (isNew (entriesOf s.source) e) false e,
        { s with drafts := (b.draftId, draftOf id r b) :: s.drafts }) := by
  subst is
  exact performImport_built sendable.sameOrigin sendable.newer sendable.unlike sendable.fresh

/-- A file that fits is imported. -/
theorem Sendable.imported {r : Import} {operationId content : String} {b : Built}
    (sendable : Sendable id s r operationId content b) (actor : Actor) (now : Instant)
    {e : SourceEntry}
    (is : e = entryOf r b.draftId (digestOf b.revision) now)
    (within : withinLimits (pushed (entriesOf s.source) e) = true) :
    ∃ digest, s.call id actor (.importMarkdown
      (importBody operationId (versionOf s.source) r.mapping content r.origin) (some b) now) =
        (.ok (.file false (importedState id s.source e) e.draftId),
          { source := some (importedState id s.source e)
            drafts := (b.draftId, draftOf id r b) :: s.drafts
            receipts := (operationKey id operationId,
              ⟨digest, .file false (importedState id s.source e) e.draftId⟩) :: s.receipts }) := by
  obtain ⟨request, admitted⟩ := sendable.admitted
  have own : e.valid = true := is ▸ entryOf_valid sendable.mapping sendable.origins
    sendable.decodes sendable.draft sendable.digest
  have present : e.isPresent = true := is ▸ rfl
  have performed := sendable.performs actor is
  rw [store_within (validEntriesOf sendable.valid) present within] at performed
  exact ⟨Sha256.hexDigest request, Store.call_performs (sendable.parsed (some b) now) admitted
    sendable.unsent sendable.valid performed
    (importedState_valid sendable.source sendable.valid sendable.version own present within)⟩

/-- A file that does not fit is refused. -/
theorem Sendable.refused {r : Import} {operationId content : String} {b : Built}
    (sendable : Sendable id s r operationId content b) {now : Instant} {e : SourceEntry}
    (is : e = entryOf r b.draftId (digestOf b.revision) now)
    (exceeds : withinLimits (pushed (entriesOf s.source) e) = false) :
    s.call id actor (.importMarkdown
      (importBody operationId (versionOf s.source) r.mapping content r.origin) (some b) now) =
        (.error (.store "SOURCE_LIMIT" 409), s) := by
  obtain ⟨request, admitted⟩ := sendable.admitted
  have present : e.isPresent = true := is ▸ rfl
  have performed := sendable.performs actor is
  rw [store_over present exceeds] at performed
  exact Store.call_throws (sendable.parsed (some b) now) admitted sendable.unsent sendable.valid
    performed

end Knowledger.Source
