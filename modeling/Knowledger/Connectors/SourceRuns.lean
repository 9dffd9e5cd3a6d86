import Knowledger.Connectors.SourceRequests
import Knowledger.Requests
import Knowledger.Lib.Utf8
import Knowledger.Lib.Machine

/-!
# Runs of the operations on a source

Whatever calls are made on a source, its state stays valid, its entries have their drafts, and its
version counts the changes of its entries.  The result of a call is kept in its receipt, which
answers every repetition.
-/

namespace Knowledger.Source

open Js

section

variable [Sha256] {id : String} {actor : Actor} {s t u : Store}

/-! ## The statement -/

/-- What `build` returns: a new id, and a valid revision of the actor with the file's title and
text. -/
structure Built.Made (actor : Actor) (s : Store) (r : Import) (b : Built) : Prop where
  fresh : s.drafts.lookup b.draftId = none
  revision : ∃ revision, validateRevision (some b.revision) = .ok revision ∧
    revision.payload.bodyMarkdown.1 = r.decoded.content ∧
    revision.payload.title.1 = r.mapping.title ∧
    revision.payload.metadata.authorOrgId = actor.orgId ∧
    revision.payload.metadata.authorId = actor.actorId

def Builds (actor : Actor) (s : Store) : Call → Prop
  | .importMarkdown input built _ =>
      ∀ r b, parseImport input = .ok r → built = some b → b.Made actor s r
  | .reconcile .. => True

/-- A draft holds a revision of the digest. -/
def Store.Carries (s : Store) (e : SourceEntry) : Prop :=
  ∃ draft revision, s.drafts.lookup e.draftId = some draft ∧
    validateRevision (some draft.revision) = .ok revision ∧
    revision.revisionDigest.1 = e.revisionDigest

structure Store.Sound (id : String) (s : Store) : Prop where
  valid : ∀ state, s.source = some state → state.valid id = true
  drafts : ∀ state, s.source = some state → ∀ e ∈ state.entries, e.isPresent = true → s.Carries e

/-- The entries of a source, if it has been made. -/
def Store.entries (s : Store) : Option (List SourceEntry) := s.source.map (·.entries)

/-- What a call does to the record of the source. -/
structure Changes (s t : Store) (answer : Except Failure Result) : Prop where
  failed : ∀ e, answer = .error e → t = s
  grows : t.entries ≠ s.entries → versionOf t.source = versionOf s.source + 1
  keeps : t.entries = s.entries → t.source = s.source

def Call.operationId (c : Call) : Option String := text (c.input.get "operation_id")

def Call.imports : Call → Bool
  | .importMarkdown .. => true
  | .reconcile .. => false

/-- The calls are of one kind, and their inputs are canonically equal: they differ in the order of
their properties at most. -/
def Call.Repeats (c₂ c₁ : Call) : Prop :=
  c₂.imports = c₁.imports ∧ c₂.input.normalize = c₁.input.normalize

/-- The hash tells the requests of two calls apart. -/
def Apart (id : String) (c₁ c₂ : Call) : Prop :=
  ∀ k₁ k₂ text₁ text₂, requestText k₁ id c₁.input = .ok text₁ →
    requestText k₂ id c₂.input = .ok text₂ →
      Sha256.hexDigest text₁ = Sha256.hexDigest text₂ → text₁ = text₂

/-! ## What is performed -/

/-- A state that an operation leaves: the one it found, or the next version, with other entries. -/
def Advances (state : Option SourceState) (source : SourceState) : Prop :=
  state = some source ∨
    source.version = versionOf state + 1 ∧ state.map (·.entries) ≠ some source.entries

theorem mem_pushed {entries : List SourceEntry} {e other : SourceEntry}
    (mem : other ∈ pushed entries e) : other ∈ entries ∨ other = e := by
  rcases List.mem_append.mp mem with mem | mem
  · exact .inl (List.mem_of_mem_filter mem)
  · exact .inr (List.mem_singleton.mp mem)

theorem mem_pushed_self (entries : List SourceEntry) (e : SourceEntry) : e ∈ pushed entries e :=
  List.mem_append_right _ (List.mem_singleton_self e)

theorem mem_of_mem_pruned {entries : List SourceEntry} {e : SourceEntry} {new : Bool}
    (mem : e ∈ pruned new entries) : e ∈ entries := by
  unfold pruned at mem
  split_ifs at mem
  · exact List.mem_of_mem_filter mem
  · exact mem

theorem entriesOf_eq {state : Option SourceState} {entries : List SourceEntry}
    (is : state.map (·.entries) = some entries) : entriesOf state = entries := by
  obtain ⟨current, rfl, rfl⟩ := Option.map_eq_some_iff.mp is
  rfl

/-- An entry that is stored anew was not there. -/
theorem store_advances {state : Option SourceState} {new unchanged : Bool} {e : SourceEntry}
    {result : Result} (stored : store id state new unchanged e = .ok result)
    (absent : e ∉ entriesOf state) : Advances state result.source := by
  obtain ⟨-, -, rfl⟩ := store_ok stored
  refine .inr ⟨rfl, fun same => absent ?_⟩
  rw [entriesOf_eq same]
  exact mem_pushed_self _ e

/-- The paths of a valid state are its entries'. -/
theorem SourceState.nodup {state : SourceState} (valid : state.valid id = true) :
    (state.entries.map (·.path)).Nodup := by
  simp only [SourceState.valid, Bool.and_eq_true, decide_eq_true_eq] at valid
  exact valid.1.2

theorem Imported.advances {r : Import} {built : Option Built} {now : Instant}
    {state : Option SourceState} {result : Result}
    (valid : ∀ current, state = some current → current.valid id = true)
    (done : Imported id actor r built now state s result t) : Advances state result.source := by
  have unique : ∀ e ∈ entriesOf state, ∀ other ∈ entriesOf state, e.path = other.path →
      e = other := by
    cases state with
    | none => exact fun e mem => nomatch mem
    | some current =>
        exact fun e mem other mem' same =>
          List.inj_on_of_nodup_map (SourceState.nodup (valid current rfl)) mem mem' same
  cases done with
  | kept is found same present => exact .inl is
  | @restored e _ found removed stored =>
      refine store_advances stored fun mem => ?_
      obtain ⟨inside, path⟩ := find_path found
      have same := unique _ mem _ inside path.symm
      rw [← same] at removed
      cases removed
  | @built b _ is unlike fresh stored =>
      refine store_advances stored fun mem => ?_
      cases found : (entriesOf state).find? fun e => e.path == r.mapping.path with
      | none => exact absurd (beq_self_eq_true _) (List.find?_eq_none.mp found _ mem)
      | some e =>
          obtain ⟨inside, path⟩ := find_path found
          have same := unique _ mem _ inside path.symm
          have unlike := unlike e found
          rw [← same] at unlike
          simp [SourceEntry.same, entryOf] at unlike

theorem reconciledState_advances {paths : List String} {now : Instant}
    {state : Option SourceState}
    (valid : ∀ current, state = some current → current.valid id = true) :
    Advances state (reconciledState id paths now state) := by
  cases state with
  | none => exact .inr ⟨rfl, nofun⟩
  | some current =>
      have named : current.sourceId = id := by
        have valid := valid current rfl
        simp only [SourceState.valid, Bool.and_eq_true, beq_iff_eq] at valid
        tauto
      by_cases changed : current.entries.any (·.stale paths) = true
      · refine .inr ⟨by simp [reconciledState, changed, versionOf], fun same => ?_⟩
        obtain ⟨e, mem, stale⟩ := List.any_eq_true.mp changed
        have fixed : current.entries.map (fun e => e) =
            current.entries.map (·.reconcile paths now) :=
          (List.map_id' _).trans (Option.some.inj same)
        have kept := List.map_eq_map_iff.mp fixed e mem
        have present : e.isPresent = true := (Bool.and_eq_true_iff.mp stale).1
        rw [kept, SourceEntry.reconcile, if_pos stale] at present
        cases present
      · have fixed : current.entries.map (·.reconcile paths now) = current.entries := by
          refine (List.map_congr_left fun e mem => ?_).trans (List.map_id _)
          have fresh : ¬ e.stale paths = true := fun stale =>
            changed (List.any_eq_true.mpr ⟨e, mem, stale⟩)
          exact if_neg fresh
        left
        rw [reconciledState, fixed, if_neg changed, if_neg changed, ← named]

/-! ## Drafts -/

theorem digestOf_eq {v : Value} {revision : DocumentRevision}
    (valid : validateRevision (some v) = .ok revision) :
    digestOf v = revision.revisionDigest.1 := by
  unfold validateRevision at valid
  simp only [bind_ok] at valid
  obtain ⟨fields, isFields, -, -, digest, isDigest, payload, -, _, -, _, -, -, -, _, -, -, -, same⟩ :=
    valid
  obtain rfl := Except.ok.inj same
  cases v with
  | obj own =>
      obtain rfl := Except.ok.inj isFields
      unfold assertDigest assertPattern at isDigest
      dsimp only [digestOf, isRecord]
      split at isDigest
      · next text is =>
          split_ifs at isDigest with pattern
          · obtain rfl := Except.ok.inj isDigest
            rw [is]
            rfl
          · cases isDigest
      · cases isDigest
  | null | bool | num | str | arr => cases isFields

/-- The drafts that were there still are. -/
def Store.Keeps (s t : Store) : Prop :=
  ∀ key draft, s.drafts.lookup key = some draft → t.drafts.lookup key = some draft

theorem Store.Carries.mono {e : SourceEntry} (carries : s.Carries e) (keeps : s.Keeps t) :
    t.Carries e := by
  obtain ⟨draft, revision, found, rest⟩ := carries
  exact ⟨draft, revision, keeps _ _ found, rest⟩

theorem lookup_cons_fresh {β : Type} {l : List (String × β)} {key other : String} {a b : β}
    (fresh : l.lookup key = none) (found : l.lookup other = some b) :
    ((key, a) :: l).lookup other = some b := by
  have unlike : (other == key) = false := Bool.eq_false_iff.mpr fun same => by
    rw [eq_of_beq same, fresh] at found
    cases found
  rw [List.lookup_cons, unlike]
  exact found

theorem Imported.frame {r : Import} {built : Option Built} {now : Instant}
    {state : Option SourceState} {result : Result}
    (done : Imported id actor r built now state s result t) :
    t.receipts = s.receipts ∧ s.Keeps t := by
  cases done with
  | kept | restored => exact ⟨rfl, fun key draft found => found⟩
  | built is unlike fresh stored => exact ⟨rfl, fun key draft => lookup_cons_fresh fresh⟩

/-- The entries of the state that an import leaves have their drafts. -/
theorem Imported.carried {r : Import} {built : Option Built} {now : Instant}
    {state : Option SourceState} {result : Result}
    (done : Imported id actor r built now state s result t)
    (made : ∀ b, built = some b → b.Made actor s r)
    (all : ∀ e ∈ entriesOf state, s.Carries e) : ∀ e ∈ result.source.entries, t.Carries e := by
  have keeps := done.frame.2
  cases done with
  | kept is found same present =>
      subst is
      exact all
  | restored found removed stored =>
      obtain ⟨-, -, rfl⟩ := store_ok stored
      intro other mem
      rcases mem_pushed mem with old | rfl
      · exact all other (mem_of_mem_pruned old)
      · have carries := all _ (find_path found).1
        exact carries
  | @built b _ is unlike fresh stored =>
      obtain ⟨-, -, rfl⟩ := store_ok stored
      intro other mem
      rcases mem_pushed mem with old | rfl
      · exact (all other (mem_of_mem_pruned old)).mono keeps
      · obtain ⟨revision, valid, -⟩ := (made b is).revision
        exact ⟨_, revision, List.lookup_cons_self, valid, (digestOf_eq valid).symm⟩

theorem mem_reconciledState {paths : List String} {now : Instant} {state : Option SourceState}
    {e : SourceEntry} (mem : e ∈ (reconciledState id paths now state).entries) :
    ∃ old ∈ entriesOf state, e = old.reconcile paths now := by
  cases state with
  | none => cases mem
  | some current =>
      obtain ⟨old, inside, rfl⟩ := List.mem_map.mp mem
      exact ⟨old, inside, rfl⟩

theorem Store.Carries.reconcile {e : SourceEntry} (carries : s.Carries e) (paths : List String)
    (now : Instant) : s.Carries (e.reconcile paths now) := by
  unfold SourceEntry.reconcile
  split_ifs
  · exact carries
  · exact carries

/-! ## One call -/

theorem Call.parse_cases {c : Call} {kind : Kind}
    {perform : Option SourceState → Store → Except Failure Result × Store}
    (parsed : c.parse id actor = .ok (kind, perform)) :
    (∃ input built now r, c = .importMarkdown input built now ∧ parseImport input = .ok r ∧
      kind = r.kind ∧ perform = performImport id actor r built now) ∨
    (∃ input now paths, c = .reconcile input now ∧ parsePaths input = .ok paths ∧
      kind = .reconcile ∧ perform = performReconcile id paths now) := by
  cases c with
  | importMarkdown input built now =>
      obtain ⟨r, isImport, same⟩ := map_ok.mp parsed
      obtain ⟨rfl, rfl⟩ := Prod.mk.inj same
      exact .inl ⟨input, built, now, r, rfl, isImport, rfl, rfl⟩
  | reconcile input now =>
      obtain ⟨paths, isPaths, same⟩ := map_ok.mp parsed
      obtain ⟨rfl, rfl⟩ := Prod.mk.inj same
      exact .inr ⟨input, now, paths, rfl, isPaths, rfl, rfl⟩

omit [Sha256] in
theorem Import.kind_ne (r : Import) : r.kind ≠ .reconcile := by
  unfold Import.kind
  split_ifs <;> decide

/-- What a call performs on a source. -/
structure Performed (id : String) (actor : Actor) (c : Call) (s u : Store) (result : Result) :
    Prop where
  advances : Advances s.source result.source
  receipts : u.receipts = s.receipts
  keeps : s.Keeps u
  carried : Builds actor s c → (∀ e ∈ entriesOf s.source, s.Carries e) →
    ∀ e ∈ result.source.entries, u.Carries e

theorem Call.performed {c : Call} {kind : Kind}
    {perform : Option SourceState → Store → Except Failure Result × Store} {result : Result}
    (parsed : c.parse id actor = .ok (kind, perform))
    (valid : ∀ current, s.source = some current → current.valid id = true)
    (done : perform s.source s = (.ok result, u)) : Performed id actor c s u result := by
  rcases Call.parse_cases parsed with ⟨input, built, now, r, rfl, isImport, rfl, rfl⟩ |
    ⟨input, now, paths, rfl, isPaths, rfl, rfl⟩
  · obtain ⟨-, -, imported⟩ := performImport_ok done
    obtain ⟨receipts, keeps⟩ := imported.frame
    exact ⟨imported.advances valid, receipts, keeps, fun builds =>
      imported.carried fun b is => builds r b isImport is⟩
  · obtain ⟨-, rfl, rfl⟩ := performReconcile_ok done
    refine ⟨reconciledState_advances valid, rfl, fun key draft found => found, ?_⟩
    intro _ all e mem
    obtain ⟨old, inside, rfl⟩ := mem_reconciledState mem
    exact (all old inside).reconcile paths now

/-- A call throws, is answered from its receipt, or is performed. -/
theorem Store.call_performed {c : Call} {answer : Except Failure Result}
    (is : s.call id actor c = (answer, t)) : t = s ∨
      ∃ key digest result u, answer = .ok result ∧ s.receipts.lookup key = none ∧
        (∀ current, s.source = some current → current.valid id = true) ∧
        result.source.valid id = true ∧ Performed id actor c s u result ∧ t = { u with
          source := some result.source, receipts := (key, ⟨digest, result⟩) :: u.receipts } := by
  rcases Store.call_cases is with ⟨e, rfl, same⟩ |
    ⟨kind, perform, key, digest, expected, result, parsed, admitted, rfl, done⟩
  · exact .inl same
  · rcases transaction_ok done with ⟨receipt, found, replayed, same⟩ |
      ⟨absent, valid, version, u, performed, accepted, rfl⟩
    · exact .inl same
    · exact .inr ⟨key, digest, result, u, rfl, absent, valid, accepted,
        Call.performed parsed valid performed, rfl⟩

theorem Store.call_changes {c : Call} {answer : Except Failure Result}
    (is : s.call id actor c = (answer, t)) : Changes s t answer := by
  rcases Store.call_performed is with rfl |
    ⟨key, digest, result, u, rfl, absent, valid, accepted, performed, rfl⟩
  · exact ⟨fun _ _ => rfl, fun other => absurd rfl other, fun _ => rfl⟩
  · rcases performed.advances with same | ⟨version, other⟩
    · refine ⟨nofun, fun differ => absurd ?_ differ, fun _ => same.symm⟩
      exact congrArg (Option.map _) same.symm
    · exact ⟨nofun, fun _ => version, fun same => absurd same.symm other⟩

/-- The state is valid, and every entry has its draft. -/
structure Store.Kept (id : String) (s : Store) : Prop where
  valid : ∀ state, s.source = some state → state.valid id = true
  carried : ∀ e ∈ entriesOf s.source, s.Carries e

theorem Store.Kept.empty : Store.empty.Kept id where
  valid state is := by cases is
  carried e mem := by cases mem

theorem Store.Kept.step {c : Call} (kept : s.Kept id) (builds : Builds actor s c)
    (taken : s.step id actor c = some t) : t.Kept id := by
  obtain rfl := Option.some.inj taken
  rcases Store.call_performed (Prod.eta (s.call id actor c)).symm with same |
    ⟨key, digest, result, u, -, -, -, accepted, performed, same⟩
  · rw [same]
    exact kept
  · rw [same]
    refine ⟨fun _ is => Option.some.inj is ▸ accepted, fun e mem => ?_⟩
    have carries := performed.carried builds kept.carried e mem
    exact carries

theorem Store.Kept.sound (kept : s.Kept id) : s.Sound id :=
  ⟨kept.valid, fun _ is e mem _ => kept.carried e (is ▸ mem)⟩

/-! ## Later stores -/

/-- A store that a run reaches from another. -/
structure Store.Follows (t s : Store) : Prop where
  version : versionOf s.source ≤ versionOf t.source
  source : versionOf t.source = versionOf s.source → t.source = s.source
  receipts : ∀ key receipt, s.receipts.lookup key = some receipt →
    t.receipts.lookup key = some receipt

theorem Store.Follows.refl (s : Store) : s.Follows s :=
  ⟨Nat.le_refl _, fun _ => rfl, fun _ _ found => found⟩

theorem Store.Follows.trans (first : t.Follows s) (second : u.Follows t) : u.Follows s where
  version := first.version.trans second.version
  source same := by
    have lower := first.version
    have upper := second.version
    have middle := second.source (by omega)
    rw [middle] at same ⊢
    exact first.source same
  receipts key receipt found := second.receipts key receipt (first.receipts key receipt found)

theorem Store.call_follows {c : Call} {answer : Except Failure Result}
    (is : s.call id actor c = (answer, t)) : t.Follows s := by
  rcases Store.call_performed is with rfl |
    ⟨key, digest, result, u, rfl, absent, valid, accepted, performed, rfl⟩
  · exact .refl _
  · have receipts : ∀ k receipt, s.receipts.lookup k = some receipt →
        ((key, ⟨digest, result⟩) :: u.receipts).lookup k = some receipt := by
      intro k receipt found
      rw [performed.receipts]
      exact lookup_cons_fresh absent found
    rcases performed.advances with same | ⟨version, -⟩
    · exact ⟨by rw [same], fun _ => same.symm, receipts⟩
    · have next : versionOf (some result.source) = versionOf s.source + 1 := version
      refine ⟨?_, fun same => ?_, receipts⟩
      · change _ ≤ versionOf (some result.source)
        omega
      · change versionOf (some result.source) = _ at same
        omega

theorem Store.run_follows {calls : List Call}
    (taken : Machine.run (Store.step id actor) s calls = some t) : t.Follows s :=
  @Machine.run_relates Store Call (Store.step id actor) (fun _ _ => True)
    (fun s t => t.Follows s) Store.Follows.refl (fun _ _ _ first second => first.trans second)
    (fun s c t _ taken => by
      obtain rfl := Option.some.inj taken
      exact Store.call_follows (Prod.eta (s.call id actor c)).symm)
    _ _ _ (Machine.Always.true s calls) taken

/-! ## Inputs that are canonically equal -/

theorem text_normalize (o : Option Value) : text (o.map Value.normalize) = text o := by
  cases o with
  | none => rfl
  | some v => cases v <;> simp [text]

theorem safeInteger_normalize (o : Option Value) :
    safeInteger (o.map Value.normalize) = safeInteger o := by
  cases o with
  | none => rfl
  | some v => cases v <;> simp [safeInteger]

theorem isString_normalize (o : Option Value) (s : String) :
    isString (o.map Value.normalize) s = isString o s := by
  cases o with
  | none => rfl
  | some v => cases v <;> simp [isString]

theorem hasFields_normalize (fs : Fields) (names : List String) :
    Storage.hasFields fs.normalize names = Storage.hasFields fs names := by
  have perm : fs.normalize.keys.Perm fs.keys := by
    unfold Fields.keys Fields.normalize
    refine ((List.perm_insertionSort fieldLe _).map _).trans ?_
    rw [normalizeFields_eq, List.map_map]
    rfl
  rw [Bool.eq_iff_iff]
  unfold Storage.hasFields
  rw [List.isPerm_iff, List.isPerm_iff]
  exact ⟨perm.symm.trans, perm.trans⟩

theorem confluenceOrigin_normalize (v : Value) :
    confluenceOrigin v.normalize = confluenceOrigin v := by
  cases v with
  | obj fields =>
      simp only [Value.normalize_obj, confluenceOrigin, isRecord, Fields.get_normalize,
        text_normalize, safeInteger_normalize, isString_normalize, hasFields_normalize]
  | null | bool | num | str | arr => simp [confluenceOrigin, isRecord]

theorem parseOrigin_normalize (o : Option Value) :
    parseOrigin (o.map Value.normalize) = parseOrigin o := by
  cases o with
  | none => rfl
  | some v => exact congrArg (some <$> ·) (confluenceOrigin_normalize v)

theorem sourceMapping_normalize (fs : Fields) : sourceMapping fs.normalize = sourceMapping fs := by
  simp only [sourceMapping, sourcePath, sourceId, Fields.get_normalize, text_normalize,
    safeInteger_normalize]

theorem decodeMarkdownImport_normalize (filename : String) (o : Option Value) :
    decodeMarkdownImport filename (o.map Value.normalize) = decodeMarkdownImport filename o := by
  simp only [decodeMarkdownImport, decodeCanonicalBase64, text_normalize]

theorem parseImport_normalize (fs : Fields) : parseImport fs.normalize = parseImport fs := by
  simp only [parseImport, sourceMapping_normalize, Fields.get_normalize, parseOrigin_normalize,
    decodeMarkdownImport_normalize]

theorem eachPath_normalize (values : List Value) :
    eachPath (values.map Value.normalize) = eachPath values := by
  induction values with
  | nil => rfl
  | cons v rest ih =>
      have same : text (some v.normalize) = text (some v) := text_normalize (some v)
      simp only [List.map_cons, eachPath, sourcePath, ih, same]

theorem parsePaths_normalize (fs : Fields) : parsePaths fs.normalize = parsePaths fs := by
  unfold parsePaths
  rw [Fields.get_normalize]
  cases fs.get "present_paths" with
  | none => rfl
  | some v =>
      cases v with
      | arr values => simp only [Option.map_some, Value.normalize_arr, List.length_map,
          eachPath_normalize]
      | null | bool | num | str | obj => simp

theorem Kind.text_injective : Function.Injective Kind.text := by
  intro k₁ k₂ same
  revert same
  cases k₁ <;> cases k₂ <;> decide

theorem requestText_congr {kind : Kind} {fs gs : Fields} (same : fs.normalize = gs.normalize) :
    requestText kind id fs = requestText kind id gs := by
  have sorted (input : Value) : (record [("kind", jsonString kind.text),
      ("source_id", jsonString id), ("input", input)]).normalize =
        .obj ([(.wellFormed "kind", jsonString kind.text), (.wellFormed "source_id", jsonString id),
          (.wellFormed "input", input.normalize)].insertionSort fieldLe) := by
    simp [record, recordFields, Fields.normalize, normalizeFields_eq, jsonString]
  refine canonicalize_congr ?_
  rw [sorted, sorted, Value.normalize_obj, Value.normalize_obj, same]

theorem requestText_inj {k₁ k₂ : Kind} {fs gs : Fields} {request : String}
    (first : requestText k₁ id fs = .ok request) (second : requestText k₂ id gs = .ok request) :
    k₁ = k₂ ∧ fs.normalize = gs.normalize := by
  have same := canonicalize_inj first second
  simp only [record, Value.normalize_obj, Value.obj.injEq] at same
  have field (name : String) := congrArg (fun fields : Fields => fields.get name) same
  simp only [Fields.get_normalize] at field
  constructor
  · have kinds := congrArg text (field "kind")
    simp only [text_normalize] at kinds
    have same : k₁.text = k₂.text := by simpa [text, jsonString] using kinds
    exact Kind.text_injective same
  · simpa using field "input"

theorem text_congr {fs gs : Fields} (same : fs.normalize = gs.normalize) (name : String) :
    text (fs.get name) = text (gs.get name) := by
  rw [← text_normalize (fs.get name), ← Fields.get_normalize, same, Fields.get_normalize,
    text_normalize]

theorem admit_congr {kind : Kind} {fs gs : Fields} (same : fs.normalize = gs.normalize) :
    admission id fs kind = admission id gs kind := by
  have version : safeInteger (fs.get "expected_version") = safeInteger (gs.get "expected_version") :=
    by rw [← safeInteger_normalize (fs.get _), ← Fields.get_normalize, same, Fields.get_normalize,
      safeInteger_normalize]
  simp only [admission, sourceId, sourceVersion, text_congr same, version, requestText_congr same]

theorem replay_congr {kind : Kind} {fs gs : Fields} (same : fs.normalize = gs.normalize)
    (digest : String) (receipt : Receipt) :
    replay id kind fs digest receipt = replay id kind gs digest receipt := by
  unfold replay
  rw [text_congr same]

theorem Call.parse_imports {c : Call} {kind : Kind}
    {perform : Option SourceState → Store → Except Failure Result × Store}
    (parsed : c.parse id actor = .ok (kind, perform)) :
    c.imports = !decide (kind = .reconcile) := by
  rcases Call.parse_cases parsed with ⟨input, built, now, r, rfl, -, rfl, -⟩ |
    ⟨input, now, paths, rfl, -, rfl, -⟩
  · exact (congrArg not (decide_eq_false r.kind_ne)).symm
  · rfl

theorem Call.parse_congr {c₁ c₂ : Call} {kind : Kind}
    {perform : Option SourceState → Store → Except Failure Result × Store}
    (repeats : c₂.Repeats c₁) (parsed : c₁.parse id actor = .ok (kind, perform)) :
    ∃ perform', c₂.parse id actor = .ok (kind, perform') := by
  obtain ⟨imports, same⟩ := repeats
  cases c₁ with
  | importMarkdown input built now =>
      cases c₂ with
      | importMarkdown input' built' now' =>
          have same : input'.normalize = input.normalize := same
          obtain ⟨r, isImport, is⟩ := map_ok.mp parsed
          obtain ⟨rfl, -⟩ := Prod.mk.inj is
          refine ⟨performImport id actor r built' now', map_ok.mpr ⟨r, ?_, rfl⟩⟩
          rw [← parseImport_normalize, same, parseImport_normalize]
          exact isImport
      | reconcile input' now' => cases imports
  | reconcile input now =>
      cases c₂ with
      | importMarkdown input' built' now' => cases imports
      | reconcile input' now' =>
          have same : input'.normalize = input.normalize := same
          obtain ⟨paths, isPaths, is⟩ := map_ok.mp parsed
          obtain ⟨rfl, -⟩ := Prod.mk.inj is
          refine ⟨performReconcile id paths now', map_ok.mpr ⟨paths, ?_, rfl⟩⟩
          rw [← parsePaths_normalize, same, parsePaths_normalize]
          exact isPaths

/-! ## Receipts -/

theorem admit_ok {kind : Kind} {input : Fields} {key digest : String} {expected : Nat}
    (admitted : admission id input kind = .ok (key, digest, expected)) :
    ∃ operationId request, text (input.get "operation_id") = some operationId ∧
      requestText kind id input = .ok request ∧ key = operationKey id operationId ∧
      digest = Sha256.hexDigest request := by
  unfold admission at admitted
  simp only [bind_ok] at admitted
  obtain ⟨_, -, operationId, isId, _, -, request, isRequest, same⟩ := admitted
  obtain ⟨rfl, rest⟩ := Prod.mk.inj (Except.ok.inj same)
  obtain ⟨rfl, rfl⟩ := Prod.mk.inj rest
  refine ⟨operationId, request, ?_, ?_, rfl, rfl⟩
  · unfold sourceId at isId
    split at isId
    · next s is =>
        split_ifs at isId
        · exact Except.ok.inj isId ▸ is
    · cases isId
  · cases is : requestText kind id input with
    | ok text =>
        rw [is] at isRequest
        exact congrArg _ (Except.ok.inj isRequest)
    | error e =>
        rw [is] at isRequest
        cases isRequest

theorem parseImport_path {input : Fields} {r : Import} (parsed : parseImport input = .ok r) :
    text (input.get "path") = some r.mapping.path := by
  unfold parseImport at parsed
  simp only [bind_ok] at parsed
  obtain ⟨mapping, isMapping, _, -, _, -, _, -, same⟩ := parsed
  obtain rfl := Except.ok.inj same
  unfold sourceMapping at isMapping
  split at isMapping
  · split_ifs at isMapping
    · simp only [bind_ok] at isMapping
      obtain ⟨path, isPath, _, -, same⟩ := isMapping
      obtain rfl := Except.ok.inj same
      unfold sourcePath at isPath
      split at isPath
      · next s is =>
          split_ifs at isPath
          exact Except.ok.inj isPath ▸ is
      · cases isPath
  · cases isMapping

/-- An import returns the entry of its path. -/
theorem Imported.returns {r : Import} {built : Option Built} {now : Instant}
    {state : Option SourceState} {result : Result}
    (done : Imported id actor r built now state s result t) :
    ∃ unchanged source draftId, result = .file unchanged source draftId ∧
      ∃ e ∈ source.entries, e.draftId = draftId ∧ e.path = r.mapping.path := by
  cases done with
  | kept is found same present =>
      subst is
      obtain ⟨mem, path⟩ := find_path found
      exact ⟨_, _, _, rfl, _, mem, rfl, path⟩
  | restored found removed stored =>
      obtain ⟨-, -, rfl⟩ := store_ok stored
      exact ⟨_, _, _, rfl, _, mem_pushed_self _ _, rfl, rfl⟩
  | built is unlike fresh stored =>
      obtain ⟨-, -, rfl⟩ := store_ok stored
      exact ⟨_, _, _, rfl, _, mem_pushed_self _ _, rfl, rfl⟩

/-- The receipt of what is performed answers its result. -/
theorem Call.replays {c : Call} {kind : Kind}
    {perform : Option SourceState → Store → Except Failure Result × Store} {result : Result}
    (parsed : c.parse id actor = .ok (kind, perform))
    (valid : ∀ current, s.source = some current → current.valid id = true)
    (done : perform s.source s = (.ok result, u)) (accepted : result.source.valid id = true)
    (digest : String) : replay id kind c.input digest ⟨digest, result⟩ = .ok result := by
  unfold replay
  rw [if_neg (fun other => other rfl), if_pos accepted]
  rcases Call.parse_cases parsed with ⟨input, built, now, r, rfl, isImport, rfl, rfl⟩ |
    ⟨input, now, paths, rfl, isPaths, rfl, rfl⟩
  · obtain ⟨unchanged, source, draftId, rfl, e, mem, draft, path⟩ :=
      (performImport_ok done).2.2.returns
    have fits : source.entries.any (fun e => e.draftId == draftId &&
        text (Fields.get input "path") == some e.path) = true := by
      refine List.any_eq_true.mpr ⟨e, mem, ?_⟩
      rw [parseImport_path isImport, draft, path]
      simp
    cases kind : r.kind with
    | reconcile => exact absurd kind r.kind_ne
    | markdown | confluence => exact if_pos fits
  · obtain ⟨-, rfl, rfl⟩ := performReconcile_ok done
    refine if_pos ?_
    have few : (entriesOf u.source).length ≤ 200 := by
      cases is : u.source with
      | none => exact Nat.zero_le _
      | some current =>
          have valid := valid current is
          simp only [SourceState.valid, Bool.and_eq_true, Nat.ble_eq] at valid
          exact valid.1.1.1.2
    have fewer := List.length_filter_le (·.stale paths) (entriesOf u.source)
    unfold isSafeInteger maxSafeInteger
    rw [Bool.and_eq_true, decide_eq_true_eq, decide_eq_true_eq]
    omega

/-- A call that returned has left its receipt. -/
theorem Store.receipt {c : Call} {result : Result} (is : s.call id actor c = (.ok result, t)) :
    ∃ kind perform operationId request expected receipt,
      c.parse id actor = .ok (kind, perform) ∧ c.operationId = some operationId ∧
      requestText kind id c.input = .ok request ∧
      admission id c.input kind =
        .ok (operationKey id operationId, Sha256.hexDigest request, expected) ∧
      t.receipts.lookup (operationKey id operationId) = some receipt ∧
      receipt.requestDigest = Sha256.hexDigest request ∧
      replay id kind c.input (Sha256.hexDigest request) receipt = .ok result := by
  rcases Store.call_cases is with ⟨e, failed, -⟩ |
    ⟨kind, perform, key, digest, expected, done, parsed, admitted, same, taken⟩
  · cases failed
  · obtain rfl := Except.ok.inj same
    obtain ⟨operationId, request, named, isRequest, rfl, rfl⟩ := admit_ok admitted
    refine ⟨kind, perform, operationId, request, expected, ?_⟩
    rcases transaction_ok taken with ⟨receipt, found, replayed, rfl⟩ |
      ⟨absent, valid, version, u, performed, accepted, rfl⟩
    · refine ⟨receipt, parsed, named, isRequest, admitted, found, ?_, replayed⟩
      unfold replay at replayed
      split_ifs at replayed with differs
      · exact not_not.mp differs
      · exact not_not.mp differs
    · exact ⟨_, parsed, named, isRequest, admitted, List.lookup_cons_self, rfl,
        Call.replays parsed valid performed accepted _⟩

/-- A call that repeats one that returned is answered with its result. -/
theorem Store.repeated {c₁ c₂ : Call} {result : Result} {s₁ : Store}
    (first : s.call id actor c₁ = (.ok result, s₁)) (follows : t.Follows s₁)
    (repeats : c₂.Repeats c₁) : t.call id actor c₂ = (.ok result, t) := by
  obtain ⟨kind, perform, operationId, request, expected, receipt, parsed, -, -, admitted, found, -,
    replayed⟩ := Store.receipt first
  obtain ⟨perform', parsed'⟩ := Call.parse_congr repeats parsed
  have found := follows.receipts _ _ found
  rw [← admit_congr repeats.2] at admitted
  rw [← replay_congr repeats.2] at replayed
  rw [Store.call_eq, parsed']
  dsimp only [operation]
  rw [admitted]
  dsimp only [atomic, transaction]
  rw [found]
  dsimp only
  rw [replayed]

/-- Another request under the same operation id is refused. -/
theorem Store.conflicting {c₁ c₂ : Call} {result : Result} {s₁ : Store}
    (first : s.call id actor c₁ = (.ok result, s₁)) (follows : t.Follows s₁)
    (named : c₂.operationId = c₁.operationId) (other : ¬ c₂.Repeats c₁) (apart : Apart id c₁ c₂) :
    ∃ e, t.call id actor c₂ = (.error e, t) := by
  cases is : (t.call id actor c₂).1 with
  | error e =>
      have answer : t.call id actor c₂ = (.error e, (t.call id actor c₂).2) := by rw [← is]
      rw [answer, (Store.call_changes answer).failed e rfl]
      exact ⟨e, rfl⟩
  | ok result' =>
      have answer : t.call id actor c₂ = (.ok result', (t.call id actor c₂).2) := by rw [← is]
      obtain ⟨k₁, perform₁, name₁, text₁, -, receipt, parsed₁, named₁, request₁, -, found₁, digest₁,
        -⟩ := Store.receipt first
      obtain ⟨k₂, perform₂, name₂, text₂, -, receipt', parsed₂, named₂, request₂, -, found₂,
        digest₂, -⟩ := Store.receipt answer
      have sameName : name₁ = name₂ := by
        rw [named₁, named₂] at named
        exact (Option.some.inj named).symm
      subst sameName
      have found := (Store.call_follows answer).receipts _ _ (follows.receipts _ _ found₁)
      obtain rfl := Option.some.inj (found₂.symm.trans found)
      have same := apart k₁ k₂ text₁ text₂ request₁ request₂ (digest₁.symm.trans digest₂)
      subst same
      obtain ⟨kinds, inputs⟩ := requestText_inj request₁ request₂
      refine absurd ⟨?_, inputs.symm⟩ other
      rw [Call.parse_imports parsed₁, Call.parse_imports parsed₂, kinds]

/-! ## Runs -/

theorem source_state_machine {calls : List Call}
    (taken : Machine.run (Store.step id actor) Store.empty calls = some s)
    (builds : Machine.Always (Store.step id actor) (Builds actor) Store.empty calls) :
    s.Sound id ∧
      (∀ c answer t, s.call id actor c = (answer, t) → Changes s t answer) ∧
      (∀ more t, Machine.run (Store.step id actor) s more = some t →
        versionOf t.source = versionOf s.source → t.source = s.source) ∧
      ∀ c₁ result s₁, s.call id actor c₁ = (.ok result, s₁) →
        ∀ more t, Machine.run (Store.step id actor) s₁ more = some t →
          ∀ c₂, c₂.operationId = c₁.operationId →
            (c₂.Repeats c₁ → t.call id actor c₂ = (.ok result, t)) ∧
            (¬ c₂.Repeats c₁ → Apart id c₁ c₂ → ∃ e, t.call id actor c₂ = (.error e, t)) := by
  have kept : s.Kept id := Machine.run_keeps_of
    (fun s c t kept builds taken => kept.step builds taken) Store.Kept.empty builds taken
  refine ⟨kept.sound, fun c answer t is => Store.call_changes is, ?_, ?_⟩
  · intro more t taken same
    exact (Store.run_follows taken).source same
  · intro c₁ result s₁ first more t taken c₂ named
    have follows := Store.run_follows taken
    exact ⟨Store.repeated first follows, Store.conflicting first follows named⟩

end

namespace Demo

@[reducible] local instance : Sha256 := Knowledger.Demo.sha256

def author : Actor := Knowledger.Demo.owner

def payload : DocumentRevisionPayload where
  toSlot := Knowledger.Demo.slot (Knowledger.Demo.name "handbook")
  revisionId := Knowledger.Demo.name "revision"
  title := ⟨"Handbook", by decide⟩
  bodyMarkdown := ⟨"# A", by decide⟩
  parents := []
  dependencies := []
  metadata :=
    { authorId := author.actorId
      createdAt := ⟨"2026-01-01", Knowledger.Demo.date_fits⟩
      sourceKind := .approvedImport
      sharedAssertions := []
      authorOrgId := author.orgId }

/-- The canonical text of the payload. -/
def canonicalText : List Char := (canonicalizeValue payload.toJson 0).toOption.getD []

theorem payload_canonical : canonicalize payload.toJson = .ok (String.ofList canonicalText) := by
  obtain ⟨text, is⟩ := canonicalizeValue_isOk payload.toJson 0 (by decide +kernel)
  rw [canonicalText, canonicalize, is]
  rfl

def revision : DocumentRevision :=
  ⟨⟨"sha256:" ++ Sha256.hexDigest (String.ofList canonicalText), isDigest_sha256 _⟩, payload⟩

theorem revision_valid : validateRevision (some revision.toJson) = .ok revision := by
  refine validateRevision_json ⟨?_, String.ofList canonicalText, payload_canonical, ?_, rfl⟩
  · exact ⟨by decide, by decide, by decide, by decide, rfl, by decide, rfl⟩
  · rw [Utf8.utf8ByteSize_ofList]
    decide +kernel

/-- What `build` returns for a file of this title and text. -/
def built (draftId : String) : Built := ⟨draftId, revision.toJson⟩

def mapping (path : String) : SourceFileMapping := ⟨path, "policy", 1, "Handbook"⟩

/-- The file whose text is `# A`. -/
def decoded (filename : String) : DecodedMarkdownImport :=
  ⟨filename, "# A", 3, Sha256.hexDigest "# A"⟩

theorem decode_content (filename : String)
    (valid : validateMarkdownFilename filename = .ok filename) :
    decodeMarkdownImport filename (some (jsonString "IyBB")) = .ok (decoded filename) := by
  have bytes : decodeCanonicalBase64 (some (jsonString "IyBB")) = .ok [0x23, 0x20, 0x41] := rfl
  have text : String.fromUTF8? (List.toByteArray [0x23, 0x20, 0x41]) = some "# A" := by decide
  unfold decodeMarkdownImport
  rw [valid, ok_bind, bytes, ok_bind, text]
  rfl

/-- The file as an import of the path. -/
def fileAt (path : String) (origin : Option ConfluenceOrigin) : Import :=
  ⟨mapping path, origin, decoded (filenameOf path)⟩

theorem built_digest (draftId : String) : isDigest (digestOf (built draftId).revision) = true := by
  rw [built, digestOf_eq revision_valid]
  exact revision.revisionDigest.2

theorem built_made {s : Store} {r : Import} {draftId : String}
    (fresh : s.drafts.lookup draftId = none) (content : r.decoded.content = "# A")
    (title : r.mapping.title = "Handbook") : (built draftId).Made author s r :=
  ⟨fresh, revision, revision_valid, content.symm, title.symm, rfl, rfl⟩

def start : Instant := ⟨0, Nat.zero_le _⟩

theorem sendable : Sendable "kb1" Store.empty (fileAt "a.md" none) "op-1" "IyBB"
    (built "draft-1") where
  source := by decide
  operation := by decide
  valid current is := by cases is
  version := by decide
  mapping := by decide
  origins o is := by cases is
  decodes := decode_content _ rfl
  unsent := rfl
  sameOrigin := rfl
  newer := rfl
  unlike e mem := by cases mem
  draft := by decide
  fresh := rfl
  digest := built_digest _

def firstImport : Call :=
  .importMarkdown (importBody "op-1" 0 (mapping "a.md") "IyBB" none) (some (built "draft-1")) start

theorem firstImport_built :
    Machine.Always (Store.step "kb1" author) (Builds author) Store.empty [firstImport] := by
  refine ⟨fun r b parsed is => ?_, fun t _ => trivial⟩
  obtain rfl := Option.some.inj is
  have own := parseImport_body "op-1" 0 sendable.mapping
    sendable.origins sendable.decodes
  obtain rfl := Except.ok.inj (own.symm.trans parsed)
  exact built_made rfl rfl rfl

/-- A file is imported, and again, and the second answer is the first one's. -/
theorem source_state_machine_imported : ∃ s result,
    Machine.run (Store.step "kb1" author) Store.empty [firstImport] = some s ∧
      versionOf s.source = 1 ∧ (entriesOf s.source).map (·.path) = ["a.md"] ∧ s.Sound "kb1" ∧
      s.call "kb1" author firstImport = (.ok result, s) := by
  obtain ⟨digest, taken⟩ := sendable.imported author start rfl (by decide)
  have first : Store.empty.call "kb1" author firstImport = _ := taken
  have run : Machine.run (Store.step "kb1" author) Store.empty [firstImport] =
      some (Store.empty.call "kb1" author firstImport).2 := rfl
  rw [first] at run
  have none : Machine.run (Store.step "kb1" author) Store.empty [] = some Store.empty := rfl
  have empty := source_state_machine none trivial
  have again := (empty.2.2.2 _ _ _ first [] _ rfl firstImport rfl).1 ⟨rfl, rfl⟩
  exact ⟨_, _, run, rfl, rfl, (source_state_machine run firstImport_built).1, again⟩

end Demo

end Knowledger.Source
