import Knowledger.Steps

/-!
# Publication

The accepted runs of `publish_revision`: of a revision that is stored already, and of a new
one.
-/

namespace Knowledger

open Js Txn

variable [Sha256] {L : State} {s : Store} {w w' : Writes String Value}

/-- The digest the pointer of a revision id names. -/
def State.revisionPointer (L : State) (id : Id) : Option Digest := L (.revisionId id)

theorem readRevisionById_ok (h : Represents L s) {id : Id} {o : Option DocumentRevision} :
    (readRevisionById id).eval s = .ok o ↔
      match L.revisionPointer id with
      | none => o = none
      | some digest => ∃ r, L.revision digest = some r ∧ o = some r := by
  have read : present (s (keyFor.revisionId id.1)) = (L.revisionPointer id).map
      fun digest => record [("revision_digest", jsonString digest.1)] := h.read (.revisionId id)
  simp only [readRevisionById, eval_bind_ok, eval_getRecord, read, Except.ok.injEq,
    exists_eq_left']
  cases L.revisionPointer id with
  | none => simp [eq_comm]
  | some digest =>
      have keys : assertKeys (recordFields [("revision_digest", some (jsonString digest.1))])
          ["revision_digest"] [] "revision id pointer" = .ok () :=
        assertKeys_recordFields _ (by simp) (by simp)
      have length : (recordFields [("revision_digest", some (jsonString digest.1))]).length = 1 :=
        rfl
      have field : Fields.get (recordFields [("revision_digest", some (jsonString digest.1))])
          "revision_digest" = some (.str (.wellFormed digest.1)) := rfl
      have named : ∀ label, assertDigest (some (.str (.wellFormed digest.1))) label = .ok digest :=
        fun label => assertDigest_json label digest
      simp only [Option.map_some, record, isRecord, length, field, eval_bind_ok, eval_check,
        checked_ok, keys, named, Except.ok.injEq, exists_eq_left', Unique.exists_iff,
        h.read_revision, Query.eval_pure, true_and]
      simp only [eq_comm]

theorem checkParents_ok (h : Represents L s) {revision : DocumentRevision} {parents : List Digest}
    {u : Unit} :
    (checkParents revision parents).eval s = .ok u ↔ ∀ digest ∈ parents, ∃ parent,
      L.revision digest = some parent ∧ parent.payload.toSlot = revision.payload.toSlot := by
  induction parents with
  | nil => exact ⟨fun _ _ mem => (nomatch mem), fun _ => rfl⟩
  | cons digest parents ih =>
      simp only [checkParents, eval_bind_ok, h.read_revision, eval_check, checked_ok, ensure_ok,
        sameSlot_iff, exists_const, ih, List.mem_cons, forall_eq_or_imp]
      constructor
      · rintro ⟨parent, stored, slot, rest⟩
        exact ⟨⟨parent, stored, slot⟩, rest⟩
      · rintro ⟨⟨parent, stored, slot⟩, rest⟩
        exact ⟨parent, stored, slot, rest⟩

/-- A publication that passes the checks before the revision is looked up. -/
structure Publishable (ctx : Context) (config : DomainConfig) (input : Fields) where
  identity : ConfigIdentity
  publication : Publication
  configured : configuredIdentity config ctx.actor = .ok identity
  publication_eq : validatePublication input = .ok publication
  channel : ctx.channelId = config.channelId
  revisionChannel : publication.revision.payload.channelId = config.channelId
  entitled : (identity.publishContexts.contains .all || identity.publishContexts.contains
    (.context publication.revision.payload.contextId)) = true
  serving : config.servingEnabled = true
  configVersion : assertConfigVersionEqual publication.configVersion config.configVersion
    "publication.config_version" = .ok ()
  membership : publication.membershipEpoch = config.membershipEpoch

/-- An accepted `publish_revision` of a stored revision. -/
structure Republishing (L : State) (ctx : Context) (config : DomainConfig) (input : Fields)
    extends Publishable ctx config input where
  stored : DocumentRevision
  found : L.revision publication.revision.revisionDigest = some stored
  same : sameJson stored.toJson publication.revision.toJson = true

/-- An accepted `publish_revision` of a new revision. -/
structure Publishing (L : State) (ctx : Context) (config : DomainConfig) (input : Fields)
    extends Publishable ctx config input where
  fresh : L (.revision publication.revision.revisionDigest) = none
  freshId : L (.revisionId publication.revision.payload.revisionId) = none
  parents : ∀ digest ∈ publication.revision.payload.parents, ∃ parent,
    L.revision digest = some parent ∧
      parent.payload.toSlot = publication.revision.payload.toSlot
  graph : ∀ s, Represents L s →
    (validatePublishedDependencyGraph publication.revision).eval s = .ok ()
  canonical : ∃ text, canonicalize publication.revision.toJson = .ok text

section Publishing

variable {ctx : Context} {config : DomainConfig} {input : Fields}

theorem validatePublication_valid {p : Publication} (run : validatePublication input = .ok p) :
    p.revision.Valid := by
  simp only [validatePublication, bind_ok, pure_ok] at run
  obtain ⟨_, _, revision, revisionRun, _, _, _, _, _, _, _, _, _, _, _, _, rfl⟩ := run
  exact validateRevision_valid _ _ revisionRun

def Publishing.entries (c : Publishing L ctx config input) : List Entry :=
  [⟨.revision c.publication.revision.revisionDigest,
      ⟨c.publication.revision, validatePublication_valid c.publication_eq, rfl⟩⟩,
    ⟨.revisionId c.publication.revision.payload.revisionId,
      c.publication.revision.revisionDigest⟩]

theorem publishRevision_ok (h : Represents L (w.over s)) {revision : DocumentRevision}
    (valid : revision.Valid) {r : Value} :
    (publishRevision revision).simulate s w = .ok (r, w') ↔
      ((∃ e, L.revision revision.revisionDigest = some e ∧
          sameJson e.toJson revision.toJson = true) ∧
        r = publishResult "already_published" revision ∧ w' = w) ∨
      (L (.revision revision.revisionDigest) = none ∧
        L (.revisionId revision.payload.revisionId) = none ∧
        (∀ digest ∈ revision.payload.parents, ∃ parent, L.revision digest = some parent ∧
          parent.payload.toSlot = revision.payload.toSlot) ∧
        (validatePublishedDependencyGraph revision).eval (w.over s) = .ok () ∧
        (∃ text, canonicalize revision.toJson = .ok text)) ∧
        r = publishResult "published" revision ∧
        w' = putAll w [⟨.revision revision.revisionDigest, ⟨revision, valid, rfl⟩⟩,
          ⟨.revisionId revision.payload.revisionId, revision.revisionDigest⟩] := by
  have read := h.read (.revision revision.revisionDigest)
  simp only [publishRevision, Program.simulate_bind_ok, simulate_query_ok, eval_getRecord,
    Except.ok.injEq, exists_eq_left', and_assoc, exists_and_left, exists_eq_left]
  rw [show keyFor.revision revision.revisionDigest.1 =
    (Key.revision revision.revisionDigest).text from rfl, read]
  cases found : L (.revision revision.revisionDigest) with
  | some e =>
      have stored : L.revision revision.revisionDigest = some e.1 :=
        State.revision_eq.mpr ⟨e.2, found⟩
      simp only [Option.map_some, Program.simulate_bind_ok, simulate_check_ok,
        validateRevision_stored, Except.ok.injEq, and_assoc, exists_and_left, exists_eq_left,
        exists_eq_left', ensure_ok, Unique.exists_iff, simulate_pure_ok, stored,
        Option.some.injEq, reduceCtorEq, false_and, or_false]
      simp only [eq_comm]
  | none =>
      have missing : L.revision revision.revisionDigest = none := congrArg _ found
      simp only [Option.map_none, Program.simulate_bind_ok, simulate_query_ok,
        readRevisionById_ok h, and_assoc, exists_and_left, exists_eq_left, missing, reduceCtorEq,
        false_and, exists_const, false_or, true_and]
      cases pointer : L.revisionPointer revision.payload.revisionId with
      | some digest =>
          have taken : L (.revisionId revision.payload.revisionId) ≠ none := by
            intro free
            exact absurd (pointer.symm.trans free) (by simp)
          constructor
          · rintro ⟨_, ⟨e, stored, rfl⟩, run⟩
            simp only [Program.simulate_bind_ok, simulate_check_ok, ensure_ok, beq_iff_eq] at run
            obtain ⟨_, _, ⟨same, _⟩, _⟩ := run
            obtain ⟨_, rfl⟩ := State.revision_named stored
            rw [same, missing] at stored
            cases stored
          · rintro (⟨⟨_, impossible⟩, _⟩ | ⟨free, _⟩)
            · exact impossible.elim
            · exact absurd free taken
      | none =>
          have free : L (.revisionId revision.payload.revisionId) = none := pointer
          simp only [exists_eq_left, Program.simulate_bind_ok, simulate_query_ok,
            checkParents_ok h, putClone_ok, put_ok, simulate_pure_ok, and_assoc, exists_and_left,
            Unique.exists_iff, PUnit.default_eq_unit, free, true_and, exists_false, false_and,
            false_or]
          simp only [eq_comm (a := publishResult "published" revision)]
          rfl

theorem executePublish_ok (h : Represents L (w.over s)) {r : Value} :
    (executePublish ctx config input).simulate s w = .ok (r, w') ↔
      (∃ c : Republishing L ctx config input,
        r = publishResult "already_published" c.publication.revision ∧ w' = w) ∨
      ∃ c : Publishing L ctx config input,
        r = publishResult "published" c.publication.revision ∧ w' = putAll w c.entries := by
  simp only [executePublish, Program.simulate_bind_ok, simulate_check_ok, and_assoc, exists_and_left, exists_eq_left, ensure_ok, Unique.exists_iff,
    PUnit.default_eq_unit, Bool.and_eq_true, beq_iff_eq]
  constructor
  · rintro ⟨identity, configured, p, published, channel, revisionChannel, entitled, serving,
      version, membership, run⟩
    let checked : Publishable ctx config input :=
      ⟨identity, p, configured, published, channel, revisionChannel, entitled, serving, version,
        membership⟩
    rcases (publishRevision_ok h (validatePublication_valid published)).mp run with
      ⟨⟨e, found, same⟩, rfl, rfl⟩ | ⟨⟨fresh, freshId, parents, graph, canonical⟩, rfl, rfl⟩
    · exact Or.inl ⟨⟨checked, e, found, same⟩, rfl, rfl⟩
    · exact Or.inr ⟨⟨checked, fresh, freshId, parents,
        fun t represents => h.unique represents ▸ graph, canonical⟩, rfl, rfl⟩
  · rintro (⟨c, rfl, rfl⟩ | ⟨c, rfl, rfl⟩)
    · refine ⟨_, c.configured, _, c.publication_eq, c.channel, c.revisionChannel, c.entitled,
        c.serving, c.configVersion, c.membership, ?_⟩
      exact (publishRevision_ok h (validatePublication_valid c.publication_eq)).mpr
        (Or.inl ⟨⟨_, c.found, c.same⟩, rfl, rfl⟩)
    · refine ⟨_, c.configured, _, c.publication_eq, c.channel, c.revisionChannel, c.entitled,
        c.serving, c.configVersion, c.membership, ?_⟩
      exact (publishRevision_ok h (validatePublication_valid c.publication_eq)).mpr
        (Or.inr ⟨⟨c.fresh, c.freshId, c.parents, c.graph _ h, c.canonical⟩, rfl, rfl⟩)

end Publishing

end Knowledger
