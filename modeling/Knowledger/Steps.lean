import Knowledger.Reads

/-!
# What each command does

For a command there is a structure of its accepted runs on a typed state: what it read, the
checks that passed, the entries it writes, and its result.  On a store that represents the
state, the command succeeds exactly with such a run (`executePropose_ok` and its siblings),
so nothing later unfolds a command.
-/

namespace Knowledger

open Js Txn

variable [Sha256] {L : State} {s : Store} {w w' : Writes String Value}

/-! ## The epoch -/

omit [Sha256] in
theorem nextSafe_ok {n k : SafeInt 0} {message : String} :
    nextSafe n message = .ok k ↔ k.1 = n.1 + 1 := by
  unfold nextSafe
  split_ifs with safe
  · simp [Subtype.ext_iff, eq_comm]
  · refine ⟨nofun, fun same => absurd k.2.2 (by omega)⟩

theorem incrementEpoch_ok (h : Represents L (w.over s)) {n : SafeInt 0} :
    incrementEpoch.simulate s w = .ok (n, w') ↔
      n.1 = L.epoch + 1 ∧ w' = w.set keyFor.eligibilityEpoch (jsonNat n.1) := by
  simp only [incrementEpoch, Program.simulate_bind_ok, simulate_query_ok, eval_getRecord,
    h.read_epoch, Except.ok.injEq, State.epoch, and_assoc, exists_and_left, exists_eq_left',
    exists_eq_left]
  cases L.epochRecord with
  | none =>
      simp only [Option.map_none, Program.simulate_bind_ok, put_ok, simulate_pure_ok,
        exists_const, exists_eq_left, Option.elim_none]
      constructor
      · rintro ⟨rfl, rfl⟩
        exact ⟨rfl, rfl⟩
      · rintro ⟨next, rfl⟩
        exact ⟨Subtype.ext next.symm, by rw [next]⟩
  | some m =>
      simp only [Option.map_some, Program.simulate_bind_ok, simulate_check_ok,
        assertSafeInteger_json, put_ok, simulate_pure_ok, nextSafe_ok, Except.ok.injEq,
        exists_and_left, exists_eq_left, exists_eq_left', exists_const, and_assoc,
        Option.elim_some]
      constructor
      · rintro ⟨k, next, rfl, rfl⟩
        exact ⟨next, rfl⟩
      · rintro ⟨next, rfl⟩
        exact ⟨n, next, rfl, rfl⟩

theorem State.epoch_putAll {es : List Entry} (other : ∀ e ∈ es, e.1 ≠ .eligibilityEpoch) :
    (L.putAll es).epoch = L.epoch := by
  unfold State.epoch State.epochRecord
  rw [State.putAll_of_notMem other]

/-! ## Closing an agreement -/

omit [Sha256] in
theorem AgreementRecord.withStatus_valid {a : AgreementRecord} {status : AgreementStatus}
    {reason : Text 1000} {ctx : Context} (valid : a.Valid) :
    (a.withStatus status reason ctx).Valid :=
  ⟨valid.nonempty, valid.length_le, valid.nodup⟩

omit [Sha256] in
theorem AgreementRecord.stored_valid {a : AgreementRecord} (valid : a.Valid) :
    a.Valid ∧ a.agreementId = a.agreementId :=
  ⟨valid, rfl⟩

/-- An agreement that is not active any more, the pointer of its slot, and the epoch. -/
def closeEntries (a : AgreementRecord) (valid : a.Valid) (epoch : SafeInt 0) : List Entry :=
  [⟨.agreement a.agreementId, ⟨a, AgreementRecord.stored_valid valid⟩⟩, ⟨.activeSlot a.toSlot, none⟩,
    ⟨.eligibilityEpoch, epoch⟩]

/-- What the writes of a status change do. -/
theorem close_ok (h : Represents L (w.over s)) {a : AgreementRecord} (valid : a.Valid)
    {status : AgreementStatus} {reason : Text 1000} {ctx : Context} {u v : Unit}
    {R : SafeInt 0 → Writes String Value → Prop} :
    (∃ w₁, (putClone (keyFor.agreement a.agreementId.1)
        (a.withStatus status reason ctx).toJson).simulate s w = .ok (u, w₁) ∧
      ∃ w₂, (put (keyFor.activeSlot a.toSlot) (pointTo none)).simulate s w₁ = .ok (v, w₂) ∧
      ∃ epoch w₃, incrementEpoch.simulate s w₂ = .ok (epoch, w₃) ∧ R epoch w₃) ↔
      ∃ epoch : SafeInt 0, epoch.1 = L.epoch + 1 ∧ R epoch (putAll w
        (closeEntries (a.withStatus status reason ctx) (AgreementRecord.withStatus_valid valid)
          epoch)) := by
  let changed := a.withStatus status reason ctx
  have still : changed.Valid := AgreementRecord.withStatus_valid valid
  have canonical := canonicalize_isOk (AgreementRecord.canonicalizable_json still)
  let closed : List Entry :=
    [⟨.agreement changed.agreementId, ⟨changed, still, rfl⟩⟩, ⟨.activeSlot a.toSlot, none⟩]
  have epochs : ∀ epoch w'', incrementEpoch.simulate s (putAll w closed) = .ok (epoch, w'') ↔
      epoch.1 = L.epoch + 1 ∧ w'' = putAll w (closeEntries changed still epoch) := by
    intro epoch w''
    rw [incrementEpoch_ok (h.putAll closed), State.epoch_putAll (by simp [closed])]
    rfl
  have written : (w.set (keyFor.agreement a.agreementId.1) changed.toJson.normalize).set
      (keyFor.activeSlot a.toSlot) (pointTo none) = putAll w closed := rfl
  simp only [putClone_ok, put_ok, exists_and_left, exists_eq_left, and_assoc]
  simp only [show ∃ text, canonicalize changed.toJson = .ok text from canonical, true_and,
    written, epochs, and_assoc, exists_and_left, exists_eq_left, changed]

/-- The agreement that a decision on `proposalId` suspends, with the next epoch. -/
structure Suspension (L : State) (slot : Slot) (proposalId : Id) where
  agreement : AgreementRecord
  active : L.ActiveIs slot (some agreement)
  status : agreement.status = .active
  proposal : agreement.proposalId = proposalId
  valid : agreement.Valid
  epoch : SafeInt 0
  next : epoch.1 = L.epoch + 1

def Suspension.suspended {slot : Slot} {proposalId : Id} (c : Suspension L slot proposalId)
    (ctx : Context) (reason : Text 1000) : AgreementRecord :=
  c.agreement.withStatus .suspended reason ctx

def Suspension.entries {slot : Slot} {proposalId : Id} (c : Suspension L slot proposalId)
    (ctx : Context) (reason : Text 1000) : List Entry :=
  closeEntries (c.suspended ctx reason) (AgreementRecord.withStatus_valid c.valid) c.epoch

/-- The slot has no active agreement on `proposalId`. -/
def State.Unaffected (L : State) (slot : Slot) (proposalId : Id) : Prop :=
  ∃ current, L.ActiveIs slot current ∧
    ∀ a, current = some a → a.status = .active → a.proposalId ≠ proposalId

theorem State.Unaffected.of_none {slot : Slot} {proposalId : Id} (active : L.ActiveIs slot none) :
    L.Unaffected slot proposalId := by
  refine ⟨none, active, ?_⟩
  rintro a ⟨⟩

theorem State.agreement_valid {id : Id} {a : AgreementRecord} (found : L.agreement id = some a) :
    a.Valid :=
  (State.agreement_eq.mp found).elim fun h _ => h.1

/-- The states hold the same agreements, pointers and epoch. -/
def State.SameActive (L M : State) : Prop :=
  ∀ k : Key, k.kind = .agreement ∨ k.kind = .activeSlot ∨ k.kind = .eligibilityEpoch → M k = L k

theorem State.SameActive.activeIs {M : State} (same : L.SameActive M) {slot : Slot}
    {o : Option AgreementRecord} : M.ActiveIs slot o ↔ L.ActiveIs slot o := by
  have pointer : M.active slot = L.active slot :=
    congrArg Option.join (same (.activeSlot slot) (by simp [Key.kind]))
  have agreement : ∀ id, M.agreement id = L.agreement id := fun id =>
    congrArg (Option.map fun a : Key.Record (.agreement id) => a.1)
      (same (.agreement id) (by simp [Key.kind]))
  cases o <;> simp only [State.ActiveIs, pointer, agreement]

theorem State.SameActive.epoch {M : State} (same : L.SameActive M) : M.epoch = L.epoch :=
  congrArg (fun n : Option (SafeInt 0) => n.elim 0 Subtype.val)
    (same .eligibilityEpoch (by simp [Key.kind]))

theorem suspendActiveAgreement_ok {M : State} (h : Represents M (w.over s))
    (same : L.SameActive M) {ctx : Context} {slot : Slot} {reason : Text 1000} {proposalId : Id}
    {o : Option AgreementRecord} :
    (suspendActiveAgreement ctx slot reason proposalId).simulate s w = .ok (o, w') ↔
      (L.Unaffected slot proposalId ∧ o = none ∧ w' = w) ∨
        ∃ c : Suspension L slot proposalId, o = some (c.suspended ctx reason) ∧
          w' = putAll w (c.entries ctx reason) := by
  have closed : ∀ {a : AgreementRecord}, a.toSlot = slot → ∀ valid : a.Valid,
      (do
        putClone (keyFor.agreement a.agreementId.1)
          (a.withStatus .suspended reason ctx).toJson
        put (keyFor.activeSlot slot) (pointTo none)
        let _ ← incrementEpoch
        return some (a.withStatus .suspended reason ctx) : Tx _).simulate s w = .ok (o, w') ↔
        ∃ epoch : SafeInt 0, epoch.1 = L.epoch + 1 ∧
          some (a.withStatus .suspended reason ctx) = o ∧
          w' = putAll w (closeEntries (a.withStatus .suspended reason ctx)
            (AgreementRecord.withStatus_valid valid) epoch) := by
    rintro a rfl valid
    simp only [Program.simulate_bind_ok, Unique.exists_iff, PUnit.default_eq_unit,
      close_ok h valid, same.epoch, simulate_pure_ok]
  simp only [suspendActiveAgreement, Program.simulate_bind_ok, simulate_query_ok,
    getActiveAgreement_ok h, same.activeIs, and_assoc, exists_and_left, exists_eq_left]
  constructor
  · rintro ⟨current, active, run⟩
    cases current with
    | none =>
        obtain ⟨rfl, rfl⟩ := simulate_pure_ok.mp run
        exact Or.inl ⟨.of_none active, rfl, rfl⟩
    | some a =>
        dsimp only at run
        split_ifs at run with status proposal
        · obtain ⟨rfl, rfl⟩ := simulate_pure_ok.mp run
          refine Or.inl ⟨⟨some a, active, ?_⟩, rfl, rfl⟩
          rintro b ⟨⟩ other
          exact absurd other status
        · obtain ⟨rfl, rfl⟩ := simulate_pure_ok.mp run
          refine Or.inl ⟨⟨some a, active, ?_⟩, rfl, rfl⟩
          rintro b ⟨⟩ _
          simpa [Subtype.ext_iff] using proposal
        · have stored := active.2.1
          obtain ⟨epoch, next, rfl, rfl⟩ := (closed active.2.2 (State.agreement_valid stored)).mp run
          exact Or.inr ⟨⟨a, active, not_not.mp status, by simpa [Subtype.ext_iff] using proposal,
            State.agreement_valid stored, epoch, next⟩, rfl, rfl⟩
  · rintro (⟨⟨current, active, other⟩, rfl, rfl⟩ | ⟨c, rfl, rfl⟩)
    · refine ⟨current, active, ?_⟩
      cases current with
      | none => rfl
      | some a =>
          by_cases status : a.status = .active
          · simp [status, Subtype.ext_iff.not.mp (other a rfl status)]
          · simp [status]
    · refine ⟨some c.agreement, c.active, ?_⟩
      simp only [c.status, c.proposal, ne_eq, not_true_eq_false, if_false, Option.all_some,
        beq_self_eq_true, Bool.not_true, Bool.false_eq_true]
      exact (closed c.active.2.2 c.valid).mpr ⟨c.epoch, c.next, rfl, rfl⟩

/-! ## Withdrawing and suspending -/

omit [Sha256] in
theorem policyFor_ok {config : DomainConfig} {id : Id} {version : SafeInt 1}
    {policy : AgreementPolicy} :
    policyFor config id version = .ok policy ↔ findPolicy config id version = some policy :=
  expect_ok

/-- An accepted `withdraw` or `suspend`. -/
structure StatusChange (L : State) (ctx : Context) (config : DomainConfig) (input : Fields)
    (desired : AgreementStatus) where
  identity : ConfigIdentity
  agreement : AgreementRecord
  reason : Text 1000
  policy : AgreementPolicy
  epoch : SafeInt 0
  human : requireHuman ctx config = .ok identity
  keys : assertKeys input ["agreement_id", "reason"] [] (desired.text ++ " input") = .ok ()
  agreementId_eq : assertId (input.get "agreement_id") "agreement_id" =
    .ok agreement.agreementId
  reason_eq : assertNonEmptyString (input.get "reason") "reason" 1000 = .ok reason
  stored : L.agreement agreement.agreementId = some agreement
  found : findPolicy config agreement.policyId agreement.policyVersion = some policy
  named : (policy.roleRepresentatives.any fun representative =>
    representative.actorOrgId == ctx.actor.orgId &&
      representative.actorId == ctx.actor.actorId) = true
  active : agreement.status = .active
  next : epoch.1 = L.epoch + 1

section StatusChange

variable {ctx : Context} {config : DomainConfig} {input : Fields} {desired : AgreementStatus}

def StatusChange.changed (c : StatusChange L ctx config input desired) : AgreementRecord :=
  c.agreement.withStatus desired c.reason ctx

def StatusChange.entries (c : StatusChange L ctx config input desired) : List Entry :=
  closeEntries c.changed (AgreementRecord.withStatus_valid (State.agreement_valid c.stored))
    c.epoch

def StatusChange.result (c : StatusChange L ctx config input desired) : Value :=
  record [("status", jsonString desired.text),
    ("agreement_id", jsonString c.agreement.agreementId.1),
    ("eligibility_epoch", jsonNat c.epoch.1)]

theorem executeStatusChange_ok (h : Represents L (w.over s)) {r : Value} :
    (executeStatusChange ctx config input desired).simulate s w = .ok (r, w') ↔
      ∃ c : StatusChange L ctx config input desired, r = c.result ∧ w' = putAll w c.entries := by
  simp only [executeStatusChange, Program.simulate_bind_ok, simulate_query_ok, simulate_check_ok,
    and_assoc, exists_and_left, exists_eq_left, ensure_ok, Unique.exists_iff,
    PUnit.default_eq_unit, h.read_agreement, policyFor_ok, beq_iff_eq]
  constructor
  · rintro ⟨identity, human, keys, id, idRead, reason, reasonRead, a, stored, policy, found, named,
      active, run⟩
    obtain ⟨⟨valid, rfl⟩, _⟩ := State.agreement_eq.mp stored
    obtain ⟨epoch, next, run⟩ := (close_ok h valid).mp run
    obtain ⟨rfl, rfl⟩ := simulate_pure_ok.mp run
    exact ⟨⟨identity, a, reason, policy, epoch, human, keys, idRead, reasonRead, stored, found,
      named, active, next⟩, rfl, rfl⟩
  · rintro ⟨c, rfl, rfl⟩
    exact ⟨c.identity, c.human, c.keys, _, c.agreementId_eq, _, c.reason_eq, _, c.stored, _,
      c.found, c.named, c.active, (close_ok h (State.agreement_valid c.stored)).mpr
        ⟨c.epoch, c.next, simulate_pure_ok.mpr ⟨rfl, rfl⟩⟩⟩

end StatusChange

/-! ## Fences -/

/-- An accepted `fence`. -/
structure Fencing (L : State) (ctx : Context) (config : DomainConfig) (input : Fields) where
  identity : ConfigIdentity
  nonce : Nonce
  epoch : SafeInt 0
  configured : configuredIdentity config ctx.actor = .ok identity
  keys : assertKeys input ["nonce"] [] "fence input" = .ok ()
  nonce_eq : assertPattern isNonce (input.get "nonce")
    "fence nonce must be 16 to 128 safe characters" = .ok nonce
  serving : config.servingEnabled = true
  fresh : L (.fence nonce) = none
  epoch_eq : epoch.1 = L.epoch

section Fencing

variable {ctx : Context} {config : DomainConfig} {input : Fields}

def Fencing.entries (c : Fencing L ctx config input) : List Entry :=
  [⟨.fence c.nonce, ⟨{ nonce := c.nonce, eligibilityEpoch := c.epoch, txId := ctx.txId }, rfl⟩⟩]

def Fencing.result (c : Fencing L ctx config input) : Value :=
  record [("status", jsonString "fenced"), ("nonce", jsonString c.nonce.1),
    ("eligibility_epoch", jsonNat c.epoch.1), ("tx_id", jsonString ctx.txId.1)]

theorem executeFence_ok (h : Represents L (w.over s)) {r : Value} :
    (executeFence ctx config input).simulate s w = .ok (r, w') ↔
      ∃ c : Fencing L ctx config input, r = c.result ∧ w' = putAll w c.entries := by
  have read : ∀ nonce : Nonce, present (w.over s (keyFor.fence nonce.1)) = none ↔
      L (.fence nonce) = none := fun nonce => h.read_none (.fence nonce)
  simp only [executeFence, Program.simulate_bind_ok, simulate_query_ok, simulate_check_ok,
    and_assoc, exists_and_left, exists_eq_left, ensure_ok, Unique.exists_iff,
    PUnit.default_eq_unit, eval_getRecord, Except.ok.injEq, exists_eq_left',
    Option.isNone_iff_eq_none, read, readEpoch_ok h, put_ok, simulate_pure_ok]
  constructor
  · rintro ⟨identity, configured, keys, nonce, nonceRead, serving, fresh, epoch, same, rfl, rfl⟩
    exact ⟨⟨identity, nonce, epoch, configured, keys, nonceRead, serving, fresh, same⟩, rfl, rfl⟩
  · rintro ⟨c, rfl, rfl⟩
    exact ⟨_, c.configured, c.keys, _, c.nonce_eq, c.serving, c.fresh, _, c.epoch_eq, rfl, rfl⟩

end Fencing

/-! ## Proposing -/

/-- An accepted `propose`. -/
structure Proposing (L : State) (ctx : Context) (config : DomainConfig) (input : Fields) where
  identity : ConfigIdentity
  proposalId : Id
  revision : DocumentRevision
  policy : AgreementPolicy
  configured : configuredIdentity config ctx.actor = .ok identity
  keys : assertKeys input ["proposal_id", "revision_digest", "policy_id", "policy_version"] []
    "propose input" = .ok ()
  proposalId_eq : assertId (input.get "proposal_id") "proposal_id" = .ok proposalId
  revisionDigest_eq : assertDigest (input.get "revision_digest") "revision_digest" =
    .ok revision.revisionDigest
  policyId_eq : assertId (input.get "policy_id") "policy_id" = .ok policy.policyId
  policyVersion_eq : assertSafeInteger (input.get "policy_version") "policy_version" 1 =
    .ok policy.policyVersion
  entitled : identity.canPropose = true
  stored : L.revision revision.revisionDigest = some revision
  found : findPolicy config policy.policyId policy.policyVersion = some policy
  slot : policy.toSlot = revision.payload.toSlot
  fresh : L (.proposal proposalId) = none
  valid : policy.Valid
  canonical : ∃ text, canonicalize policy.toJson = .ok text

omit [Sha256] in
theorem findPolicy_some {config : DomainConfig} {id : Id} {version : SafeInt 1}
    {policy : AgreementPolicy} (found : findPolicy config id version = some policy) :
    policy ∈ config.policies ∧ policy.policyId = id ∧ policy.policyVersion = version := by
  have named := List.find?_some found
  simp only [Bool.and_eq_true, beq_iff_eq] at named
  exact ⟨List.mem_of_find?_eq_some found, named⟩

omit [Sha256] in
theorem assertPolicyMatchesRevision_ok {policy : AgreementPolicy} {revision : DocumentRevision}
    {u : Unit} : assertPolicyMatchesRevision policy revision = .ok u ↔
      policy.toSlot = revision.payload.toSlot := by
  rw [assertPolicyMatchesRevision, ensure_ok, sameSlot_iff]

theorem State.revision_named {digest : Digest} {r : DocumentRevision}
    (found : L.revision digest = some r) : r.Valid ∧ r.revisionDigest = digest :=
  (State.revision_eq.mp found).elim fun h _ => h

section Proposing

variable {ctx : Context} {config : DomainConfig} {input : Fields}

def Proposing.proposal (c : Proposing L ctx config input) : AgreementProposalRecord :=
  { toSlot := c.revision.payload.toSlot
    proposalId := c.proposalId
    revisionDigest := c.revision.revisionDigest
    policyId := c.policy.policyId
    policyVersion := c.policy.policyVersion
    membershipEpoch := config.membershipEpoch
    roleBindingVersion := config.roleBindingVersion
    configVersion := config.configVersion
    status := .open
    createdBy := ctx.actor
    createdAt := ctx.timestamp
    reviewCounter := ⟨0, SafeInt.zero_valid⟩
    agreementId := none }

def Proposing.entries (c : Proposing L ctx config input) : List Entry :=
  [⟨.proposal c.proposalId, ⟨c.proposal, rfl⟩⟩,
    ⟨.reviewCounter c.proposalId, (⟨0, SafeInt.zero_valid⟩ : SafeInt 0)⟩,
    ⟨.policy c.policy.policyId c.policy.policyVersion,
      ⟨c.policy, c.valid, c.canonical, rfl, rfl⟩⟩]

def Proposing.result (c : Proposing L ctx config input) : Value :=
  record [("status", jsonString "proposed"), ("proposal_id", jsonString c.proposalId.1),
    ("revision_digest", jsonString c.revision.revisionDigest.1),
    ("slot", jsonString (slotKey c.revision.payload.toSlot))]

theorem executePropose_ok (h : Represents L (w.over s)) (valid : config.Valid) {r : Value} :
    (executePropose ctx config input).simulate s w = .ok (r, w') ↔
      ∃ c : Proposing L ctx config input, r = c.result ∧ w' = putAll w c.entries := by
  simp only [executePropose, Program.simulate_bind_ok, simulate_query_ok, simulate_check_ok,
    and_assoc, exists_and_left, exists_eq_left, ensure_ok, Unique.exists_iff,
    PUnit.default_eq_unit, eval_getRecord, Except.ok.injEq, exists_eq_left', policyFor_ok,
    h.read_revision]
  constructor
  · rintro ⟨identity, configured, keys, id, idRead, digest, digestRead, policyId, policyIdRead,
      version, versionRead, entitled, revision, stored, policy, found, slot, run⟩
    obtain ⟨_, rfl⟩ := State.revision_named stored
    obtain ⟨listed, rfl, rfl⟩ := findPolicy_some found
    cases fresh : present (w.over s (keyFor.proposal id.1)) with
    | some existing =>
        simp only [fresh, Program.simulate_bind_ok] at run
        obtain ⟨_, _, _, run⟩ := run
        split_ifs at run <;> simp only [simulate_query_ok, reject_ok, false_and] at run
    | none =>
        simp only [fresh, Program.simulate_bind_ok, putClone_ok, put_ok, simulate_pure_ok,
          and_assoc, exists_and_left, exists_eq_left, Unique.exists_iff] at run
        obtain ⟨_, canonical, rfl, rfl⟩ := run
        exact ⟨⟨identity, id, revision, policy, configured, keys, idRead, digestRead,
          policyIdRead, versionRead, entitled, stored, found,
          assertPolicyMatchesRevision_ok.mp slot, (h.read_none (.proposal id)).mp fresh,
          (valid.policies policy listed).valid, canonical⟩, rfl, rfl⟩
  · rintro ⟨c, rfl, rfl⟩
    have fresh := (h.read_none (.proposal c.proposalId)).mpr c.fresh
    refine ⟨_, c.configured, c.keys, _, c.proposalId_eq, _, c.revisionDigest_eq, _,
      c.policyId_eq, _, c.policyVersion_eq, c.entitled, _, c.stored, _, c.found,
      assertPolicyMatchesRevision_ok.mpr c.slot, ?_⟩
    rw [show present (w.over s (keyFor.proposal c.proposalId.1)) = none from fresh]
    simp only [Program.simulate_bind_ok, putClone_ok, put_ok, simulate_pure_ok, and_assoc,
      exists_and_left, exists_eq_left, Unique.exists_iff]
    exact ⟨canonicalize_isOk (AgreementProposalRecord.canonicalizable_json _), c.canonical, rfl,
      rfl⟩

end Proposing

/-! ## Deciding -/

/-- The decision that the latest pointer of the representative stands for. -/
def State.LatestIs (L : State) (d : ApprovalDecision) (o : Option ApprovalDecision) : Prop :=
  match L.latest d.proposalId d.policyVersion d.actorDomainRole d.actorOrgId d.actorId with
  | none => o = none
  | some id => ∃ l, L.decision id = some l ∧ o = some l

theorem getLatestDecision_ok (h : Represents L s) {d : ApprovalDecision}
    {o : Option ApprovalDecision} :
    (getLatestDecision d).eval s = .ok o ↔ L.LatestIs d o := by
  have read : present (s (decisionLatestKey d)) =
      (L.latest d.proposalId d.policyVersion d.actorDomainRole d.actorOrgId d.actorId).map
        fun id => record [("decision_id", jsonString id.1)] :=
    h.read (.latestDecision d.proposalId d.policyVersion d.actorDomainRole d.actorOrgId d.actorId)
  simp only [getLatestDecision, eval_bind_ok, eval_getRecord, read, Except.ok.injEq,
    exists_eq_left', State.LatestIs]
  cases L.latest d.proposalId d.policyVersion d.actorDomainRole d.actorOrgId d.actorId with
  | none => simp [eq_comm]
  | some id =>
      have keys : assertKeys (recordFields [("decision_id", some (jsonString id.1))])
          ["decision_id"] [] "latest decision reference" = .ok () :=
        assertKeys_recordFields _ (by simp) (by simp)
      have field : (recordFields [("decision_id", some (jsonString id.1))]).get "decision_id" =
          some (jsonString id.1) := rfl
      simp only [Option.map_some, eval_bind_ok, eval_check, checked_ok, assertRecord_record,
        Except.ok.injEq, exists_eq_left', keys, exists_const, field, assertId_json, h.read_decision,
        Query.eval_pure, true_and]
      simp only [eq_comm]

/-- What `checkDecisionTarget` guarantees. -/
structure DecisionTarget (config : DomainConfig) (d : ApprovalDecision)
    (p : AgreementProposalRecord) (r : DocumentRevision) : Prop where
  digest : p.revisionDigest = d.revisionDigest
  slot : p.toSlot = d.toSlot
  revision : r.payload.toSlot = d.toSlot
  policyId : p.policyId = d.policyId
  policyVersion : p.policyVersion = d.policyVersion
  membershipEpoch : p.membershipEpoch = d.membershipEpoch
  roleBindingVersion : p.roleBindingVersion = d.roleBindingVersion
  channel : d.channelId = config.channelId
  membership : d.membershipEpoch = config.membershipEpoch
  roleBinding : d.roleBindingVersion = config.roleBindingVersion

omit [Sha256] in
theorem checkDecisionTarget_ok {config : DomainConfig} {d : ApprovalDecision}
    {p : AgreementProposalRecord} {r : DocumentRevision} {u : Unit} :
    checkDecisionTarget config d p r = .ok u ↔ DecisionTarget config d p r := by
  simp only [checkDecisionTarget, bind_ok, ensure_ok, Bool.and_eq_true, beq_iff_eq, sameSlot_iff,
    exists_const]
  constructor
  · rintro ⟨⟨⟨a, b⟩, c⟩, ⟨⟨⟨d, e⟩, f⟩, g⟩, ⟨i, j⟩, k⟩
    exact ⟨a, b, c, d, e, f, g, i, j, k⟩
  · rintro ⟨a, b, c, d, e, f, g, i, j, k⟩
    exact ⟨⟨⟨a, b⟩, c⟩, ⟨⟨⟨d, e⟩, f⟩, g⟩, ⟨i, j⟩, k⟩

/-- What `checkDecisionActor` guarantees. -/
structure DecisionActor (ctx : Context) (policy : AgreementPolicy) (d : ApprovalDecision) :
    Prop where
  allowed : allowsDecision policy d.decision = true
  named : ∃ representative, findRepresentative policy d.actorDomainRole = some representative ∧
    representative.actorOrgId = d.actorOrgId ∧ representative.actorId = d.actorId
  org : d.actorOrgId = ctx.actor.orgId
  actor : d.actorId = ctx.actor.actorId

omit [Sha256] in
theorem checkDecisionActor_ok {ctx : Context} {policy : AgreementPolicy} {d : ApprovalDecision}
    {u : Unit} : checkDecisionActor ctx policy d = .ok u ↔ DecisionActor ctx policy d := by
  simp only [checkDecisionActor, bind_ok, ensure_ok, Bool.and_eq_true, beq_iff_eq,
    Option.any_eq_true, exists_const]
  constructor
  · rintro ⟨allowed, ⟨r, found, org, actor⟩, sameOrg, sameActor⟩
    exact ⟨allowed, ⟨r, found, org.trans sameOrg.symm, actor.trans sameActor.symm⟩, sameOrg,
      sameActor⟩
  · rintro ⟨allowed, ⟨r, found, org, actor⟩, sameOrg, sameActor⟩
    exact ⟨allowed, ⟨r, found, org.trans sameOrg, actor.trans sameActor⟩, sameOrg, sameActor⟩

/-- The retracted decision is the actor's own latest one. -/
structure Retracts (L : State) (d : ApprovalDecision) (latest : Option ApprovalDecision)
    (target : ApprovalDecision) : Prop where
  stored : L.decision target.decisionId = some target
  org : target.actorOrgId = d.actorOrgId
  actor : target.actorId = d.actorId
  proposal : target.proposalId = d.proposalId
  role : target.actorDomainRole = d.actorDomainRole
  kind : target.decision ≠ .retract
  latest : ∃ l, latest = some l ∧ l.decisionId = target.decisionId

theorem State.decision_named {id : Id} {d : ApprovalDecision} (found : L.decision id = some d) :
    d.Valid ∧ d.decisionId = id :=
  (State.decision_eq.mp found).elim fun h _ => h

theorem checkRetraction_ok (h : Represents L s) {d : ApprovalDecision}
    {latest : Option ApprovalDecision} {u : Unit} :
    (checkRetraction d latest).eval s = .ok u ↔
      ∀ id, d.retractsDecisionId = some id → ∃ target, target.decisionId = id ∧
        Retracts L d latest target := by
  simp only [checkRetraction]
  cases d.retractsDecisionId with
  | none => simp
  | some id =>
      simp only [eval_bind_ok, eval_check, checked_ok, ensure_ok, h.read_decision, exists_const,
        Bool.and_eq_true, beq_iff_eq, decide_eq_true_eq, Option.any_eq_true, Option.some.injEq,
        forall_eq']
      constructor
      · rintro ⟨target, stored, ⟨⟨⟨org, actor⟩, proposal⟩, role⟩, kind, latest⟩
        obtain ⟨_, rfl⟩ := State.decision_named stored
        exact ⟨target, rfl, stored, org, actor, proposal, role, kind, latest⟩
      · rintro ⟨target, rfl, stored, org, actor, proposal, role, kind, latest⟩
        exact ⟨target, stored, ⟨⟨⟨org, actor⟩, proposal⟩, role⟩, kind, latest⟩

/-- An accepted `decide`. -/
structure Deciding (L : State) (ctx : Context) (config : DomainConfig) (input : Fields) where
  identity : ConfigIdentity
  decision : ApprovalDecision
  proposal : AgreementProposalRecord
  revision : DocumentRevision
  policy : AgreementPolicy
  latest : Option ApprovalDecision
  counter : SafeInt 0
  suspension : Option (Suspension L proposal.toSlot decision.proposalId)
  human : requireHuman ctx config = .ok identity
  keys : assertKeys input ["decision"] [] "decide input" = .ok ()
  decision_eq : validateDecision (input.get "decision") = .ok decision
  proposalStored : L.proposal decision.proposalId = some proposal
  revisionStored : L.revision decision.revisionDigest = some revision
  target : DecisionTarget config decision proposal revision
  found : findPolicy config decision.policyId decision.policyVersion = some policy
  slot : policy.toSlot = revision.payload.toSlot
  actor : DecisionActor ctx policy decision
  fresh : L (.decision decision.decisionId) = none
  latestIs : L.LatestIs decision latest
  retracts : ∀ id, decision.retractsDecisionId = some id → ∃ target, target.decisionId = id ∧
    Retracts L decision latest target
  counterAgrees : ∀ m, L.counter proposal.proposalId = some m → m = proposal.reviewCounter
  counter_eq : counter.1 = proposal.reviewCounter.1 + 1
  suspends : ∀ c, suspension = some c → decision.decision ≠ .approve
  spares : suspension = none → decision.decision = .approve ∨
    L.Unaffected proposal.toSlot decision.proposalId

section Deciding

variable {ctx : Context} {config : DomainConfig} {input : Fields}

/-- The proposal with one more decision counted. -/
def Deciding.counted (c : Deciding L ctx config input) : AgreementProposalRecord :=
  { c.proposal with reviewCounter := c.counter }

theorem Deciding.valid (c : Deciding L ctx config input) : c.decision.Valid :=
  validateDecision_valid _ _ c.decision_eq

/-- A decision, the latest pointer of its representative, and the count on its proposal. -/
def decisionEntries (d : ApprovalDecision) (valid : d.Valid) (p : AgreementProposalRecord) :
    List Entry :=
  [⟨.decision d.decisionId, ⟨d, valid, rfl⟩⟩,
    ⟨.latestDecision d.proposalId d.policyVersion d.actorDomainRole d.actorOrgId d.actorId,
      d.decisionId⟩,
    ⟨.proposal p.proposalId, ⟨p, rfl⟩⟩, ⟨.reviewCounter p.proposalId, p.reviewCounter⟩]

def Deciding.entries (c : Deciding L ctx config input) : List Entry :=
  decisionEntries c.decision c.valid c.counted ++
    c.suspension.elim [] fun u => u.entries ctx (suspensionReason c.decision.decision)

def decidedResult (d : ApprovalDecision) (suspended : Option Value) : Value :=
  record [("status", jsonString "recorded"), ("decision_id", jsonString d.decisionId.1),
    ("proposal_id", jsonString d.proposalId.1), ("suspended_agreement_id", suspended)]

def Deciding.result (c : Deciding L ctx config input) : Value :=
  decidedResult c.decision
    (c.suspension.map fun u => jsonString u.agreement.agreementId.1)

theorem recordDecision_ok {d : ApprovalDecision} (valid : d.Valid) {p : AgreementProposalRecord}
    {counter : SafeInt 0} {u : Unit} :
    (recordDecision d p counter).simulate s w = .ok (u, w') ↔
      w' = putAll w (decisionEntries d valid { p with reviewCounter := counter }) := by
  have canonical := canonicalize_isOk (ApprovalDecision.canonicalizable_json d)
  have rewritten : ∃ text, canonicalize
      ({ p with reviewCounter := counter } : AgreementProposalRecord).toJson = .ok text :=
    canonicalize_isOk (AgreementProposalRecord.canonicalizable_json _)
  simp only [recordDecision, Program.simulate_bind_ok, putClone_ok, put_ok, canonical, rewritten,
    true_and, exists_const, exists_eq_left]
  rfl

theorem decisionEntries_sameActive {d : ApprovalDecision} {valid : d.Valid}
    {p : AgreementProposalRecord} : L.SameActive (L.putAll (decisionEntries d valid p)) := by
  intro k kind
  refine State.putAll_of_notMem fun e mem => ?_
  rintro rfl
  simp only [decisionEntries, List.mem_cons, List.not_mem_nil, or_false] at mem
  rcases mem with rfl | rfl | rfl | rfl <;> simp [Key.kind] at kind

/-- What the decision does to the active agreement of the slot. -/
theorem suspendUnlessApprove_ok (h : Represents L (w.over s)) {d : ApprovalDecision}
    (valid : d.Valid) {p : AgreementProposalRecord} {r : Value} {f : Option AgreementRecord → Value} :
    (if d.decision ≠ .approve then do
        let suspended ← suspendActiveAgreement ctx p.toSlot (suspensionReason d.decision)
          (some d.proposalId)
        pure (f suspended)
      else do
        let suspended ← pure none
        pure (f suspended) : Tx Value).simulate s (putAll w (decisionEntries d valid p)) =
          .ok (r, w') ↔
      ∃ suspension : Option (Suspension L p.toSlot d.proposalId),
        (∀ c, suspension = some c → d.decision ≠ .approve) ∧
        (suspension = none → d.decision = .approve ∨ L.Unaffected p.toSlot d.proposalId) ∧
        f (suspension.map fun c => c.suspended ctx (suspensionReason d.decision)) = r ∧
        w' = putAll w (decisionEntries d valid p ++
          suspension.elim [] fun c => c.entries ctx (suspensionReason d.decision)) := by
  have after := h.putAll (decisionEntries d valid p)
  by_cases approve : d.decision = .approve
  · rw [if_neg (not_not.mpr approve)]
    simp only [Program.simulate_bind_ok, simulate_pure_ok]
    constructor
    · rintro ⟨_, _, ⟨rfl, rfl⟩, same, rfl⟩
      refine ⟨none, by simp, fun _ => Or.inl approve, same, ?_⟩
      rw [Option.elim_none, List.append_nil]
    · rintro ⟨suspension, refuses, -, rfl, rfl⟩
      cases suspension with
      | none => exact ⟨_, _, ⟨rfl, rfl⟩, rfl, by simp⟩
      | some c => exact absurd approve (refuses c rfl)
  · rw [if_pos approve]
    simp only [Program.simulate_bind_ok, simulate_pure_ok,
      suspendActiveAgreement_ok after decisionEntries_sameActive]
    constructor
    · rintro ⟨o, _, spared | suspended, same, rfl⟩
      · obtain ⟨spared, unchanged, written⟩ := spared
        refine ⟨none, by simp, fun _ => Or.inr spared, ?_, ?_⟩
        · rw [← same, unchanged, Option.map_none]
        · rw [written, Option.elim_none, List.append_nil]
      · obtain ⟨c, changed, written⟩ := suspended
        refine ⟨some c, fun _ _ => approve, by simp, ?_, ?_⟩
        · rw [← same, changed, Option.map_some]
        · rw [written, Option.elim_some, putAll_append]
    · rintro ⟨suspension, -, spares, same, written⟩
      cases suspension with
      | none =>
          rw [Option.elim_none, List.append_nil] at written
          exact ⟨none, _, Or.inl ⟨(spares rfl).resolve_left approve, rfl, written⟩, same, rfl⟩
      | some c =>
          rw [Option.elim_some, putAll_append] at written
          exact ⟨_, _, Or.inr ⟨c, rfl, written⟩, same, rfl⟩

/-- A suspended agreement keeps its id. -/
theorem suspended_id {slot : Slot} {proposalId : Id} (o : Option (Suspension L slot proposalId))
    (reason : Text 1000) :
    (o.map fun c => c.suspended ctx reason).map (fun a => jsonString a.agreementId.1) =
      o.map fun c => jsonString c.agreement.agreementId.1 := by
  cases o <;> rfl

theorem executeDecide_ok (h : Represents L (w.over s)) {r : Value} :
    (executeDecide ctx config input).simulate s w = .ok (r, w') ↔
      ∃ c : Deciding L ctx config input, r = c.result ∧ w' = putAll w c.entries := by
  have read : ∀ id : Id, present (w.over s (keyFor.decision id.1)) = none ↔
      L (.decision id) = none := fun id => h.read_none (.decision id)
  simp only [executeDecide, Program.simulate_bind_ok, simulate_query_ok, simulate_check_ok,
    and_assoc, exists_and_left, exists_eq_left, ensure_ok, Unique.exists_iff,
    PUnit.default_eq_unit, eval_getRecord, Except.ok.injEq, exists_eq_left', policyFor_ok,
    h.read_proposal, h.read_revision, checkDecisionTarget_ok, assertPolicyMatchesRevision_ok,
    checkDecisionActor_ok, read, Option.isNone_iff_eq_none, getLatestDecision_ok h,
    checkRetraction_ok h, readReviewCounter_ok h, nextSafe_ok]
  constructor
  · rintro ⟨identity, human, keys, decision, decided, proposal, proposalStored, revision,
      revisionStored, target, policy, found, slot, actor, fresh, latest, latestIs, retracts,
      agrees, counter, next, _, recorded, run⟩
    have valid := validateDecision_valid _ _ decided
    rw [recordDecision_ok valid] at recorded
    subst recorded
    obtain ⟨suspension, suspends, spares, rfl, rfl⟩ :=
      (suspendUnlessApprove_ok h valid (p := { proposal with reviewCounter := counter })).mp run
    refine ⟨⟨identity, decision, proposal, revision, policy, latest, counter, suspension, human,
      keys, decided, proposalStored, revisionStored, target, found, slot, actor, fresh, latestIs,
      retracts, agrees, next, suspends, spares⟩, ?_, rfl⟩
    exact congrArg (decidedResult decision) (suspended_id suspension _)
  · rintro ⟨c, rfl, rfl⟩
    refine ⟨_, c.human, c.keys, _, c.decision_eq, _, c.proposalStored, _, c.revisionStored,
      c.target, _, c.found, c.slot, c.actor, c.fresh, _, c.latestIs, c.retracts,
      c.counterAgrees, _, c.counter_eq, _, (recordDecision_ok c.valid).mpr rfl, ?_⟩
    refine (suspendUnlessApprove_ok h c.valid (p := c.counted)).mpr
      ⟨c.suspension, c.suspends, c.spares, ?_, rfl⟩
    exact congrArg (decidedResult c.decision) (suspended_id c.suspension _)

end Deciding

end Knowledger
