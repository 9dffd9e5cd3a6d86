import Knowledger.Storage.StateValidation
import Knowledger.Dependencies

/-!
# Links between stored records

Once the writes of a transaction are staged, the storage adapters check the links of each
written record: what it names must be stored and must agree with it.  The check reads values
that `validateStateWrite` accepted.  In every reachable store every record passes
(`links_hold`), so no write of the domain is refused for its links.
-/

namespace Knowledger.Storage

open Js Txn Uri

/-! ## The check of one record -/

/-- `require`, of a record that the validator of its kind reads. -/
def require {ε α : Type} (get : Store) (key : String) (read : Option Value → Except ε α) :
    Option α := do
  let value ← get key
  accepted (read (some value))

/-- The representative made the decision. -/
def madeBy (representative : RoleRepresentative) (d : ApprovalDecision) : Bool :=
  d.actorDomainRole == representative.domainRole && d.actorOrgId == representative.actorOrgId &&
    d.actorId == representative.actorId

/-- One approval is the representative's, and it approves what the agreement is about. -/
def approvedBy (a : AgreementRecord) (approvals : List ApprovalDecision)
    (representative : RoleRepresentative) : Bool :=
  match approvals.filter (madeBy representative) with
  | [d] => d.decision == .approve && boundToAgreement d a
  | _ => false

section

variable [Sha256]

/-- The links of a value of a kind; `tail` is what the key was built from. -/
def linksOf (get : Store) (key kind : String) (tail : List String) (value : Value) :
    Option Unit :=
  match kind with
  | "revision_id" => do
      let fields ← isRecord value
      let digest ← matching isDigest (fields.get "revision_digest")
      let target ← require get (keyFor.revision digest) validateRevision
      guard (some target.payload.revisionId.1 = tail[0]? ∧ target.revisionDigest.1 = digest)
  | "revision" => do
      let r ← accepted (validateRevision (some value))
      guard (r.payload.parents.all fun parent =>
        (require get (keyFor.revision parent.1) validateRevision).any fun target =>
          sameSlot target.payload.toSlot r.payload.toSlot)
      guard (r.payload.dependencies.all fun dependency =>
        (require get (keyFor.revision dependency.revisionDigest.1) validateRevision).any
          fun target => sameSlot target.payload.toSlot dependency.toSlot)
  | "policy" => do
      let policy ← accepted (validatePolicy (some value))
      let config ← require get keyFor.config validateConfig
      let pinned ← findPolicy config policy.policyId policy.policyVersion
      guard (sameJson pinned.toJson value)
  | "proposal" => do
      let p ← accepted (validateProposal (some value))
      let revision ← require get (keyFor.revision p.revisionDigest.1) validateRevision
      let policy ← require get (keyFor.policy p.policyId.1 p.policyVersion.1) validatePolicy
      guard (sameSlot p.toSlot revision.payload.toSlot ∧ sameSlot p.toSlot policy.toSlot ∧
        policy.membershipEpoch = p.membershipEpoch ∧
        policy.roleBindingVersion = p.roleBindingVersion)
      let counter ← get (keyFor.reviewCounter p.proposalId.1)
      guard (isNat (some counter) p.reviewCounter.1)
  | "decision" => do
      let d ← accepted (validateDecision (some value))
      let proposal ← require get (keyFor.proposal d.proposalId.1) validateProposal
      let policy ← require get (keyFor.policy d.policyId.1 d.policyVersion.1) validatePolicy
      guard (sameSlot d.toSlot proposal.toSlot ∧ d.revisionDigest = proposal.revisionDigest ∧
        d.policyId = proposal.policyId ∧ d.policyVersion = proposal.policyVersion ∧
        d.membershipEpoch = proposal.membershipEpoch ∧
        d.roleBindingVersion = proposal.roleBindingVersion ∧
        policy.roleRepresentatives.any fun representative => madeBy representative d)
  | "latest_decision" => do
      let fields ← isRecord value
      let id ← matching isId (fields.get "decision_id")
      let d ← require get (keyFor.decision id) validateDecision
      guard (key = keyFor.latestDecision d.proposalId.1 d.policyVersion.1 d.actorDomainRole.1
        d.actorOrgId.1 d.actorId.1)
  | "review_counter" => do
      let proposalId ← tail[0]?
      let p ← require get (keyFor.proposal proposalId) validateProposal
      guard (isNat (some value) p.reviewCounter.1)
  | "active_slot" => do
      let fields ← isRecord value
      if isNull (fields.get "agreement_id") then return ()
      let id ← matching isId (fields.get "agreement_id")
      let a ← require get (keyFor.agreement id) validateAgreement
      guard (a.status = .active ∧ key = keyFor.activeSlot a.toSlot)
  | "agreement" => do
      let a ← accepted (validateAgreement (some value))
      let revision ← require get (keyFor.revision a.revisionDigest.1) validateRevision
      let policy ← require get (keyFor.policy a.policyId.1 a.policyVersion.1) validatePolicy
      guard (sameSlot a.toSlot revision.payload.toSlot ∧ sameSlot a.toSlot policy.toSlot ∧
        a.membershipEpoch = policy.membershipEpoch ∧
        a.roleBindingVersion = policy.roleBindingVersion ∧
        a.approvalDecisionIds.length = policy.requiredDomainRoles.length)
      let approvals ← a.approvalDecisionIds.mapM fun id =>
        require get (keyFor.decision id.1) validateDecision
      guard (policy.roleRepresentatives.all (approvedBy a approvals))
  | _ => some ()

def checkStateLinks (get : Store) (key : String) (value : Value) : Option Unit := do
  let parts := splitOn ':' key
  let tail ← (parts.drop 3).mapM decodeURIComponent
  let kind ← parts[2]?
  linksOf get key kind tail value

/-- Run after all writes of a transaction are staged, so links may target its other writes. -/
def validateStateLinks (get : Store) (key : String) (value : Value) : Except Thrown Unit :=
  match checkStateLinks get key value with
  | some _ => .ok ()
  | none => .error (.error "Invalid or unsupported ledger write-set; projection halted")

end

end Knowledger.Storage

namespace Knowledger

open Js Txn

variable [Sha256]

/-! ## Filed records -/

/-- What links revisions and counters to other records. -/
structure Filed (L : State) : Prop where
  parents : ∀ digest r, L.revision digest = some r → ∀ p ∈ r.payload.parents, ∃ parent,
    L.revision p = some parent ∧ parent.payload.toSlot = r.payload.toSlot
  pointers : ∀ id digest, L.revisionPointer id = some digest → ∃ r,
    L.revision digest = some r ∧ r.payload.revisionId = id
  counters : ∀ id n, L.counter id = some n → ∃ p, L.proposal id = some p ∧ p.reviewCounter = n

section Filing

variable {L M : State} {ctx : Context} {config : DomainConfig} {input : Fields}

/-- Where revisions and their pointers stay, and counters go with their proposals. -/
theorem Filed.keeps (filed : Filed L)
    (revisions : ∀ digest, M.revision digest = L.revision digest)
    (pointers : ∀ id, M.revisionPointer id = L.revisionPointer id)
    (counters : ∀ id n, M.counter id = some n →
      ∃ p, M.proposal id = some p ∧ p.reviewCounter = n) : Filed M where
  parents digest r stored p mem := by
    rw [revisions] at stored
    obtain ⟨parent, found, slot⟩ := filed.parents digest r stored p mem
    exact ⟨parent, (revisions p).trans found, slot⟩
  pointers id digest pointer := by
    rw [pointers] at pointer
    obtain ⟨r, found, named⟩ := filed.pointers id digest pointer
    exact ⟨r, (revisions digest).trans found, named⟩
  counters := counters

theorem Publishing.filed (filed : Filed L) (c : Publishing L ctx config input) :
    Filed (L.putAll c.entries) := by
  have grows := c.sameCore.toGrows
  have next : (L.putAll c.entries).revision c.publication.revision.revisionDigest =
      some c.publication.revision := by simp [Publishing.entries]
  refine ⟨fun digest r stored p mem => ?_, fun id digest pointer => ?_, fun id n counter => ?_⟩
  · by_cases same : digest = c.publication.revision.revisionDigest
    · subst same
      rw [next] at stored
      obtain rfl := Option.some.inj stored
      obtain ⟨parent, found, slot⟩ := c.parents p mem
      exact ⟨parent, grows.revision _ _ found, slot⟩
    · have before : L.revision digest = some r := by
        simpa [Publishing.entries, same] using stored
      obtain ⟨parent, found, slot⟩ := filed.parents digest r before p mem
      exact ⟨parent, grows.revision _ _ found, slot⟩
  · by_cases same : id = c.publication.revision.payload.revisionId
    · subst same
      have is : digest = c.publication.revision.revisionDigest := by
        simpa [Publishing.entries, eq_comm] using pointer
      subst is
      exact ⟨_, next, rfl⟩
    · have before : L.revisionPointer id = some digest := by
        simpa [Publishing.entries, same] using pointer
      obtain ⟨r, found, named⟩ := filed.pointers id digest before
      exact ⟨r, grows.revision _ _ found, named⟩
  · rw [c.sameCore.counter] at counter
    obtain ⟨p, found, counted⟩ := filed.counters id n counter
    exact ⟨p, (c.sameCore.proposal id).trans found, counted⟩

theorem Proposing.filed (filed : Filed L) (c : Proposing L ctx config input) :
    Filed (L.putAll c.entries) := by
  refine filed.keeps (by simp [Proposing.entries]) (by simp [Proposing.entries]) ?_
  intro id n counter
  rw [c.next_proposal]
  by_cases same : id = c.proposalId
  · subst same
    rw [if_pos rfl]
    refine ⟨_, rfl, ?_⟩
    simpa [Proposing.entries, Proposing.proposal] using counter
  · rw [if_neg same]
    exact filed.counters id n (by simpa [Proposing.entries, same] using counter)

theorem Deciding.filed_recorded (filed : Filed L) (c : Deciding L ctx config input) :
    Filed c.recorded := by
  refine filed.keeps (by simp [Deciding.recorded, decisionEntries])
    (by simp [Deciding.recorded, decisionEntries]) ?_
  intro id n counter
  rw [c.recorded_proposal]
  by_cases same : id = c.decision.proposalId
  · subst same
    rw [if_pos rfl]
    refine ⟨_, rfl, ?_⟩
    simpa [Deciding.recorded, decisionEntries, Deciding.counted, c.proposalId] using counter
  · rw [if_neg same]
    refine filed.counters id n ?_
    simpa [Deciding.recorded, decisionEntries, Deciding.counted, c.proposalId, same] using counter

/-- Where only the agreements and the states of proposals change. -/
theorem Filed.reviews (filed : Filed L) (same : SameReviews L M)
    (pointers : ∀ id, M.revisionPointer id = L.revisionPointer id)
    (proposals : ∀ id p, L.proposal id = some p →
      ∃ q, M.proposal id = some q ∧ q.reviewCounter = p.reviewCounter) : Filed M := by
  refine filed.keeps same.revision pointers fun id n counter => ?_
  rw [same.counter] at counter
  obtain ⟨p, found, counted⟩ := filed.counters id n counter
  obtain ⟨q, next, kept⟩ := proposals id p found
  exact ⟨q, next, kept.trans counted⟩

theorem Filed.close (filed : Filed L) {a : AgreementRecord} {status : AgreementStatus}
    {reason : Text 1000} (valid : (a.withStatus status reason ctx).Valid) {epoch : SafeInt 0} :
    Filed (L.putAll (closeEntries (a.withStatus status reason ctx) valid epoch)) :=
  filed.reviews close_sameReviews (by simp [closeEntries]) fun id p found =>
    ⟨p, (close_proposal id).trans found, rfl⟩

theorem Deciding.filed (filed : Filed L) (c : Deciding L ctx config input) :
    Filed (L.putAll c.entries) := by
  rw [c.putAll_entries]
  cases c.suspension with
  | none => exact c.filed_recorded filed
  | some u => exact (c.filed_recorded filed).close (AgreementRecord.withStatus_valid u.valid)

theorem closeCurrent_revisionPointer {epoch : SafeInt 0} {current : Option AgreementRecord}
    {valid : ∀ a, current = some a → a.Valid} (id : Id) :
    (closeCurrent L ctx epoch current valid).revisionPointer id = L.revisionPointer id := by
  cases current with
  | none => simp [closeCurrent]
  | some a => simp [closeCurrent, closeEntries]

theorem Activating.filed (filed : Filed L) (c : Activating L ctx config input) :
    Filed (L.putAll c.entries) := by
  rw [Activating.entries, putAll_activation c.agreement_valid c.currentIs]
  have closed : Filed (closeCurrent L ctx c.epoch c.current c.currentIs.valid) := by
    exact filed.reviews closeCurrent_sameReviews closeCurrent_revisionPointer fun id p found =>
      ⟨p, (closeCurrent_proposal id).trans found, rfl⟩
  refine closed.reviews open_sameReviews (by simp [activatedEntries]) fun id p found => ?_
  rw [open_proposal]
  split_ifs with same
  · rw [same, closeCurrent_proposal, c.proposalStored] at found
    obtain rfl := Option.some.inj found
    exact ⟨_, rfl, rfl⟩
  · exact ⟨p, found, rfl⟩

theorem Performs.filed {command : DomainCommand} {r : Value} {es : List Entry} (filed : Filed L)
    (performs : Performs L ctx config command r es) : Filed (L.putAll es) := by
  cases performs with
  | republish c type => exact filed
  | publish c type => exact c.filed filed
  | propose c type => exact c.filed filed
  | decide c type => exact c.filed filed
  | activate c type => exact c.filed filed
  | withdraw c type => exact filed.close _
  | suspend c type => exact filed.close _
  | fence c type =>
      have same := fence_sameCore c
      refine filed.keeps (by simp [Fencing.entries]) (by simp [Fencing.entries]) ?_
      simpa only [same.counter, same.proposal] using filed.counters

theorem Execution.filed {ctx : TxContext} {command : Value} (filed : Filed L)
    (c : Execution L ctx command) : Filed (L.putAll c.entries) := by
  rw [Execution.entries, State.putAll_append]
  have performed := c.performs.filed filed
  refine performed.keeps (fun digest => ?_) (fun id => ?_) fun id n counter => ?_
  · exact State.revision_other digest (by simp)
  · exact State.revisionPointer_other id (by simp)
  · rw [State.putAll_cons, State.putAll_nil, State.counter_other id (by simp)] at counter
    rw [State.putAll_cons, State.putAll_nil, State.proposal_other id (by simp)]
    exact performed.counters id n counter

theorem Bootstrapping.filed {ctx : TxContext} {configInput : Value}
    (c : Bootstrapping State.empty ctx configInput) : Filed (State.empty.putAll c.entries) where
  parents digest r stored := by
    rw [State.revision, c.other (by simp) (by simp) (by simp)] at stored
    cases stored
  pointers id digest pointer := by
    rw [State.revisionPointer, c.other (by simp) (by simp) (by simp)] at pointer
    cases pointer
  counters id n counter := by
    rw [State.counter, c.other (by simp) (by simp) (by simp)] at counter
    cases counter

end Filing

/-! ## Every reachable store -/

section Stores

variable {s : Store} {L : State} {config : DomainConfig}

/-- The store holds a typed state whose records are linked. -/
structure Linked (s : Store) (L : State) (config : DomainConfig) : Prop
    extends Holds s L config where
  filed : Filed L
  published : Published s

theorem Linked.commit (h : Linked s L config) (c : Call) :
    ∃ M, Linked (c.commit s) M config := by
  have published : Published (c.commit s) := h.published.runAll h.toHolds [c]
  unfold Call.commit Knowledger.commit at published ⊢
  cases run : c.program.simulate s [] with
  | error e => exact ⟨L, h⟩
  | ok outcome =>
      obtain ⟨result, w⟩ := outcome
      simp only [run] at published
      rcases (execute_ok h.represents).mp run with ⟨replay, rfl, rfl⟩ | ⟨x, rfl, rfl⟩
      · exact ⟨L, by simpa only [Writes.over_nil] using h⟩
      · exact ⟨L.putAll x.entries, ⟨represents_putAll h.represents _, x.core h.core,
          x.live h.core h.live⟩, x.filed h.filed, published⟩

theorem Linked.runAll (h : Linked s L config) (calls : List Call) :
    ∃ M, Linked (Knowledger.runAll calls s) M config := by
  induction calls generalizing s L with
  | nil => exact ⟨L, h⟩
  | cons c calls ih =>
      obtain ⟨M, next⟩ := h.commit c
      exact ih next

theorem Bootstrapped.linked (b : Bootstrapped s) : ∃ L config, Linked s L config := by
  have published := b.published
  obtain ⟨ctx, input, result, w, run, rfl⟩ := b
  have start : Represents State.empty (Writes.over [] Store.empty) := by
    rw [Writes.over_nil]
    exact represents_empty
  obtain ⟨c, rfl, rfl⟩ := (bootstrap_ok start).mp run
  exact ⟨_, _, ⟨represents_putAll represents_empty _, c.core, c.live⟩, c.filed, published⟩

theorem Reachable.linked (reachable : Reachable s) : ∃ L config, Linked s L config := by
  obtain ⟨s₀, calls, b, rfl⟩ := reachable
  obtain ⟨L, config, h⟩ := b.linked
  obtain ⟨M, h⟩ := h.runAll calls
  exact ⟨M, config, h⟩

/-- What a stored revision depends on is stored in the slot it names. -/
theorem Linked.dependencies (h : Linked s L config) {digest : Digest} {r : DocumentRevision}
    (stored : L.revision digest = some r) : ∀ dependency ∈ r.payload.dependencies, ∃ target,
      L.revision dependency.revisionDigest = some target ∧
        target.payload.toSlot = dependency.toSlot := by
  obtain ⟨rank, next, layered⟩ := h.published.layered
  intro dependency mem
  have met := (layered.below digest r ((h.represents.publishedAt digest).trans stored) dependency
    mem).1
  obtain ⟨target, published, slot⟩ := met
  exact ⟨target, (h.represents.publishedAt _).symm.trans published, slot⟩

/-- The epochs of a policy of the config are those of a target in force. -/
theorem Backed.epochs {t : Target} {policy : AgreementPolicy} {revision : DocumentRevision}
    (valid : config.Valid) (backed : Backed L config t policy revision) :
    policy.membershipEpoch = t.membershipEpoch ∧
      policy.roleBindingVersion = t.roleBindingVersion := by
  have fits := valid.policies policy (findPolicy_some backed.found).1
  exact ⟨fits.membership.trans backed.membership.symm, fits.binding.trans backed.roleBinding.symm⟩

end Stores

end Knowledger

namespace Knowledger.Storage

open Js Txn Uri

variable [Sha256]

/-! ## Every link holds -/

section Links

variable {s : Store} {L : State} {config : DomainConfig}

/-- A record of the typed state is read back. -/
theorem require_text {ε α : Type} (h : Represents L s) (k : Key)
    {read : Option Value → Except ε α} {field : k.Record → α}
    (reads : ∀ r, read (some (k.toValue r)) = .ok (field r)) :
    require s k.text read = (L k).map field := by
  rw [require, h.stored]
  cases L k with
  | none => rfl
  | some r => exact accepted_eq.mpr (reads r)

variable (h : Represents L s)

include h

theorem require_config : require s keyFor.config validateConfig = L.config :=
  require_text h .config validateConfig_stored

theorem require_revision (digest : Digest) :
    require s (keyFor.revision digest.1) validateRevision = L.revision digest :=
  require_text h (.revision digest) validateRevision_stored

theorem require_policy (id : Id) (version : SafeInt 1) :
    require s (keyFor.policy id.1 version.1) validatePolicy = L.policy id version :=
  require_text h (.policy id version) validatePolicy_stored

theorem require_proposal (id : Id) :
    require s (keyFor.proposal id.1) validateProposal = L.proposal id :=
  require_text h (.proposal id) validateProposal_stored

theorem require_decision (id : Id) :
    require s (keyFor.decision id.1) validateDecision = L.decision id :=
  require_text h (.decision id) validateDecision_stored

theorem require_agreement (id : Id) :
    require s (keyFor.agreement id.1) validateAgreement = L.agreement id :=
  require_text h (.agreement id) validateAgreement_stored

theorem read_counter (id : Id) :
    s (keyFor.reviewCounter id.1) = (L.counter id).map fun n => jsonNat n.1 :=
  h.stored (.reviewCounter id)

end Links

omit [Sha256] in
/-- Of what a list without repetitions is related to, the test picks the partner of `x`. -/
theorem filter_partner {α β : Type} {R : α → β → Prop} {p : β → Bool} {x : α} {xs : List α}
    {ys : List β} (all : List.Forall₂ R xs ys) (nodup : xs.Nodup)
    (picks : ∀ x' y, R x' y → (p y = true ↔ x' = x)) :
    (x ∈ xs → ∃ y, R x y ∧ ys.filter p = [y]) ∧ (x ∉ xs → ys.filter p = []) := by
  induction all with
  | nil => exact ⟨fun mem => (by cases mem), fun _ => rfl⟩
  | @cons x' y xs ys related rest ih =>
      obtain ⟨absent, nodup⟩ := List.nodup_cons.mp nodup
      obtain ⟨inside, outside⟩ := ih nodup
      by_cases same : x' = x
      · subst same
        refine ⟨fun _ => ⟨y, related, ?_⟩, fun other => absurd List.mem_cons_self other⟩
        rw [List.filter_cons_of_pos ((picks x' y related).mpr rfl), outside absent]
      · have skips : ¬ p y = true := fun hit => same ((picks x' y related).mp hit)
        rw [List.filter_cons_of_neg skips]
        refine ⟨fun mem => inside ?_, fun other => outside fun mem =>
          other (List.mem_cons_of_mem _ mem)⟩
        exact (List.mem_cons.mp mem).resolve_left (Ne.symm same)

section Kinds

variable {s : Store} {L : State} {config : DomainConfig} (h : Linked s L config)

include h

/-- The check of a stored record is the check of its kind. -/
theorem checkStateLinks_text (k : Key) (value : Value) :
    checkStateLinks s k.text value = linksOf s k.text k.kind.kind k.parts value := by
  have parts : splitOn ':' k.text = keyParts k.kind k.parts := split_stateKey k.kind k.parts
  have tail : ((keyParts k.kind k.parts).drop 3).mapM decodeURIComponent = some k.parts := by
    rw [keyParts, List.drop_succ_cons, List.drop_succ_cons, List.drop_succ_cons, List.drop_zero,
      mapM_decode]
  rw [checkStateLinks, parts]
  simp only [tail, Option.bind_eq_bind, Option.bind_some]
  rfl

theorem links_revisionId {id : Id} {digest : Digest} (stored : L (.revisionId id) = some digest) :
    linksOf s (Key.revisionId id).text "revision_id" [id.1]
      (record [("revision_digest", jsonString digest.1)]) = some () := by
  obtain ⟨r, found, named⟩ := h.filed.pointers id digest stored
  obtain ⟨-, same⟩ := State.revision_named found
  refine (congrArg (· >>= _) (matching_json digest)).trans ?_
  refine (congrArg (· >>= _) ((require_revision h.represents digest).trans found)).trans ?_
  exact guard_ok.mpr ⟨by rw [named]; rfl, congrArg Subtype.val same⟩

theorem links_revision {digest : Digest} {r : Key.Record (.revision digest)}
    (stored : L (.revision digest) = some r) :
    linksOf s (Key.revision digest).text "revision" [digest.1]
      (Key.toValue (.revision digest) r) = some () := by
  have found : L.revision digest = some r.1 := congrArg (Option.map _) stored
  have parents : (r.1.payload.parents.all fun parent =>
      (require s (keyFor.revision parent.1) validateRevision).any fun target =>
        sameSlot target.payload.toSlot r.1.payload.toSlot) = true := by
    refine List.all_eq_true.mpr fun parent mem => ?_
    obtain ⟨target, is, slot⟩ := h.filed.parents digest r.1 found parent mem
    rw [require_revision h.represents, is, Option.any_some, sameSlot_iff]
    exact slot
  have dependencies : (r.1.payload.dependencies.all fun dependency =>
      (require s (keyFor.revision dependency.revisionDigest.1) validateRevision).any
        fun target => sameSlot target.payload.toSlot dependency.toSlot) = true := by
    refine List.all_eq_true.mpr fun dependency mem => ?_
    obtain ⟨target, is, slot⟩ := h.dependencies found dependency mem
    rw [require_revision h.represents, is, Option.any_some, sameSlot_iff]
    exact slot
  refine (congrArg (· >>= _) (accepted_eq.mpr (validateRevision_stored r))).trans ?_
  refine (guard_bind parents).trans ?_
  exact guard_ok.mpr dependencies

theorem links_policy {id : Id} {version : SafeInt 1} {p : Key.Record (.policy id version)}
    (stored : L (.policy id version) = some p) :
    linksOf s (Key.policy id version).text "policy" [id.1, Nat.repr version.1]
      (Key.toValue (.policy id version) p) = some () := by
  have found : L.policy id version = some p.1 := congrArg (Option.map _) stored
  have pinned : findPolicy config p.1.policyId p.1.policyVersion = some p.1 := by
    rw [p.2.2.2.1, p.2.2.2.2]
    exact h.core.policies id version p.1 found
  have same : sameJson p.1.toJson (Key.toValue (.policy id version) p) = true := by
    obtain ⟨text, canonical⟩ := p.2.2.1
    rw [Key.toValue, sameJson, canonicalize_normalize, canonical]
    exact beq_self_eq_true text
  refine (congrArg (· >>= _) (accepted_eq.mpr (validatePolicy_stored p))).trans ?_
  refine (congrArg (· >>= _) ((require_config h.represents).trans h.core.config_eq)).trans ?_
  refine (congrArg (· >>= _) pinned).trans ?_
  rw [Option.bind_eq_bind, Option.bind_some]
  exact guard_ok.mpr same

theorem links_proposal {id : Id} {p : Key.Record (.proposal id)}
    (stored : L (.proposal id) = some p) :
    linksOf s (Key.proposal id).text "proposal" [id.1] (Key.toValue (.proposal id) p) =
      some () := by
  have found : L.proposal id = some p.1 := congrArg (Option.map _) stored
  obtain ⟨⟨policy, revision, backed⟩, counter, -⟩ := h.core.proposals id p.1 found
  obtain ⟨membership, binding⟩ := backed.epochs (State.config_valid h.core.config_eq)
  have counted : s (keyFor.reviewCounter p.1.proposalId.1) =
      some (jsonNat p.1.reviewCounter.1) := by
    rw [p.2, read_counter h.represents, counter]
    rfl
  have same : isNat (some (jsonNat p.1.reviewCounter.1)) p.1.reviewCounter.1 = true :=
    beq_self_eq_true _
  refine (congrArg (· >>= _) (accepted_eq.mpr (validateProposal_stored p))).trans ?_
  refine (congrArg (· >>= _) ((require_revision h.represents _).trans backed.stored)).trans ?_
  refine (congrArg (· >>= _) ((require_policy h.represents _ _).trans backed.policyStored)).trans ?_
  rw [Option.bind_eq_bind, Option.bind_some]
  refine (guard_bind ⟨sameSlot_iff.mpr backed.revisionSlot.symm,
    sameSlot_iff.mpr backed.policySlot.symm, membership, binding⟩).trans ?_
  refine (congrArg (· >>= _) counted).trans ?_
  exact guard_ok.mpr same

theorem links_decision {id : Id} {d : Key.Record (.decision id)}
    (stored : L (.decision id) = some d) :
    linksOf s (Key.decision id).text "decision" [id.1] (Key.toValue (.decision id) d) =
      some () := by
  have found : L.decision id = some d.1 := congrArg (Option.map _) stored
  obtain ⟨⟨p, proposed, target⟩, policy, representative, listed, named, org, actor⟩ :=
    h.core.decisions id d.1 found
  obtain ⟨⟨policy', revision, backed⟩, -, -⟩ := h.core.proposals _ p proposed
  simp only [AgreementProposalRecord.target, ApprovalDecision.target, Target.mk.injEq] at target
  obtain ⟨slot, digest, -, policyId, version, membership, binding⟩ := target
  have same : policy' = policy := by
    have := backed.found
    rw [show p.target.policyId = d.1.policyId from policyId,
      show p.target.policyVersion = d.1.policyVersion from version, listed] at this
    exact (Option.some.inj this).symm
  have policyStored : L.policy d.1.policyId d.1.policyVersion = some policy := by
    rw [← policyId, ← version, ← same]
    exact backed.policyStored
  have made : (policy.roleRepresentatives.any fun r => madeBy r d.1) = true := by
    refine List.any_eq_true.mpr ⟨representative, List.mem_of_find?_eq_some named, ?_⟩
    simp only [madeBy, findRepresentative_role named, org, actor, beq_self_eq_true, Bool.and_self]
  refine (congrArg (· >>= _) (accepted_eq.mpr (validateDecision_stored d))).trans ?_
  refine (congrArg (· >>= _) ((require_proposal h.represents _).trans proposed)).trans ?_
  refine (congrArg (· >>= _) ((require_policy h.represents _ _).trans policyStored)).trans ?_
  rw [Option.bind_eq_bind, Option.bind_some]
  exact guard_ok.mpr ⟨sameSlot_iff.mpr slot.symm, digest.symm, policyId.symm, version.symm,
    membership.symm, binding.symm, made⟩

theorem links_latestDecision {p r o a id : Id} {v : SafeInt 1}
    (stored : L (.latestDecision p v r o a) = some id) :
    linksOf s (Key.latestDecision p v r o a).text "latest_decision"
      [p.1, Nat.repr v.1, r.1, o.1, a.1] (record [("decision_id", jsonString id.1)]) =
        some () := by
  obtain ⟨d, found, rfl, rfl, rfl, rfl, rfl⟩ := h.core.latest p v r o a id stored
  refine (congrArg (· >>= _) (matching_json id)).trans ?_
  refine (congrArg (· >>= _) ((require_decision h.represents id).trans found)).trans ?_
  rw [Option.bind_eq_bind, Option.bind_some]
  exact guard_ok.mpr rfl

theorem links_reviewCounter {id : Id} {n : SafeInt 0} (stored : L (.reviewCounter id) = some n) :
    linksOf s (Key.reviewCounter id).text "review_counter" [id.1] (jsonNat n.1) = some () := by
  obtain ⟨p, found, rfl⟩ := h.filed.counters id n stored
  refine (congrArg (· >>= _) ((require_proposal h.represents id).trans found)).trans ?_
  rw [Option.bind_eq_bind, Option.bind_some]
  exact guard_ok.mpr (beq_self_eq_true _)

theorem links_activeSlot {slot : Slot} {id : Option Id} (stored : L (.activeSlot slot) = some id) :
    linksOf s (Key.activeSlot slot).text "active_slot" [slotKey slot] (pointTo id) = some () := by
  cases id with
  | none => rfl
  | some id =>
      have active : L.active slot = some id := by rw [State.active, State.pointer, stored]; rfl
      obtain ⟨a, found, rfl, status⟩ := h.core.pointed slot id active
      refine (congrArg (· >>= _) (matching_json id)).trans ?_
      refine (congrArg (· >>= _) ((require_agreement h.represents id).trans found)).trans ?_
      rw [Option.bind_eq_bind, Option.bind_some]
      exact guard_ok.mpr ⟨status, rfl⟩

/-- The approvals of an agreement are read in the order of the roles. -/
theorem approvals_read {policy : AgreementPolicy} {target : Target} {roles ids : List Id}
    (approved : List.Forall₂ (Approved L policy target) roles ids) :
    ∃ ds, (ids.mapM fun id => require s (keyFor.decision id.1) validateDecision) = some ds ∧
      List.Forall₂ (fun role d => ∃ representative,
        findRepresentative policy role = some representative ∧
          Approves L target representative d) roles ds := by
  induction approved with
  | nil => exact ⟨[], rfl, .nil⟩
  | cons first rest ih =>
      obtain ⟨ds, reads, related⟩ := ih
      obtain ⟨representative, d, found, rfl, approves⟩ := first
      refine ⟨d :: ds, ?_, .cons ⟨representative, found, approves⟩ related⟩
      rw [List.mapM_cons, require_decision h.represents, approves.stored, reads]
      rfl

theorem links_agreement {id : Id} {a : Key.Record (.agreement id)}
    (stored : L (.agreement id) = some a) :
    linksOf s (Key.agreement id).text "agreement" [id.1] (Key.toValue (.agreement id) a) =
      some () := by
  have found : L.agreement id = some a.1 := congrArg (Option.map _) stored
  have valid := State.config_valid h.core.config_eq
  obtain ⟨policy, revision, backed, approved⟩ := (h.core.agreements id a.1 found).backed
  obtain ⟨membership, binding⟩ := backed.epochs valid
  have fits := (valid.policies policy (findPolicy_some backed.found).1).valid
  obtain ⟨ds, reads, related⟩ := approvals_read h approved
  have each : (policy.roleRepresentatives.all (approvedBy a.1 ds)) = true := by
    refine List.all_eq_true.mpr fun representative mem => ?_
    have named := findRepresentative_mem fits mem
    have picks : ∀ role d, (∃ r, findRepresentative policy role = some r ∧
        Approves L a.1.target r d) → (madeBy representative d = true ↔
          role = representative.domainRole) := by
      rintro role d ⟨r, is, approves⟩
      have own : r.domainRole = role := findRepresentative_role is
      simp only [madeBy, Bool.and_eq_true, beq_iff_eq, approves.role, own, approves.org,
        approves.actor]
      constructor
      · exact fun made => made.1.1
      · rintro rfl
        rw [named] at is
        obtain rfl := Option.some.inj is
        exact ⟨⟨rfl, rfl⟩, rfl⟩
    obtain ⟨d, ⟨r, -, approves⟩, only⟩ := (filter_partner related fits.roles_nodup picks).1
      (fits.representatives.mem_required _ mem)
    rw [approvedBy, only]
    simp only [approves.kind, beq_self_eq_true, Bool.true_and]
    exact boundToAgreement_iff.mpr approves.bound
  refine (congrArg (· >>= _) (accepted_eq.mpr (validateAgreement_stored a))).trans ?_
  refine (congrArg (· >>= _) ((require_revision h.represents _).trans backed.stored)).trans ?_
  refine (congrArg (· >>= _) ((require_policy h.represents _ _).trans backed.policyStored)).trans ?_
  rw [Option.bind_eq_bind, Option.bind_some]
  refine (guard_bind ⟨sameSlot_iff.mpr backed.revisionSlot.symm,
    sameSlot_iff.mpr backed.policySlot.symm, membership.symm, binding.symm,
    approved.length_eq.symm⟩).trans ?_
  refine (congrArg (· >>= _) reads).trans ?_
  rw [Option.bind_eq_bind, Option.bind_some]
  exact guard_ok.mpr each

/-- **Every stored record is linked.** -/
theorem checkStateLinks_stored (k : Key) (r : k.Record) (stored : L k = some r) :
    checkStateLinks s k.text (k.toValue r) = some () := by
  rw [checkStateLinks_text h]
  cases k with
  | config => rfl
  | eligibilityEpoch => rfl
  | revision digest => exact links_revision h stored
  | revisionId id => exact links_revisionId h stored
  | policy id version => exact links_policy h stored
  | proposal id => exact links_proposal h stored
  | decision id => exact links_decision h stored
  | latestDecision p v r o a => exact links_latestDecision h stored
  | reviewCounter id => exact links_reviewCounter h stored
  | agreement id => exact links_agreement h stored
  | activeSlot slot => exact links_activeSlot h stored
  | idempotency o i => rfl
  | fence nonce => rfl

end Kinds

theorem links_stored {L : State} {config : DomainConfig} {s : Store} (h : Linked s L config)
    {key : String} {value : Value} (stored : s key = some value) :
    validateStateLinks s key value = .ok () := by
  obtain ⟨k, rfl⟩ := h.represents.named key value stored
  rw [h.represents.stored] at stored
  obtain ⟨r, inside, rfl⟩ := Option.map_eq_some_iff.mp stored
  rw [validateStateLinks, checkStateLinks_stored h k r inside]

/-- **Links hold in every reachable store.**  Every record that is stored, and not only the last
ones written, passes the check of its links. -/
theorem links_hold {s : Store} (reachable : Reachable s) {key : String} {value : Value}
    (stored : s key = some value) : validateStateLinks s key value = .ok () := by
  obtain ⟨L, config, h⟩ := reachable.linked
  exact links_stored h stored

end Knowledger.Storage

namespace Knowledger.Storage.Demo

open Knowledger.Demo

@[reducible] local instance linkSha256 : Sha256 := Knowledger.Demo.sha256

/-- A policy that the bootstrap stored is pinned by the config. -/
theorem links_hold_policy : ∃ value, store (keyFor.policy "base" 1) = some value ∧
    validateStateLinks store (keyFor.policy "base" 1) value = .ok () := by
  have stored : store (keyFor.policy "base" 1) =
      (start (.policy (name "base") ⟨1, SafeInt.one_valid⟩)).map (Key.toValue _) :=
    store_represents.stored (.policy (name "base") ⟨1, SafeInt.one_valid⟩)
  have present : (start (.policy (name "base") ⟨1, SafeInt.one_valid⟩)).isSome = true := by rfl
  obtain ⟨r, inside⟩ := Option.isSome_iff_exists.mp present
  rw [inside] at stored
  exact ⟨_, stored, links_hold ⟨store, [], bootstrapped, rfl⟩ stored⟩

end Knowledger.Storage.Demo
