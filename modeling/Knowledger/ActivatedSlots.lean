import Knowledger.Dependencies
import Knowledger.Eligibility
import Knowledger.Guarantees

/-!
# Resolution after an activation

`dependencyEligible` walks the dependencies of a revision as resolution does once its
agreement is active, but counts the nodes below the root alone: resolution counts the root as
well.  The slot of an accepted activation resolves to its agreement, unless 256 nodes lie below
the root.
-/

namespace Knowledger

open Js Txn Derivation

section Activated

variable [Sha256] {L M : State} {s : Store} {config : DomainConfig}

/-! ## Standing agreements of a reachable state -/

theorem Holds.configured (h : Holds s L config) :
    ∃ v, present (s keyFor.config) = some v ∧ validateConfig (some v) = .ok config :=
  h.represents.config_stored h.core.config_eq

/-- The pointers of a reachable state have keys, and point to what stands. -/
theorem Holds.standing_iff (h : Holds s L config) (slot : Slot) :
    ¬ Unnameable s slot ∧ ∀ a r, Standing s config slot a r ↔ L.standing slot = some (a, r) := by
  obtain ⟨v, configured, validConfig⟩ := h.configured
  have run := h.core.resolveAgreement h.represents slot
  rcases resolveAgreement_cases configured validConfig slot with
    ⟨a, r, run', standing⟩ | ⟨reason, run', nameable, nothing⟩ | ⟨run', -⟩
  · cases found : L.standing slot with
    | none =>
        rw [run', found] at run
        cases run
    | some p =>
        rw [run', found] at run
        obtain rfl : (a, r) = p := Except.ok.inj (Except.ok.inj run)
        refine ⟨fun unnameable => unnameable.not_standing a r standing, fun b t => ⟨fun other => ?_,
          fun same => ?_⟩⟩
        · obtain ⟨rfl, rfl⟩ := standing.unique other
          rfl
        · obtain ⟨rfl, rfl⟩ := Prod.mk.inj (Option.some.inj same)
          exact standing
  · refine ⟨nameable, fun b t => ⟨fun other => absurd ⟨b, t, other⟩ nothing, fun same => ?_⟩⟩
    rw [run', same] at run
    cases run
  · rw [run'] at run
    cases found : L.standing slot with
    | none =>
        rw [found] at run
        cases run
    | some p =>
        rw [found] at run
        cases run

/-- The graph of a reachable state. -/
theorem Holds.standingGraph_eq (h : Holds s L config) (slot : Slot) :
    standingGraph listed s config slot =
      (L.standing slot).map fun p => (p.2.revisionDigest, requiredEdges (listed p.2)) := by
  obtain ⟨-, standing⟩ := h.standing_iff slot
  cases found : L.standing slot with
  | none =>
      refine standingGraph_none ?_
      rintro ⟨a, r, stands⟩
      rw [(standing a r).mp stands] at found
      cases found
  | some p =>
      exact Knowledger.standingGraph_eq.mpr ⟨p.1, p.2, (standing _ _).mpr found, rfl, rfl⟩

theorem Holds.standingLook_eq (h : Holds s L config) (slot : Slot) :
    standingLook listed s config slot = .ok (standingGraph listed s config slot) :=
  if_neg fun unnameable => (h.standing_iff slot).1 unnameable.2

/-! ## The check of the dependencies -/

section Check

variable {configValue : Value} (configured : present (s keyFor.config) = some configValue)
  (validConfig : validateConfig (some configValue) = .ok config)
  (serving : config.servingEnabled = true)

include configured validConfig serving

theorem resolveAt_eval (slot : Slot) (seen : List String) (depth budget : Nat) :
    (resolveAt slot seen depth budget).eval s =
      (resolveInternalIn listed config slot seen depth budget).eval s := by
  simp only [resolveAt, Query.eval_bind, eval_getRecord, ok_bind, configured, validConfig, serving,
    Bool.not_true, Bool.false_eq_true, if_false, resolveInternalIn_listed]

/-- Dependencies that pass the check are found by the search below their root. -/
theorem eligibleDependencies_search {slot : Slot} (seen : List Slot) {depth fuel : Nat}
    (left : depth + 1 + fuel = maxDependencyDepth + 1) {dependencies : List RevisionDependency}
    {traversed budget : Nat}
    (passes : (eligibleDependencies slot (seen.map slotKey) depth dependencies traversed
      budget).eval s = .ok ()) :
    ∃ used, searchAll (search (standingLook listed s config) maxDependencyNodes fuel seen)
      (requiredEdges dependencies) budget = .ok (some used) := by
  induction dependencies generalizing traversed budget with
  | nil => exact ⟨budget, rfl⟩
  | cons dependency rest ih =>
      rw [eligibleDependencies] at passes
      split_ifs at passes with skipped
      · rw [requiredEdges, List.filter_cons_of_neg (by simpa using skipped)]
        exact ih passes
      · rw [requiredEdges, List.filter_cons_of_pos (by simpa using skipped), List.map_cons,
          searchAll]
        simp only [eval_bind_ok, eval_check, checked_ok, ensure_ok,
          resolveAt_eval configured validConfig serving] at passes
        obtain ⟨-, -, -, -, ⟨result, budget'⟩, run, -, named, next⟩ := passes
        have ends := @resolveInternalIn_sameEnd _ s config listed _ dependency.toSlot seen
          (depth + 1) budget left
        rw [lookSlot_eq configured validConfig, run] at ends
        revert ends
        generalize search (standingLook listed s config) maxDependencyNodes fuel seen budget
          dependency.toSlot = found
        intro ends
        cases ends with
        | nothing reason => simp [ineligible] at named
        | finds a r =>
            have same : r.revisionDigest = dependency.revisionDigest :=
              Subtype.ext (by simpa [eligible] using named)
            simp only [ok_bind, same, if_true]
            exact ih next

/-- Dependencies that are found by the search below their root pass the check. -/
theorem eligibleDependencies_passes {slot : Slot} (seen : List Slot) {depth fuel : Nat}
    (left : depth + 1 + fuel = maxDependencyDepth + 1) (inside : slot ∈ seen)
    {dependencies : List RevisionDependency} {traversed budget used : Nat}
    (few : traversed + dependencies.length ≤ maxDependencyNodes)
    (found : searchAll (search (standingLook listed s config) maxDependencyNodes fuel seen)
      (requiredEdges dependencies) budget = .ok (some used)) :
    (eligibleDependencies slot (seen.map slotKey) depth dependencies traversed budget).eval s =
      .ok () := by
  induction dependencies generalizing traversed budget with
  | nil => rfl
  | cons dependency rest ih =>
      rw [List.length_cons] at few
      rw [eligibleDependencies]
      split_ifs with skipped
      · rw [requiredEdges, List.filter_cons_of_neg (by simpa using skipped)] at found
        exact ih (by omega) found
      · rw [requiredEdges, List.filter_cons_of_pos (by simpa using skipped), List.map_cons,
          searchAll] at found
        have ends := @resolveInternalIn_sameEnd _ s config listed _ dependency.toSlot seen
          (depth + 1) budget left
        rw [lookSlot_eq configured validConfig] at ends
        cases first : search (standingLook listed s config) maxDependencyNodes fuel seen budget
            dependency.toSlot with
        | error e =>
            rw [first] at found
            cases found
        | ok o =>
            cases o with
            | none =>
                rw [first] at found
                cases found
            | some p =>
                have other : dependency.toSlot ≠ slot := by
                  rintro same
                  rw [same, search_seen inside] at first
                  cases first
                rw [first] at found ends
                generalize run : (resolveInternalIn listed config dependency.toSlot
                  (seen.map slotKey) (depth + 1) budget).eval s = ran at ends
                cases ends with
                | finds a r budget' =>
                    simp only [ok_bind] at found
                    split_ifs at found with same
                    · simp only [eval_bind_ok, eval_check, checked_ok, ensure_ok,
                        resolveAt_eval configured validConfig serving, run]
                      have apart : sameSlot dependency.toSlot slot = false := by
                        rwa [← Bool.not_eq_true, sameSlot_iff]
                      refine ⟨(), by simp; omega, (), by rw [apart]; rfl, _, rfl, (), ?_,
                        ih (by omega) found⟩
                      simp [eligible, same]
                    · cases found

/-- What a revision requires is derived when its dependencies pass the check. -/
theorem dependencyEligible_derives {r : DocumentRevision}
    (passes : (dependencyEligible r 0 []).eval s = .ok ()) :
    ∃ ts, DerivesAll (standingGraph listed s config) (requiredEdges (listed r)) ts ∧
      Within [r.payload.toSlot] maxDependencyDepth ts ∧ sizes ts ≤ maxDependencyNodes := by
  simp only [dependencyEligible, eval_bind_ok, eval_check, checked_ok, ensure_ok] at passes
  obtain ⟨-, -, -, -, passes⟩ := passes
  obtain ⟨used, found⟩ := eligibleDependencies_search configured validConfig serving
    [r.payload.toSlot] (Nat.add_comm 1 maxDependencyDepth) passes
  rw [searchAll_some_iff search_some_iff (Nat.zero_le _), graphOf_standingLook] at found
  obtain ⟨ts, all, within, rfl, small⟩ := found
  exact ⟨ts, all, within, by omega⟩

theorem dependencyEligible_passes {r : DocumentRevision} {used : Nat}
    (few : (listed r).length ≤ maxDependencyNodes)
    (found : searchAll (search (standingLook listed s config) maxDependencyNodes maxDependencyDepth
      [r.payload.toSlot]) (requiredEdges (listed r)) 0 = .ok (some used)) :
    (dependencyEligible r 0 []).eval s = .ok () := by
  simp only [dependencyEligible, eval_bind_ok, eval_check, checked_ok, ensure_ok]
  refine ⟨(), by decide, (), rfl, ?_⟩
  exact eligibleDependencies_passes configured validConfig serving
    [r.payload.toSlot] (Nat.add_comm 1 maxDependencyDepth) List.mem_cons_self
    (by rwa [Nat.zero_add]) found

end Check

/-! ## What an activation changes -/

section Activating

variable {ctx : Context} {input : Fields}

theorem closeCurrent_agreement {epoch : SafeInt 0} {current : Option AgreementRecord}
    {valid : ∀ a, current = some a → a.Valid} {id : Id}
    (kept : ∀ a, current = some a → id ≠ a.agreementId) :
    (closeCurrent L ctx epoch current valid).agreement id = L.agreement id := by
  cases current with
  | none => simp [closeCurrent]
  | some a => rw [closeCurrent, close_agreement, if_neg (kept a rfl)]

theorem Activating.revision_eq (c : Activating L ctx config input) (digest : Digest) :
    (L.putAll c.entries).revision digest = L.revision digest := by
  rw [Activating.entries, putAll_activation c.agreement_valid c.currentIs]
  exact (open_sameReviews.revision digest).trans (closeCurrent_sameReviews.revision digest)

theorem Activating.active_eq (c : Activating L ctx config input) (slot : Slot) :
    (L.putAll c.entries).active slot =
      if slot = c.proposal.toSlot then some c.agreementId else L.active slot := by
  rw [Activating.entries, putAll_activation c.agreement_valid c.currentIs, open_active]
  split_ifs with same
  · rfl
  · rw [closeCurrent_active c.currentIs, if_neg same]

/-- An agreement is kept, unless it is the one that is superseded. -/
theorem Activating.agreement_eq (c : Activating L ctx config input) {id : Id}
    (other : id ≠ c.agreementId) (kept : ∀ a, c.current = some a → id ≠ a.agreementId) :
    (L.putAll c.entries).agreement id = L.agreement id := by
  rw [Activating.entries, putAll_activation c.agreement_valid c.currentIs, open_agreement]
  exact (if_neg other).trans (closeCurrent_agreement kept)

theorem Activating.agreement_new (c : Activating L ctx config input) :
    (L.putAll c.entries).agreement c.agreementId = some c.agreement := by
  rw [Activating.entries, putAll_activation c.agreement_valid c.currentIs, open_agreement]
  exact if_pos rfl

theorem Activating.revision_slot (core : Core L config) (c : Activating L ctx config input) :
    c.revision.payload.toSlot = c.proposal.toSlot := by
  obtain ⟨⟨policy, revision, backed⟩, -, -⟩ := core.proposals _ _ c.proposalStored
  obtain rfl := Option.some.inj (backed.stored.symm.trans c.revisionStored)
  exact backed.revisionSlot

/-- The slot stands for the new agreement. -/
theorem Activating.standing (c : Activating L ctx config input) :
    (L.putAll c.entries).standing c.proposal.toSlot = some (c.agreement, c.revision) := by
  have digest : c.agreement.revisionDigest = c.proposal.revisionDigest :=
    (State.revision_named c.revisionStored).2
  simp only [State.standing, c.active_eq, if_pos, c.agreement_new, c.revision_eq, digest,
    c.revisionStored, Option.bind_eq_bind, Option.bind_some, Option.pure_def]

/-- Every other slot stands for what it stood for. -/
theorem Activating.standing_other (core : Core L config) (c : Activating L ctx config input)
    {slot : Slot} (other : slot ≠ c.proposal.toSlot) :
    (L.putAll c.entries).standing slot = L.standing slot := by
  simp only [State.standing, c.active_eq, if_neg other, c.revision_eq, Option.bind_eq_bind]
  cases active : L.active slot with
  | none => rfl
  | some id =>
      obtain ⟨a, stored, at_, -⟩ := core.pointed slot id active
      have new : id ≠ c.agreementId := by
        rintro rfl
        have fresh : L.agreement c.agreementId = none :=
          congrArg (Option.map fun a : Key.Record (.agreement c.agreementId) => a.1) c.fresh
        rw [stored] at fresh
        cases fresh
      have kept : ∀ b, c.current = some b → id ≠ b.agreementId := by
        rintro b current rfl
        have is := c.currentIs
        rw [current] at is
        obtain ⟨-, stored', at_'⟩ := is
        cases stored.symm.trans stored'
        exact other (at_.symm.trans at_')
      simp only [Option.bind_some, c.agreement_eq new kept]

end Activating

/-! ## The answer of resolution -/

omit [Sha256] in
theorem resolveDependencies_result {visit : Slot → Nat → Read (ResolveResult × Nat)}
    {a : AgreementRecord} {r : DocumentRevision} {dependencies : List RevisionDependency}
    {budget budget' : Nat} {result : ResolveResult}
    (returned : (resolveDependencies visit a r dependencies budget).eval s = .ok (result, budget'))
    (is : result.eligible = true) : result = eligible a r := by
  induction dependencies generalizing budget with
  | nil =>
      rw [resolveDependencies, Query.eval_pure] at returned
      exact (congrArg Prod.fst (Except.ok.inj returned)).symm
  | cons dependency rest ih =>
      rw [resolveDependencies] at returned
      split_ifs at returned
      · exact ih returned
      · obtain ⟨⟨found, used⟩, -, next⟩ := eval_bind_ok.mp returned
        dsimp only at next
        split_ifs at next
        · obtain rfl := congrArg Prod.fst (Except.ok.inj next)
          cases is
        · obtain rfl := congrArg Prod.fst (Except.ok.inj next)
          cases is
        · exact ih next

/-- An eligible answer is what the slot stands for. -/
theorem resolve_standing {configValue : Value}
    (configured : present (s keyFor.config) = some configValue)
    (validConfig : validateConfig (some configValue) = .ok config)
    (serving : config.servingEnabled = true) {slot : Slot} {result : ResolveResult}
    (returned : (resolve slot).eval s = .ok result) (is : result.eligible = true) :
    ∃ a r, result = eligible a r ∧ Standing s config slot a r := by
  rw [resolve_eval configured validConfig serving] at returned
  cases run : (resolveInternalIn listed config slot [] 0 0).eval s with
  | error e =>
      rw [run] at returned
      cases returned
  | ok p =>
      rw [run] at returned
      obtain rfl : p.1 = result := Except.ok.inj returned
      rw [resolveInternalIn, dif_neg (Nat.not_lt_zero _)] at run
      split_ifs at run
      · obtain rfl := Except.ok.inj run
        cases is
      · obtain rfl := Except.ok.inj run
        cases is
      · obtain rfl := Except.ok.inj run
        cases is
      · obtain ⟨found, stands, next⟩ := eval_bind_ok.mp run
        rcases resolveAgreement_cases configured validConfig slot with
          ⟨a, r, run', standing⟩ | ⟨reason, run', -⟩ | ⟨run', -⟩
        · obtain rfl := Except.ok.inj (run'.symm.trans stands)
          exact ⟨a, r, resolveDependencies_result next is, standing⟩
        · obtain rfl := Except.ok.inj (run'.symm.trans stands)
          obtain rfl := Except.ok.inj next
          cases is
        · cases run'.symm.trans stands

/-- Resolution returns in every reachable state. -/
theorem Holds.resolve_returns (h : Holds s L config) (serving : config.servingEnabled = true)
    (slot : Slot) : ∃ result, (resolve slot).eval s = .ok result ∧
      (result.eligible = true ↔ Derivable s config slot) := by
  obtain ⟨v, configured, validConfig⟩ := h.configured
  cases returned : (resolve slot).eval s with
  | error e =>
      obtain ⟨-, comes⟩ := (resolve_error_iff configured validConfig serving).mp returned
      obtain ⟨other, fails⟩ := Blocked.fails comes
      rw [h.standingLook_eq] at fails
      cases fails
  | ok result => exact ⟨result, rfl, resolve_eligible_iff configured validConfig serving returned⟩

/-! ## Resolving after an activation -/

theorem State.standing_stored {slot : Slot} {a : AgreementRecord} {r : DocumentRevision}
    (standing : L.standing slot = some (a, r)) :
    L.agreement a.agreementId = some a ∧ L.revision a.revisionDigest = some r := by
  simp only [State.standing, Option.bind_eq_bind, Option.bind_eq_some_iff, Option.pure_def,
    Option.some.injEq, Prod.mk.injEq] at standing
  obtain ⟨id, -, b, stored, t, kept, rfl, rfl⟩ := standing
  exact ⟨State.agreement_named stored ▸ stored, kept⟩

theorem Represents.stored_revision (h : Represents L s) {digest : Digest} {r : DocumentRevision}
    (found : L.revision digest = some r) :
    ∃ v, present (s (keyFor.revision digest.1)) = some v ∧ validateRevision (some v) = .ok r := by
  obtain ⟨named, inside⟩ := State.revision_eq.mp found
  rw [show keyFor.revision digest.1 = (Key.revision digest).text from rfl, h.read, inside]
  exact ⟨_, rfl, validateRevision_stored _⟩

/-- The call is an `activate` of the stored proposal as the named agreement, and it is
performed: it is not the replay of an earlier call. -/
structure Activates (s : Store) (c : Call) (p : AgreementProposalRecord) (id : Id) : Prop where
  command : ∃ request, validateCommand c.command = .ok request ∧ request.type.1 = "activate" ∧
    assertId (request.input.get "proposal_id") "proposal_id" = .ok p.proposalId ∧
    assertId (request.input.get "agreement_id") "agreement_id" = .ok id
  proposal : ∃ v, present (s (keyFor.proposal p.proposalId.1)) = some v ∧
    validateProposal (some v) = .ok p
  commits : ∃ result w, c.program.simulate s [] = .ok (result, w) ∧ w ≠ []

/-- The slot of the proposal resolves to the named agreement, made of the proposal, and to the
revision of the proposal. -/
def ResolvesActivated (s : Store) (p : AgreementProposalRecord) (id : Id) : Prop :=
  ∃ a r, (resolve p.toSlot).eval s = .ok (eligible a r) ∧ AgreementStored s a ∧
    a.agreementId = id ∧ a.proposalId = p.proposalId ∧ r.revisionDigest = p.revisionDigest ∧
    ∃ v, present (s (keyFor.revision p.revisionDigest.1)) = some v ∧
      validateRevision (some v) = .ok r

/-- The nodes of the derivations that a revision requires, a shared one counted once for each
occurrence. -/
noncomputable def requiredNodes (s : Store) (config : DomainConfig) (r : DocumentRevision) : Nat :=
  ((requiredEdges (listed r)).map fun e =>
    count (standingGraph listed s config) maxDependencyDepth e.1).sum

theorem requiredNodes_eq {r : DocumentRevision} {seen : List Slot}
    {ts : List (Derivation.Tree Slot)}
    (all : DerivesAll (standingGraph listed s config) (requiredEdges (listed r)) ts)
    (within : Within seen maxDependencyDepth ts) : requiredNodes s config r = sizes ts :=
  all.count fun t mem _ derives => derives.count (within t mem).2

/-- The nodes that the walk counts. -/
theorem requiredNodes_found {r : DocumentRevision} {used : Nat}
    (found : searchAll (search (standingLook listed s config) maxDependencyNodes maxDependencyDepth
      [r.payload.toSlot]) (requiredEdges (listed r)) 0 = .ok (some used)) :
    requiredNodes s config r = used := by
  rw [searchAll_some_iff search_some_iff (Nat.zero_le _), graphOf_standingLook] at found
  obtain ⟨ts, all, within, rfl, -⟩ := found
  rw [requiredNodes_eq all within, Nat.zero_add]

theorem Performs.activating {ctx : Context} {command : DomainCommand} {r : Value} {es : List Entry}
    (performs : Performs L ctx config command r es) (type : command.type.1 = "activate") :
    ∃ x : Activating L ctx config command.input, r = x.result ∧ es = x.entries := by
  cases performs with
  | activate x _ => exact ⟨x, rfl, rfl⟩
  | republish x other | publish x other | propose x other | decide x other
  | withdraw x other | suspend x other | fence x other =>
      rw [type] at other
      exact absurd other (by decide)

/-- A slot stands for what it stands for once the call is recorded. -/
theorem Execution.standing_eq {ctx : TxContext} {command : Value} (x : Execution L ctx command)
    (slot : Slot) : (L.putAll x.entries).standing slot = (L.putAll x.performed).standing slot := by
  rw [Execution.entries, State.putAll_append]
  simp [State.standing]

theorem Represents.proposal_stored (h : Represents L s) {p q : AgreementProposalRecord} {v : Value}
    (stored : present (s (keyFor.proposal p.proposalId.1)) = some v)
    (valid : validateProposal (some v) = .ok p) (found : L.proposal p.proposalId = some q) :
    q = p := by
  obtain ⟨named, inside⟩ := State.proposal_eq.mp found
  rw [show keyFor.proposal p.proposalId.1 = (Key.proposal p.proposalId).text from rfl, h.read,
    inside, Option.map_some] at stored
  rw [← Option.some.inj stored, validateProposal_stored] at valid
  exact Except.ok.inj valid

theorem Represents.revision_stored (h : Represents L s) {digest : Digest} {r t : DocumentRevision}
    (stored : ∃ v, present (s (keyFor.revision digest.1)) = some v ∧
      validateRevision (some v) = .ok r) (found : L.revision digest = some t) : t = r := by
  obtain ⟨v, stored, valid⟩ := stored
  obtain ⟨v', stored', valid'⟩ := h.stored_revision found
  cases stored.symm.trans stored'
  exact Except.ok.inj (valid'.symm.trans valid)

/-- A performed activation of a reachable state. -/
theorem Activates.activating {c : Call} {p : AgreementProposalRecord} {id : Id}
    (h : Holds s L config) (activates : Activates s c p id) :
    ∃ M ctx input, ∃ x : Activating L ctx config input, x.proposal = p ∧ x.agreementId = id ∧
      Holds (c.commit s) M config ∧
      ∀ slot, M.standing slot = (L.putAll x.entries).standing slot := by
  obtain ⟨request, valid, type, proposalId, agreementId⟩ := activates.command
  obtain ⟨result, w, run, performed⟩ := activates.commits
  obtain ⟨v, stored, validProposal⟩ := activates.proposal
  rcases (execute_ok h.represents).mp run with ⟨replay, -, nothing⟩ | ⟨e, -, writes⟩
  · exact absurd nothing performed
  · obtain rfl : request = e.request := Except.ok.inj (valid.symm.trans e.request_eq)
    have same := e.config_unique h.core
    subst same
    obtain ⟨x, -, entries⟩ := e.performs.activating type
    refine ⟨L.putAll e.entries, _, _, x, ?_, ?_, ⟨?_, e.core h.core, e.live h.core h.live⟩, ?_⟩
    · have same : x.proposal.proposalId = p.proposalId :=
        Except.ok.inj (x.proposalId_eq.symm.trans proposalId)
      exact h.represents.proposal_stored stored validProposal (same ▸ x.proposalStored)
    · exact Except.ok.inj (x.agreementId_eq.symm.trans agreementId)
    · have next : c.commit s = (putAll [] e.entries).over s := by
        rw [Call.commit, commit, run, writes]
      exact next ▸ represents_putAll h.represents _
    · intro slot
      rw [e.standing_eq, entries]

/-- A slot resolves to its agreement when the root is within the limit too. -/
theorem Activates.resolves_iff {c : Call} {p : AgreementProposalRecord} {id : Id}
    (activates : Activates s c p id) (h : Holds s L config)
    (serving : config.servingEnabled = true) {r : DocumentRevision}
    (published : ∃ v, present (s (keyFor.revision p.revisionDigest.1)) = some v ∧
      validateRevision (some v) = .ok r) :
    ResolvesActivated (c.commit s) p id ↔ requiredNodes s config r + 1 ≤ maxDependencyNodes := by
  obtain ⟨v, configured, validConfig⟩ := h.configured
  obtain ⟨M, ctx, input, x, rfl, rfl, h', standing⟩ := activates.activating h
  have own : M.standing x.proposal.toSlot = some (x.agreement, x.revision) :=
    (standing _).trans x.standing
  have others : ∀ slot, slot ∉ [x.proposal.toSlot] →
      standingGraph listed (c.commit s) config slot = standingGraph listed s config slot := by
    intro slot other
    rw [h.standingGraph_eq, h'.standingGraph_eq, standing,
      x.standing_other h.core (by simpa using other)]
  obtain rfl : x.revision = r := h.represents.revision_stored published x.revisionStored
  obtain ⟨ts, all, within, small⟩ := dependencyEligible_derives configured validConfig serving
    (x.eligible s h.represents)
  rw [x.revision_slot h.core] at within
  have root : standingGraph listed (c.commit s) config x.proposal.toSlot =
      some (x.revision.revisionDigest, requiredEdges (listed x.revision)) := by
    rw [h'.standingGraph_eq, own]
    rfl
  have derivable : Derivable (c.commit s) config x.proposal.toSlot ↔
      sizes ts + 1 ≤ maxDependencyNodes :=
    derives_root_iff root (fun m other => others m (by simpa using other)) all within
  obtain ⟨result, returned, is⟩ := h'.resolve_returns serving x.proposal.toSlot
  rw [requiredNodes_eq all within, ← derivable, ← is]
  constructor
  · rintro ⟨a, r, same, -⟩
    rw [Except.ok.inj (returned.symm.trans same)]
    rfl
  · intro eligible
    obtain ⟨v', configured', validConfig'⟩ := h'.configured
    obtain ⟨a, r, rfl, stands⟩ :=
      resolve_standing configured' validConfig' serving returned eligible
    have same := ((h'.standing_iff x.proposal.toSlot).2 a r).mp stands
    obtain ⟨rfl, rfl⟩ := Prod.mk.inj (Option.some.inj (own.symm.trans same))
    obtain ⟨storedA, storedR⟩ := State.standing_stored own
    have digest : x.agreement.revisionDigest = x.proposal.revisionDigest :=
      (State.revision_named x.revisionStored).2
    rw [digest] at storedR
    exact ⟨x.agreement, x.revision, returned, (agreementStored_iff h'.represents).mpr storedA, rfl,
      rfl, digest, h'.represents.stored_revision storedR⟩

/-- **An activated slot resolves to its agreement** exactly when at most 255 nodes lie below
it. -/
theorem activation_resolves_iff (reachable : Reachable s) {configValue : Value}
    (configured : present (s keyFor.config) = some configValue)
    (validConfig : validateConfig (some configValue) = .ok config)
    (serving : config.servingEnabled = true) {c : Call} {p : AgreementProposalRecord} {id : Id}
    {r : DocumentRevision} (activates : Activates s c p id)
    (published : ∃ v, present (s (keyFor.revision p.revisionDigest.1)) = some v ∧
      validateRevision (some v) = .ok r) :
    ResolvesActivated (c.commit s) p id ↔ requiredNodes s config r + 1 ≤ maxDependencyNodes := by
  obtain ⟨L, config', h⟩ := reachable.holds
  obtain ⟨v, configured', validConfig'⟩ := h.configured
  cases configured.symm.trans configured'
  cases validConfig.symm.trans validConfig'
  exact activates.resolves_iff h serving published

end Activated

/-! ## A library of documents -/

namespace Demo

theorem title_fits : 1 ≤ "t".length ∧ "t".length ≤ 200 := by decide

theorem body_fits : 1 ≤ "b".length ∧ "b".length ≤ 262144 := by decide

theorem created_fits : 1 ≤ "c".length ∧ "c".length ≤ 80 := by decide

theorem dependsOn_isRelationship : isRelationship "depends_on" = true := by decide

theorem agreed_fits : 1 ≤ "agreed".length ∧ "agreed".length ≤ 1000 := by decide

theorem root_isId : isId "root" = true := by decide

/-- A document with the commands that make it active, and what it requires. -/
structure Volume where
  doc : Id
  digest : Digest
  targets : List (Id × Digest)
  publish : Id
  propose : Id
  decide : Id
  activate : Id

def Volume.payload (p : Volume) : DocumentRevisionPayload where
  toSlot := slot p.doc
  revisionId := p.doc
  title := ⟨"t", title_fits⟩
  bodyMarkdown := ⟨"b", body_fits⟩
  parents := []
  dependencies := p.targets.map fun t =>
    { slot t.1 with
      revisionDigest := t.2
      relationship := ⟨"depends_on", dependsOn_isRelationship⟩
      enforcement := .requiresActive }
  metadata :=
    { authorId := owner.actorId
      createdAt := ⟨"c", created_fits⟩
      sourceKind := .approvedImport
      sharedAssertions := []
      authorOrgId := owner.orgId }

def Volume.revision (p : Volume) : DocumentRevision := ⟨p.digest, p.payload⟩

section Volume

variable {p : Volume}

theorem Volume.payload_valid (few : p.targets.length ≤ 32)
    (distinct : (p.targets.map Prod.snd).Nodup) : p.payload.Valid where
  body := by
    change "b".utf8ByteSize ≤ 262144
    decide
  parents := Nat.zero_le _
  parentsNodup := List.nodup_nil
  dependencies := by simpa [Volume.payload] using few
  dependenciesUnique := by
    rw [assertUniqueCanonical_ok]
    constructor
    · intro v mem
      obtain ⟨d, -, rfl⟩ := List.mem_map.mp mem
      exact canonicalize_isOk d.canonicalizable_json
    · simp only [Volume.payload, List.map_map]
      refine (List.Nodup.of_map _ distinct).map_on fun t mem u mem' same => ?_
      have digests := get_of_normalize same "revision_digest"
      have same : t.2 = u.2 := Subtype.ext (jsonString_inj.mp (Option.some.inj digests))
      exact List.inj_on_of_nodup_map distinct mem mem' same
  channel := by
    intro d mem
    obtain ⟨_, _, rfl⟩ := List.mem_map.mp mem
    rfl
  metadata := rfl

theorem Volume.payload_canonicalizable (few : p.targets.length ≤ 32) {depth : Nat}
    (low : depth ≤ 10) :
    canonicalizable p.payload.toJson depth = true := by
  have items : canonicalizable (.arr (p.payload.dependencies.map
      RevisionDependency.toJson)) (depth + 1) = true := by
    rw [canonicalizable_arr]
    refine ⟨?_, ?_, fun d _ => ?_⟩
    · simp only [maxCanonicalDepth]
      omega
    · simpa [Volume.payload, maxCanonicalArrayItems] using few.trans (by decide)
    · simp [RevisionDependency.toJson, canonicalizable_record, maxCanonicalDepth]
      omega
  have none : ∀ d ≤ 20, canonicalizable (.arr []) d = true := by
    intro d low
    simp [canonicalizable, canonicalizableItems, maxCanonicalDepth]
    omega
  simp only [DocumentRevisionPayload.toJson, canonicalizable_record]
  simp [Volume.payload, RevisionMetadata.toJson, canonicalizable_record, maxCanonicalDepth]
  simp only [Volume.payload, List.map_map] at items
  have first := none (depth + 1) (by omega)
  have second := none (depth + 1 + 1) (by omega)
  exact ⟨by omega, by omega, first, items, by omega, by omega, second, by omega⟩

theorem Volume.canonical (few : p.targets.length ≤ 32) :
    canonicalize p.payload.toJson = .ok (String.ofList (textOf p.payload)) := by
  obtain ⟨text, is⟩ :=
    canonicalizeValue_isOk _ 0 (Volume.payload_canonicalizable few (Nat.zero_le _))
  rw [textOf, canonicalize, is]
  rfl

theorem Volume.dependency_small (short : ∀ t ∈ p.targets, t.1.1.toList.length ≤ 64) :
    ∀ d ∈ p.payload.dependencies, d.toJson.normalize.text.length ≤ 4178 := by
  intro d mem
  obtain ⟨t, inside, rfl⟩ := List.mem_map.mp mem
  have named := short t inside
  refine (record_length (n := 520) ?_).trans (by simp)
  simp only [List.forall_mem_cons, Option.mem_some_iff, forall_eq', List.not_mem_nil,
    false_imp_iff, implies_true, and_true]
  dsimp only [slot]
  refine ⟨string_field ?_, string_field (by decide), string_field (by decide),
    string_field (by decide), string_field (by decide), string_field ?_, string_field (by decide),
    string_field (by decide)⟩
  · rw [digest_length]
    decide
  · have key : "document_id".toList.length = 11 := rfl
    omega

theorem Volume.metadata_small : p.payload.metadata.toJson.normalize.text.length ≤ 1512 := by
  refine (record_length (n := 300) ?_).trans (by simp)
  simp only [List.forall_mem_cons, Option.mem_some_iff, forall_eq', List.not_mem_nil,
    false_imp_iff, implies_true, and_true]
  dsimp only [Volume.payload]
  exact ⟨string_field (by decide), string_field (by decide), string_field (by decide),
    by decide, string_field (by decide)⟩

/-- The canonical text of a volume is short. -/
theorem Volume.small (few : p.targets.length ≤ 10)
    (short : ∀ t ∈ p.targets, t.1.1.toList.length ≤ 64) (named : p.doc.1.toList.length ≤ 64) :
    p.payload.toJson.normalize.text.length ≤ 131072 := by
  have metadata := @Volume.metadata_small p
  have dependencies : (Value.arr (p.payload.dependencies.map
      RevisionDependency.toJson)).normalize.text.length ≤ 41800 := by
    refine (arr_length (List.forall_mem_map.mpr (Volume.dependency_small short))).trans ?_
    simp only [Volume.payload, List.length_map]
    omega
  refine (record_size _).trans ?_
  have front : ∀ f ∈ ([("contract_type", jsonString "DocumentRevision"),
      ("contract_version", jsonNat 1), ("revision_id", jsonString p.payload.revisionId.1),
      ("document_id", jsonString p.payload.documentId.1),
      ("context_id", jsonString p.payload.contextId.1),
      ("scope_id", jsonString p.payload.scopeId.1),
      ("usage_scope", jsonString p.payload.usageScope.1),
      ("channel_id", jsonString p.payload.channelId.1),
      ("visibility", jsonString "shared_channel"), ("title", jsonString p.payload.title.1),
      ("body_markdown", jsonString p.payload.bodyMarkdown.1),
      ("parents", Value.arr (p.payload.parents.map jsonText))] : List (String × Option Value)),
        fieldSize f ≤ 602 := by
    simp only [List.forall_mem_cons, List.not_mem_nil, false_imp_iff, implies_true, and_true]
    have revision : "revision_id".toList.length = 11 := rfl
    have document : "document_id".toList.length = 11 := rfl
    dsimp only [Volume.payload, slot]
    refine ⟨fieldSize_le (string_field (by decide)), fieldSize_le (by decide),
      fieldSize_le (string_field (by omega)), fieldSize_le (string_field (by omega)),
      fieldSize_le (string_field (by decide)), fieldSize_le (string_field (by decide)),
      fieldSize_le (string_field (by decide)), fieldSize_le (string_field (by decide)),
      fieldSize_le (string_field (by decide)), fieldSize_le (string_field (by decide)),
      fieldSize_le (string_field (by decide)), fieldSize_le (by decide)⟩
  have back : ∀ f ∈ ([("dependencies", Value.arr (p.payload.dependencies.map
      RevisionDependency.toJson)), ("metadata", p.payload.metadata.toJson)] :
        List (String × Option Value)), fieldSize f ≤ 42002 := by
    have key : "dependencies".toList.length = 12 := rfl
    have key' : "metadata".toList.length = 8 := rfl
    simp only [List.forall_mem_cons, List.not_mem_nil, false_imp_iff, implies_true, and_true]
    exact ⟨fieldSize_le (by omega), fieldSize_le (by omega)⟩
  have first := sizes_le front
  have second := sizes_le back
  simp only [List.map_cons, List.map_nil, List.sum_cons, List.sum_nil, List.length_cons,
    List.length_nil] at first second ⊢
  omega

end Volume

/-! ## A library of documents -/

section Library

variable {ps : List Volume}

def one : SafeInt 1 := ⟨1, SafeInt.one_valid⟩

theorem first_valid : 0 ≤ 1 ∧ 1 ≤ 9007199254740991 := by decide

def first : SafeInt 0 := ⟨1, first_valid⟩

def everything : ConfigIdentity := ⟨owner, [.all], true⟩

/-- The owner approves every document of the list. -/
def library (ps : List Volume) : DomainConfig :=
  { config with policies := ps.map fun p => policy p.doc }

theorem policyKey_inj {d e : Id} (same : policyKey (policy d) = policyKey (policy e)) : d = e := by
  have texts := congrArg String.toList same
  simp only [policyKey, String.toList_append, policy] at texts
  exact Subtype.ext
    (String.toList_inj.mp (List.append_cancel_right (List.append_cancel_right texts)))

variable [Sha256]

theorem library_valid (some_ : 1 ≤ ps.length) (distinct : (ps.map Volume.doc).Nodup) :
    (library ps).Valid where
  identities_pos := config_valid.identities_pos
  identities := config_valid.identities
  policies_pos := by simpa [library] using some_
  policies := by
    intro p mem
    obtain ⟨q, -, rfl⟩ := List.mem_map.mp mem
    exact ⟨policy_valid _, rfl, rfl, rfl, by
      intro r inside
      obtain rfl := List.mem_singleton.mp inside
      rfl⟩
  policies_nodup := by
    have docs : (ps.map fun p => policyKey (policy p.doc)).Nodup :=
      (List.Nodup.of_map _ distinct).map_on fun p mem q mem' same =>
        List.inj_on_of_nodup_map distinct mem mem' (policyKey_inj same)
    rwa [library, List.map_map]

variable {L : State} {s : Store} {p : Volume}

theorem library_found (some_ : 1 ≤ ps.length) (distinct : (ps.map Volume.doc).Nodup)
    (mem : p ∈ ps) : findPolicy (library ps) p.doc one = some (policy p.doc) :=
  findPolicy_mem (library_valid some_ distinct) (List.mem_map_of_mem mem)

/-- A reachable store of the library, with the typed state it holds. -/
structure Kept (ps : List Volume) (s : Store) (L : State) : Prop where
  reachable : Reachable s
  holds : Holds s L (library ps)

/-- A command of the owner that is performed, with its record. -/
theorem Kept.perform (h : Kept ps s L) {command : DomainCommand} {r : Value} {es : List Entry}
    (performs : Performs L (context owner) (library ps) command r es)
    (fits : canonicalizable (.obj command.input) 1 = true)
    (fresh : L (.idempotency owner.orgId command.commandId) = none) :
    ∃ (c : Call) (record : Key.Record (.idempotency owner.orgId command.commandId))
        (w : Writes String Value), c.command = command.toJson ∧
      c.program.simulate s [] = .ok (r, w) ∧ w ≠ [] ∧ Kept ps (c.commit s)
        ((L.putAll es).set (.idempotency owner.orgId command.commandId) record) := by
  obtain ⟨text, canonical⟩ : ∃ text, canonicalize (record [("type", jsonString command.type.1),
      ("input", Value.obj command.input)]) = .ok text := by
    refine canonicalize_isOk ?_
    simp [canonicalizable_record, maxCanonicalDepth, fits]
  obtain ⟨digest, run⟩ : ∃ digest, idempotencyDigest command = .ok digest :=
    ⟨_, by rw [idempotencyDigest, canonicalDigest, canonical]; rfl⟩
  have named : configuredIdentity (library ps) owner = .ok everything := rfl
  let x : Execution L (context owner).toTx command.toJson :=
    performs.execution h.holds.core.config_eq rfl named run fresh
  have ran := (execute_ok h.holds.represents).mpr (.inr ⟨x, rfl, rfl⟩)
  obtain ⟨e, rest, writes⟩ := x.writes
  have reaches : Reaches s L := ⟨h.reachable, h.holds.represents⟩
  have next := reaches.step x
  have core := x.core h.holds.core
  have live := x.live h.holds.core h.holds.live
  rw [Execution.entries, State.putAll_append] at next core live
  refine ⟨⟨_, _⟩, ⟨x.record, x.record_valid, rfl, rfl⟩, _, rfl, ran, ?_, next.reachable,
    next.represents, core, live⟩
  rw [writes]
  exact List.cons_ne_nil _ _

/-- The owner publishes the revision of a volume. -/
def Volume.publication (p : Volume) : Publication := ⟨p.revision, config.configVersion, one⟩

def Volume.publishCommand (p : Volume) : DomainCommand :=
  ⟨p.publish, ⟨"publish_revision", by decide⟩, publishInput p.publication⟩

def Volume.proposeCommand (p : Volume) : DomainCommand :=
  ⟨p.propose, ⟨"propose", by decide⟩, proposeInput p.doc p.digest p.doc one⟩

/-- The owner approves the proposal of a volume. -/
def Volume.approval (p : Volume) : ApprovalDecision where
  toSlot := slot p.doc
  decisionId := p.doc
  revisionDigest := p.digest
  policyId := p.doc
  policyVersion := one
  membershipEpoch := one
  roleBindingVersion := one
  actorOrgId := owner.orgId
  actorId := owner.actorId
  subjectId := owner.actorId
  actorDomainRole := name "role" role_isId
  decision := .approve
  rationale := ⟨"agreed", agreed_fits⟩
  decidedAt := ⟨"2026-01-01", date_fits⟩
  proposalId := p.doc
  retractsDecisionId := none

def Volume.decideCommand (p : Volume) : DomainCommand :=
  ⟨p.decide, ⟨"decide", by decide⟩, decideInput p.approval⟩

def Volume.activateCommand (p : Volume) : DomainCommand :=
  ⟨p.activate, ⟨"activate", by decide⟩, activateInput p.doc p.doc none⟩

/-- Nothing of the volume is recorded. -/
structure Absent (L : State) (p : Volume) : Prop where
  revision : L (.revision p.digest) = none
  revisionId : L (.revisionId p.doc) = none
  proposal : L (.proposal p.doc) = none
  decision : L (.decision p.doc) = none
  latest : L (.latestDecision p.doc one (name "role" role_isId) owner.orgId owner.actorId) = none
  agreement : L (.agreement p.doc) = none
  active : L (.activeSlot (slot p.doc)) = none
  commands : ∀ id ∈ [p.publish, p.propose, p.decide, p.activate],
    L (.idempotency owner.orgId id) = none

theorem Absent.publishing (absent : Absent L p)
    (valid : p.revision.Valid) (few : p.targets.length ≤ 32)
    (graph : ∀ s, Represents L s → (validatePublishedDependencyGraph p.revision).eval s = .ok ()) :
    ∃ c : Publishing L (context owner) (library ps) p.publishCommand.input,
      c.publication = p.publication := by
  refine ⟨⟨⟨everything, p.publication, rfl, validatePublication_json valid, rfl, rfl, rfl, rfl, ?_,
    rfl⟩, absent.revision, absent.revisionId, List.forall_mem_nil _, graph, ?_⟩, rfl⟩
  · obtain ⟨text, run⟩ := canonicalize_isOk
      (config.configVersion.canonicalizable_json (Nat.zero_le 100))
    rw [assertConfigVersionEqual, Volume.publication, show (library ps).configVersion =
      config.configVersion from rfl, run, ok_bind, ok_bind]
    exact ensure_ok.mpr (beq_self_eq_true text)
  · refine canonicalize_isOk ?_
    simp [DocumentRevision.toJson, canonicalizable_record, maxCanonicalDepth, Volume.publication,
      Volume.revision, Volume.payload_canonicalizable few]

/-- The states agree on every other key. -/
def Frame (L M : State) (keys : List Key) : Prop := ∀ k, k ∉ keys → M k = L k

theorem Frame.config {M : State} {keys : List Key} (frame : Frame L M keys)
    (other : Key.config ∉ keys) : M.config = L.config :=
  congrArg (Option.map fun c : Key.Record .config => c.1) (frame .config other)

theorem frame_putAll {es : List Entry} {k : Key} {r : k.Record} :
    Frame L ((L.putAll es).set k r) (k :: es.map Sigma.fst) := by
  intro j other
  obtain ⟨last, rest⟩ := not_or.mp (mt List.mem_cons.mpr other)
  rw [State.set_of_ne _ _ last]
  refine State.putAll_of_notMem fun e mem same => rest ?_
  exact List.mem_map.mpr ⟨e, mem, same⟩

/-- The volume is published. -/
theorem Kept.published (h : Kept ps s L)
    (absent : Absent L p) (valid : p.revision.Valid) (few : p.targets.length ≤ 32)
    (graph : ∀ s, Represents L s → (validatePublishedDependencyGraph p.revision).eval s = .ok ()) :
    ∃ t M, Kept ps t M ∧ M.revision p.digest = some p.revision ∧
      Frame L M [.idempotency owner.orgId p.publish, .revision p.digest, .revisionId p.doc] := by
  obtain ⟨c, same⟩ := absent.publishing valid few graph
  have fits : canonicalizable (.obj p.publishCommand.input) 1 = true := by
    change canonicalizable (record _) 1 = true
    simp [canonicalizable_record, maxCanonicalDepth, DocumentRevision.toJson]
    exact ⟨Volume.payload_canonicalizable few (by decide),
      config.configVersion.canonicalizable_json (by decide)⟩
  obtain ⟨call, r, w, -, -, -, next⟩ :=
    h.perform (Performs.publish c rfl) fits
      (absent.commands p.publish (by simp))
  refine ⟨_, _, next, ?_, ?_⟩
  · simp [Publishing.entries, same, Volume.publication, Volume.revision]
  · have keys : c.entries.map Sigma.fst = [.revision p.digest, .revisionId p.doc] := by
      change [Key.revision c.publication.revision.revisionDigest,
        Key.revisionId c.publication.revision.payload.revisionId] = _
      rw [same]
      rfl
    have frame := @frame_putAll _ L c.entries _ r
    rw [keys] at frame
    exact frame

/-- The proposal of a volume, with the decisions that were counted. -/
def Volume.record (p : Volume) (counted : SafeInt 0) : AgreementProposalRecord where
  toSlot := slot p.doc
  proposalId := p.doc
  revisionDigest := p.digest
  policyId := p.doc
  policyVersion := one
  membershipEpoch := one
  roleBindingVersion := one
  configVersion := config.configVersion
  status := .open
  createdBy := owner
  createdAt := (context owner).timestamp
  reviewCounter := counted
  agreementId := none

theorem policy_storable (d : Id) :
    (policy d).Valid ∧ ∃ text, canonicalize (policy d).toJson = .ok text := by
  refine ⟨policy_valid d, canonicalize_isOk ?_⟩
  simp [AgreementPolicy.toJson, canonicalizable_record, maxCanonicalDepth, policy]
  exact ⟨rfl, rfl, rfl⟩

/-- The volume is proposed. -/
theorem Kept.proposed (h : Kept ps s L)
    (found : findPolicy (library ps) p.doc one = some (policy p.doc))
    (published : L.revision p.digest = some p.revision) (fresh : L (.proposal p.doc) = none)
    (command : L (.idempotency owner.orgId p.propose) = none) :
    ∃ t M, Kept ps t M ∧ M.proposal p.doc = some (p.record ⟨0, SafeInt.zero_valid⟩) ∧
      M.counter p.doc = some ⟨0, SafeInt.zero_valid⟩ ∧
      Frame L M [.idempotency owner.orgId p.propose, .proposal p.doc, .reviewCounter p.doc,
        .policy p.doc one] := by
  obtain ⟨valid, canonical⟩ := policy_storable p.doc
  let c : Proposing L (context owner) (library ps) p.proposeCommand.input :=
    { identity := everything
      proposalId := p.doc
      revision := p.revision
      policy := policy p.doc
      configured := rfl
      keys := assertKeys_recordFields _ (by simp) (by simp)
      proposalId_eq := assertId_json _ _
      revisionDigest_eq := assertDigest_json _ _
      policyId_eq := assertId_json _ _
      policyVersion_eq := assertSafeInteger_json _ _
      entitled := rfl
      stored := published
      found := found
      slot := rfl
      fresh := fresh
      valid := valid
      canonical := canonical }
  have fits : canonicalizable (.obj p.proposeCommand.input) 1 = true := by
    change canonicalizable (Knowledger.record _) 1 = true
    simp [canonicalizable_record, maxCanonicalDepth]
  obtain ⟨call, r, w, -, -, -, next⟩ := h.perform (Performs.propose c rfl) fits command
  refine ⟨_, _, next, ?_, ?_, ?_⟩
  · simp [Proposing.entries, c]
    rfl
  · simp [Proposing.entries, c]
  · exact frame_putAll

theorem Volume.approval_valid (p : Volume) : p.approval.Valid := by
  constructor <;> intro h <;> cases h

/-- The owner approves the proposal of the volume. -/
theorem Kept.decided (h : Kept ps s L)
    (found : findPolicy (library ps) p.doc one = some (policy p.doc))
    (published : L.revision p.digest = some p.revision)
    (proposed : L.proposal p.doc = some (p.record ⟨0, SafeInt.zero_valid⟩))
    (counter : L.counter p.doc = some ⟨0, SafeInt.zero_valid⟩)
    (fresh : L (.decision p.doc) = none)
    (latest : L (.latestDecision p.doc one (name "role" role_isId) owner.orgId
      owner.actorId) = none)
    (command : L (.idempotency owner.orgId p.decide) = none) :
    ∃ t M, Kept ps t M ∧ M.proposal p.doc = some (p.record first) ∧
      M.counter p.doc = some first ∧ M.decision p.doc = some p.approval ∧
      M.latest p.doc one (name "role" role_isId) owner.orgId owner.actorId = some p.doc ∧
      Frame L M [.idempotency owner.orgId p.decide, .decision p.doc,
        .latestDecision p.doc one (name "role" role_isId) owner.orgId owner.actorId,
        .proposal p.doc, .reviewCounter p.doc] := by
  let c : Deciding L (context owner) (library ps) p.decideCommand.input :=
    { identity := everything
      decision := p.approval
      proposal := p.record ⟨0, SafeInt.zero_valid⟩
      revision := p.revision
      policy := policy p.doc
      latest := none
      counter := first
      suspension := none
      human := rfl
      keys := assertKeys_recordFields _ (by simp) (by simp)
      decision_eq := validateDecision_json p.approval_valid
      proposalStored := proposed
      revisionStored := published
      target := ⟨rfl, rfl, rfl, rfl, rfl, rfl, rfl, rfl, rfl, rfl⟩
      found := found
      slot := rfl
      actor := ⟨rfl, ⟨_, rfl, rfl, rfl⟩, rfl, rfl⟩
      fresh := fresh
      latestIs := by
        have absent : L.latest p.approval.proposalId p.approval.policyVersion
            p.approval.actorDomainRole p.approval.actorOrgId p.approval.actorId = none := latest
        rw [State.LatestIs, absent]
      retracts := fun id is => by cases is
      counterAgrees := fun m is => Option.some.inj (is.symm.trans counter)
      counter_eq := rfl
      suspends := fun u is => by cases is
      spares := fun _ => .inl rfl }
  have fits : canonicalizable (.obj p.decideCommand.input) 1 = true := by
    change canonicalizable (Knowledger.record _) 1 = true
    simp [canonicalizable_record, maxCanonicalDepth, ApprovalDecision.toJson]
  obtain ⟨call, r, w, -, -, -, next⟩ := h.perform (Performs.decide c rfl) fits command
  refine ⟨_, _, next, ?_, ?_, ?_, ?_, ?_⟩
  · simp [Deciding.entries, decisionEntries, Deciding.counted, c, Volume.record]
  · simp [Deciding.entries, decisionEntries, Deciding.counted, c, Volume.record]
  · simp [Deciding.entries, decisionEntries, Deciding.counted, c, Volume.record, Volume.approval]
  · simp [Deciding.entries, decisionEntries, Deciding.counted, c, Volume.record, Volume.approval]
  · exact frame_putAll

/-- The owner activates the volume. -/
theorem Kept.activated (h : Kept ps s L)
    (found : findPolicy (library ps) p.doc one = some (policy p.doc))
    (published : L.revision p.digest = some p.revision)
    (proposed : L.proposal p.doc = some (p.record first))
    (counter : L.counter p.doc = some first) (decided : L.decision p.doc = some p.approval)
    (latest : L.latest p.doc one (name "role" role_isId) owner.orgId owner.actorId = some p.doc)
    (vacant : L.active (slot p.doc) = none) (fresh : L (.agreement p.doc) = none)
    (command : L (.idempotency owner.orgId p.activate) = none)
    (eligible : ∀ s, Represents L s → (dependencyEligible p.revision 0 []).eval s = .ok ())
    {epoch : SafeInt 0} (next : epoch.1 = L.epoch + 1) :
    ∃ c M, Activates s c (p.record first) p.doc ∧ Kept ps (c.commit s) M ∧
      (∃ a, M.standing (slot p.doc) = some (a, p.revision)) ∧
      (∀ at_, at_ ≠ slot p.doc → M.standing at_ = L.standing at_) ∧ M.epoch = L.epoch + 1 ∧
      Frame L M [.idempotency owner.orgId p.activate, .eligibilityEpoch, .agreement p.doc,
        .activeSlot (slot p.doc), .proposal p.doc] := by
  let c : Activating L (context owner) (library ps) p.activateCommand.input :=
    { identity := everything
      agreementId := p.doc
      proposal := p.record first
      revision := p.revision
      policy := policy p.doc
      current := none
      approvals := [p.doc]
      epoch := epoch
      human := rfl
      keys := assertKeys_recordFields _ (by simp) (by simp)
      proposalId_eq := assertId_json _ _
      agreementId_eq := assertId_json _ _
      expected_eq := rfl
      proposalStored := proposed
      counterAgrees := fun m is => Option.some.inj (is.symm.trans counter)
      open_ := rfl
      revisionStored := published
      found := found
      slot := rfl
      membership := rfl
      roleBinding := rfl
      currentIs := vacant
      differs := fun a is => by cases is
      fresh := fresh
      approved := .cons ⟨_, p.approval, rfl, rfl, ⟨decided, rfl, rfl, rfl, rfl, rfl⟩, latest⟩ .nil
      nodup := List.nodup_singleton _
      eligible := eligible
      next := next
      valid := policy_valid p.doc }
  have fits : canonicalizable (.obj p.activateCommand.input) 1 = true := by
    change canonicalizable (Knowledger.record _) 1 = true
    simp [canonicalizable_record, maxCanonicalDepth]
    rfl
  obtain ⟨call, r, w, is, run, wrote, reaches⟩ :=
    h.perform (Performs.activate c rfl) fits command
  refine ⟨call, _, ⟨?_, ?_, _, w, run, wrote⟩, reaches, ⟨c.agreement, ?_⟩, ?_, ?_,
    frame_putAll⟩
  · exact ⟨p.activateCommand, is ▸ validateCommand_json _, rfl, assertId_json _ _,
      assertId_json _ _⟩
  · obtain ⟨named, stored⟩ := State.proposal_eq.mp proposed
    have read := h.holds.represents.read (.proposal p.doc)
    rw [stored] at read
    exact ⟨_, read, validateProposal_stored _⟩
  · have standing : (L.putAll c.entries).standing (slot p.doc) = some (c.agreement, p.revision) :=
      c.standing
    rw [← standing]
    simp [State.standing]
  · intro at_ other
    rw [← c.standing_other h.holds.core other]
    simp [State.standing]
  · rw [State.epoch_other (by simp)]
    exact c.epoch_eq

/-- The revision of a volume among those given. -/
def shelfGraph (done : List Volume) : Derivation.Graph Slot Digest := fun at_ =>
  (done.find? fun p => slot p.doc = at_).map fun p => (p.digest, requiredEdges (listed p.revision))

/-- The volumes `done` are active, and nothing of the others is recorded. -/
structure Shelved (ps done rest : List Volume) (s : Store) (L : State) : Prop where
  kept : Kept ps s L
  revisions : ∀ d, L.revision d = (done.find? fun p => p.digest = d).map Volume.revision
  standing : ∀ at_, (L.standing at_).map Prod.snd =
    (done.find? fun p => slot p.doc = at_).map Volume.revision
  absent : ∀ p ∈ rest, Absent L p
  epoch : L.epoch = done.length

/-- What lets a volume be put on the shelf. -/
structure Shelvable (ps done rest : List Volume) (p : Volume) : Prop where
  listed_ : p ∈ ps
  valid : p.revision.Valid
  few : p.targets.length ≤ 32
  search : (listedSearch (done.map Volume.revision) p.revision).isSome = true
  fresh : ((done.map Volume.revision).find? fun r => r.revisionDigest = p.digest) = none
  apart : ∀ q ∈ rest, q.doc ≠ p.doc ∧ q.digest ≠ p.digest ∧
    ∀ id ∈ [q.publish, q.propose, q.decide, q.activate],
      id ∉ [p.publish, p.propose, p.decide, p.activate]
  commands : [p.publish, p.propose, p.decide, p.activate].Nodup
  room : done.length < 1000
  found : ∃ used, searchAll (Derivation.search (fun at_ => (.ok (shelfGraph done at_) :
    Except Thrown (Option (Digest × List (Slot × Digest))))) maxDependencyNodes maxDependencyDepth
      [slot p.doc]) (requiredEdges (listed p.revision)) 0 = .ok (some used)

theorem Frame.trans {M N : State} {ks js : List Key} (first : Frame L M ks)
    (second : Frame M N js) : Frame L N (ks ++ js) := by
  intro k other
  obtain ⟨before, after⟩ := not_or.mp (mt List.mem_append.mpr other)
  exact (second k after).trans (first k before)

/-- A state that keeps the agreements and the pointers stands for the same. -/
theorem Kept.standing_eq {M : State} (h : Kept ps s L) {keys : List Key} (frame : Frame L M keys)
    (pointers : ∀ at_, Key.activeSlot at_ ∉ keys) (agreements : ∀ id, Key.agreement id ∉ keys)
    (revisions : ∀ d, (∃ r, L.revision d = some r) → Key.revision d ∉ keys) (at_ : Slot) :
    M.standing at_ = L.standing at_ := by
  have active : M.active at_ = L.active at_ :=
    congrArg Option.join (frame (.activeSlot at_) (pointers at_))
  have agreement : ∀ id, M.agreement id = L.agreement id := fun id =>
    congrArg (Option.map fun a : Key.Record (.agreement id) => a.1) (frame _ (agreements id))
  simp only [State.standing, active, agreement, Option.bind_eq_bind]
  cases found : L.active at_ with
  | none => rfl
  | some id =>
      obtain ⟨a, stored, -⟩ := h.holds.core.pointed at_ id found
      obtain ⟨⟨policy, r, backed, -⟩, -⟩ := h.holds.core.agreements id a stored
      have revision : M.revision a.revisionDigest = L.revision a.revisionDigest :=
        congrArg (Option.map fun r : Key.Record (.revision a.revisionDigest) => r.1)
          (frame _ (revisions _ ⟨r, backed.stored⟩))
      simp only [Option.bind_some, stored, revision]

/-- A volume with its proposal, and the decision of the owner. -/
theorem Shelved.prepare {done rest : List Volume} (h : Shelved ps done (p :: rest) s L)
    (fits : Shelvable ps done rest p) (distinct : (ps.map Volume.doc).Nodup) :
    ∃ t M, Kept ps t M ∧ M.revision p.digest = some p.revision ∧
      M.proposal p.doc = some (p.record first) ∧ M.counter p.doc = some first ∧
      M.decision p.doc = some p.approval ∧
      M.latest p.doc one (name "role" role_isId) owner.orgId owner.actorId = some p.doc ∧
      Frame L M [.idempotency owner.orgId p.publish, .revision p.digest, .revisionId p.doc,
        .idempotency owner.orgId p.propose, .proposal p.doc, .reviewCounter p.doc,
        .policy p.doc one, .idempotency owner.orgId p.decide, .decision p.doc,
        .latestDecision p.doc one (name "role" role_isId) owner.orgId owner.actorId,
        .proposal p.doc, .reviewCounter p.doc] := by
  have absent := h.absent p List.mem_cons_self
  have some_ : 1 ≤ ps.length := List.length_pos_of_mem fits.listed_
  have found := library_found some_ distinct fits.listed_
  have commands := fits.commands
  have graph : ∀ s, Represents L s →
      (validatePublishedDependencyGraph p.revision).eval s = .ok () := by
    intro t represents
    have fresh : Unpublished t p.revision := by
      rw [Unpublished, represents.read_published,
        show p.revision.revisionDigest = p.digest from rfl, absent.revision]
      rfl
    have listed : ∀ d, publishedAt t d =
        (done.map Volume.revision).find? fun r => r.revisionDigest = d := by
      intro d
      rw [represents.publishedAt, h.revisions, List.find?_map]
      rfl
    rw [validatePublishedDependencyGraph_ok fresh, listedGraph_of_published listed]
    exact Option.isSome_iff_exists.mp fits.search
  simp only [List.nodup_cons, List.mem_cons, List.not_mem_nil, or_false, not_or, not_false_eq_true,
    List.nodup_nil, and_true] at commands
  obtain ⟨⟨pp, pd, pa⟩, ⟨ppd, ppa⟩, pda⟩ := commands
  have command : ∀ id ∈ [p.publish, p.propose, p.decide, p.activate],
      L (.idempotency owner.orgId id) = none := absent.commands
  obtain ⟨s₁, L₁, kept₁, revision, frame₁⟩ := h.kept.published absent fits.valid fits.few graph
  obtain ⟨s₂, L₂, kept₂, proposed, counter, frame₂⟩ := kept₁.proposed found revision
    ((frame₁ _ (by simp)).trans absent.proposal)
    ((frame₁ _ (by simp [Ne.symm pp])).trans (command _ (by simp)))
  have frame₁₂ := frame₁.trans frame₂
  have revision₂ : L₂.revision p.digest = some p.revision :=
    (congrArg (Option.map fun r : Key.Record (.revision p.digest) => r.1)
      (frame₂ (.revision p.digest) (by simp))).trans revision
  obtain ⟨s₃, L₃, kept₃, proposed₃, counter₃, decided, latest, frame₃⟩ := kept₂.decided found
    revision₂ proposed counter ((frame₁₂ _ (by simp)).trans absent.decision)
    ((frame₁₂ _ (by simp)).trans absent.latest)
    ((frame₁₂ _ (by simp [Ne.symm pd, Ne.symm ppd])).trans (command _ (by simp)))
  have revision₃ : L₃.revision p.digest = some p.revision :=
    (congrArg (Option.map fun r : Key.Record (.revision p.digest) => r.1)
      (frame₃ (.revision p.digest) (by simp))).trans revision₂
  exact ⟨s₃, L₃, kept₃, revision₃, proposed₃, counter₃, decided, latest, frame₁₂.trans frame₃⟩

omit [Sha256] in
theorem slot_inj {d e : Id} (same : slot d = slot e) : d = e :=
  congrArg Slot.documentId same

/-- What stands in a state without the volume is the shelf. -/
theorem Shelved.look {done rest : List Volume} (h : Shelved ps done rest s L) {M : State}
    {t : Store} (kept : Kept ps t M) (same : ∀ at_, M.standing at_ = L.standing at_) :
    standingLook listed t (library ps) = fun at_ => .ok (shelfGraph done at_) := by
  funext at_
  rw [kept.holds.standingLook_eq, kept.holds.standingGraph_eq, same]
  have standing := h.standing at_
  have graph : (L.standing at_).map (fun p => (p.2.revisionDigest, requiredEdges (listed p.2))) =
      ((L.standing at_).map Prod.snd).map fun r =>
        (r.revisionDigest, requiredEdges (listed r)) := by
    rw [Option.map_map]
    rfl
  rw [graph, standing, Option.map_map]
  rfl

/-- A volume is put on the shelf. -/
theorem Shelved.shelve {done rest : List Volume} (h : Shelved ps done (p :: rest) s L)
    (fits : Shelvable ps done rest p) (distinct : (ps.map Volume.doc).Nodup) :
    ∃ t M c N, Kept ps t M ∧ (∀ at_, M.standing at_ = L.standing at_) ∧
      M.revision p.digest = some p.revision ∧ Activates t c (p.record first) p.doc ∧
      Shelved ps (p :: done) rest (c.commit t) N := by
  have absent := h.absent p List.mem_cons_self
  have some_ : 1 ≤ ps.length := List.length_pos_of_mem fits.listed_
  have found := library_found some_ distinct fits.listed_
  obtain ⟨t, M, kept, revision, proposed, counter, decided, latest, frame⟩ :=
    h.prepare fits distinct
  have fresh : ∀ d, (∃ r, L.revision d = some r) → d ≠ p.digest := by
    rintro d ⟨r, stored⟩ rfl
    obtain ⟨_, inside⟩ := State.revision_eq.mp stored
    rw [absent.revision] at inside
    cases inside
  have standing : ∀ at_, M.standing at_ = L.standing at_ :=
    h.kept.standing_eq frame (by simp) (by simp) fun d stored => by simpa using fresh d stored
  have eligible : ∀ u, Represents M u → (dependencyEligible p.revision 0 []).eval u = .ok () := by
    intro u represents
    obtain rfl := represents.unique kept.holds.represents
    obtain ⟨v, configured, validConfig⟩ := kept.holds.configured
    obtain ⟨used, search⟩ := fits.found
    have few : (listed p.revision).length ≤ maxDependencyNodes := by
      have few := fits.few
      simp only [listed, Volume.revision, Volume.payload, List.length_map, maxDependencyNodes]
      omega
    rw [← h.look kept standing] at search
    exact dependencyEligible_passes configured validConfig rfl few search
  have vacant : M.active (slot p.doc) = none := by
    have same : M (.activeSlot (slot p.doc)) = none := (frame _ (by simp)).trans absent.active
    exact congrArg Option.join same
  have commands := fits.commands
  simp only [List.nodup_cons, List.mem_cons, List.not_mem_nil, or_false, not_or, not_false_eq_true,
    List.nodup_nil, and_true] at commands
  obtain ⟨⟨pp, pd, pa⟩, ⟨ppd, ppa⟩, pda⟩ := commands
  have counted : M.epoch = L.epoch := by
    rw [State.epoch, State.epochRecord, frame .eligibilityEpoch (by simp)]
    rfl
  have room : 0 ≤ done.length + 1 ∧ done.length + 1 ≤ 9007199254740991 := by
    have room := fits.room
    omega
  let epoch : SafeInt 0 := ⟨done.length + 1, room⟩
  obtain ⟨c, N, activates, next, ⟨a, own⟩, others, counts, frame'⟩ :=
    kept.activated found revision proposed counter decided latest vacant
      ((frame _ (by simp)).trans absent.agreement)
      ((frame _ (by simp [Ne.symm pa, Ne.symm ppa, Ne.symm pda])).trans
        (absent.commands _ (by simp))) eligible
      (show epoch.1 = M.epoch + 1 by rw [counted, h.epoch])
  have whole := frame.trans frame'
  refine ⟨t, M, c, N, kept, standing, revision, activates, next, fun d => ?_, fun at_ => ?_,
    fun q mem => ?_, ?_⟩
  · by_cases same : d = p.digest
    · subst same
      have kept' : N.revision p.digest = M.revision p.digest :=
        congrArg (Option.map fun r : Key.Record (.revision p.digest) => r.1)
          (frame' (.revision p.digest) (by simp))
      simp [kept', revision]
    · have kept' : N.revision d = L.revision d :=
        congrArg (Option.map fun r : Key.Record (.revision d) => r.1)
          (whole (.revision d) (by simp [same]))
      rw [kept', h.revisions, List.find?_cons_of_neg (by simpa using Ne.symm same)]
  · by_cases same : at_ = slot p.doc
    · subst same
      simp [own]
    · rw [others at_ same, standing, h.standing,
        List.find?_cons_of_neg (by simpa using Ne.symm same)]
  · have before := h.absent q (List.mem_cons_of_mem _ mem)
    obtain ⟨docs, digests, ids⟩ := fits.apart q mem
    have slots : slot q.doc ≠ slot p.doc := fun same => docs (slot_inj same)
    exact
      { revision := (whole _ (by simp [digests])).trans before.revision
        revisionId := (whole _ (by simp [docs])).trans before.revisionId
        proposal := (whole _ (by simp [docs])).trans before.proposal
        decision := (whole _ (by simp [docs])).trans before.decision
        latest := (whole _ (by simp [docs])).trans before.latest
        agreement := (whole _ (by simp [docs])).trans before.agreement
        active := (whole _ (by simp [slots])).trans before.active
        commands := fun id mem => by
          have other := ids id mem
          simp only [List.mem_cons, List.not_mem_nil, or_false, not_or] at other
          exact (whole _ (by simp [other])).trans (before.commands id mem) }
  · rw [counts, counted, h.epoch]
    simp


end Library

/-- The volume of a document that requires others. -/
def volume (doc publish propose decide activate : Id) (digest : Digest) (requires : List Volume) :
    Volume where
  doc := doc
  digest := digest
  targets := requires.map fun p => (p.doc, p.digest)
  publish := publish
  propose := propose
  decide := decide
  activate := activate

def vol₀ : Volume :=
  volume (name "doc-0") (name "publish-0") (name "propose-0") (name "decide-0")
    (name "activate-0")
    ⟨"sha256:711df73e184098faeb515693189117c88e5e7163c6418c6519a3cccf86815dfb", by decide⟩
    []

def vol₁ : Volume :=
  volume (name "doc-1") (name "publish-1") (name "propose-1") (name "decide-1")
    (name "activate-1")
    ⟨"sha256:1ab2cf4570e7d2c74dfc7f00c3b5188a367e4e27bf62b1502975046fad0a0beb", by decide⟩
    [vol₀]

def vol₂ : Volume :=
  volume (name "doc-2") (name "publish-2") (name "propose-2") (name "decide-2")
    (name "activate-2")
    ⟨"sha256:6e65ba35e1a59517201d85e7cfb41fa11b01c61b0ca9b86b4af48cbba78478bc", by decide⟩
    [vol₀, vol₁]

def vol₃ : Volume :=
  volume (name "doc-3") (name "publish-3") (name "propose-3") (name "decide-3")
    (name "activate-3")
    ⟨"sha256:a71ad95d06f786b965ed03aaf978985629c6baba88abcde4fc1e2297f29c0f79", by decide⟩
    [vol₀, vol₁, vol₂]

def vol₄ : Volume :=
  volume (name "doc-4") (name "publish-4") (name "propose-4") (name "decide-4")
    (name "activate-4")
    ⟨"sha256:887ab35211f8c76e566fb28db2961045ab26790ffaff72712e1a9e110430aeb0", by decide⟩
    [vol₀, vol₁, vol₂, vol₃]

def vol₅ : Volume :=
  volume (name "doc-5") (name "publish-5") (name "propose-5") (name "decide-5")
    (name "activate-5")
    ⟨"sha256:a3daf64679da7d420a29cd6eed06f327d207abd10df044596e94646b19ee0d77", by decide⟩
    [vol₀, vol₁, vol₂, vol₃, vol₄]

def vol₆ : Volume :=
  volume (name "doc-6") (name "publish-6") (name "propose-6") (name "decide-6")
    (name "activate-6")
    ⟨"sha256:1f4925b35dcf1ebe04c31a4a9b319e871eab5c876b884d81e76c83efcb8306bf", by decide⟩
    [vol₀, vol₁, vol₂, vol₃, vol₄, vol₅]

def vol₇ : Volume :=
  volume (name "doc-7") (name "publish-7") (name "propose-7") (name "decide-7")
    (name "activate-7")
    ⟨"sha256:dd7266297af0b5b7fff513e0d8d626df363b3e477bd022b46633659f3dee4f6a", by decide⟩
    [vol₀, vol₁, vol₂, vol₃, vol₄, vol₅, vol₆]

def extra : Volume :=
  volume (name "extra") (name "publish-8") (name "propose-8") (name "decide-8")
    (name "activate-8")
    ⟨"sha256:e371eb5091c301dbe8a6198cbf6d10aef0a36d3e79abbb5827eed0673b2a9848", by decide⟩
    []

def joined : Volume :=
  volume (name "root" root_isId) (name "publish-9") (name "propose-9") (name "decide-9")
    (name "activate-9")
    ⟨"sha256:f17994c73342e6bd3ef839a7dafa10d0988e445098083573ec8b0f3a76516d44", by decide⟩
    [vol₀, vol₁, vol₂, vol₃, vol₄, vol₅, vol₆, vol₇, extra]

theorem Volume.text_inj {p q : Volume} (few : p.targets.length ≤ 32) (few' : q.targets.length ≤ 32)
    (same : textOf p.payload = textOf q.payload) : p.doc = q.doc := by
  have canonical := Volume.canonical few'
  rw [← same] at canonical
  have ids := get_of_normalize (canonicalize_inj (Volume.canonical few) canonical) "revision_id"
  exact Subtype.ext (jsonString_inj.mp (Option.some.inj ids))

theorem texts_nodup {ps : List Volume} (distinct : (ps.map Volume.doc).Nodup)
    (few : ∀ p ∈ ps, p.targets.length ≤ 32) :
    ((ps.map Volume.revision).map fun r => textOf r.payload).Nodup := by
  rw [List.map_map]
  refine (List.Nodup.of_map _ distinct).map_on fun p mem q mem' same => ?_
  simp only [Function.comp_apply, Volume.revision] at same
  exact List.inj_on_of_nodup_map distinct mem mem'
    (Volume.text_inj (few p mem) (few q mem') same)

def volumes : List Volume :=
  [joined, extra, vol₇, vol₆, vol₅, vol₄, vol₃, vol₂, vol₁, vol₀]

/-- SHA-256, with the digests of the volumes looked up. -/
@[reducible] def catalogued : Sha256 := tabled (volumes.map Volume.revision)

@[reducible] local instance : Sha256 := catalogued

theorem volumes_docs : (volumes.map Volume.doc).Nodup := by decide +kernel

theorem volumes_few : ∀ p ∈ volumes, p.targets.length ≤ 10 ∧ (p.targets.map Prod.snd).Nodup ∧
    (∀ t ∈ p.targets, t.1.1.toList.length ≤ 64) ∧ p.doc.1.toList.length ≤ 64 := by
  decide +kernel

theorem volumes_texts : ((volumes.map Volume.revision).map fun r => textOf r.payload).Nodup :=
  texts_nodup volumes_docs fun p mem => (volumes_few p mem).1.trans (by decide)

theorem volumes_valid : ∀ p ∈ volumes, p.revision.Valid := by
  intro p mem
  obtain ⟨few, distinct, short, named⟩ := volumes_few p mem
  have room : p.targets.length ≤ 32 := few.trans (by decide)
  exact tabled_valid volumes_texts (List.mem_map_of_mem mem) (Volume.payload_valid room distinct)
    (Volume.canonical room) (Volume.small few short named)

/-- The library is bootstrapped by the owner. -/
def opening : Bootstrapping State.empty (context owner).toTx (library volumes).toJson where
  context := context owner
  config := library volumes
  context_eq := owner_context
  human := owner_human
  channel := rfl
  config_eq := validateConfig_json (library_valid (by decide) volumes_docs)
  fresh := empty_fresh
  canonical := canonicalize_isOk (by decide +kernel)
  storable := by
    intro p mem
    refine ⟨((library_valid (by decide) volumes_docs).policies p mem).valid, canonicalize_isOk ?_⟩
    revert p
    decide +kernel

def opened : Store := (putAll [] opening.entries).over Store.empty

/-- The nodes that the activation of a volume counts. -/
def shelfNodes (done : List Volume) (p : Volume) : Option Nat :=
  match searchAll (Derivation.search (fun at_ => (.ok (shelfGraph done at_) :
    Except Thrown (Option (Digest × List (Slot × Digest))))) maxDependencyNodes maxDependencyDepth
      [slot p.doc]) (requiredEdges (listed p.revision)) 0 with
  | .ok n => n
  | .error _ => none

theorem shelfNodes_found {done : List Volume} {p : Volume} {n : Nat}
    (counts : shelfNodes done p = some n) :
    searchAll (Derivation.search (fun at_ => (.ok (shelfGraph done at_) :
      Except Thrown (Option (Digest × List (Slot × Digest))))) maxDependencyNodes
        maxDependencyDepth [slot p.doc]) (requiredEdges (listed p.revision)) 0 = .ok (some n) := by
  rw [shelfNodes] at counts
  split at counts
  next found => rw [found, counts]
  next => cases counts

/-- The checks that let a volume be put on the shelf. -/
def shelvable (done rest : List Volume) (p : Volume) : Bool :=
  (listedSearch (done.map Volume.revision) p.revision).isSome &&
    ((done.map Volume.revision).find? fun r => r.revisionDigest = p.digest).isNone &&
    decide (∀ q ∈ rest, q.doc ≠ p.doc ∧ q.digest ≠ p.digest ∧
      ∀ id ∈ [q.publish, q.propose, q.decide, q.activate],
        id ∉ [p.publish, p.propose, p.decide, p.activate]) &&
    decide [p.publish, p.propose, p.decide, p.activate].Nodup &&
    decide (done.length < 1000) && (shelfNodes done p).isSome

theorem shelvable_iff {done rest : List Volume} {p : Volume} (mem : p ∈ volumes)
    (checked : shelvable done rest p = true) : Shelvable volumes done rest p := by
  simp only [shelvable, Bool.and_eq_true, decide_eq_true_eq, Option.isNone_iff_eq_none] at checked
  obtain ⟨⟨⟨⟨⟨search, fresh⟩, apart⟩, commands⟩, room⟩, found⟩ := checked
  refine ⟨mem, volumes_valid p mem, (volumes_few p mem).1.trans (by decide), search, fresh, apart,
    commands, room, ?_⟩
  obtain ⟨used, counts⟩ := Option.isSome_iff_exists.mp found
  exact ⟨used, shelfNodes_found counts⟩

/-- The volumes are put on the shelf one after the other. -/
def shelvedInTurn (rest : List Volume) : List Volume → List Volume → Bool
  | _, [] => true
  | done, p :: todo => shelvable done (todo ++ rest) p && shelvedInTurn rest (p :: done) todo

theorem Shelved.shelve_all {done todo rest : List Volume} {s : Store} {L : State}
    (h : Shelved volumes done (todo ++ rest) s L) (mem : ∀ p ∈ todo, p ∈ volumes)
    (checked : shelvedInTurn rest done todo = true) :
    ∃ t M, Shelved volumes (todo.reverse ++ done) rest t M := by
  induction todo generalizing done s L with
  | nil => exact ⟨s, L, h⟩
  | cons p todo ih =>
      rw [shelvedInTurn, Bool.and_eq_true] at checked
      obtain ⟨own, others⟩ := List.forall_mem_cons.mp mem
      obtain ⟨t, -, c, N, -, -, -, -, next⟩ :=
        h.shelve (shelvable_iff own checked.1) volumes_docs
      obtain ⟨u, K, shelved⟩ := ih next others checked.2
      exact ⟨u, K, by rwa [List.reverse_cons, List.append_assoc]⟩

theorem opened_kept : Kept volumes opened (State.empty.putAll opening.entries) :=
  ⟨opening.reaches.2.reachable, opening.reaches.2.represents, opening.core, opening.live⟩

/-- Nothing stands in the library before the first volume. -/
theorem opened_shelved : Shelved volumes [] volumes.reverse opened
    (State.empty.putAll opening.entries) where
  kept := opened_kept
  revisions d := congrArg (Option.map fun r : Key.Record (.revision d) => r.1)
    (opening.other (k := .revision d) (by simp) (by simp) (by simp))
  standing at_ := by
    have active : (State.empty.putAll opening.entries).active at_ = none :=
      congrArg Option.join
        (opening.other (k := .activeSlot at_) (by simp) (by simp) (by simp))
    simp [State.standing, active]
  absent p _ := by
    constructor <;> try exact opening.other (by simp) (by simp) (by simp)
    exact fun id _ => opening.other (by simp) (by simp) (by simp)
  epoch := by
    rw [State.epoch, opening.epochRecord_eq]
    rfl

/-- All volumes that the last one requires, in the order of their activation. -/
def required : List Volume := [vol₀, vol₁, vol₂, vol₃, vol₄, vol₅, vol₆, vol₇, extra]

theorem required_inTurn : shelvedInTurn [joined] [] required = true := by decide +kernel

theorem joined_shelvable : shelvable required.reverse [] joined = true := by decide +kernel

theorem joined_nodes : shelfNodes required.reverse joined = some 256 := by decide +kernel

theorem required_listed : ∀ p ∈ required, p ∈ volumes := by simp [required, volumes]

theorem required_shelved : ∃ t M, Shelved volumes required.reverse [joined] t M := by
  have shelved := opened_shelved
  rw [show volumes.reverse = required ++ [joined] from rfl] at shelved
  obtain ⟨t, M, after⟩ := shelved.shelve_all required_listed required_inTurn
  rw [List.append_nil] at after
  exact ⟨t, M, after⟩

/-- The last volume requires 256 nodes: it is activated, and its slot does not resolve. -/
theorem activation_unresolved :
    ¬ ∀ (s : Store) (configValue : Value) (config : DomainConfig) (c : Call)
      (p : AgreementProposalRecord) (id : Id), Reachable s →
        present (s keyFor.config) = some configValue →
        validateConfig (some configValue) = .ok config → config.servingEnabled = true →
        Activates s c p id → ResolvesActivated (c.commit s) p id := by
  intro agree
  obtain ⟨u, K, before⟩ := required_shelved
  have fits := shelvable_iff List.mem_cons_self joined_shelvable
  obtain ⟨t, M, c, -, kept, standing, revision, activates, -⟩ := before.shelve fits volumes_docs
  obtain ⟨v, configured, validConfig⟩ := kept.holds.configured
  have resolves := agree _ _ _ _ _ _ kept.reachable configured validConfig rfl activates
  have published := kept.holds.represents.stored_revision revision
  rw [activates.resolves_iff kept.holds rfl published] at resolves
  have found := shelfNodes_found joined_nodes
  rw [← before.look kept standing] at found
  rw [requiredNodes_found found] at resolves
  exact absurd resolves (by decide)

/-- A volume that requires nothing is activated, and its slot resolves to it. -/
theorem activation_resolves_first :
    ∃ s c, Reachable s ∧ Activates s c (vol₀.record first) vol₀.doc ∧
      ResolvesActivated (c.commit s) (vol₀.record first) vol₀.doc := by
  have checked := required_inTurn
  rw [required, shelvedInTurn, Bool.and_eq_true] at checked
  have fits := shelvable_iff (required_listed vol₀ List.mem_cons_self) checked.1
  obtain ⟨t, M, c, -, kept, -, revision, activates, -⟩ :=
    Shelved.shelve opened_shelved fits volumes_docs
  obtain ⟨v, configured, validConfig⟩ := kept.holds.configured
  have published := kept.holds.represents.stored_revision revision
  refine ⟨t, c, kept.reachable, activates, ?_⟩
  refine (activation_resolves_iff kept.reachable configured validConfig rfl activates
    published).mpr ?_
  have none : requiredEdges (listed vol₀.revision) = [] := rfl
  rw [requiredNodes, none, List.map_nil, List.sum_nil]
  decide

end Demo

end Knowledger
