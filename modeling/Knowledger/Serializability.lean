import Knowledger.ActivatedSlots
import Knowledger.Lib.Mvcc

/-!
# Serializable races

Commands are simulated on committed states, however stale, and a simulation is committed when
the keys it read are unchanged.  The committed commands then did what they do one after
another (`serialStore`); an activation reads the pointer of its slot and its proposal, so no
two activations of a slot overlap, and none overlaps a decision on its proposal.
-/

namespace Knowledger

open Js Txn

/-- A simulated call of `execute`. -/
abbrev Simulation := Mvcc.Simulated Call String Value Value

section Races

variable [Sha256] {s s₀ : Store} {L : State} {config : DomainConfig}

/-! ## The serial execution -/

/-- The store after the committed calls, executed one after another. -/
def serialStore (s₀ : Store) (log : List Simulation) : Store :=
  runAll (log.reverse.map Mvcc.Simulated.call) s₀

theorem serialStore_cons (t : Simulation) (log : List Simulation) :
    serialStore s₀ (t :: log) = t.call.commit (serialStore s₀ log) := by
  rw [serialStore, List.reverse_cons, List.map_append, runAll_append]
  rfl

/-- The committed writes make the store of the serial execution. -/
theorem storeAfter_eq {st : Mvcc.State Call String Value Value}
    (sound : Mvcc.Sound Call.program s₀ st) {log : List Simulation} (suffix : log <:+ st.log) :
    Mvcc.storeAfter s₀ log = serialStore s₀ log := by
  induction log with
  | nil => rfl
  | cons t log ih =>
      have before := ih ((List.suffix_cons t log).trans suffix)
      have run := sound.serial suffix
      rw [before] at run
      rw [Mvcc.storeAfter, before, serialStore_cons, Call.commit, commit, run]

/-! ## What an activation reads -/

/-- A key whose change changes the run has been read. -/
theorem mem_readSet {p : Tx Value} {k : Key} {r : k.Record}
    (differs : p.simulate (Function.update s k.text (some (k.toValue r))) [] ≠ p.simulate s []) :
    k.text ∈ p.readSet s [] := by
  by_contra unread
  refine differs (Program.simulate_congr p fun text read => ?_).1
  have other : text ≠ k.text := fun same => unread (same ▸ read)
  rw [Function.update_of_ne other]

/-- A performed `activate` on a store that holds a typed state. -/
theorem Call.activating (h : Represents L s) {c : Call} {request : DomainCommand}
    (valid : validateCommand c.command = .ok request) (type : request.type.1 = "activate")
    {result : Value} {w : Writes String Value}
    (run : c.program.simulate s [] = .ok (result, w)) (performed : w ≠ []) :
    ∃ ctx config, ∃ x : Activating L ctx config request.input,
      ∃ e : Execution L c.ctx c.command, w = putAll [] e.entries ∧ e.performed = x.entries := by
  rcases (execute_ok h).mp run with ⟨replay, -, nothing⟩ | ⟨e, -, writes⟩
  · exact absurd nothing performed
  · obtain rfl : request = e.request := Except.ok.inj (valid.symm.trans e.request_eq)
    obtain ⟨x, -, entries⟩ := e.performs.activating type
    exact ⟨_, _, x, e, writes, entries⟩

/-- An activation reads its proposal: a consumed one cannot be activated. -/
theorem Activates.reads_proposal (h : Represents L s) {c : Call} {p : AgreementProposalRecord}
    {id : Id} (activates : Activates s c p id) :
    keyFor.proposal p.proposalId.1 ∈ c.program.readSet s [] := by
  obtain ⟨request, valid, type, proposalId, agreementId⟩ := activates.command
  obtain ⟨result, w, run, performed⟩ := activates.commits
  obtain ⟨ctx, config, x, -⟩ := Call.activating h valid type run performed
  refine mem_readSet (k := .proposal p.proposalId) (r := ⟨p.activated id, rfl⟩) fun same => ?_
  rw [run] at same
  obtain ⟨ctx', config', y, -⟩ :=
    Call.activating (h.set (.proposal p.proposalId) ⟨p.activated id, rfl⟩) valid type same performed
  have named : y.proposal.proposalId = p.proposalId :=
    Except.ok.inj (y.proposalId_eq.symm.trans proposalId)
  have stored := y.proposalStored
  rw [named, State.proposal, State.set_self] at stored
  have consumed : y.proposal.status = .activated := by
    rw [← Option.some.inj stored]
    rfl
  rw [y.open_] at consumed
  cases consumed

/-- An activation reads the pointer of its slot: it cannot name the new agreement. -/
theorem Activates.reads_slot (h : Represents L s) {c : Call} {p : AgreementProposalRecord}
    {id : Id} (activates : Activates s c p id) :
    keyFor.activeSlot p.toSlot ∈ c.program.readSet s [] := by
  obtain ⟨request, valid, type, proposalId, agreementId⟩ := activates.command
  obtain ⟨result, w, run, performed⟩ := activates.commits
  obtain ⟨v, stored, validProposal⟩ := activates.proposal
  refine mem_readSet (k := .activeSlot p.toSlot) (r := some id) fun same => ?_
  rw [run] at same
  obtain ⟨ctx, config, x, -⟩ :=
    Call.activating (h.set (.activeSlot p.toSlot) (some id)) valid type same performed
  have named : x.proposal.proposalId = p.proposalId :=
    Except.ok.inj (x.proposalId_eq.symm.trans proposalId)
  have own : x.agreementId = id := Except.ok.inj (x.agreementId_eq.symm.trans agreementId)
  have kept : L.proposal p.proposalId = some x.proposal := by
    have kept := x.proposalStored
    rwa [named, State.proposal, State.set_of_ne _ _ (by simp)] at kept
  have current := x.currentIs
  rw [h.proposal_stored stored validProposal kept] at current
  have fresh := x.fresh
  have points : (L.set (.activeSlot p.toSlot) (some id)).active p.toSlot = some id := by simp
  cases found : x.current with
  | none =>
      rw [found, State.ActiveIs, points] at current
      cases current
  | some a =>
      rw [found] at current
      obtain ⟨pointer, kept, -⟩ := current
      rw [points] at pointer
      rw [own] at fresh
      rw [← Option.some.inj pointer, State.agreement, fresh] at kept
      cases kept

/-! ## What commits write -/

theorem mem_keys_putAll {es : List Entry} {e : Entry} (mem : e ∈ es) (w : Writes String Value) :
    e.1.text ∈ (putAll w es).map Prod.fst := by
  have kept : ∀ (es : List Entry) (w : Writes String Value) (key : String),
      key ∈ w.map Prod.fst → key ∈ (putAll w es).map Prod.fst := by
    intro es
    induction es with
    | nil => exact fun w key inside => inside
    | cons e es ih => exact fun w key inside => ih _ key (Writes.mem_set_key.mpr (.inr inside))
  induction es generalizing w with
  | nil => cases mem
  | cons first es ih =>
      rw [putAll_cons]
      rcases List.mem_cons.mp mem with rfl | later
      · exact kept es _ _ (Writes.mem_set_key.mpr (.inl rfl))
      · exact ih later _

/-- An activation writes the pointer of its slot. -/
theorem Activates.writes_slot (h : Represents L s) {c : Call} {p : AgreementProposalRecord}
    {id : Id} (activates : Activates s c p id) {result : Value} {w : Writes String Value}
    (run : c.program.simulate s [] = .ok (result, w)) :
    keyFor.activeSlot p.toSlot ∈ w.map Prod.fst := by
  obtain ⟨request, valid, type, proposalId, agreementId⟩ := activates.command
  obtain ⟨_, _, run', performed⟩ := activates.commits
  obtain ⟨rfl, rfl⟩ := Prod.mk.inj (Except.ok.inj (run.symm.trans run'))
  obtain ⟨v, stored, validProposal⟩ := activates.proposal
  obtain ⟨ctx, config, x, e, rfl, entries⟩ := Call.activating h valid type run performed
  have named : x.proposal.proposalId = p.proposalId :=
    Except.ok.inj (x.proposalId_eq.symm.trans proposalId)
  have same := h.proposal_stored stored validProposal (named ▸ x.proposalStored)
  have mem : (⟨.activeSlot x.proposal.toSlot, some x.agreement.agreementId⟩ : Entry) ∈ e.entries := by
    simp [Execution.entries, entries, Activating.entries, activatedEntries]
  rw [← same]
  exact mem_keys_putAll mem []

/-- The call is a `decide` with the decision, and it is performed. -/
structure Decides (s : Store) (c : Call) (d : ApprovalDecision) : Prop where
  command : ∃ request, validateCommand c.command = .ok request ∧ request.type.1 = "decide" ∧
    validateDecision (request.input.get "decision") = .ok d
  commits : ∃ result w, c.program.simulate s [] = .ok (result, w) ∧ w ≠ []

/-- A decision writes its proposal. -/
theorem Decides.writes_proposal (h : Represents L s) {c : Call} {d : ApprovalDecision}
    (decides : Decides s c d) {result : Value} {w : Writes String Value}
    (run : c.program.simulate s [] = .ok (result, w)) :
    keyFor.proposal d.proposalId.1 ∈ w.map Prod.fst := by
  obtain ⟨request, valid, type, decision⟩ := decides.command
  obtain ⟨_, _, run', performed⟩ := decides.commits
  obtain ⟨rfl, rfl⟩ := Prod.mk.inj (Except.ok.inj (run.symm.trans run'))
  rcases (execute_ok h).mp run with ⟨replay, -, nothing⟩ | ⟨e, -, rfl⟩
  · exact absurd nothing performed
  · obtain rfl : request = e.request := Except.ok.inj (valid.symm.trans e.request_eq)
    obtain ⟨x, -, entries⟩ := e.performs.deciding type
    obtain rfl : x.decision = d := Except.ok.inj (x.decision_eq.symm.trans decision)
    have named : x.proposal.proposalId = x.decision.proposalId :=
      State.proposal_named x.proposalStored
    have mem : (⟨.proposal x.counted.proposalId, ⟨x.counted, rfl⟩⟩ : Entry) ∈ e.entries := by
      simp [Execution.entries, entries, Deciding.entries, decisionEntries]
    rw [← named]
    exact mem_keys_putAll mem []

/-! ## Retired agreements -/

/-- The agreement is stored, and the slot does not name it. -/
structure Retired (L : State) (slot : Slot) (id : Id) : Prop where
  stored : L (.agreement id) ≠ none
  unnamed : L.active slot ≠ some id

theorem State.putAll_cases (L : State) (es : List Entry) (k : Key) :
    L.putAll es k = L k ∨ ∃ r, (⟨k, r⟩ : Entry) ∈ es ∧ L.putAll es k = some r := by
  induction es generalizing L with
  | nil => exact .inl rfl
  | cons e es ih =>
      rw [State.putAll_cons]
      rcases ih (L.set e.1 e.2) with same | ⟨r, mem, written⟩
      · by_cases own : k = e.1
        · subst own
          exact .inr ⟨e.2, List.mem_cons_self, same.trans (State.set_self _ _ _)⟩
        · exact .inl (same.trans (State.set_of_ne _ _ own))
      · exact .inr ⟨r, List.mem_cons_of_mem _ mem, written⟩

/-- Only a new agreement is named by a pointer that is written. -/
theorem Performs.names_fresh {ctx : Context} {command : DomainCommand} {r : Value}
    {es : List Entry} (performs : Performs L ctx config command r es) {slot : Slot} {id : Id}
    (mem : (⟨.activeSlot slot, some id⟩ : Entry) ∈ es) : L (.agreement id) = none := by
  cases performs with
  | republish c type => cases mem
  | publish c type => simp [Publishing.entries] at mem
  | propose c type => simp [Proposing.entries] at mem
  | decide c type =>
      rw [Deciding.entries] at mem
      cases found : c.suspension with
      | none => simp [found, decisionEntries] at mem
      | some u => simp [found, decisionEntries, Suspension.entries, closeEntries] at mem
  | activate c type =>
      simp only [Activating.entries, activatedEntries, List.cons_append, List.mem_cons,
        List.mem_append, List.not_mem_nil, or_false] at mem
      rcases mem with epoch | superseded | agreement | pointer | proposal
      · cases epoch
      · have kind := supersededEntries_kind _ superseded
        cases kind
      · cases agreement
      · cases pointer
        exact c.fresh
      · cases proposal
  | withdraw c type => simp [StatusChange.entries, closeEntries] at mem
  | suspend c type => simp [StatusChange.entries, closeEntries] at mem
  | fence c type => simp [Fencing.entries] at mem

theorem Execution.retired {ctx : TxContext} {command : Value} (x : Execution L ctx command)
    {slot : Slot} {id : Id} (retired : Retired L slot id) :
    Retired (L.putAll x.entries) slot id where
  stored := by
    rcases State.putAll_cases L x.entries (.agreement id) with same | ⟨r, -, written⟩
    · rw [same]
      exact retired.stored
    · rw [written]
      exact Option.some_ne_none r
  unnamed named := by
    have pointer := State.active_eq.mp named
    rw [State.pointer] at pointer
    rcases State.putAll_cases L x.entries (.activeSlot slot) with same | ⟨r, mem, written⟩
    · rw [same] at pointer
      exact retired.unnamed (State.active_eq.mpr pointer)
    · rw [written] at pointer
      obtain rfl := Option.some.inj pointer
      rcases List.mem_append.mp mem with performed | recorded
      · exact retired.stored (x.performs.names_fresh performed)
      · simp at recorded

/-- A retired agreement stays retired. -/
theorem Holds.retired (h : Holds s L config) {slot : Slot} {id : Id} (retired : Retired L slot id)
    (calls : List Call) :
    ∃ M, Holds (Knowledger.runAll calls s) M config ∧ Retired M slot id := by
  induction calls generalizing s L with
  | nil => exact ⟨L, h, retired⟩
  | cons c calls ih =>
      have step : ∃ M, Holds (c.commit s) M config ∧ Retired M slot id := by
        rw [Call.commit, Knowledger.commit]
        cases run : c.program.simulate s [] with
        | error e => exact ⟨L, h, retired⟩
        | ok outcome =>
            obtain ⟨result, w⟩ := outcome
            rcases (execute_ok h.represents).mp run with ⟨replay, -, rfl⟩ | ⟨x, -, rfl⟩
            · refine ⟨L, ?_, retired⟩
              simpa only [Writes.over_nil] using h
            · exact ⟨_, ⟨represents_putAll h.represents _, x.core h.core, x.live h.core h.live⟩,
                x.retired retired⟩
      obtain ⟨M, next, kept⟩ := step
      exact ih next kept

/-- The agreement that the call expects to be active. -/
def Expects (c : Call) (expected : Option Id) : Prop :=
  ∃ request, validateCommand c.command = .ok request ∧
    assertExpected (request.input.get "expected_active_agreement_id") = .ok expected

/-- The agreement that an activation expects is retired by it, and had not been before. -/
theorem Activates.retires {c : Call} {p : AgreementProposalRecord} {id expected : Id}
    (activates : Activates s c p id) (h : Holds s L config) (expects : Expects c (some expected)) :
    ¬ Retired L p.toSlot expected ∧
      ∃ M, Holds (c.commit s) M config ∧ Retired M p.toSlot expected := by
  obtain ⟨request, valid, type, proposalId, agreementId⟩ := activates.command
  obtain ⟨request', valid', expected_eq⟩ := expects
  cases valid.symm.trans valid'
  obtain ⟨result, w, run, performed⟩ := activates.commits
  obtain ⟨v, stored, validProposal⟩ := activates.proposal
  obtain ⟨ctx, config', x, e, writes, entries⟩ :=
    Call.activating h.represents valid type run performed
  have named : x.proposal.proposalId = p.proposalId :=
    Except.ok.inj (x.proposalId_eq.symm.trans proposalId)
  have same := h.represents.proposal_stored stored validProposal (named ▸ x.proposalStored)
  have current := x.currentIs
  rw [same] at current
  have expected_eq := Except.ok.inj (x.expected_eq.symm.trans expected_eq)
  obtain ⟨a, found, rfl⟩ := Option.map_eq_some_iff.mp expected_eq
  rw [found] at current
  obtain ⟨pointer, kept, -⟩ := current
  have stored : L (.agreement a.agreementId) ≠ none := by
    obtain ⟨_, inside⟩ := State.agreement_eq.mp kept
    rw [inside]
    exact Option.some_ne_none _
  refine ⟨fun retired => retired.unnamed pointer, L.putAll e.entries, ?_, ?_, fun active => ?_⟩
  · rw [Call.commit, commit, run, writes]
    exact ⟨represents_putAll h.represents _, e.core h.core, e.live h.core h.live⟩
  · rcases State.putAll_cases L e.entries (.agreement a.agreementId) with kept | ⟨r, -, written⟩
    · rw [kept]
      exact stored
    · rw [written]
      exact Option.some_ne_none r
  · have opened := x.active_eq x.proposal.toSlot
    rw [if_pos rfl, same] at opened
    rw [Execution.entries, State.putAll_append, entries] at active
    simp [opened] at active
    exact stored (active ▸ x.fresh)

/-! ## Races -/

theorem serialStore_append (later log : List Simulation) :
    serialStore s₀ (later ++ log) =
      runAll (later.reverse.map Mvcc.Simulated.call) (serialStore s₀ log) := by
  rw [serialStore, List.reverse_append, List.map_append, runAll_append, serialStore]

theorem Reachable.serial (reachable : Reachable s₀) (log : List Simulation) :
    ∃ L config, Holds (serialStore s₀ log) L config := by
  obtain ⟨L, config, h⟩ := reachable.holds
  obtain ⟨M, h, -⟩ := h.runAll (log.reverse.map Mvcc.Simulated.call)
  exact ⟨M, config, h⟩

/-- Two activations of a slot do not replace the same agreement. -/
theorem replaced_once (reachable : Reachable s₀) {later earlier : List Simulation}
    {u t : Simulation} {p q : AgreementProposalRecord} {id id' expected : Id}
    (first : Activates (serialStore s₀ earlier) u.call q id')
    (second : Activates (serialStore s₀ (later ++ u :: earlier)) t.call p id)
    (same : q.toSlot = p.toSlot) (expects : Expects u.call (some expected)) :
    ¬ Expects t.call (some expected) := by
  intro again
  obtain ⟨L, config, h⟩ := reachable.serial earlier
  obtain ⟨-, M, next, retired⟩ := first.retires h expects
  rw [← serialStore_cons] at next
  obtain ⟨N, last, retired⟩ := next.retired retired (later.reverse.map Mvcc.Simulated.call)
  rw [← serialStore_append] at last
  rw [same] at retired
  exact (second.retires last again).1 retired

/-- **Races are serializable.**  Whatever the order of simulations and commits, the committed
calls do what they do one after another.  An activation that is committed after another one of
its slot was simulated after its commit, and does not replace the same agreement; one that is
committed after a decision on its proposal was simulated after it. -/
theorem races_serialized (reachable : Reachable s₀) {events : List (Mvcc.Event Call)}
    {st : Mvcc.State Call String Value Value}
    (run : Machine.run (Mvcc.step Call.program s₀) Mvcc.start events = some st) :
    (∀ log, log <:+ st.log → Mvcc.storeAfter s₀ log = serialStore s₀ log) ∧
    (∀ t before, t :: before <:+ st.log →
      t.call.program.simulate (serialStore s₀ before) [] = .ok (t.result, t.writes)) ∧
    ∀ t before u earlier, t :: before <:+ st.log → u :: earlier <:+ before →
      ∀ p id, Activates (serialStore s₀ before) t.call p id →
        (∀ q id', Activates (serialStore s₀ earlier) u.call q id' → q.toSlot = p.toSlot →
          earlier.length < t.seen ∧
            ∀ expected, Expects u.call (some expected) → ¬ Expects t.call (some expected)) ∧
        ∀ d, Decides (serialStore s₀ earlier) u.call d → d.proposalId = p.proposalId →
          earlier.length < t.seen := by
  have sound := Mvcc.run_sound run
  have serial : ∀ log, log <:+ st.log → Mvcc.storeAfter s₀ log = serialStore s₀ log :=
    fun log suffix => storeAfter_eq sound suffix
  have runs : ∀ t before, t :: before <:+ st.log →
      t.call.program.simulate (serialStore s₀ before) [] = .ok (t.result, t.writes) := by
    intro t before committed
    rw [← serial before ((List.suffix_cons t before).trans committed)]
    exact sound.serial committed
  refine ⟨serial, runs, fun t before u earlier committed between p id activates => ?_⟩
  have inside := (List.suffix_cons t before).trans committed
  have isolated := sound.isolated committed between
  rw [serial before inside] at isolated
  obtain ⟨L, config, h⟩ := reachable.serial before
  obtain ⟨L', config', h'⟩ := reachable.serial earlier
  have wrote := runs u earlier (between.trans inside)
  refine ⟨fun q id' other same => ⟨?_, fun expected expects => ?_⟩, fun d decides same => ?_⟩
  · by_contra unseen
    have written := other.writes_slot h'.represents wrote
    rw [same] at written
    exact isolated (Nat.not_lt.mp unseen) _ (activates.reads_slot h.represents) written
  · obtain ⟨later, rfl⟩ := between
    exact replaced_once reachable other activates same expects
  · by_contra unseen
    have written := decides.writes_proposal h'.represents wrote
    rw [same] at written
    exact isolated (Nat.not_lt.mp unseen) _ (activates.reads_proposal h.represents) written

end Races

namespace Demo

@[reducible] local instance : Sha256 := sha256

/-- A fence that is simulated on the fresh channel is committed. -/
theorem races_serialized_fence :
    ∃ (st : Mvcc.State Call String Value Value) (t : Simulation),
      Machine.run (Mvcc.step Call.program store) Mvcc.start [.simulate fenceCall 0, .commit 0] =
        some st ∧ st.log = [t] ∧ t.call = fenceCall ∧
      Mvcc.storeAfter store st.log = serialStore store [t] := by
  obtain ⟨digest, digested⟩ := fence_digest
  let t : Simulation := ⟨fenceCall, 0, (fenceExecution digested).result,
    (fenceCall.program.readSet store []).map fun k => (k, 0),
    putAll [] (fenceExecution digested).entries⟩
  have simulated : Mvcc.simulateOn Call.program store [] fenceCall = some t := by
    rw [Mvcc.simulateOn, Mvcc.storeAfter, fence_run digested]
    rfl
  have current : Mvcc.Current [] t := by
    intro r mem
    obtain ⟨k, -, rfl⟩ := List.mem_map.mp mem
    rfl
  have run : Machine.run (Mvcc.step Call.program store) Mvcc.start
      [.simulate fenceCall 0, .commit 0] = some ⟨[t], []⟩ := by
    rw [Machine.run_cons]
    refine ⟨⟨[], [t]⟩, ?_, Machine.run_cons.mpr ⟨_, ?_, rfl⟩⟩
    · rw [Mvcc.step, Mvcc.start, List.drop_nil, simulated]
      rfl
    · rw [Mvcc.step]
      exact if_pos current
  have reachable : Reachable store := ⟨store, [], bootstrapped, rfl⟩
  exact ⟨_, t, run, rfl, rfl, (races_serialized reachable run).1 [t] (List.suffix_refl _)⟩

end Demo

end Knowledger
