import Knowledger.Fabric.Freshness

/-!
# Abandoned refreshes

What goes wrong behind an abandoned refresh is its own work going on, and work that is still
under way when the queues are replaced.  Where neither happens the projection has one writer,
`available` is what that writer or the timeout left, and serial operations run one at a time,
except beside one that waits on an abandoned refresh.
-/

namespace Knowledger.ApplicationLedger

variable {P B H C : Type} {s t : State P H C}

/-! ## Waiting on an abandoned refresh -/

/-- The operation is an abandoned refresh's, or waits in the projection queue behind one. -/
inductive State.Stuck (s : State P H C) : Nat → Prop
  | abandoned {j r : Nat} (bound : j < s.operations) (known : r < s.refreshes)
      (is : (s.operation j).task = .refresh r) (abandoned : (s.refresh r).abandoned = true)
      (pending : (s.operation j).progress.isSettled = false) : State.Stuck s j
  | behind {j i : Nat} (bound : j < s.operations) (queued : (s.operation j).progress = .queued)
      (after : (s.operation j).after = some i) (stuck : State.Stuck s i) : State.Stuck s j

/-- The body waits for such an operation, or is queued behind one that does. -/
inductive State.StuckBody (s : State P H C) : Nat → Prop
  | projecting {b j : Nat} (bound : b < s.bodies) (waits : (s.body b).stage = .projecting j)
      (stuck : s.Stuck j) : State.StuckBody s b
  | answering {b j : Nat} (bound : b < s.bodies) (waits : (s.body b).stage = .answering j)
      (stuck : s.Stuck j) : State.StuckBody s b
  | behind {b a : Nat} (bound : b < s.bodies) (queued : (s.body b).stage = .queued)
      (after : (s.body b).after = some a) (stuck : State.StuckBody s a) : State.StuckBody s b

/-- The body waits on an abandoned refresh: for its promise or its operation. -/
def State.WaitsAbandoned (s : State P H C) (b : Nat) : Prop :=
  (∃ r < s.refreshes, (s.body b).stage = .refreshing r ∧ (s.refresh r).abandoned = true) ∨
    s.StuckBody b

def Stage.inProgress : Stage → Bool
  | .queued => false
  | .settled => false
  | _ => true

def Progress.isRunning : Progress H → Bool
  | .queued => false
  | .settled _ => false
  | _ => true

/-! ## The statement -/

/-- The projection has one writer, `available` is what it or a timeout left, and the earlier of
two bodies in progress waits on an abandoned refresh. -/
structure State.Serial (s : State P H C) : Prop where
  available : s.available = s.lastOutcome
  writer : ∀ i < s.operations, ∀ j < s.operations, (s.operation i).progress.isRunning = true →
    (s.operation j).progress.isRunning = true → s.isAbandoned i = false →
    s.isAbandoned j = false → i = j
  undisturbed : ∀ j < s.operations, (s.operation j).progress.isRunning = true →
    s.isAbandoned j = false → (s.operation j).sees = s.projection
  bodies : ∀ b < s.bodies, ∀ a < b, (s.body a).stage.inProgress = true →
    (s.body b).stage.inProgress = true → s.WaitsAbandoned a

/-- An abandoned refresh does not go on, and one is abandoned only while everything under way
waits on it. -/
def Contained (s : State P H C) : Event B H C → Prop
  | .timeout r =>
      (∀ j < s.operations, (s.operation j).progress.isSettled = false → (s.abandon r).Stuck j) ∧
        ∀ b < s.bodies, (s.body b).stage ≠ .settled → (s.abandon r).WaitsAbandoned b
  | .follow r => (s.refresh r).abandoned = false
  | .start j => s.isAbandoned j = false
  | .tip j _ _ => s.isAbandoned j = false
  | .block j _ _ => s.isAbandoned j = false
  | .conclude j => s.isAbandoned j = false
  | _ => True

/-! ## The invariant -/

/-- What is behind operation or body `n` of a queue that was replaced before its `first`. -/
def behind (first n : Nat) : Option Nat := if n = first then none else some (n - 1)

/-- The queues are first in, first out since they were last replaced, before body `e` and
operation `f`; what is older and not settled waits on an abandoned refresh. -/
structure State.Ordered (s : State P H C) (e f : Nat) : Prop where
  rejected : ∀ r < s.refreshes, (s.refresh r).abandoned = true →
    (s.refresh r).promise = .rejected .freshnessUnavailable
  inFlight : ∀ r, s.refreshInFlight = some r → r < s.refreshes
  available : s.available = s.lastOutcome
  opsBound : f ≤ s.operations
  oldOps : ∀ j < f, (s.operation j).progress.isSettled = false → s.Stuck j
  opsChain : ∀ j < s.operations, f ≤ j → (s.operation j).after = behind f j
  opsTail : s.projectionQueue = behind f s.operations
  opsStarted : ∀ j < s.operations, f ≤ j → (s.operation j).progress.isQueued = false →
    ∀ i < j, f ≤ i → (s.operation i).progress.isSettled = true
  live : ∀ j < s.operations, f ≤ j → s.isAbandoned j = false
  sees : ∀ j < s.operations, f ≤ j → (s.operation j).progress.isRunning = true →
    (s.operation j).sees = s.projection
  task : ∀ j < s.operations, ∀ r, (s.operation j).task = .refresh r → r < s.refreshes
  bodiesBound : e ≤ s.bodies
  oldBodies : ∀ b < e, (s.body b).stage ≠ .settled → s.WaitsAbandoned b
  bodiesChain : ∀ b < s.bodies, e ≤ b → (s.body b).after = behind e b
  bodiesTail : s.queue = behind e s.bodies
  bodiesStarted : ∀ b < s.bodies, e ≤ b → (s.body b).stage ≠ .queued →
    ∀ a < b, e ≤ a → (s.body a).stage = .settled

theorem State.setBody_body (s : State P H C) (b a : Nat) (x : Body C) :
    (s.setBody b x).body a = if a = b then x else s.body a :=
  Function.update_apply _ _ _ _

theorem State.isAbandoned_congr {j : Nat} (task : (t.operation j).task = (s.operation j).task)
    (refresh : ∀ r, (s.operation j).task = .refresh r →
      (t.refresh r).abandoned = (s.refresh r).abandoned) : t.isAbandoned j = s.isAbandoned j := by
  rw [State.isAbandoned, State.isAbandoned, task]
  cases is : (s.operation j).task with
  | refresh r => exact refresh r is
  | preflight | ready | answer => rfl

/-- What waits on an abandoned refresh is left as it is. -/
structure State.Keeps (s t : State P H C) : Prop where
  operations : s.operations ≤ t.operations
  refreshes : s.refreshes ≤ t.refreshes
  bodies : s.bodies ≤ t.bodies
  abandoned : ∀ r < s.refreshes, (s.refresh r).abandoned = true → (t.refresh r).abandoned = true
  operation : ∀ j, s.Stuck j → t.operation j = s.operation j
  body : ∀ b, s.StuckBody b → t.body b = s.body b

theorem State.Keeps.stuck (keeps : s.Keeps t) {j : Nat} (stuck : s.Stuck j) : t.Stuck j := by
  induction stuck with
  | abandoned bound known is abandoned pending =>
      have same := keeps.operation _ (.abandoned bound known is abandoned pending)
      exact .abandoned (bound.trans_le keeps.operations) (known.trans_le keeps.refreshes)
        (same ▸ is) (keeps.abandoned _ known abandoned) (same ▸ pending)
  | behind bound queued after stuck ih =>
      have same := keeps.operation _ (.behind bound queued after stuck)
      exact .behind (bound.trans_le keeps.operations) (same ▸ queued) (same ▸ after) ih

theorem State.Keeps.stuckBody (keeps : s.Keeps t) {b : Nat} (stuck : s.StuckBody b) :
    t.StuckBody b := by
  induction stuck with
  | projecting bound waits stuck =>
      have same := keeps.body _ (.projecting bound waits stuck)
      exact .projecting (bound.trans_le keeps.bodies) (same ▸ waits) (keeps.stuck stuck)
  | answering bound waits stuck =>
      have same := keeps.body _ (.answering bound waits stuck)
      exact .answering (bound.trans_le keeps.bodies) (same ▸ waits) (keeps.stuck stuck)
  | behind bound queued after stuck ih =>
      have same := keeps.body _ (.behind bound queued after stuck)
      exact .behind (bound.trans_le keeps.bodies) (same ▸ queued) (same ▸ after) ih

theorem State.Keeps.waits (keeps : s.Keeps t) {b : Nat} (waits : s.WaitsAbandoned b)
    (same : t.body b = s.body b) : t.WaitsAbandoned b := by
  rcases waits with ⟨r, known, refreshing, abandoned⟩ | stuck
  · exact Or.inl ⟨r, known.trans_le keeps.refreshes, same ▸ refreshing,
      keeps.abandoned r known abandoned⟩
  · exact Or.inr (keeps.stuckBody stuck)

theorem State.Stuck.pending {j : Nat} (stuck : s.Stuck j) :
    (s.operation j).progress.isSettled = false := by
  cases stuck with
  | abandoned _ _ _ _ pending => exact pending
  | behind _ queued => rw [queued]; rfl

/-- What is stuck and live is queued behind an operation that has not settled. -/
theorem State.Stuck.queued {j : Nat} (stuck : s.Stuck j) (live : s.isAbandoned j = false) :
    (s.operation j).progress = .queued ∧ ∃ i, (s.operation j).after = some i ∧
      (s.operation i).progress.isSettled = false := by
  cases stuck with
  | abandoned _ _ is abandoned _ =>
      rw [State.isAbandoned, is] at live
      exact absurd (live.symm.trans abandoned) (by decide)
  | behind _ queued after stuck => exact ⟨queued, _, after, stuck.pending⟩

theorem State.StuckBody.unsettled {b : Nat} (stuck : s.StuckBody b) :
    (s.body b).stage ≠ .settled := by
  cases stuck with
  | projecting _ waits => simp [waits]
  | answering _ waits => simp [waits]
  | behind _ queued => simp [queued]

/-! ## The projection queue -/

section Ordered

variable {e f : Nat}

/-- An operation of the current queue that has not settled has no running one beside it. -/
theorem State.Ordered.front (ordered : s.Ordered e f) {j : Nat}
    (pending : (s.operation j).progress.isSettled = false)
    (front : ∀ i < j, f ≤ i → (s.operation i).progress.isSettled = true) {i : Nat}
    (bound : i < s.operations) (current : f ≤ i) (first : f ≤ j)
    (running : (s.operation i).progress.isRunning = true) : i = j := by
  rcases Nat.lt_trichotomy i j with before | rfl | after
  · have settled := front i before current
    cases progress : (s.operation i).progress <;> simp [progress, Progress.isSettled,
      Progress.isRunning] at settled running
  · rfl
  · have started : (s.operation i).progress.isQueued = false := by
      cases progress : (s.operation i).progress <;> simp [progress, Progress.isQueued,
        Progress.isRunning] at running ⊢
    have settled := ordered.opsStarted i bound current started j after first
    rw [pending] at settled
    cases settled

/-- The front operation of the projection queue goes on, and may change the projection. -/
theorem State.Ordered.setOperation (ordered : s.Ordered e f) {j : Nat} {x : Operation P H} {p : P}
    {available : Bool} (first : f ≤ j) (free : ¬ s.Stuck j)
    (pending : (s.operation j).progress.isSettled = false)
    (front : ∀ i < j, f ≤ i → (s.operation i).progress.isSettled = true)
    (after : x.after = (s.operation j).after) (task : x.task = (s.operation j).task)
    (sees : x.progress.isRunning = true → x.sees = p) {outcome : Bool}
    (same : available = outcome)
    (kept : p = s.projection ∨ (s.operation j).progress.isRunning = true) :
    ({ s.setOperation j x with
      projection := p, available := available, lastOutcome := outcome } :
      State P H C).Ordered e f := by
  have others : ∀ i, i ≠ j → (s.setOperation j x).operation i = s.operation i := by
    intro i differs
    rw [setOperation_operation, if_neg differs]
  have self : (s.setOperation j x).operation j = x := by rw [setOperation_operation, if_pos rfl]
  have tasks : ∀ i, ((s.setOperation j x).operation i).task = (s.operation i).task := by
    intro i
    by_cases h : i = j
    · rw [h, self, task]
    · rw [others i h]
  have settled : ∀ i, (s.operation i).progress.isSettled = true →
      ((s.setOperation j x).operation i).progress.isSettled = true := by
    intro i done
    rw [others i]
    · exact done
    · rintro rfl
      rw [pending] at done
      cases done
  have keeps : s.Keeps { s.setOperation j x with
      projection := p, available := available, lastOutcome := outcome } := by
    refine ⟨le_rfl, le_rfl, le_rfl, fun _ _ h => h, fun i stuck => others i ?_, fun _ _ => rfl⟩
    rintro rfl
    exact free stuck
  refine ⟨ordered.rejected, ordered.inFlight, same, ordered.opsBound, fun i old unsettled => ?_,
    fun i inside current => ?_, ordered.opsTail, fun i inside current started k before le => ?_,
    fun i inside current => ?_, fun i inside current running => ?_, fun i inside r is => ?_,
    ordered.bodiesBound, fun b old unsettled => ?_, ordered.bodiesChain, ordered.bodiesTail,
    ordered.bodiesStarted⟩
  · have differs : i ≠ j := (old.trans_le first).ne
    refine keeps.stuck (ordered.oldOps i old ?_)
    rwa [← others i differs]
  · by_cases h : i = j
    · subst h
      change ((s.setOperation i x).operation i).after = _
      rw [self, after]
      exact ordered.opsChain i inside current
    · change ((s.setOperation j x).operation i).after = _
      rw [others i h]
      exact ordered.opsChain i inside current
  · apply settled
    by_cases h : i = j
    · subst h
      exact front k before le
    · refine ordered.opsStarted i inside current ?_ k before le
      rwa [← others i h]
  · rw [← ordered.live i inside current]
    exact State.isAbandoned_congr (tasks i) fun _ _ => rfl
  · change ((s.setOperation j x).operation i).progress.isRunning = true at running
    change ((s.setOperation j x).operation i).sees = p
    by_cases h : i = j
    · subst h
      rw [self] at running ⊢
      exact sees running
    · rw [others i h] at running ⊢
      rw [ordered.sees i inside current running]
      rcases kept with rfl | runs
      · rfl
      · exact absurd (ordered.front pending front inside current first running) h
  · exact ordered.task i inside r ((tasks i).symm.trans is)
  · exact keeps.waits (ordered.oldBodies b old unsettled) rfl

/-- An operation that runs is the front of the current queue. -/
theorem State.Ordered.running (ordered : s.Ordered e f) {j : Nat} (bound : j < s.operations)
    (live : s.isAbandoned j = false) (running : (s.operation j).progress.isRunning = true) :
    f ≤ j ∧ ¬ s.Stuck j ∧ (s.operation j).progress.isSettled = false ∧
      ∀ i < j, f ≤ i → (s.operation i).progress.isSettled = true := by
  have pending : (s.operation j).progress.isSettled = false := by
    cases progress : (s.operation j).progress <;> simp [progress, Progress.isSettled,
      Progress.isRunning] at running ⊢
  have started : (s.operation j).progress.isQueued = false := by
    cases progress : (s.operation j).progress <;> simp [progress, Progress.isQueued,
      Progress.isRunning] at running ⊢
  have free : ¬ s.Stuck j := by
    intro stuck
    rw [(stuck.queued live).1] at started
    cases started
  have first : f ≤ j := by
    by_contra old
    exact free (ordered.oldOps j (Nat.not_le.mp old) pending)
  exact ⟨first, free, pending, ordered.opsStarted j bound first started⟩

/-- An operation that the queue reaches is the front of the current queue. -/
theorem State.Ordered.reached (ordered : s.Ordered e f) {j : Nat} (bound : j < s.operations)
    (live : s.isAbandoned j = false) (queued : (s.operation j).progress = .queued)
    (reached : ∀ i, (s.operation j).after = some i → (s.operation i).progress.isSettled = true) :
    f ≤ j ∧ ¬ s.Stuck j ∧ ∀ i < j, f ≤ i → (s.operation i).progress.isSettled = true := by
  have free : ¬ s.Stuck j := by
    intro stuck
    obtain ⟨-, i, after, pending⟩ := stuck.queued live
    rw [reached i after] at pending
    cases pending
  have first : f ≤ j := by
    by_contra old
    exact free (ordered.oldOps j (Nat.not_le.mp old) (by rw [queued]; rfl))
  refine ⟨first, free, fun i before current => ?_⟩
  have chain := ordered.opsChain j bound first
  rw [behind, if_neg (by omega)] at chain
  have last := reached (j - 1) chain
  rcases Nat.lt_or_ge i (j - 1) with earlier | same
  · refine ordered.opsStarted (j - 1) (by omega) (by omega) ?_ i earlier current
    cases progress : (s.operation (j - 1)).progress <;> simp [progress, Progress.isSettled,
      Progress.isQueued] at last ⊢
  · obtain rfl : i = j - 1 := by omega
    exact last

/-- Queues, generations and the past play no part beside what the invariant names. -/
theorem State.Ordered.congr (ordered : s.Ordered e f) (refreshes : t.refreshes = s.refreshes)
    (refresh : t.refresh = s.refresh) (operations : t.operations = s.operations)
    (operation : t.operation = s.operation) (bodies : t.bodies = s.bodies)
    (body : t.body = s.body) (projection : t.projection = s.projection)
    (projectionQueue : t.projectionQueue = s.projectionQueue) (queue : t.queue = s.queue)
    (available : t.available = s.available) (lastOutcome : t.lastOutcome = s.lastOutcome)
    (inFlight : t.refreshInFlight = s.refreshInFlight ∨ t.refreshInFlight = none) :
    t.Ordered e f := by
  have keeps : s.Keeps t := ⟨operations.ge, refreshes.ge, bodies.ge, fun r _ h => refresh ▸ h,
    fun j _ => congrFun operation j, fun b _ => congrFun body b⟩
  constructor
  · intro r bound
    rw [refresh]
    exact ordered.rejected r (refreshes ▸ bound)
  · intro r flies
    rw [refreshes]
    rcases inFlight with same | none
    · exact ordered.inFlight r (same ▸ flies)
    · rw [none] at flies
      cases flies
  · rw [available, lastOutcome, ordered.available]
  · rw [operations]
    exact ordered.opsBound
  · intro j old pending
    exact keeps.stuck (ordered.oldOps j old (operation ▸ pending))
  · rw [operations, operation]
    exact ordered.opsChain
  · rw [projectionQueue, operations, ordered.opsTail]
  · rw [operations, operation]
    exact ordered.opsStarted
  · intro j bound current
    rw [← ordered.live j (operations ▸ bound) current]
    exact State.isAbandoned_congr (by rw [operation]) fun r _ => by rw [refresh]
  · rw [operations, operation, projection]
    exact ordered.sees
  · rw [operations, operation, refreshes]
    exact ordered.task
  · rw [bodies]
    exact ordered.bodiesBound
  · intro b old unsettled
    exact keeps.waits (ordered.oldBodies b old (body ▸ unsettled)) (congrFun body b)
  · rw [bodies, body]
    exact ordered.bodiesChain
  · rw [queue, bodies, ordered.bodiesTail]
  · rw [bodies, body]
    exact ordered.bodiesStarted

theorem behind_succ {first n : Nat} (le : first ≤ n) : behind first (n + 1) = some n := by
  rw [behind, if_neg (by omega), Nat.add_sub_cancel]

/-- A new operation is queued at the tail. -/
theorem State.Ordered.project (ordered : s.Ordered e f) {task : Task}
    (live : ∀ r, task = .refresh r → r < s.refreshes ∧ (s.refresh r).abandoned = false) :
    (s.project task).Ordered e f := by
  have old : ∀ i < s.operations, (s.project task).operation i = s.operation i := by
    intro i bound
    change (s.setOperation _ _).operation i = _
    rw [setOperation_operation, if_neg bound.ne]
  have new : (s.project task).operation s.operations =
      ⟨s.projectionQueue, task, .queued, 0, s.projection⟩ := by
    change (s.setOperation _ _).operation _ = _
    rw [setOperation_operation, if_pos rfl]
  have split : ∀ i < (s.project task).operations, i < s.operations ∨ i = s.operations :=
    fun i bound => by change i < s.operations + 1 at bound; omega
  have stuckBound : ∀ j, s.Stuck j → j < s.operations := by
    intro j stuck
    cases stuck with
    | abandoned bound => exact bound
    | behind bound => exact bound
  have keeps : s.Keeps (s.project task) := ⟨Nat.le_succ _, le_rfl, le_rfl, fun _ _ h => h,
    fun j stuck => old j (stuckBound j stuck), fun _ _ => rfl⟩
  refine ⟨ordered.rejected, ordered.inFlight, ordered.available,
    ordered.opsBound.trans (Nat.le_succ _), fun i before pending => ?_,
    fun i bound current => ?_, (behind_succ ordered.opsBound).symm,
    fun i bound current started k before le => ?_, fun i bound current => ?_,
    fun i bound current running => ?_, fun i bound r is => ?_, ordered.bodiesBound,
    fun b before unsettled => ?_, ordered.bodiesChain, ordered.bodiesTail, ordered.bodiesStarted⟩
  · refine keeps.stuck (ordered.oldOps i before ?_)
    rwa [← old i (before.trans_le ordered.opsBound)]
  · rcases split i bound with inside | rfl
    · rw [old i inside]
      exact ordered.opsChain i inside current
    · rw [new]
      exact ordered.opsTail
  · rcases split i bound with inside | rfl
    · rw [old k (before.trans inside)]
      exact ordered.opsStarted i inside current (old i inside ▸ started) k before le
    · rw [new] at started
      cases started
  · rcases split i bound with inside | rfl
    · rw [← ordered.live i inside current]
      exact State.isAbandoned_congr (by rw [old i inside]) fun _ _ => rfl
    · rw [State.isAbandoned, new]
      cases task with
      | refresh r => exact (live r rfl).2
      | preflight | ready | answer => rfl
  · rcases split i bound with inside | rfl
    · rw [old i inside] at running ⊢
      exact ordered.sees i inside current running
    · rw [new] at running
      cases running
  · rcases split i bound with inside | rfl
    · exact ordered.task i inside r ((congrArg Operation.task (old i inside)).symm.trans is)
    · exact (live r ((congrArg Operation.task new).symm.trans is)).1
  · exact keeps.waits (ordered.oldBodies b before unsettled) rfl

/-- A refresh that is not abandoned goes on. -/
theorem State.Ordered.setRefresh (ordered : s.Ordered e f) {r : Nat} {x : Refresh}
    (live : (s.refresh r).abandoned = false) (abandoned : x.abandoned = false) :
    (s.setRefresh r x).Ordered e f := by
  have flags : ∀ q, ((s.setRefresh r x).refresh q).abandoned = (s.refresh q).abandoned := by
    intro q
    rw [setRefresh_refresh]
    split_ifs with same
    · rw [same, live, abandoned]
    · rfl
  have keeps : s.Keeps (s.setRefresh r x) := ⟨le_rfl, le_rfl, le_rfl, fun q _ h => (flags q).trans h,
    fun _ _ => rfl, fun _ _ => rfl⟩
  refine ⟨fun q bound gone => ?_, ordered.inFlight, ordered.available, ordered.opsBound,
    fun j old pending => keeps.stuck (ordered.oldOps j old pending), ordered.opsChain,
    ordered.opsTail, ordered.opsStarted, fun j bound current => ?_, ordered.sees, ordered.task,
    ordered.bodiesBound, fun b old unsettled => keeps.waits (ordered.oldBodies b old unsettled) rfl,
    ordered.bodiesChain, ordered.bodiesTail, ordered.bodiesStarted⟩
  · rw [flags] at gone
    rw [setRefresh_refresh, if_neg]
    · exact ordered.rejected q bound gone
    · rintro rfl
      rw [live] at gone
      cases gone
  · refine Eq.trans (b := s.isAbandoned j) ?_ (ordered.live j bound current)
    exact State.isAbandoned_congr rfl fun q _ => flags q

theorem State.Ordered.projectRefresh (ordered : s.Ordered e f) {r : Nat} (bound : r < s.refreshes)
    (live : (s.refresh r).abandoned = false) : (s.projectRefresh r).Ordered e f := by
  refine (ordered.setRefresh live (x := { s.refresh r with operation := some s.operations })
    live).project fun q same => ?_
  cases same
  refine ⟨bound, ?_⟩
  rw [setRefresh_refresh, if_pos rfl]
  exact live

theorem State.Ordered.createRefresh (ordered : s.Ordered e f) : s.createRefresh.Ordered e f := by
  have created : ({ s.setRefresh s.refreshes
        ⟨s.refreshGeneration, s.refreshInFlight, none, .pending, false, s.time⟩ with
      refreshes := s.refreshes + 1
      refreshInFlight := some s.refreshes } : State P H C).Ordered e f := by
    have old : ∀ r < s.refreshes, (s.setRefresh s.refreshes
        ⟨s.refreshGeneration, s.refreshInFlight, none, .pending, false, s.time⟩).refresh r =
        s.refresh r := by
      intro r bound
      rw [setRefresh_refresh, if_neg bound.ne]
    have new : (s.setRefresh s.refreshes
        ⟨s.refreshGeneration, s.refreshInFlight, none, .pending, false, s.time⟩).refresh
        s.refreshes = ⟨s.refreshGeneration, s.refreshInFlight, none, .pending, false, s.time⟩ := by
      rw [setRefresh_refresh, if_pos rfl]
    have keeps : s.Keeps { s.setRefresh s.refreshes
        ⟨s.refreshGeneration, s.refreshInFlight, none, .pending, false, s.time⟩ with
      refreshes := s.refreshes + 1
      refreshInFlight := some s.refreshes } := ⟨le_rfl, Nat.le_succ _, le_rfl,
        fun r bound h => (congrArg Refresh.abandoned (old r bound)).trans h, fun _ _ => rfl,
        fun _ _ => rfl⟩
    refine ⟨fun r bound gone => ?_, fun r flies => ?_, ordered.available, ordered.opsBound,
      fun j before pending => keeps.stuck (ordered.oldOps j before pending), ordered.opsChain,
      ordered.opsTail, ordered.opsStarted, fun j bound current => ?_, ordered.sees,
      fun j bound r is => Nat.lt_succ_of_lt (ordered.task j bound r is), ordered.bodiesBound,
      fun b before unsettled => keeps.waits (ordered.oldBodies b before unsettled) rfl,
      ordered.bodiesChain, ordered.bodiesTail, ordered.bodiesStarted⟩
    · have split : r < s.refreshes ∨ r = s.refreshes := by
        change r < s.refreshes + 1 at bound
        omega
      rcases split with inside | rfl
      · rw [old r inside] at gone ⊢
        exact ordered.rejected r inside gone
      · rw [new] at gone
        cases gone
    · obtain rfl := Option.some.inj flies
      exact Nat.lt_succ_self _
    · refine Eq.trans (b := s.isAbandoned j) (State.isAbandoned_congr rfl fun q is => ?_)
        (ordered.live j bound current)
      exact congrArg Refresh.abandoned (old q (ordered.task j bound q is))
  unfold State.createRefresh
  dsimp only
  split_ifs with none
  · refine created.projectRefresh (Nat.lt_succ_self _) ?_
    change ((s.setRefresh _ _).refresh _).abandoned = false
    rw [setRefresh_refresh, if_pos rfl]
  · exact created

theorem State.Ordered.refreshAt (ordered : s.Ordered e f) : s.refreshAt.1.Ordered e f := by
  have requested : ∀ {u : State P H C} {r : Nat}, u.Ordered e f → (u.request r).Ordered e f :=
    fun h => h.congr rfl rfl rfl rfl rfl rfl rfl rfl rfl rfl rfl (Or.inl rfl)
  unfold State.refreshAt
  split
  · split_ifs
    · exact requested ordered
    · exact requested ordered.createRefresh
  · exact requested ordered.createRefresh

/-! ## The queue of commands -/

/-- The front body of the queue goes on, or an older one settles. -/
theorem State.Ordered.setStage (ordered : s.Ordered e f) {b : Nat} {stage : Stage}
    (free : ¬ s.StuckBody b) (unsettled : (s.body b).stage ≠ .settled)
    (current : e ≤ b ∧ (∀ a < b, e ≤ a → (s.body a).stage = .settled) ∨ stage = .settled ∧
      (s.body b).stage ≠ .queued) : (s.setStage b stage).Ordered e f := by
  have others : ∀ a, a ≠ b → (s.setStage b stage).body a = s.body a := by
    intro a differs
    change (s.setBody _ _).body a = _
    rw [setBody_body, if_neg differs]
  have self : (s.setStage b stage).body b = { s.body b with stage := stage } := by
    change (s.setBody _ _).body b = _
    rw [setBody_body, if_pos rfl]
  have keeps : s.Keeps (s.setStage b stage) := by
    refine ⟨le_rfl, le_rfl, le_rfl, fun _ _ h => h, fun _ _ => rfl, fun a stuck => others a ?_⟩
    rintro rfl
    exact free stuck
  refine ⟨ordered.rejected, ordered.inFlight, ordered.available, ordered.opsBound,
    fun j old pending => keeps.stuck (ordered.oldOps j old pending), ordered.opsChain,
    ordered.opsTail, ordered.opsStarted, ordered.live, ordered.sees, ordered.task,
    ordered.bodiesBound, fun a old open_ => ?_, fun a inside first => ?_, ordered.bodiesTail,
    fun a inside first started c before le => ?_⟩
  · by_cases h : a = b
    · subst h
      rw [self] at open_
      rcases current with ⟨first, -⟩ | ⟨done, -⟩
      · exact absurd old (Nat.not_lt.mpr first)
      · exact absurd done open_
    · rw [others a h] at open_
      exact keeps.waits (ordered.oldBodies a old open_) (others a h)
  · by_cases h : a = b
    · subst h
      rw [self]
      exact ordered.bodiesChain a inside first
    · rw [others a h]
      exact ordered.bodiesChain a inside first
  · have settled : (s.body c).stage = .settled := by
      by_cases h : a = b
      · subst h
        rcases current with ⟨-, front⟩ | ⟨-, running⟩
        · exact front c before le
        · exact ordered.bodiesStarted a inside first running c before le
      · rw [others a h] at started
        exact ordered.bodiesStarted a inside first started c before le
    rw [others c]
    · exact settled
    · rintro rfl
      exact unsettled settled

/-- A body that the queue reaches is the front of the current queue. -/
theorem State.Ordered.reachedBody (ordered : s.Ordered e f) {b : Nat} (bound : b < s.bodies)
    (queued : (s.body b).stage = .queued)
    (reached : ∀ a, (s.body b).after = some a → (s.body a).stage = .settled) :
    ¬ s.StuckBody b ∧ e ≤ b ∧ ∀ a < b, e ≤ a → (s.body a).stage = .settled := by
  have free : ¬ s.StuckBody b := by
    intro stuck
    cases stuck with
    | projecting _ waits => simp [queued] at waits
    | answering _ waits => simp [queued] at waits
    | behind _ _ after stuck => exact stuck.unsettled (reached _ after)
  have first : e ≤ b := by
    by_contra old
    rcases ordered.oldBodies b (Nat.not_le.mp old) (by simp [queued]) with ⟨r, -, waits, -⟩ | stuck
    · simp [queued] at waits
    · exact free stuck
  refine ⟨free, first, fun a before current => ?_⟩
  have chain := ordered.bodiesChain b bound first
  rw [behind, if_neg (by omega)] at chain
  have last := reached (b - 1) chain
  rcases Nat.lt_or_ge a (b - 1) with earlier | same
  · exact ordered.bodiesStarted (b - 1) (by omega) (by omega) (by simp [last]) a earlier current
  · obtain rfl : a = b - 1 := by omega
    exact last

/-- A new body is queued at the tail. -/
theorem State.Ordered.serial (ordered : s.Ordered e f) (o : Options P B H C) (kind : Kind C) :
    (s.serial o kind).Ordered e f := by
  unfold State.serial
  split_ifs with full
  · exact ordered
  · have old : ∀ b < s.bodies, (s.setBody s.bodies ⟨s.queue, kind, .queued⟩).body b = s.body b := by
      intro b bound
      rw [setBody_body, if_neg bound.ne]
    have new : (s.setBody s.bodies ⟨s.queue, kind, .queued⟩).body s.bodies =
        ⟨s.queue, kind, .queued⟩ := by
      rw [setBody_body, if_pos rfl]
    have stuckBound : ∀ b, s.StuckBody b → b < s.bodies := by
      intro b stuck
      cases stuck with
      | projecting bound => exact bound
      | answering bound => exact bound
      | behind bound => exact bound
    have keeps : s.Keeps { s.setBody s.bodies ⟨s.queue, kind, .queued⟩ with
        bodies := s.bodies + 1
        queue := some s.bodies
        pendingCommands := s.pendingCommands + 1 } :=
      ⟨le_rfl, le_rfl, Nat.le_succ _, fun _ _ h => h, fun _ _ => rfl,
        fun b stuck => old b (stuckBound b stuck)⟩
    have split : ∀ b < s.bodies + 1, b < s.bodies ∨ b = s.bodies := fun b bound => by omega
    refine ⟨ordered.rejected, ordered.inFlight, ordered.available, ordered.opsBound,
      fun j before pending => keeps.stuck (ordered.oldOps j before pending), ordered.opsChain,
      ordered.opsTail, ordered.opsStarted, ordered.live, ordered.sees, ordered.task,
      ordered.bodiesBound.trans (Nat.le_succ _), fun b before unsettled => ?_,
      fun b bound current => ?_, (behind_succ ordered.bodiesBound).symm,
      fun b bound current started a before le => ?_⟩
    · have inside := before.trans_le ordered.bodiesBound
      refine keeps.waits (ordered.oldBodies b before ?_) (old b inside)
      rwa [← old b inside]
    · rcases split b bound with inside | rfl
      · exact (congrArg Body.after (old b inside)).trans (ordered.bodiesChain b inside current)
      · exact (congrArg Body.after new).trans ordered.bodiesTail
    · rcases split b bound with inside | rfl
      · rw [old a (before.trans inside)]
        exact ordered.bodiesStarted b inside current (old b inside ▸ started) a before le
      · exact absurd (congrArg Body.stage new) started

/-- The queues are replaced while everything under way waits on an abandoned refresh. -/
theorem State.Ordered.abandon (ordered : s.Ordered e f) {r : Nat}
    (contained : Contained s (.timeout r : Event B H C)) :
    (s.abandon r).Ordered s.bodies s.operations := by
  refine ⟨fun q bound gone => ?_, fun q flies => ?_, rfl, le_rfl, contained.1,
    fun j bound current => absurd bound (Nat.not_lt.mpr current), (if_pos rfl).symm,
    fun j bound current => absurd bound (Nat.not_lt.mpr current),
    fun j bound current => absurd bound (Nat.not_lt.mpr current),
    fun j bound current => absurd bound (Nat.not_lt.mpr current), ordered.task, le_rfl,
    contained.2, fun b bound current => absurd bound (Nat.not_lt.mpr current), (if_pos rfl).symm,
    fun b bound current => absurd bound (Nat.not_lt.mpr current)⟩
  · change ((s.setRefresh _ _).refresh q).promise = _
    change ((s.setRefresh _ _).refresh q).abandoned = _ at gone
    rw [setRefresh_refresh] at gone ⊢
    split_ifs at gone ⊢ with same
    · rfl
    · exact ordered.rejected q bound gone
  · change (if _ then _ else _) = some q at flies
    split_ifs at flies
    exact ordered.inFlight q flies

/-! ## Steps -/

theorem State.Ordered.settleBody (ordered : s.Ordered e f) {b : Nat} (free : ¬ s.StuckBody b)
    (unsettled : (s.body b).stage ≠ .settled)
    (current : e ≤ b ∧ (∀ a < b, e ≤ a → (s.body a).stage = .settled) ∨
      (s.body b).stage ≠ .queued) : (s.settleBody b).Ordered e f :=
  (ordered.setStage free unsettled (current.imp_right fun running => ⟨rfl, running⟩)).congr
    rfl rfl rfl rfl rfl rfl rfl rfl rfl rfl rfl (Or.inl rfl)

theorem State.Ordered.projectBody (ordered : s.Ordered e f) {b : Nat} {stage : Stage} {task : Task}
    (free : ¬ s.StuckBody b) (unsettled : (s.body b).stage ≠ .settled)
    (current : e ≤ b ∧ ∀ a < b, e ≤ a → (s.body a).stage = .settled)
    (other : ∀ r, task ≠ .refresh r) : ((s.setStage b stage).project task).Ordered e f :=
  (ordered.setStage free unsettled (Or.inl current)).project fun r same => absurd same (other r)

theorem State.Ordered.runBody (ordered : s.Ordered e f) (o : Options P B H C) {b : Nat}
    (bound : b < s.bodies) (queued : (s.body b).stage = .queued)
    (reached : ∀ a, (s.body b).after = some a → (s.body a).stage = .settled) :
    (s.runBody o b).Ordered e f := by
  obtain ⟨free, current⟩ := ordered.reachedBody bound queued reached
  have unsettled : (s.body b).stage ≠ .settled := by simp [queued]
  unfold State.runBody
  split
  · exact ordered.setStage free unsettled (Or.inl current)
  · split_ifs
    · exact ordered.projectBody free unsettled current (by simp)
    · exact ordered.settleBody free unsettled (Or.inl current)
  · split_ifs
    · exact ordered.projectBody free unsettled current (by simp)
    · exact ordered.settleBody free unsettled (Or.inl current)

/-- A body that runs and does not wait on an abandoned refresh is the front of the queue. -/
theorem State.Ordered.runningBody (ordered : s.Ordered e f) {b : Nat} (bound : b < s.bodies)
    (running : (s.body b).stage.inProgress = true) (free : ¬ s.WaitsAbandoned b) :
    e ≤ b ∧ ∀ a < b, e ≤ a → (s.body a).stage = .settled := by
  have started : (s.body b).stage ≠ .queued ∧ (s.body b).stage ≠ .settled := by
    constructor <;> intro stage <;> rw [stage] at running <;> cases running
  have current : e ≤ b := by
    by_contra old
    exact free (ordered.oldBodies b (Nat.not_le.mp old) started.2)
  exact ⟨current, ordered.bodiesStarted b bound current started.1⟩

theorem State.Ordered.bump (ordered : s.Ordered e f) : s.bump.Ordered e f :=
  ordered.congr rfl rfl rfl rfl rfl rfl rfl rfl rfl rfl rfl (Or.inl rfl)

theorem State.refreshAt_body (s : State P H C) : s.refreshAt.1.body = s.body := by
  have created : s.createRefresh.body = s.body := by
    unfold State.createRefresh
    dsimp only
    split_ifs <;> rfl
  unfold State.refreshAt
  split
  · split_ifs
    · rfl
    · exact created
  · exact created

theorem State.not_stuckBody {b : Nat} (stage : (s.body b).stage = .transport) :
    ¬ s.StuckBody b := by
  intro stuck
  cases stuck with
  | projecting _ waits => simp [stage] at waits
  | answering _ waits => simp [stage] at waits
  | behind _ queued => simp [stage] at queued

theorem State.Ordered.refreshBody (ordered : s.Ordered e f) {b : Nat}
    (stage : (s.body b).stage = .transport)
    (current : e ≤ b ∧ ∀ a < b, e ≤ a → (s.body a).stage = .settled) :
    (s.refreshBody b).Ordered e f := by
  have same : s.bump.refreshAt.1.body = s.body := s.bump.refreshAt_body
  have stage : (s.bump.refreshAt.1.body b).stage = .transport := by rw [same, stage]
  refine ordered.bump.refreshAt.setStage (State.not_stuckBody stage) (by simp [stage])
    (Or.inl ⟨current.1, ?_⟩)
  rw [same]
  exact current.2

theorem State.Ordered.submitted (ordered : s.Ordered e f) {b : Nat} (bound : b < s.bodies)
    (stage : (s.body b).stage = .transport) (submission : Submission) :
    (s.submitted b submission).Ordered e f := by
  have free := State.not_stuckBody stage
  have unsettled : (s.body b).stage ≠ .settled := by simp [stage]
  have current := ordered.runningBody bound (by rw [stage]; rfl) (by
    rintro (⟨r, -, waits, -⟩ | stuck)
    · simp [stage] at waits
    · exact free stuck)
  have settles : (s.bump.settleBody b).Ordered e f :=
    ordered.bump.settleBody (State.not_stuckBody stage) unsettled (Or.inl current)
  unfold State.submitted
  split
  · exact ordered.refreshBody stage current
  · exact settles
  · exact settles
  · exact ordered.refreshBody stage current
  · exact ordered.settleBody free unsettled (Or.inl current)
  · split_ifs
    · exact ordered.refreshBody stage current
    · exact ordered.projectBody free unsettled current (by simp)

/-- A body resumes when what it awaits has settled, so it was not stuck. -/
theorem State.Ordered.resumeBody (ordered : s.Ordered e f) {b : Nat} (bound : b < s.bodies)
    (taken : s.resumeBody b = some t) : t.Ordered e f := by
  unfold State.resumeBody at taken
  split at taken
  · next j waits =>
      have free : ∀ result, (s.operation j).progress = .settled result → ¬ s.StuckBody b := by
        intro result settled stuck
        cases stuck with
        | projecting _ other stuck =>
            rw [waits] at other
            cases other
            have pending := stuck.pending
            rw [settled] at pending
            cases pending
        | answering _ other => simp [waits] at other
        | behind _ queued => simp [waits] at queued
      split at taken
      · next settled =>
          rw [← Option.some.inj taken]
          have free := free _ settled
          refine ordered.setStage free (by simp [waits]) (Or.inl ?_)
          refine ordered.runningBody bound (by rw [waits]; rfl) ?_
          rintro (⟨r, -, other, -⟩ | stuck)
          · simp [waits] at other
          · exact free stuck
      · next settled =>
          rw [← Option.some.inj taken]
          exact ordered.settleBody (free _ settled) (by simp [waits]) (Or.inr (by simp [waits]))
      · cases taken
  · next r waits =>
      have free : ¬ s.StuckBody b := by
        intro stuck
        cases stuck with
        | projecting _ other => simp [waits] at other
        | answering _ other => simp [waits] at other
        | behind _ queued => simp [waits] at queued
      split at taken
      · cases taken
      · next fulfilled _ =>
          rw [← Option.some.inj taken]
          refine ordered.projectBody free (by simp [waits]) ?_ (by simp)
          refine ordered.runningBody bound (by rw [waits]; rfl) ?_
          rintro (⟨q, known, other, abandoned⟩ | stuck)
          · rw [waits] at other
            cases other
            rw [ordered.rejected r known abandoned] at fulfilled
            cases fulfilled
          · exact free stuck
      · rw [← Option.some.inj taken]
        exact ordered.settleBody free (by simp [waits]) (Or.inr (by simp [waits]))
  · next j waits =>
      split_ifs at taken with settled
      rw [← Option.some.inj taken]
      refine ordered.settleBody ?_ (by simp [waits]) (Or.inr (by simp [waits]))
      intro stuck
      cases stuck with
      | projecting _ other => simp [waits] at other
      | answering _ other stuck =>
          rw [waits] at other
          cases other
          rw [stuck.pending] at settled
          cases settled
      | behind _ queued => simp [waits] at queued
  · cases taken

/-- The front operation goes on and leaves the projection alone. -/
theorem State.Ordered.setProgress (ordered : s.Ordered e f) {j : Nat} {x : Operation P H}
    (first : f ≤ j) (free : ¬ s.Stuck j) (pending : (s.operation j).progress.isSettled = false)
    (front : ∀ i < j, f ≤ i → (s.operation i).progress.isSettled = true)
    (after : x.after = (s.operation j).after) (task : x.task = (s.operation j).task)
    (sees : x.progress.isRunning = true → x.sees = s.projection) :
    (s.setOperation j x).Ordered e f :=
  (ordered.setOperation first free pending front after task sees ordered.available
    (Or.inl rfl)).congr rfl rfl rfl rfl rfl rfl rfl rfl rfl rfl rfl (Or.inl rfl)

theorem State.Ordered.startOperation (ordered : s.Ordered e f) (o : Options P B H C) {j : Nat}
    (bound : j < s.operations) (live : s.isAbandoned j = false)
    (queued : (s.operation j).progress = .queued)
    (reached : ∀ i, (s.operation j).after = some i → (s.operation i).progress.isSettled = true) :
    (s.startOperation o j).Ordered e f := by
  obtain ⟨first, free, front⟩ := ordered.reached bound live queued reached
  have pending : (s.operation j).progress.isSettled = false := by rw [queued]; rfl
  unfold State.startOperation
  dsimp only
  split
  · exact ordered.setProgress first free pending front rfl rfl (by simp [Progress.isRunning])
  · exact ordered.setProgress first free pending front rfl rfl (by simp [Progress.isRunning])
  · exact ordered.setProgress first free pending front rfl rfl fun _ => rfl

theorem State.Ordered.take [DecidableEq H] {o : Options P B H C} (ordered : s.Ordered e f)
    {event : Event B H C} (contained : Contained s event) (taken : s.take o event = some t) :
    ∃ e f, t.Ordered e f := by
  cases event with
  | refresh =>
      rw [← Option.some.inj taken]
      exact ⟨e, f, ordered.refreshAt⟩
  | call kind =>
      rw [← Option.some.inj taken]
      exact ⟨e, f, ordered.serial o kind⟩
  | timeout r =>
      rw [State.take, Option.ite_none_right_eq_some] at taken
      obtain ⟨-, rfl⟩ := taken.imp_right Option.some.inj
      exact ⟨_, _, ordered.abandon contained⟩
  | follow r =>
      rw [State.take] at taken
      split at taken
      · rw [Option.ite_none_right_eq_some] at taken
        obtain ⟨⟨bound, -⟩, rfl⟩ := taken.imp_right Option.some.inj
        exact ⟨e, f, ordered.projectRefresh bound contained⟩
      · cases taken
  | finish r =>
      rw [State.take] at taken
      split at taken
      · split at taken
        · rw [Option.ite_none_right_eq_some] at taken
          obtain ⟨⟨bound, pending⟩, rfl⟩ := taken.imp_right Option.some.inj
          have live : (s.refresh r).abandoned = false := by
            cases gone : (s.refresh r).abandoned with
            | false => rfl
            | true =>
                rw [ordered.rejected r bound gone] at pending
                cases pending
          exact ⟨e, f, ordered.setRefresh live live⟩
        · cases taken
      · cases taken
  | clear r =>
      rw [State.take, Option.ite_none_right_eq_some] at taken
      obtain ⟨-, rfl⟩ := taken.imp_right Option.some.inj
      exact ⟨e, f, ordered.congr rfl rfl rfl rfl rfl rfl rfl rfl rfl rfl rfl (Or.inr rfl)⟩
  | start j =>
      rw [State.take] at taken
      split at taken
      · next queued =>
          rw [Option.ite_none_right_eq_some] at taken
          obtain ⟨⟨bound, reached⟩, rfl⟩ := taken.imp_right Option.some.inj
          exact ⟨e, f, ordered.startOperation o bound contained queued reached⟩
      · cases taken
  | tip j answer late =>
      rw [State.take] at taken
      split at taken
      · next waits =>
          rw [Option.ite_none_right_eq_some] at taken
          obtain ⟨bound, rfl⟩ := taken.imp_right Option.some.inj
          have runs : (s.operation j).progress.isRunning = true := by rw [waits]; rfl
          obtain ⟨first, free, pending, front⟩ := ordered.running bound contained runs
          exact ⟨e, f, ordered.setProgress first free pending front rfl rfl fun _ =>
            ordered.sees j bound first runs⟩
      · cases taken
  | block j answer late =>
      rw [State.take] at taken
      split at taken
      · next tip number waits =>
          rw [Option.ite_none_right_eq_some] at taken
          obtain ⟨bound, rfl⟩ := taken.imp_right Option.some.inj
          have runs : (s.operation j).progress.isRunning = true := by rw [waits]; rfl
          obtain ⟨first, free, pending, front⟩ := ordered.running bound contained runs
          exact ⟨e, f, ordered.setOperation (x := { s.operation j with
              progress := .synchronizing (o.onBlock s.projection tip number late answer).2
              sees := (o.onBlock s.projection tip number late answer).1 })
            first free pending front rfl rfl (fun _ => rfl) ordered.available (Or.inr runs)⟩
      · cases taken
  | conclude j =>
      rw [State.take] at taken
      split at taken
      · next result waits =>
          rw [Option.ite_none_right_eq_some] at taken
          obtain ⟨bound, rfl⟩ := taken.imp_right Option.some.inj
          have runs : (s.operation j).progress.isRunning = true := by rw [waits]; rfl
          obtain ⟨first, free, pending, front⟩ := ordered.running bound contained runs
          have same : result.toBool = if s.isAbandoned j then s.lastOutcome else result.toBool := by
            rw [show s.isAbandoned j = false from contained]
            rfl
          exact ⟨e, f, ordered.setOperation (x := { s.operation j with
              progress := (s.operation j).task.afterSync result })
            first free pending front rfl rfl (fun _ => ordered.sees j bound first runs) same
            (Or.inl rfl)⟩
      · cases taken
  | validate j =>
      rw [State.take] at taken
      split at taken
      · next waits is =>
          rw [Option.ite_none_right_eq_some] at taken
          obtain ⟨bound, rfl⟩ := taken.imp_right Option.some.inj
          have runs : (s.operation j).progress.isRunning = true := by rw [waits]; rfl
          have live : s.isAbandoned j = false := by rw [State.isAbandoned, is]
          obtain ⟨first, free, pending, front⟩ := ordered.running bound live runs
          exact ⟨e, f, ordered.setProgress first free pending front rfl rfl fun _ =>
            ordered.sees j bound first runs⟩
      · cases taken
  | run b =>
      rw [State.take, Option.ite_none_right_eq_some] at taken
      obtain ⟨⟨bound, queued, reached⟩, rfl⟩ := taken.imp_right Option.some.inj
      exact ⟨e, f, ordered.runBody o bound queued reached⟩
  | transport b submission =>
      rw [State.take, Option.ite_none_right_eq_some] at taken
      obtain ⟨⟨bound, stage⟩, rfl⟩ := taken.imp_right Option.some.inj
      exact ⟨e, f, ordered.submitted bound stage submission⟩
  | resume b =>
      rw [State.take, Option.ite_none_right_eq_some] at taken
      exact ⟨e, f, ordered.resumeBody taken.1 taken.2⟩

theorem State.Ordered.result (ordered : s.Ordered e f) : s.Serial where
  available := ordered.available
  writer i hi j hj runsI runsJ liveI liveJ := by
    obtain ⟨firstI, -, -, -⟩ := ordered.running hi liveI runsI
    obtain ⟨firstJ, -, pending, front⟩ := ordered.running hj liveJ runsJ
    exact ordered.front pending front hi firstI firstJ runsI
  undisturbed j bound runs live := by
    obtain ⟨first, -⟩ := ordered.running bound live runs
    exact ordered.sees j bound first runs
  bodies b bound a before runsA runsB := by
    by_contra free
    have started : ∀ stage : Stage, stage.inProgress = true → stage ≠ .queued ∧ stage ≠ .settled := by
      intro stage runs
      constructor <;> rintro rfl <;> cases runs
    obtain ⟨current, -⟩ := ordered.runningBody (before.trans bound) runsA free
    have settled := ordered.bodiesStarted b bound (current.trans before.le) (started _ runsB).1 a
      before current
    exact (started _ runsA).2 settled

end Ordered

theorem State.Ordered.new (p : P) : (State.new p : State P H C).Ordered 0 0 where
  rejected r bound := absurd bound (Nat.not_lt_zero r)
  inFlight r flies := by cases flies
  available := rfl
  opsBound := le_rfl
  oldOps j bound := absurd bound (Nat.not_lt_zero j)
  opsChain j bound := absurd bound (Nat.not_lt_zero j)
  opsTail := rfl
  opsStarted j bound := absurd bound (Nat.not_lt_zero j)
  live j bound := absurd bound (Nat.not_lt_zero j)
  sees j bound := absurd bound (Nat.not_lt_zero j)
  task j bound := absurd bound (Nat.not_lt_zero j)
  bodiesBound := le_rfl
  oldBodies b bound := absurd bound (Nat.not_lt_zero b)
  bodiesChain b bound := absurd bound (Nat.not_lt_zero b)
  bodiesTail := rfl
  bodiesStarted b bound := absurd bound (Nat.not_lt_zero b)

end Knowledger.ApplicationLedger
