import Knowledger.Fabric.ApplicationLedger

/-!
# Fresh refreshes

A refresh that serves a generation was created after the write behind that generation settled,
and its `synchronize` starts later still.
-/

namespace Knowledger.ApplicationLedger

variable {P B H C : Type} {s t : State P H C}

theorem State.setRefresh_refresh (s : State P H C) (r q : Nat) (x : Refresh) :
    (s.setRefresh r x).refresh q = if q = r then x else s.refresh q :=
  Function.update_apply _ _ _ _

theorem State.setOperation_operation (s : State P H C) (j i : Nat) (x : Operation P H) :
    (s.setOperation j x).operation i = if i = j then x else s.operation i :=
  Function.update_apply _ _ _ _

/-! ## The invariant -/

/-- The refresh was created after the writes behind its generation settled. -/
structure Refresh.Fresh (s : State P H C) (now : Nat) (r : Refresh) : Prop where
  generation : r.generation ≤ s.refreshGeneration
  created : r.createdAt < now
  behind : ∀ g, 1 ≤ g → g ≤ r.generation → s.settledAt g ≤ r.createdAt

/-- The operation has synchronized for the refresh. -/
def State.Synchronized (s : State P H C) (r j : Nat) : Prop :=
  j < s.operations ∧ (s.operation j).task = .refresh r ∧
    ∃ result, (s.operation j).progress = .settled (.ok result)

structure State.Fresh (s : State P H C) (now : Nat) : Prop where
  settled : ∀ g, 1 ≤ g → g ≤ s.refreshGeneration → s.settledAt g < now
  refreshes : ∀ r < s.refreshes, (s.refresh r).Fresh s now
  inFlight : ∀ r, s.refreshInFlight = some r → r < s.refreshes
  operation : ∀ r < s.refreshes, ∀ j, (s.refresh r).operation = some j →
    j < s.operations ∧ (s.operation j).task = .refresh r
  task : ∀ j < s.operations, ∀ r, (s.operation j).task = .refresh r → r < s.refreshes
  started : ∀ j < s.operations, ∀ r, (s.operation j).task = .refresh r →
    (s.operation j).progress = .queued ∨ (s.refresh r).createdAt < (s.operation j).startedAt
  fulfilled : ∀ r < s.refreshes, (s.refresh r).promise = .fulfilled → ∃ j, s.Synchronized r j
  requests : ∀ q ∈ s.requests, q.refresh < s.refreshes ∧
    q.generation ≤ (s.refresh q.refresh).generation
  called : ∀ q ∈ s.requests, q.calledAt < now ∧
    ∀ g, q.generation < g → g ≤ s.refreshGeneration → q.calledAt ≤ s.settledAt g

theorem State.Fresh.new (p : P) : (State.new p : State P H C).Fresh 0 where
  settled g positive bound := absurd positive (Nat.not_le.mpr (Nat.lt_succ_of_le bound))
  refreshes r bound := absurd bound (Nat.not_lt_zero r)
  inFlight r flies := by cases flies
  operation r bound := absurd bound (Nat.not_lt_zero r)
  task j bound := absurd bound (Nat.not_lt_zero j)
  started j bound := absurd bound (Nat.not_lt_zero j)
  fulfilled r bound := absurd bound (Nat.not_lt_zero r)
  requests q mem := by cases mem
  called q mem := by cases mem

theorem State.Fresh.mono {now later : Nat} (fresh : s.Fresh now) (le : now ≤ later) :
    s.Fresh later where
  settled g positive bound := (fresh.settled g positive bound).trans_le le
  refreshes r bound :=
    have h := fresh.refreshes r bound
    ⟨h.generation, h.created.trans_le le, h.behind⟩
  inFlight := fresh.inFlight
  operation := fresh.operation
  task := fresh.task
  started := fresh.started
  fulfilled := fresh.fulfilled
  requests := fresh.requests
  called q mem := (fresh.called q mem).imp_left fun before => before.trans_le le

/-- Bodies, queues, the projection and `available` play no part. -/
theorem State.Fresh.congr {now : Nat} (fresh : s.Fresh now)
    (generation : t.refreshGeneration = s.refreshGeneration) (settledAt : t.settledAt = s.settledAt)
    (refreshes : t.refreshes = s.refreshes) (refresh : t.refresh = s.refresh)
    (operations : t.operations = s.operations) (operation : t.operation = s.operation)
    (requests : t.requests = s.requests)
    (inFlight : t.refreshInFlight = s.refreshInFlight ∨ t.refreshInFlight = none) :
    t.Fresh now := by
  obtain ⟨_, _, _, _, _, _, _, _, _, _, _, _, _, _, _, _, _⟩ := t
  dsimp only at generation settledAt refreshes refresh operations operation requests inFlight
  subst generation settledAt refreshes refresh operations operation requests
  refine ⟨fresh.settled, fun r bound => ?_, fun r flies => ?_, fresh.operation, fresh.task,
    fresh.started, fresh.fulfilled, fresh.requests, fresh.called⟩
  · have h := fresh.refreshes r bound
    exact ⟨h.generation, h.created, h.behind⟩
  · rcases inFlight with same | none
    · exact fresh.inFlight r (same ▸ flies)
    · rw [none] at flies
      cases flies

/-- A pending operation goes on: it keeps its task, and it is queued, was started before, or
starts now. -/
theorem State.Fresh.setOperation {now : Nat} (fresh : s.Fresh now) {j : Nat} {x : Operation P H}
    (pending : (s.operation j).progress.isSettled = false)
    (task : x.task = (s.operation j).task)
    (started : (s.operation j).progress ≠ .queued ∧ x.startedAt = (s.operation j).startedAt ∨
      ∀ r < s.refreshes, x.task = .refresh r → (s.refresh r).createdAt < x.startedAt) :
    (s.setOperation j x).Fresh now := by
  have tasks : ∀ i, ((s.setOperation j x).operation i).task = (s.operation i).task := by
    intro i
    rw [setOperation_operation]
    split_ifs with same
    · rw [same, task]
    · rfl
  refine ⟨fresh.settled, fun r bound => ?_, fresh.inFlight, fun r bound i points => ?_,
    fun i bound r is => ?_, fun i bound r is => ?_, fun r bound done => ?_, fresh.requests,
    fresh.called⟩
  · have h := fresh.refreshes r bound
    exact ⟨h.generation, h.created, h.behind⟩
  · obtain ⟨inside, is⟩ := fresh.operation r bound i points
    exact ⟨inside, (tasks i).trans is⟩
  · exact fresh.task i bound r ((tasks i).symm.trans is)
  · have was := (tasks i).symm.trans is
    rw [setOperation_operation]
    split_ifs with same
    · subst same
      right
      rcases started with ⟨running, at_⟩ | starts
      · rw [at_]
        exact (fresh.started i bound r was).resolve_left running
      · exact starts r (fresh.task i bound r was) (task.trans was)
    · exact fresh.started i bound r was
  · obtain ⟨i, inside, is, result, settled⟩ := fresh.fulfilled r bound done
    refine ⟨i, inside, (tasks i).trans is, result, ?_⟩
    rw [setOperation_operation, if_neg]
    · exact settled
    · rintro rfl
      rw [settled] at pending
      cases pending

/-- A new operation is queued. -/
theorem State.Fresh.project {now : Nat} (fresh : s.Fresh now) {task : Task}
    (known : ∀ r, task = .refresh r → r < s.refreshes) : (s.project task).Fresh now := by
  have old : ∀ i < s.operations, (s.project task).operation i = s.operation i := by
    intro i bound
    change (s.setOperation _ _).operation i = _
    rw [setOperation_operation, if_neg bound.ne]
  have new : (s.project task).operation s.operations =
      ⟨s.projectionQueue, task, .queued, 0, s.projection⟩ := by
    change (s.setOperation _ _).operation _ = _
    rw [setOperation_operation, if_pos rfl]
  have split : ∀ i < (s.project task).operations, i < s.operations ∨ i = s.operations :=
    fun i bound => by change i < s.operations + 1 at bound; omega
  refine ⟨fresh.settled, fun r bound => ?_, fresh.inFlight, fun r bound i points => ?_,
    fun i bound r is => ?_, fun i bound r is => ?_, fun r bound done => ?_, fresh.requests,
    fresh.called⟩
  · have h := fresh.refreshes r bound
    exact ⟨h.generation, h.created, h.behind⟩
  · obtain ⟨inside, is⟩ := fresh.operation r bound i points
    exact ⟨Nat.lt_succ_of_lt inside, (congrArg Operation.task (old i inside)).trans is⟩
  · rcases split i bound with inside | rfl
    · exact fresh.task i inside r ((congrArg Operation.task (old i inside)).symm.trans is)
    · exact known r ((congrArg Operation.task new).symm.trans is)
  · rcases split i bound with inside | rfl
    · rw [old i inside] at is ⊢
      exact fresh.started i inside r is
    · rw [new]
      exact Or.inl rfl
  · obtain ⟨i, inside, is, result, settled⟩ := fresh.fulfilled r bound done
    refine ⟨i, Nat.lt_succ_of_lt inside, ?_⟩
    rw [old i inside]
    exact ⟨is, result, settled⟩

/-- A refresh goes on: only its operation and its promise change. -/
theorem State.Fresh.setRefresh {now : Nat} (fresh : s.Fresh now) {r : Nat} {x : Refresh}
    (generation : x.generation = (s.refresh r).generation)
    (created : x.createdAt = (s.refresh r).createdAt)
    (operation : ∀ j, x.operation = some j → j < s.operations ∧ (s.operation j).task = .refresh r)
    (fulfilled : x.promise = .fulfilled → ∃ j, s.Synchronized r j) :
    (s.setRefresh r x).Fresh now := by
  have generations : ∀ q, ((s.setRefresh r x).refresh q).generation = (s.refresh q).generation := by
    intro q
    rw [setRefresh_refresh]
    split_ifs with same
    · rw [same, generation]
    · rfl
  have creations : ∀ q, ((s.setRefresh r x).refresh q).createdAt = (s.refresh q).createdAt := by
    intro q
    rw [setRefresh_refresh]
    split_ifs with same
    · rw [same, created]
    · rfl
  refine ⟨fresh.settled, fun q bound => ?_, fresh.inFlight, fun q bound j points => ?_, fresh.task,
    fun j bound q is => ?_, fun q bound done => ?_, fun q mem => ?_, fresh.called⟩
  · have h := fresh.refreshes q bound
    exact ⟨(generations q).trans_le h.generation, (creations q).trans_lt h.created,
      fun g positive le => (creations q).symm ▸ h.behind g positive ((generations q) ▸ le)⟩
  · rw [setRefresh_refresh] at points
    split_ifs at points with same
    · subst same
      exact operation j points
    · exact fresh.operation q bound j points
  · rw [creations]
    exact fresh.started j bound q is
  · rw [setRefresh_refresh] at done
    split_ifs at done with same
    · subst same
      exact fulfilled done
    · exact fresh.fulfilled q bound done
  · rw [generations]
    exact fresh.requests q mem

theorem State.Fresh.projectRefresh {now : Nat} (fresh : s.Fresh now) {r : Nat}
    (bound : r < s.refreshes) : (s.projectRefresh r).Fresh now := by
  have queued : (s.project (.refresh r)).Fresh now := fresh.project fun q same => by
    cases same
    exact bound
  refine queued.setRefresh rfl rfl (fun j points => ?_) (queued.fulfilled r bound)
  obtain rfl : s.operations = j := by simpa using points
  refine ⟨Nat.lt_succ_self _, ?_⟩
  change ((s.setOperation _ _).operation _).task = _
  rw [setOperation_operation, if_pos rfl]

/-- A new refresh is created after every write that has settled. -/
theorem State.Fresh.createRefresh {now : Nat} (fresh : s.Fresh now)
    (past : ∀ g, 1 ≤ g → g ≤ s.refreshGeneration → s.settledAt g ≤ s.time) (later : s.time < now) :
    s.createRefresh.Fresh now ∧ s.createRefresh.refreshGeneration = s.refreshGeneration ∧
      s.refreshes < s.createRefresh.refreshes ∧
      (s.createRefresh.refresh s.refreshes).generation = s.refreshGeneration := by
  have created : ({ s.setRefresh s.refreshes
        ⟨s.refreshGeneration, s.refreshInFlight, none, .pending, false, s.time⟩ with
      refreshes := s.refreshes + 1
      refreshInFlight := some s.refreshes } : State P H C).Fresh now := by
    have old : ∀ r < s.refreshes, (s.setRefresh s.refreshes
        ⟨s.refreshGeneration, s.refreshInFlight, none, .pending, false, s.time⟩).refresh r =
        s.refresh r := by
      intro r bound
      rw [setRefresh_refresh, if_neg bound.ne]
    have new : (s.setRefresh s.refreshes
        ⟨s.refreshGeneration, s.refreshInFlight, none, .pending, false, s.time⟩).refresh
        s.refreshes = ⟨s.refreshGeneration, s.refreshInFlight, none, .pending, false, s.time⟩ := by
      rw [setRefresh_refresh, if_pos rfl]
    have split : ∀ r < s.refreshes + 1, r < s.refreshes ∨ r = s.refreshes := fun r bound => by omega
    refine ⟨fresh.settled, fun r bound => ?_, fun r flies => ?_, fun r bound j points => ?_,
      fun j bound r is => ?_, fun j bound r is => ?_, fun r bound done => ?_, fun q mem => ?_,
      fresh.called⟩
    · rcases split r bound with inside | rfl
      · have h := fresh.refreshes r inside
        rw [old r inside]
        exact ⟨h.generation, h.created, h.behind⟩
      · rw [new]
        exact ⟨le_rfl, later, past⟩
    · obtain rfl := Option.some.inj flies
      exact Nat.lt_succ_self _
    · rcases split r bound with inside | rfl
      · rw [old r inside] at points
        exact fresh.operation r inside j points
      · rw [new] at points
        cases points
    · exact Nat.lt_succ_of_lt (fresh.task j bound r is)
    · rw [old r (fresh.task j bound r is)]
      exact fresh.started j bound r is
    · rcases split r bound with inside | rfl
      · rw [old r inside] at done
        exact fresh.fulfilled r inside done
      · rw [new] at done
        cases done
    · obtain ⟨inside, le⟩ := fresh.requests q mem
      exact ⟨Nat.lt_succ_of_lt inside, by rwa [old _ inside]⟩
  unfold State.createRefresh
  dsimp only
  split_ifs with none
  · refine ⟨created.projectRefresh (Nat.lt_succ_self _), rfl, Nat.lt_succ_self _, ?_⟩
    change ((State.setRefresh _ _ _).refresh _).generation = _
    rw [setRefresh_refresh, if_pos rfl, setRefresh_refresh, if_pos rfl]
  · refine ⟨created, rfl, Nat.lt_succ_self _, ?_⟩
    change ((State.setRefresh _ _ _).refresh _).generation = _
    rw [setRefresh_refresh, if_pos rfl]

theorem State.createRefresh_time (s : State P H C) : s.createRefresh.time = s.time := by
  unfold State.createRefresh
  dsimp only
  split_ifs <;> rfl

theorem State.Fresh.request {now r : Nat} (fresh : s.Fresh now) (bound : r < s.refreshes)
    (serves : s.refreshGeneration ≤ (s.refresh r).generation) (later : s.time < now) :
    (s.request r).Fresh now where
  settled := fresh.settled
  refreshes q inside :=
    have h := fresh.refreshes q inside
    ⟨h.generation, h.created, h.behind⟩
  inFlight := fresh.inFlight
  operation := fresh.operation
  task := fresh.task
  started := fresh.started
  fulfilled := fresh.fulfilled
  requests q mem := by
    rcases List.mem_cons.mp mem with rfl | old
    · exact ⟨bound, serves⟩
    · exact fresh.requests q old
  called q mem := by
    rcases List.mem_cons.mp mem with rfl | old
    · exact ⟨later, fun g above le => absurd le (Nat.not_le.mpr above)⟩
    · exact fresh.called q old

/-- The refresh that serves a call is of the call's generation at least. -/
theorem State.Fresh.refreshAt {now : Nat} (fresh : s.Fresh now)
    (past : ∀ g, 1 ≤ g → g ≤ s.refreshGeneration → s.settledAt g ≤ s.time) (later : s.time < now) :
    s.refreshAt.1.Fresh now := by
  have create : (s.createRefresh.request s.refreshes).Fresh now := by
    obtain ⟨created, generation, bound, serves⟩ := fresh.createRefresh past later
    refine created.request bound (generation.trans serves.symm).le ?_
    rw [State.createRefresh_time]
    exact later
  unfold State.refreshAt
  split
  · next r flies =>
      split_ifs with serves
      · exact fresh.request (fresh.inFlight r flies) serves later
      · exact create
  · exact create

/-- The write behind the new generation settles now. -/
theorem State.Fresh.bump (fresh : s.Fresh s.time) : s.bump.Fresh (s.time + 1) ∧
    ∀ g, 1 ≤ g → g ≤ s.bump.refreshGeneration → s.bump.settledAt g ≤ s.time := by
  have old : ∀ g ≤ s.refreshGeneration, s.bump.settledAt g = s.settledAt g := by
    intro g le
    exact Function.update_of_ne (by omega) _ _
  have past : ∀ g, 1 ≤ g → g ≤ s.bump.refreshGeneration → s.bump.settledAt g ≤ s.time := by
    intro g positive le
    rcases Nat.lt_or_ge s.refreshGeneration g with new | le
    · obtain rfl : g = s.refreshGeneration + 1 := Nat.le_antisymm le new
      exact (Function.update_self _ _ _).le
    · rw [old g le]
      exact (fresh.settled g positive le).le
  refine ⟨⟨fun g positive le => Nat.lt_succ_of_le (past g positive le), fun r bound => ?_,
    fresh.inFlight, fresh.operation, fresh.task, fresh.started, fresh.fulfilled,
    fresh.requests, fun q mem => ?_⟩, past⟩
  · have h := fresh.refreshes r bound
    refine ⟨h.generation.trans (Nat.le_succ _), h.created.trans (Nat.lt_succ_self _), ?_⟩
    intro g positive le
    rw [old g (le.trans h.generation)]
    exact h.behind g positive le
  · obtain ⟨before, since⟩ := fresh.called q mem
    refine ⟨before.trans (Nat.lt_succ_self _), fun g above le => ?_⟩
    rcases Nat.lt_or_ge s.refreshGeneration g with new | old'
    · obtain rfl : g = s.refreshGeneration + 1 := Nat.le_antisymm le new
      have now : s.bump.settledAt (s.refreshGeneration + 1) = s.time := Function.update_self _ _ _
      rw [now]
      exact before.le
    · rw [old g old']
      exact since g above old'

/-! ## Steps -/

theorem State.Fresh.setStage {now : Nat} (fresh : s.Fresh now) (b : Nat) (stage : Stage) :
    (s.setStage b stage).Fresh now :=
  fresh.congr rfl rfl rfl rfl rfl rfl rfl (Or.inl rfl)

theorem State.Fresh.settleBody {now : Nat} (fresh : s.Fresh now) (b : Nat) :
    (s.settleBody b).Fresh now :=
  fresh.congr rfl rfl rfl rfl rfl rfl rfl (Or.inl rfl)

theorem State.Fresh.refreshBody (fresh : s.Fresh s.time) (b : Nat) :
    (s.refreshBody b).Fresh (s.time + 1) := by
  obtain ⟨bumped, past⟩ := fresh.bump
  exact (bumped.refreshAt past (Nat.lt_succ_self _)).setStage b _

/-- A command's operation is not a refresh's. -/
theorem State.Fresh.projectBody {now : Nat} (fresh : s.Fresh now) (b : Nat) (stage : Stage)
    {task : Task} (other : ∀ r, task ≠ .refresh r) :
    ((s.setStage b stage).project task).Fresh now :=
  (fresh.setStage b stage).project fun r same => absurd same (other r)

theorem State.Fresh.runBody {now : Nat} (fresh : s.Fresh now) (o : Options P B H C) (b : Nat) :
    (s.runBody o b).Fresh now := by
  unfold State.runBody
  split
  · exact fresh.setStage b _
  · split_ifs
    · exact fresh.projectBody b _ (by simp)
    · exact fresh.settleBody b
  · split_ifs
    · exact fresh.projectBody b _ (by simp)
    · exact fresh.settleBody b

theorem State.Fresh.submitted (fresh : s.Fresh s.time) (b : Nat) (submission : Submission) :
    (s.submitted b submission).Fresh (s.time + 1) := by
  have later := fresh.mono (Nat.le_succ s.time)
  unfold State.submitted
  split
  · exact fresh.refreshBody b
  · exact fresh.bump.1.settleBody b
  · exact fresh.bump.1.settleBody b
  · exact fresh.refreshBody b
  · exact later.settleBody b
  · split_ifs
    · exact fresh.refreshBody b
    · exact later.projectBody b _ (by simp)

theorem State.Fresh.resumeBody {now b : Nat} (fresh : s.Fresh now)
    (taken : s.resumeBody b = some t) : t.Fresh now := by
  unfold State.resumeBody at taken
  split at taken
  · split at taken
    · exact Option.some.inj taken ▸ fresh.setStage b _
    · exact Option.some.inj taken ▸ fresh.settleBody b
    · cases taken
  · split at taken
    · cases taken
    · exact Option.some.inj taken ▸ fresh.projectBody b _ (by simp)
    · exact Option.some.inj taken ▸ fresh.settleBody b
  · split_ifs at taken
    exact Option.some.inj taken ▸ fresh.settleBody b
  · cases taken

/-- An operation starts later than its refresh was created. -/
theorem State.Fresh.startOperation (fresh : s.Fresh s.time) (o : Options P B H C) {j : Nat}
    (queued : (s.operation j).progress = .queued) : (s.startOperation o j).Fresh s.time := by
  have pending : (s.operation j).progress.isSettled = false := by rw [queued]; rfl
  have settles : ∀ progress, (∀ r, (s.operation j).task ≠ .refresh r) →
      (s.setProgress j progress).Fresh s.time := fun progress other =>
    fresh.setOperation pending rfl (Or.inr fun r _ same => absurd same (other r))
  unfold State.startOperation
  dsimp only
  split
  · next is => exact settles _ (by simp [is])
  · next is => exact settles _ (by simp [is])
  · exact fresh.setOperation pending rfl (Or.inr fun r bound _ => (fresh.refreshes r bound).created)

/-- A started operation goes on. -/
theorem State.Fresh.setRunning {now : Nat} (fresh : s.Fresh now) {j : Nat} {x : Operation P H}
    (pending : (s.operation j).progress.isSettled = false)
    (running : (s.operation j).progress ≠ .queued) (task : x.task = (s.operation j).task)
    (started : x.startedAt = (s.operation j).startedAt) : (s.setOperation j x).Fresh now :=
  fresh.setOperation pending task (Or.inl ⟨running, started⟩)

theorem State.Fresh.finishRefresh {now r j : Nat} {result : Except Failure Bool}
    (fresh : s.Fresh now) (bound : r < s.refreshes) (points : (s.refresh r).operation = some j)
    (done : (s.operation j).progress = .settled result) : (s.finishRefresh r result).Fresh now := by
  refine fresh.setRefresh rfl rfl (fresh.operation r bound) fun fulfilled => ?_
  obtain ⟨inside, is⟩ := fresh.operation r bound j points
  cases result with
  | error failure => cases fulfilled
  | ok found => exact ⟨j, inside, is, found, done⟩

theorem State.Fresh.take [DecidableEq H] {o : Options P B H C} (fresh : s.Fresh s.time)
    {e : Event B H C} (taken : s.take o e = some t) : t.Fresh (s.time + 1) := by
  have later := fresh.mono (Nat.le_succ s.time)
  cases e with
  | refresh =>
      rw [← Option.some.inj taken]
      exact later.refreshAt (fun g positive le => (fresh.settled g positive le).le)
        (Nat.lt_succ_self _)
  | call kind =>
      rw [← Option.some.inj taken, State.serial]
      split_ifs
      · exact later
      · exact later.congr rfl rfl rfl rfl rfl rfl rfl (Or.inl rfl)
  | timeout r =>
      rw [State.take, Option.ite_none_right_eq_some] at taken
      obtain ⟨⟨bound, -⟩, rfl⟩ := taken.imp_right Option.some.inj
      have rejected : (s.setRefresh r { s.refresh r with
          promise := .rejected .freshnessUnavailable, abandoned := true }).Fresh (s.time + 1) :=
        later.setRefresh rfl rfl (later.operation r bound) (by simp)
      refine rejected.congr rfl rfl rfl rfl rfl rfl rfl ?_
      change (if _ then _ else _) = _ ∨ (if _ then _ else _) = _
      split_ifs
      · exact Or.inr rfl
      · exact Or.inl rfl
  | follow r =>
      rw [State.take] at taken
      split at taken
      · rw [Option.ite_none_right_eq_some] at taken
        obtain ⟨⟨bound, -⟩, rfl⟩ := taken.imp_right Option.some.inj
        exact later.projectRefresh bound
      · cases taken
  | finish r =>
      rw [State.take] at taken
      split at taken
      · next j points =>
          split at taken
          · next result done =>
              rw [Option.ite_none_right_eq_some] at taken
              obtain ⟨⟨bound, -⟩, rfl⟩ := taken.imp_right Option.some.inj
              exact later.finishRefresh bound points done
          · cases taken
      · cases taken
  | clear r =>
      rw [State.take, Option.ite_none_right_eq_some] at taken
      obtain ⟨-, rfl⟩ := taken.imp_right Option.some.inj
      exact later.congr rfl rfl rfl rfl rfl rfl rfl (Or.inr rfl)
  | start j =>
      rw [State.take] at taken
      split at taken
      · next queued =>
          rw [Option.ite_none_right_eq_some] at taken
          obtain ⟨-, rfl⟩ := taken.imp_right Option.some.inj
          exact (fresh.startOperation o queued).mono (Nat.le_succ _)
      · cases taken
  | tip j answer late =>
      rw [State.take] at taken
      split at taken
      · next waits =>
          rw [Option.ite_none_right_eq_some] at taken
          obtain ⟨-, rfl⟩ := taken.imp_right Option.some.inj
          exact later.setRunning (by rw [waits]; rfl) (by simp [waits]) rfl rfl
      · cases taken
  | block j answer late =>
      rw [State.take] at taken
      split at taken
      · next tip number waits =>
          rw [Option.ite_none_right_eq_some] at taken
          obtain ⟨-, rfl⟩ := taken.imp_right Option.some.inj
          have running := later.setRunning (j := j) (x := { s.operation j with
              progress := .synchronizing (o.onBlock s.projection tip number late answer).2
              sees := (o.onBlock s.projection tip number late answer).1 })
            (by rw [waits]; rfl) (by simp [waits]) rfl rfl
          exact running.congr rfl rfl rfl rfl rfl rfl rfl (Or.inl rfl)
      · cases taken
  | conclude j =>
      rw [State.take] at taken
      split at taken
      · next result waits =>
          rw [Option.ite_none_right_eq_some] at taken
          obtain ⟨-, rfl⟩ := taken.imp_right Option.some.inj
          have running := later.setRunning (j := j) (x := { s.operation j with
              progress := (s.operation j).task.afterSync result })
            (by rw [waits]; rfl) (by simp [waits]) rfl rfl
          exact running.congr rfl rfl rfl rfl rfl rfl rfl (Or.inl rfl)
      · cases taken
  | validate j =>
      rw [State.take] at taken
      split at taken
      · next waits _ =>
          rw [Option.ite_none_right_eq_some] at taken
          obtain ⟨-, rfl⟩ := taken.imp_right Option.some.inj
          exact later.setRunning (by rw [waits]; rfl) (by simp [waits]) rfl rfl
      · cases taken
  | run b =>
      rw [State.take, Option.ite_none_right_eq_some] at taken
      obtain ⟨-, rfl⟩ := taken.imp_right Option.some.inj
      exact later.runBody o b
  | transport b submission =>
      rw [State.take, Option.ite_none_right_eq_some] at taken
      obtain ⟨-, rfl⟩ := taken.imp_right Option.some.inj
      exact fresh.submitted b submission
  | resume b =>
      rw [State.take, Option.ite_none_right_eq_some] at taken
      exact later.resumeBody taken.2

/-- **Refreshes are fresh.**  When the promise of a call of `refreshAt` is fulfilled, the
projection has synchronized since the write behind the call's generation, and since any write
that had settled before the call. -/
theorem refreshes_fresh [DecidableEq H] {o : Options P B H C} {p : P} {events : List (Event B H C)}
    (taken : Machine.run o.step (State.new p) events = some s) (q : Request) (mem : q ∈ s.requests)
    (fulfilled : (s.refresh q.refresh).promise = .fulfilled) (g : Nat) (written : 1 ≤ g)
    (before : g ≤ q.generation ∨ g ≤ s.refreshGeneration ∧ s.settledAt g < q.calledAt) :
    ∃ j, s.Synchronized q.refresh j ∧ s.settledAt g < (s.operation j).startedAt := by
  have fresh : s.Fresh s.time := by
    refine Machine.run_keeps (P := fun s => s.Fresh s.time) ?_ (.new p) taken
    intro s e t fresh step
    obtain ⟨u, taken, rfl⟩ := Option.map_eq_some_iff.mp step
    exact (fresh.take taken).congr rfl rfl rfl rfl rfl rfl rfl (Or.inl rfl)
  obtain ⟨bound, serves⟩ := fresh.requests q mem
  have le : g ≤ q.generation := by
    rcases before with le | ⟨known, earlier⟩
    · exact le
    · by_contra above
      have since := (fresh.called q mem).2 g (Nat.not_le.mp above) known
      omega
  obtain ⟨j, done⟩ := fresh.fulfilled _ bound fulfilled
  obtain ⟨inside, is, result, settled⟩ := done
  refine ⟨j, ⟨inside, is, result, settled⟩, ?_⟩
  have started := (fresh.started j inside _ is).resolve_left (by simp [settled])
  have created := (fresh.refreshes _ bound).behind g written (le.trans serves)
  omega

/-- A projection of numbered blocks, with a signer for every command. -/
def blockCount : Options Nat Nat Unit Unit where
  applyBlock p number := if number = p then some (p + 1) else none
  blockCheckpoint p := if p = 0 then none else some (p - 1, ())
  committed _ _ := .ok false
  validateCommand _ _ := .ok ()
  routed _ := true
  maxPendingCommands := 64

/-- A command is submitted and awaits the refresh behind it. -/
theorem refreshes_fresh_execute : ∃ s, Machine.run blockCount.step (State.new 0)
    [.call (.execute ()), .run 0, .start 0, .tip 0 (some (some ⟨1, ()⟩)) false,
      .block 0 (some 0) false, .conclude 0, .validate 0, .resume 0, .transport 0 .sent, .start 1,
      .tip 1 (some (some ⟨1, ()⟩)) false, .conclude 1, .finish 0] = some s ∧
    ∃ j, s.Synchronized 0 j ∧ s.settledAt 1 < (s.operation j).startedAt := by
  have ⟨s, taken, mem, fulfilled⟩ : ∃ s, Machine.run blockCount.step (State.new 0)
      [.call (.execute ()), .run 0, .start 0, .tip 0 (some (some ⟨1, ()⟩)) false,
        .block 0 (some 0) false, .conclude 0, .validate 0, .resume 0, .transport 0 .sent, .start 1,
        .tip 1 (some (some ⟨1, ()⟩)) false, .conclude 1, .finish 0] = some s ∧
      ⟨1, 0, 8⟩ ∈ s.requests ∧ (s.refresh 0).promise = .fulfilled :=
    ⟨_, rfl, .head _, rfl⟩
  exact ⟨s, taken, refreshes_fresh taken ⟨1, 0, 8⟩ mem fulfilled 1 le_rfl (Or.inl le_rfl)⟩

end Knowledger.ApplicationLedger
