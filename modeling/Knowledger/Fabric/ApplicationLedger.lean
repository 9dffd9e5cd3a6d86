import Knowledger.Lib.Machine

/-!
# The application ledger of a channel

Commands are serial operations: each body runs behind the one before it.  The projection has a
queue of its own, in which refreshes and preflights synchronize with the peer.  A refresh that
takes too long is abandoned: its promise is rejected and both queues are replaced, while its
work goes on.

An event is one segment of the program between two of its awaits, so a run is an interleaving
of any calls, with any delays of the peer and the transport.
-/

namespace Knowledger.ApplicationLedger

/-! ## Ports -/

/-- What a refresh or a command is rejected with. -/
inductive Failure
  | freshnessUnavailable
  | projectionBehind
  | projectionInvalid
  | other
  deriving DecidableEq

structure Tip (H : Type) where
  height : Nat
  blockHash : H

/-- The projection and the checks of commands against it, and the limits of the ledger. -/
structure Options (P B H C : Type) where
  applyBlock : P → B → Option P
  blockCheckpoint : P → Option (Nat × H)
  /-- Whether the command's idempotency record is found. -/
  committed : P → C → Except Failure Bool
  validateCommand : P → C → Except Failure Unit
  routed : C → Bool
  maxPendingCommands : Nat

/-- What a call of the transport comes to. -/
inductive Submission
  | threw
  | invalid
  | sent
  deriving DecidableEq

/-! ## Flows -/

/-- What an operation of the projection queue is for: a refresh, or a command's body. -/
inductive Task
  | refresh (r : Nat)
  | preflight (b : Nat)
  | ready (b : Nat)
  | answer (b : Nat)
  deriving DecidableEq

/-- Where `synchronize` waits. -/
inductive Sync (H : Type)
  | tip
  | block (tip : Tip H) (number : Nat)
  | ended (result : Except Failure Unit)

inductive Progress (H : Type)
  | queued
  | synchronizing (sync : Sync H)
  | validating
  | settled (result : Except Failure Bool)

/-- An operation of the projection queue.  When it started and the projection it last saw are
kept for the statements. -/
structure Operation (P H : Type) where
  after : Option Nat
  task : Task
  progress : Progress H
  startedAt : Nat
  sees : P

/-- The promise a refresh hands out. -/
inductive Promise
  | pending
  | fulfilled
  | rejected (failure : Failure)
  deriving DecidableEq

structure Refresh where
  generation : Nat
  previous : Option Nat
  operation : Option Nat
  promise : Promise
  abandoned : Bool
  createdAt : Nat

inductive Kind (C : Type)
  | execute (command : C)
  | recoverPending
  | observeCommand (command : C) (queryPeer : Bool)

/-- Where the body of a serial operation waits. -/
inductive Stage
  | queued
  | projecting (operation : Nat)
  | transport
  | refreshing (refresh : Nat)
  | answering (operation : Nat)
  | settled
  deriving DecidableEq

structure Body (C : Type) where
  after : Option Nat
  kind : Kind C
  stage : Stage

/-- A call of `refreshAt`, with the refresh it waits for. -/
structure Request where
  generation : Nat
  refresh : Nat
  calledAt : Nat

/-- The fields of the ledger, its flows, and what the statements need of the past: the time,
when the write behind each generation settled, the calls of `refreshAt`, and what the last
refresh or command that was not abandoned left `available` at. -/
structure State (P H C : Type) where
  projection : P
  queue : Option Nat
  projectionQueue : Option Nat
  pendingCommands : Nat
  refreshGeneration : Nat
  refreshInFlight : Option Nat
  available : Bool
  refreshes : Nat
  refresh : Nat → Refresh
  operations : Nat
  operation : Nat → Operation P H
  bodies : Nat
  body : Nat → Body C
  time : Nat
  settledAt : Nat → Nat
  requests : List Request
  lastOutcome : Bool

inductive Event (B H C : Type)
  | refresh
  | call (kind : Kind C)
  | timeout (r : Nat)
  | follow (r : Nat)
  | finish (r : Nat)
  | clear (r : Nat)
  | start (j : Nat)
  | tip (j : Nat) (answer : Option (Option (Tip H))) (late : Bool)
  | block (j : Nat) (answer : Option B) (late : Bool)
  | conclude (j : Nat)
  | validate (j : Nat)
  | run (b : Nat)
  | transport (b : Nat) (submission : Submission)
  | resume (b : Nat)

variable {P B H C : Type}

def Kind.command : Kind C → Option C
  | .execute c => some c
  | .recoverPending => none
  | .observeCommand c _ => some c

def Progress.isSettled : Progress H → Bool
  | .settled _ => true
  | _ => false

def Progress.isQueued : Progress H → Bool
  | .queued => true
  | _ => false

def State.new (p : P) : State P H C where
  projection := p
  queue := none
  projectionQueue := none
  pendingCommands := 0
  refreshGeneration := 0
  refreshInFlight := none
  available := false
  refreshes := 0
  refresh _ := ⟨0, none, none, .pending, false, 0⟩
  operations := 0
  operation _ := ⟨none, .refresh 0, .queued, 0, p⟩
  bodies := 0
  body _ := ⟨none, .recoverPending, .queued⟩
  time := 0
  settledAt _ := 0
  requests := []
  lastOutcome := false

def State.setRefresh (s : State P H C) (r : Nat) (x : Refresh) : State P H C :=
  { s with refresh := Function.update s.refresh r x }

def State.setOperation (s : State P H C) (j : Nat) (x : Operation P H) : State P H C :=
  { s with operation := Function.update s.operation j x }

def State.setBody (s : State P H C) (b : Nat) (x : Body C) : State P H C :=
  { s with body := Function.update s.body b x }

def State.setProgress (s : State P H C) (j : Nat) (progress : Progress H) : State P H C :=
  s.setOperation j { s.operation j with progress := progress }

/-- `project`: the operation runs behind the last one of the projection queue. -/
def State.project (s : State P H C) (task : Task) : State P H C :=
  { s.setOperation s.operations ⟨s.projectionQueue, task, .queued, 0, s.projection⟩ with
    operations := s.operations + 1
    projectionQueue := some s.operations }

/-! ## Refreshes -/

/-- The work of the refresh reaches its `project`. -/
def State.projectRefresh (s : State P H C) (r : Nat) : State P H C :=
  (s.setRefresh r { s.refresh r with operation := some s.operations }).project (.refresh r)

/-- A new refresh, behind the one in flight if there is one. -/
def State.createRefresh (s : State P H C) : State P H C :=
  let created : State P H C :=
    { s.setRefresh s.refreshes
        ⟨s.refreshGeneration, s.refreshInFlight, none, .pending, false, s.time⟩ with
      refreshes := s.refreshes + 1
      refreshInFlight := some s.refreshes }
  if s.refreshInFlight.isNone then created.projectRefresh s.refreshes else created

def State.request (s : State P H C) (r : Nat) : State P H C :=
  { s with requests := ⟨s.refreshGeneration, r, s.time⟩ :: s.requests }

/-- `refreshAt`, at the generation of the moment: the refresh in flight serves if it is of that
generation. -/
def State.refreshAt (s : State P H C) : State P H C × Nat :=
  match s.refreshInFlight with
  | some r =>
      if s.refreshGeneration ≤ (s.refresh r).generation then (s.request r, r)
      else (s.createRefresh.request s.refreshes, s.refreshes)
  | none => (s.createRefresh.request s.refreshes, s.refreshes)

/-- The refresh took too long: its promise is rejected and the queues are released. -/
def State.abandon (s : State P H C) (r : Nat) : State P H C :=
  { s.setRefresh r { s.refresh r with
      promise := .rejected .freshnessUnavailable, abandoned := true } with
    available := false
    lastOutcome := false
    refreshInFlight := if s.refreshInFlight = some r then none else s.refreshInFlight
    projectionQueue := none
    queue := none }

/-- The work of the refresh has settled. -/
def State.finishRefresh (s : State P H C) (r : Nat) (result : Except Failure Bool) : State P H C :=
  let promise := match result with
    | .ok _ => Promise.fulfilled
    | .error failure => .rejected failure
  s.setRefresh r { s.refresh r with promise := promise }

/-! ## Synchronization -/

/-- The loop over the blocks, at its head. -/
def Options.catchUp [DecidableEq H] (o : Options P B H C) (p : P) (tip : Tip H) (number : Nat)
    (late : Bool) : Sync H :=
  if number < tip.height then
    if late then .ended (.error .projectionBehind) else .block tip number
  else if o.blockCheckpoint p ≠ some (tip.height - 1, tip.blockHash) then
    .ended (.error .projectionInvalid)
  else if late then .ended (.error .projectionBehind)
  else .ended (.ok ())

/-- The number of the next block. -/
def Options.next (o : Options P B H C) (p : P) : Nat :=
  (o.blockCheckpoint p).elim 0 fun checkpoint => checkpoint.1 + 1

/-- `getTip` has answered: it threw, or gave a tip that may be malformed. -/
def Options.onTip [DecidableEq H] (o : Options P B H C) (p : P) (late : Bool) :
    Option (Option (Tip H)) → Sync H
  | none => .ended (.error .freshnessUnavailable)
  | some none => .ended (.error .projectionBehind)
  | some (some tip) =>
      if tip.height < 1 ∨ tip.height < o.next p then .ended (.error .projectionBehind)
      else o.catchUp p tip (o.next p) late

/-- `getBlock` has answered: it threw, or gave bytes that the projection may refuse. -/
def Options.onBlock [DecidableEq H] (o : Options P B H C) (p : P) (tip : Tip H) (number : Nat)
    (late : Bool) : Option B → P × Sync H
  | none => (p, .ended (.error .projectionBehind))
  | some bytes =>
      match o.applyBlock p bytes with
      | none => (p, .ended (.error .projectionInvalid))
      | some p' => (p', o.catchUp p' tip (number + 1) late)

/-- `committed`, for the command of the body. -/
def State.committed (s : State P H C) (o : Options P B H C) (b : Nat) : Except Failure Bool :=
  (s.body b).kind.command.elim (.error .other) (o.committed s.projection)

/-- The projection queue reaches the operation. -/
def State.startOperation (s : State P H C) (o : Options P B H C) (j : Nat) : State P H C :=
  let x := s.operation j
  match x.task with
  | .ready b =>
      s.setProgress j (.settled
        (if s.available then s.committed o b else .error .freshnessUnavailable))
  | .answer b => s.setProgress j (.settled (s.committed o b))
  | _ => s.setOperation j { x with
      progress := .synchronizing .tip, startedAt := s.time, sees := s.projection }

def State.isAbandoned (s : State P H C) (j : Nat) : Bool :=
  match (s.operation j).task with
  | .refresh r => (s.refresh r).abandoned
  | _ => false

/-- Behind its `synchronize`, an operation settles or goes on to check its command. -/
def Task.afterSync : Task → Except Failure Unit → Progress H
  | .preflight _, .ok () => .validating
  | _, .ok () => .settled (.ok false)
  | _, .error failure => .settled (.error failure)

/-- `synchronize` resumes and sets `available`. -/
def State.conclude (s : State P H C) (j : Nat) (result : Except Failure Unit) : State P H C :=
  { s.setProgress j ((s.operation j).task.afterSync result) with
    available := result.toBool
    lastOutcome := if s.isAbandoned j then s.lastOutcome else result.toBool }

/-- The preflight checks for a prior result, and the command against the projection. -/
def State.validated (s : State P H C) (o : Options P B H C) (b : Nat) : Except Failure Bool := do
  if ← s.committed o b then return true
  (s.body b).kind.command.elim (.error .other) (o.validateCommand s.projection)
  return false

/-! ## Serial operations -/

/-- `serial`: the body runs behind the last one of the queue; too many are refused. -/
def State.serial (s : State P H C) (o : Options P B H C) (kind : Kind C) : State P H C :=
  if s.pendingCommands ≥ o.maxPendingCommands then s
  else
    { s.setBody s.bodies ⟨s.queue, kind, .queued⟩ with
      bodies := s.bodies + 1
      queue := some s.bodies
      pendingCommands := s.pendingCommands + 1 }

def State.setStage (s : State P H C) (b : Nat) (stage : Stage) : State P H C :=
  s.setBody b { s.body b with stage := stage }

def State.settleBody (s : State P H C) (b : Nat) : State P H C :=
  { s.setStage b .settled with pendingCommands := s.pendingCommands - 1 }

/-- The queue reaches the body. -/
def State.runBody (s : State P H C) (o : Options P B H C) (b : Nat) : State P H C :=
  match (s.body b).kind with
  | .recoverPending => s.setStage b .transport
  | .execute c =>
      if o.routed c then (s.setStage b (.projecting s.operations)).project (.preflight b)
      else s.settleBody b
  | .observeCommand c _ =>
      if o.routed c then (s.setStage b (.projecting s.operations)).project (.ready b)
      else s.settleBody b

/-- A transport call settled: any later refresh must see what it wrote. -/
def State.bump (s : State P H C) : State P H C :=
  { s with
    refreshGeneration := s.refreshGeneration + 1
    settledAt := Function.update s.settledAt (s.refreshGeneration + 1) s.time }

def State.refreshBody (s : State P H C) (b : Nat) : State P H C :=
  let (t, r) := s.bump.refreshAt
  t.setStage b (.refreshing r)

/-- The transport call of the body settles. -/
def State.submitted (s : State P H C) (b : Nat) (submission : Submission) : State P H C :=
  match (s.body b).kind, submission with
  | .execute _, .sent => s.refreshBody b
  | .execute _, _ => s.bump.settleBody b
  | .recoverPending, .threw => s.bump.settleBody b
  | .recoverPending, _ => s.refreshBody b
  | .observeCommand _ _, .threw => s.settleBody b
  | .observeCommand _ queryPeer, _ =>
      if queryPeer then s.refreshBody b
      else (s.setStage b (.answering s.operations)).project (.answer b)

/-- What the body awaits has settled. -/
def State.resumeBody (s : State P H C) (b : Nat) : Option (State P H C) :=
  match (s.body b).stage with
  | .projecting j =>
      match (s.operation j).progress with
      | .settled (.ok false) => some (s.setStage b .transport)
      | .settled _ => some (s.settleBody b)
      | _ => none
  | .refreshing r =>
      match (s.refresh r).promise, (s.body b).kind with
      | .pending, _ => none
      | .fulfilled, .observeCommand _ _ =>
          some ((s.setStage b (.answering s.operations)).project (.answer b))
      | _, _ => some (s.settleBody b)
  | .answering j => if (s.operation j).progress.isSettled then some (s.settleBody b) else none
  | _ => none

/-! ## Steps -/

def State.take [DecidableEq H] (s : State P H C) (o : Options P B H C) :
    Event B H C → Option (State P H C)
  | .refresh => some s.refreshAt.1
  | .call kind => some (s.serial o kind)
  | .timeout r =>
      if r < s.refreshes ∧ (s.refresh r).promise = .pending then some (s.abandon r) else none
  | .follow r =>
      match (s.refresh r).previous with
      | some p =>
          if r < s.refreshes ∧ (s.refresh r).operation = none ∧ (s.refresh p).promise ≠ .pending
          then some (s.projectRefresh r) else none
      | none => none
  | .finish r =>
      match (s.refresh r).operation with
      | some j =>
          match (s.operation j).progress with
          | .settled result =>
              if r < s.refreshes ∧ (s.refresh r).promise = .pending then
                some (s.finishRefresh r result)
              else none
          | _ => none
      | none => none
  | .clear r =>
      if r < s.refreshes ∧ (s.refresh r).promise ≠ .pending ∧ s.refreshInFlight = some r then
        some { s with refreshInFlight := none }
      else none
  | .start j =>
      match (s.operation j).progress with
      | .queued =>
          if j < s.operations ∧
              ∀ i, (s.operation j).after = some i → (s.operation i).progress.isSettled = true then
            some (s.startOperation o j)
          else none
      | _ => none
  | .tip j answer late =>
      match (s.operation j).progress with
      | .synchronizing .tip =>
          if j < s.operations then
            some (s.setProgress j (.synchronizing (o.onTip s.projection late answer)))
          else none
      | _ => none
  | .block j answer late =>
      match (s.operation j).progress with
      | .synchronizing (.block tip number) =>
          if j < s.operations then
            let (p, sync) := o.onBlock s.projection tip number late answer
            some { s.setOperation j { s.operation j with
                progress := .synchronizing sync, sees := p } with projection := p }
          else none
      | _ => none
  | .conclude j =>
      match (s.operation j).progress with
      | .synchronizing (.ended result) =>
          if j < s.operations then some (s.conclude j result) else none
      | _ => none
  | .validate j =>
      match (s.operation j).progress, (s.operation j).task with
      | .validating, .preflight b =>
          if j < s.operations then some (s.setProgress j (.settled (s.validated o b))) else none
      | _, _ => none
  | .run b =>
      if b < s.bodies ∧ (s.body b).stage = .queued ∧
          ∀ a, (s.body b).after = some a → (s.body a).stage = .settled then
        some (s.runBody o b)
      else none
  | .transport b submission =>
      if b < s.bodies ∧ (s.body b).stage = .transport then some (s.submitted b submission)
      else none
  | .resume b => if b < s.bodies then s.resumeBody b else none

/-- One event, and the time goes on. -/
def Options.step [DecidableEq H] (o : Options P B H C) (s : State P H C) (e : Event B H C) :
    Option (State P H C) :=
  (s.take o e).map fun t => { t with time := s.time + 1 }

end Knowledger.ApplicationLedger
