import Knowledger.Storage.DeliveryContract
import Knowledger.Lib.Machine
import Knowledger.Requests
import Knowledger.Lib.Utf8

/-!
# Review reminders

The review store keeps, for each revision, the schedule that was written last, a row for each
of its assignees, and the reminders that were recorded.  A scan lists who is due and not yet
reminded, a page at a time, and records a reminder for each candidate, which may be stale by
then.  A JSON column is the value whose text it holds.
-/

namespace Knowledger.Reviews

open Js Storage

/-! ## Records -/

/-- What an operation throws: a `ReviewStoreError`, an error of the database, the error of a
value without a canonical text, or what the callback throws. -/
inductive ReviewFailure
  | store (code : String) (status : Nat)
  | constraint
  | domain (error : DomainError)
  | callback

def corrupt : ReviewFailure := .store "REVIEW_RECORD_CORRUPT" 503

structure ReviewSchedule where
  revisionDigest : String
  version : Int
  assignees : List Person
  dueAt : Option String
  repeatAfterDays : Option Int
  completedAt : Option String
  deriving DecidableEq

inductive EventKind
  | comment
  | schedule
  | reviewed
  deriving DecidableEq

/-- Who writes, as the application authenticated it. -/
structure Author extends Person where
  kind : ActorKind
  deriving DecidableEq

structure ReviewEvent where
  eventId : String
  revisionDigest : String
  author : Author
  createdAt : String
  kind : EventKind
  body : Str
  mentions : List Person
  schedule : Option ReviewSchedule
  deriving DecidableEq

/-- `reviewPeople`: at most 16 people, each once. -/
def reviewPeople (people : List Person) : Bool :=
  Nat.ble people.length 16 && people.all (fun p => isId p.orgId && isId p.actorId) &&
    decide people.Nodup

/-- What `scheduleFrom` accepts as a schedule of the revision. -/
def scheduleFits (value : ReviewSchedule) (digest : String) : Bool :=
  value.revisionDigest == digest && isDigest digest && isSafeInteger value.version &&
    decide (1 ≤ value.version) && reviewPeople value.assignees && !value.assignees.isEmpty &&
    value.dueAt.all deliveryIso && value.completedAt.all deliveryIso &&
    value.repeatAfterDays.all (fun days => value.dueAt.isSome && isSafeInteger days &&
      decide (1 ≤ days) && decide (days ≤ 3650))

/-- `eventFrom` on an event that was just built. -/
def eventFits (event : ReviewEvent) : Bool :=
  isDigest event.revisionDigest && isId event.eventId && deliveryIso event.createdAt &&
    reviewPeople [event.author.toPerson] && bodyFits (some (.str event.body)) &&
    reviewPeople event.mentions && (event.kind == .comment) == event.schedule.isNone &&
    event.schedule.all fun schedule => scheduleFits schedule event.revisionDigest

/-! ## Tables -/

structure EventRow where
  person : Person
  operationId : String
  requestDigest : String
  event : ReviewEvent

structure AssigneeRow where
  revisionDigest : String
  person : Person
  dueAt : Option String
  deriving DecidableEq

structure NotificationRow where
  eventId : String
  person : Person
  deriving DecidableEq

inductive Phase
  | due
  | overdue
  deriving DecidableEq

def Phase.text : Phase → String
  | .due => "due"
  | .overdue => "overdue"

structure ReminderRow where
  reminderId : String
  revisionDigest : String
  scheduleVersion : Int
  person : Person
  phase : Phase
  dueAt : String
  createdAt : String
  deriving DecidableEq

/-- The tables; rows that get a sequence number are in its order. -/
structure State where
  events : List EventRow
  schedules : List (String × ReviewSchedule)
  assignees : List AssigneeRow
  notifications : List NotificationRow
  reminders : List ReminderRow

def State.new : State := ⟨[], [], [], [], []⟩

/-! ## Writing -/

/-- `schedule` -/
def State.schedule (s : State) (digest : String) : Except ReviewFailure (Option ReviewSchedule) :=
  match s.schedules.lookup digest with
  | none => .ok none
  | some value => if scheduleFits value digest then .ok (some value) else .error corrupt

/-- What the callback of `write` makes of the current schedule. -/
structure Details where
  kind : EventKind
  body : Str
  mentions : List Person
  schedule : Option ReviewSchedule
  recipients : List Person

/-- The new schedule replaces the old one and its assignees. -/
def State.setSchedule (s : State) (digest : String) (schedule : ReviewSchedule) : State :=
  { s with
    schedules := (digest, schedule) :: s.schedules.filter fun row => row.1 ≠ digest
    assignees := (s.assignees.filter fun row => row.revisionDigest ≠ digest) ++
      schedule.assignees.map fun person => ⟨digest, person, schedule.dueAt⟩ }

/-- `INSERT OR IGNORE INTO review_notifications`, for everyone but the author. -/
def State.notify (s : State) (eventId : String) (author : Person) : List Person → State
  | [] => s
  | recipient :: rest =>
      let row : NotificationRow := ⟨eventId, recipient⟩
      if recipient ≠ author ∧ row ∉ s.notifications then
        State.notify { s with notifications := s.notifications ++ [row] } eventId author rest
      else State.notify s eventId author rest

/-- The event with its schedule and its notifications. -/
def State.append (s : State) (row : EventRow) (recipients : List Person) : State :=
  let inserted : State := { s with events := s.events ++ [row] }
  let scheduled := match row.event.schedule with
    | none => inserted
    | some schedule => inserted.setSchedule row.event.revisionDigest schedule
  scheduled.notify row.event.eventId row.person recipients

section

variable [Sha256]

def requestDigest (actor : Author) (digest : String) (input : Value) :
    Except ReviewFailure String := do
  let text ← (canonicalize (record [("digest", jsonString digest), ("input", input),
    ("actor", record [("org_id", jsonString actor.orgId), ("actor_id", jsonString actor.actorId),
      ("kind", jsonString actor.kind.text)])])).mapError .domain
  return Sha256.hexDigest text

/-- `write`, with the event id and the time that it draws. -/
def State.write (s : State) (actor : Author) (digest operationId : String) (input : Value)
    (build : Option ReviewSchedule → Except ReviewFailure Details) (eventId createdAt : String) :
    Except ReviewFailure (ReviewEvent × State) := do
  let request ← requestDigest actor digest input
  match s.events.find? fun row => row.person = actor.toPerson ∧ row.operationId = operationId with
  | some existing =>
      if existing.requestDigest ≠ request then .error (.store "IDEMPOTENCY_CONFLICT" 409)
      else if eventFits existing.event then .ok (existing.event, s)
      else .error corrupt
  | none =>
      let current ← s.schedule digest
      let details ← build current
      let event : ReviewEvent := ⟨eventId, digest, actor, createdAt, details.kind, details.body,
        details.mentions, details.schedule⟩
      if !eventFits event then .error corrupt
      else if s.events.any fun row => row.event.eventId = eventId then .error .constraint
      else .ok (event, s.append ⟨actor.toPerson, operationId, request, event⟩ details.recipients)

/-! ## Reminding -/

/-- Candidates are listed by due date, revision and person. -/
structure ReminderPosition where
  dueAt : String
  revisionDigest : String
  person : Person
  deriving DecidableEq

omit [Sha256] in
@[ext] theorem ReminderPosition.ext {p q : ReminderPosition} (dueAt : p.dueAt = q.dueAt)
    (revisionDigest : p.revisionDigest = q.revisionDigest) (person : p.person = q.person) :
    p = q := by
  cases p
  cases q
  simp_all

def ReminderPosition.key (p : ReminderPosition) : String ×ₗ String ×ₗ String ×ₗ String :=
  toLex (p.dueAt, toLex (p.revisionDigest, toLex (p.person.orgId, p.person.actorId)))

structure ReminderCandidate where
  schedule : ReviewSchedule
  recipient : Person
  phase : Phase
  position : ReminderPosition
  deriving DecidableEq

def phaseAt (dueAt overdueBefore : String) : Phase :=
  if dueAt ≤ overdueBefore then .overdue else .due

/-- A reminder of the phase, or of being overdue, was recorded for this version. -/
def State.reminded (s : State) (digest : String) (version : Int) (person : Person)
    (phase : Phase) : Bool :=
  s.reminders.any fun r => r.revisionDigest = digest ∧ r.scheduleVersion = version ∧
    r.person = person ∧ (r.phase = .overdue ∨ r.phase = phase)

/-- The row of the query for an assignee, with its due date. -/
def State.reminderRow (s : State) (now overdueBefore : String) (after : Option ReminderPosition)
    (row : AssigneeRow) : Option ReminderCandidate := do
  let schedule ← s.schedules.lookup row.revisionDigest
  let dueAt ← row.dueAt
  let position : ReminderPosition := ⟨dueAt, row.revisionDigest, row.person⟩
  let phase := phaseAt dueAt overdueBefore
  if dueAt ≤ now ∧ s.reminded row.revisionDigest schedule.version row.person phase = false ∧
      after.all (fun p => p.key < position.key) then
    some ⟨schedule, row.person, phase, position⟩
  else none

/-- The rows of the query, in order. -/
def State.reminderRows (s : State) (now overdueBefore : String)
    (after : Option ReminderPosition) : List ReminderCandidate :=
  (s.assignees.filterMap (s.reminderRow now overdueBefore after)).insertionSort fun a b =>
    a.position.key ≤ b.position.key

def ReminderCandidate.fits (c : ReminderCandidate) : Bool :=
  scheduleFits c.schedule c.position.revisionDigest && c.schedule.dueAt == some c.position.dueAt &&
    c.schedule.assignees.contains c.recipient

/-- `reminderCandidates` -/
def State.reminderCandidates (s : State) (now overdueBefore : String)
    (after : Option ReminderPosition) (limit : Nat) :
    Except ReviewFailure (List ReminderCandidate) :=
  if !deliveryIso now || !deliveryIso overdueBefore || limit < 1 || limit > 100 then
    .error (.store "INVALID_QUERY" 400)
  else
    let rows := (s.reminderRows now overdueBefore after).take limit
    if rows.all ReminderCandidate.fits then .ok rows else .error corrupt

/-- The canonical text that a reminder is named after. -/
def reminderText (digest : String) (version : Int) (person : Person) (phase : Phase) :
    Except DomainError String :=
  canonicalize (.arr [jsonString digest, .num (.int version),
    record [("org_id", jsonString person.orgId), ("actor_id", jsonString person.actorId)],
    jsonString phase.text])

def reminderId (digest : String) (version : Int) (person : Person) (phase : Phase) :
    Except ReviewFailure String := do
  let text ← (reminderText digest version person phase).mapError .domain
  return "reminder-" ++ String.ofList ((Sha256.hexDigest text).toList.take 48)

/-- `INSERT OR IGNORE INTO review_reminders`, and whether it inserted. -/
def State.insertReminder (s : State) (row : ReminderRow) : Bool × State :=
  if s.reminders.any fun r => r.reminderId = row.reminderId ∨
      (r.revisionDigest = row.revisionDigest ∧ r.scheduleVersion = row.scheduleVersion ∧
        r.person = row.person ∧ r.phase = row.phase) then (false, s)
  else (true, { s with reminders := s.reminders ++ [row] })

/-- `recordReminder` -/
def State.recordReminder (s : State) (candidate : ReminderCandidate) (now : String) :
    Except ReviewFailure (Bool × State) := do
  let schedule := candidate.schedule
  let digest := schedule.revisionDigest
  match ← s.schedule digest with
  | none => return (false, s)
  | some current =>
      match current.dueAt with
      | none => return (false, s)
      | some dueAt =>
          if current.version = schedule.version ∧ schedule.dueAt = some dueAt ∧ dueAt ≤ now ∧
              candidate.recipient ∈ current.assignees ∧
              (candidate.phase ≠ .due ∨ ¬ ∃ r ∈ s.reminders, r.revisionDigest = digest ∧
                r.scheduleVersion = schedule.version ∧ r.person = candidate.recipient ∧
                r.phase = .overdue) then
            let id ← reminderId digest schedule.version candidate.recipient candidate.phase
            return s.insertReminder ⟨id, digest, schedule.version, candidate.recipient,
              candidate.phase, dueAt, now⟩
          else return (false, s)

/-- When a batch is generated, and since when a review that is due is overdue by then. -/
structure Tick where
  now : String
  overdueBefore : String
  deriving DecidableEq

/-- `generateReviewReminders`: a batch is recorded for those who are served, and the next one
goes on behind it. -/
def State.generate (s : State) (serves : Person → Bool) (position : Option ReminderPosition)
    (tick : Tick) (batchSize : Nat) :
    Except ReviewFailure (State × Option ReminderPosition) := do
  let candidates ← s.reminderCandidates tick.now tick.overdueBefore position batchSize
  let recorded ← (candidates.filter fun c => serves c.recipient).foldlM
    (fun t c => Prod.snd <$> t.recordReminder c tick.now) s
  return (recorded, if candidates.length < batchSize then none
    else candidates.getLast?.map ReminderCandidate.position)

/-- The batches from a position on, each at a time of its own, until one is short. -/
def State.scan (serves : Person → Bool) (batchSize : Nat) :
    List Tick → State → Option ReminderPosition → Except ReviewFailure (Option State)
  | [], _, _ => .ok none
  | tick :: ticks, s, position => do
      let (t, next) ← s.generate serves position tick batchSize
      match next with
      | none => return some t
      | some p => State.scan serves batchSize ticks t (some p)

/-! ## Runs -/

inductive Event
  /-- A schedule, a comment or a completion is written, or an earlier request is repeated. -/
  | write (actor : Author) (digest operationId : String) (input : Value)
      (build : Option ReviewSchedule → Except ReviewFailure Details) (eventId createdAt : String)
  /-- A candidate is recorded that some scan returned, now or long ago. -/
  | record (candidate : ReminderCandidate) (now : String)

/-- A failed operation is rolled back. -/
def State.step (s : State) : Event → Option State
  | .write actor digest operationId input build eventId createdAt =>
      match s.write actor digest operationId input build eventId createdAt with
      | .ok (_, t) => some t
      | .error _ => some s
  | .record candidate now =>
      match s.recordReminder candidate now with
      | .ok (_, t) => some t
      | .error _ => some s

/-! ## The schedules and their assignees -/

omit [Sha256] in
theorem lookup_filter {d digest : String} (other : d ≠ digest)
    (rows : List (String × ReviewSchedule)) :
    (rows.filter fun row => row.1 ≠ digest).lookup d = rows.lookup d := by
  induction rows with
  | nil => rfl
  | cons row rows ih =>
      obtain ⟨e, schedule⟩ := row
      by_cases own : e = digest
      · subst own
        rw [List.filter_cons_of_neg (by simp), ih, List.lookup_cons,
          beq_eq_false_iff_ne.mpr other]
      · rw [List.filter_cons_of_pos (by simpa using own), List.lookup_cons, List.lookup_cons, ih]

omit [Sha256] in
theorem State.setSchedule_lookup (s : State) (digest d : String) (schedule : ReviewSchedule) :
    (s.setSchedule digest schedule).schedules.lookup d =
      if d = digest then some schedule else s.schedules.lookup d := by
  rw [State.setSchedule, List.lookup_cons]
  by_cases own : d = digest
  · simp [own]
  · rw [beq_eq_false_iff_ne.mpr own, if_neg own]
    exact lookup_filter own s.schedules

omit [Sha256] in
/-- Only the notifications change. -/
theorem State.notify_eq (s : State) (eventId : String) (author : Person)
    (recipients : List Person) :
    ∃ rows, s.notify eventId author recipients = { s with notifications := rows } := by
  induction recipients generalizing s with
  | nil => exact ⟨s.notifications, rfl⟩
  | cons recipient rest ih =>
      rw [State.notify]
      split_ifs
      · obtain ⟨rows, is⟩ := ih { s with notifications := s.notifications ++ [⟨eventId, recipient⟩] }
        exact ⟨rows, is⟩
      · exact ih s

/-- Whom a reminder reminds, of which version, and how. -/
structure Subject where
  revisionDigest : String
  version : Int
  person : Person
  deriving DecidableEq

def ReminderRow.subject (r : ReminderRow) : Subject :=
  ⟨r.revisionDigest, r.scheduleVersion, r.person⟩

/-- The later reminder has another id, and on the same subject it follows a `due` reminder with
an `overdue` one. -/
def Succeeds (a b : ReminderRow) : Prop :=
  a.reminderId ≠ b.reminderId ∧ (a.subject = b.subject → a.phase = .due ∧ b.phase = .overdue)

/-- What every operation keeps. -/
structure State.Sound (s : State) : Prop where
  valid : ∀ d schedule, s.schedules.lookup d = some schedule → scheduleFits schedule d = true
  mirror : ∀ row : AssigneeRow, row ∈ s.assignees ↔ ∃ schedule,
    s.schedules.lookup row.revisionDigest = some schedule ∧ row.person ∈ schedule.assignees ∧
      row.dueAt = schedule.dueAt
  distinct : s.assignees.Nodup
  succeed : s.reminders.Pairwise Succeeds
  named : ∀ r ∈ s.reminders,
    reminderId r.revisionDigest r.scheduleVersion r.person r.phase = .ok r.reminderId

theorem State.Sound.new : State.new.Sound where
  valid _ _ found := by cases found
  mirror row := by simp [State.new]
  distinct := List.nodup_nil
  succeed := .nil
  named := List.forall_mem_nil _

omit [Sha256] in
theorem scheduleFits_assignees {schedule : ReviewSchedule} {digest : String}
    (fits : scheduleFits schedule digest = true) : schedule.assignees.Nodup := by
  simp only [scheduleFits, reviewPeople, Bool.and_eq_true, decide_eq_true_eq] at fits
  exact fits.1.1.1.1.2.2

theorem State.Sound.setSchedule {s : State} (sound : s.Sound) {digest : String}
    {schedule : ReviewSchedule} (fits : scheduleFits schedule digest = true) :
    (s.setSchedule digest schedule).Sound where
  valid d found is := by
    rw [State.setSchedule_lookup] at is
    split_ifs at is with own
    · subst own
      exact Option.some.inj is ▸ fits
    · exact sound.valid d found is
  mirror row := by
    rw [State.setSchedule_lookup]
    simp only [State.setSchedule, List.mem_append, List.mem_filter, List.mem_map,
      decide_eq_true_eq]
    by_cases own : row.revisionDigest = digest
    · rw [if_pos own]
      constructor
      · rintro (⟨-, other⟩ | ⟨person, mem, rfl⟩)
        · exact absurd own other
        · exact ⟨schedule, rfl, mem, rfl⟩
      · rintro ⟨found, is, mem, due⟩
        obtain rfl := Option.some.inj is
        refine .inr ⟨row.person, mem, ?_⟩
        obtain ⟨d, person, dueAt⟩ := row
        simp only at own due
        rw [own, due]
    · rw [if_neg own, sound.mirror]
      constructor
      · rintro (⟨found, -⟩ | ⟨person, -, rfl⟩)
        · exact found
        · exact absurd rfl own
      · exact fun found => .inl ⟨found, own⟩
  distinct := by
    rw [State.setSchedule, List.nodup_append]
    refine ⟨sound.distinct.filter _, ?_, fun a old b new same => ?_⟩
    · refine (scheduleFits_assignees fits).map fun p q same => ?_
      exact (AssigneeRow.mk.inj same).2.1
    · obtain ⟨person, -, rfl⟩ := List.mem_map.mp new
      have other := (List.mem_filter.mp old).2
      simp [same] at other
  succeed := sound.succeed
  named := sound.named

theorem State.Sound.append {s : State} (sound : s.Sound) {row : EventRow}
    (fits : eventFits row.event = true) (recipients : List Person) :
    (s.append row recipients).Sound ∧ (s.append row recipients).reminders = s.reminders := by
  have inserted : State.Sound { s with events := s.events ++ [row] } :=
    ⟨sound.valid, sound.mirror, sound.distinct, sound.succeed, sound.named⟩
  simp only [eventFits, Bool.and_eq_true] at fits
  rw [State.append]
  cases is : row.event.schedule with
  | none =>
      obtain ⟨rows, same⟩ := State.notify_eq { s with events := s.events ++ [row] }
        row.event.eventId row.person recipients
      simp only [same]
      exact ⟨⟨sound.valid, sound.mirror, sound.distinct, sound.succeed, sound.named⟩, trivial⟩
  | some schedule =>
      have schedules := fits.2
      rw [is, Option.all_some] at schedules
      have next := inserted.setSchedule schedules
      obtain ⟨rows, same⟩ := State.notify_eq
        ({ s with events := s.events ++ [row] }.setSchedule row.event.revisionDigest schedule)
        row.event.eventId row.person recipients
      simp only [same]
      exact ⟨⟨next.valid, next.mirror, next.distinct, next.succeed, next.named⟩, rfl⟩

/-- **A write** keeps the tables, and records no reminder. -/
theorem State.Sound.write {s t : State} (sound : s.Sound) {actor : Author}
    {digest operationId : String} {input : Value}
    {build : Option ReviewSchedule → Except ReviewFailure Details} {eventId createdAt : String}
    {event : ReviewEvent}
    (run : s.write actor digest operationId input build eventId createdAt = .ok (event, t)) :
    t.Sound ∧ t.reminders = s.reminders := by
  simp only [State.write, bind_ok] at run
  obtain ⟨request, -, run⟩ := run
  split at run
  · split_ifs at run
    cases run
    exact ⟨sound, rfl⟩
  · simp only [bind_ok] at run
    obtain ⟨current, -, details, -, run⟩ := run
    split_ifs at run with fits fresh
    obtain ⟨rfl, rfl⟩ := Prod.mk.inj (Except.ok.inj run)
    exact sound.append (by simpa using fits) details.recipients

/-! ## Recording a reminder -/

/-- The reminder is one for the schedule that is stored, which is due. -/
structure State.Current (s : State) (now : String) (r : ReminderRow) : Prop where
  schedule : ∃ schedule, s.schedules.lookup r.revisionDigest = some schedule ∧
    schedule.version = r.scheduleVersion ∧ schedule.dueAt = some r.dueAt ∧
      r.person ∈ schedule.assignees
  due : r.dueAt ≤ now
  first : r.phase = .due → ∀ q ∈ s.reminders, q.subject = r.subject → q.phase ≠ .overdue

/-- **Recording** a candidate, however stale, adds nothing or one reminder for what is current. -/
theorem State.recordReminder_cases {s t : State} {candidate : ReminderCandidate} {now : String}
    {created : Bool} (run : s.recordReminder candidate now = .ok (created, t)) :
    (created = false ∧ t = s) ∨ (created = true ∧ ∃ r : ReminderRow,
      t = { s with reminders := s.reminders ++ [r] } ∧ s.Current now r ∧
      r.phase = candidate.phase ∧
      reminderId r.revisionDigest r.scheduleVersion r.person r.phase = .ok r.reminderId ∧
      ∀ q ∈ s.reminders, q.reminderId ≠ r.reminderId ∧
        ¬ (q.subject = r.subject ∧ q.phase = r.phase)) := by
  simp only [State.recordReminder, bind_ok] at run
  obtain ⟨found, looked, run⟩ := run
  rw [State.schedule] at looked
  cases stored : s.schedules.lookup candidate.schedule.revisionDigest with
  | none =>
      rw [stored] at looked
      cases looked
      cases run
      exact .inl ⟨rfl, rfl⟩
  | some current =>
      rw [stored] at looked
      dsimp only at looked
      split_ifs at looked with fits
      cases looked
      dsimp only at run
      cases due : current.dueAt with
      | none =>
          rw [due] at run
          cases run
          exact .inl ⟨rfl, rfl⟩
      | some dueAt =>
          rw [due] at run
          dsimp only at run
          split_ifs at run with passes
          · simp only [bind_ok] at run
            obtain ⟨id, named, run⟩ := run
            obtain ⟨version, same, soon, assigned, first⟩ := passes
            replace run := Except.ok.inj run
            rw [State.insertReminder] at run
            split_ifs at run with taken
            · cases run
              exact .inl ⟨rfl, rfl⟩
            · obtain ⟨rfl, rfl⟩ := Prod.mk.inj run
              refine .inr ⟨rfl, _, rfl, ⟨⟨current, stored, version, due, assigned⟩, soon, ?_⟩, rfl,
                named, fun q mem => ?_⟩
              · intro phase q mem subject overdue
                rcases first with other | none
                · exact other phase
                · obtain ⟨d, v, p⟩ := Subject.mk.inj subject
                  exact none ⟨q, mem, d, v, p, overdue⟩
              · simp only [List.any_eq_true, decide_eq_true_eq, not_exists, not_and, not_or] at taken
                obtain ⟨id, key⟩ := taken q mem
                refine ⟨id, fun ⟨subject, phase⟩ => ?_⟩
                obtain ⟨d, v, p⟩ := Subject.mk.inj subject
                exact key d v p phase
          · cases run
            exact .inl ⟨rfl, rfl⟩

theorem State.Sound.record {s t : State} (sound : s.Sound) {candidate : ReminderCandidate}
    {now : String} {created : Bool} (run : s.recordReminder candidate now = .ok (created, t)) :
    t.Sound := by
  rcases State.recordReminder_cases run with ⟨-, rfl⟩ | ⟨-, r, rfl, current, -, named, fresh⟩
  · exact sound
  · refine ⟨sound.valid, sound.mirror, sound.distinct, ?_, ?_⟩
    · refine List.pairwise_append.mpr ⟨sound.succeed, List.pairwise_singleton _ _, ?_⟩
      intro q mem r' last
      obtain rfl := List.mem_singleton.mp last
      obtain ⟨id, key⟩ := fresh q mem
      refine ⟨id, fun subject => ?_⟩
      have phases : q.phase ≠ r'.phase := fun phase => key ⟨subject, phase⟩
      have first := current.first
      cases later : r'.phase with
      | due =>
          have := first later q mem subject
          cases earlier : q.phase with
          | due => exact absurd (earlier.trans later.symm) phases
          | overdue => exact absurd earlier this
      | overdue =>
          cases earlier : q.phase with
          | due => exact ⟨rfl, rfl⟩
          | overdue => exact absurd (earlier.trans later.symm) phases
    · intro q mem
      rcases List.mem_append.mp mem with old | last
      · exact sound.named q old
      · obtain rfl := List.mem_singleton.mp last
        exact named

theorem State.Sound.step {s t : State} {e : Event} (sound : s.Sound) (taken : s.step e = some t) :
    t.Sound := by
  cases e with
  | write actor digest operationId input build eventId createdAt =>
      rw [State.step] at taken
      split at taken
      · next run =>
          obtain rfl := Option.some.inj taken
          exact (sound.write run).1
      · obtain rfl := Option.some.inj taken
        exact sound
  | record candidate now =>
      rw [State.step] at taken
      split at taken
      · next run =>
          obtain rfl := Option.some.inj taken
          exact sound.record run
      · obtain rfl := Option.some.inj taken
        exact sound

theorem State.Sound.run {events : List Event} {s : State}
    (taken : Machine.run State.step State.new events = some s) : s.Sound :=
  Machine.run_keeps (fun _ _ _ sound taken => sound.step taken) .new taken

/-! ## Listing the candidates -/

/-- The candidate is an assignee of the stored schedule who is due, in the phase that the time
gives, and was reminded neither of it nor of being overdue. -/
structure State.Due (s : State) (now overdueBefore : String) (c : ReminderCandidate) : Prop where
  schedule : s.schedules.lookup c.position.revisionDigest = some c.schedule
  assigned : c.recipient ∈ c.schedule.assignees
  dueAt : c.schedule.dueAt = some c.position.dueAt
  person : c.position.person = c.recipient
  soon : c.position.dueAt ≤ now
  phase : c.phase = phaseAt c.position.dueAt overdueBefore
  unreminded : ∀ r ∈ s.reminders, r.subject = ⟨c.position.revisionDigest, c.schedule.version,
    c.recipient⟩ → r.phase ≠ .overdue ∧ r.phase ≠ c.phase

omit [Sha256] in
theorem State.reminded_iff {s : State} {digest : String} {version : Int} {person : Person}
    {phase : Phase} : s.reminded digest version person phase = false ↔
      ∀ r ∈ s.reminders, r.subject = ⟨digest, version, person⟩ →
        r.phase ≠ .overdue ∧ r.phase ≠ phase := by
  simp only [State.reminded, List.any_eq_false, decide_eq_true_eq, not_and, not_or,
    ReminderRow.subject, Subject.mk.injEq, and_imp]

omit [Sha256] in
theorem ReminderPosition.key_inj {p q : ReminderPosition} : p.key = q.key ↔ p = q := by
  refine ⟨fun same => ?_, congrArg _⟩
  obtain ⟨due, digest, ⟨org, actor⟩⟩ := p
  obtain ⟨due', digest', ⟨org', actor'⟩⟩ := q
  simp only [ReminderPosition.key, EmbeddingLike.apply_eq_iff_eq, Prod.mk.injEq] at same
  obtain ⟨rfl, rfl, rfl, rfl⟩ := same
  rfl

omit [Sha256] in
theorem State.reminderRow_eq {s : State} {now overdueBefore : String}
    {after : Option ReminderPosition} {row : AssigneeRow} {c : ReminderCandidate} :
    s.reminderRow now overdueBefore after row = some c ↔
      s.schedules.lookup row.revisionDigest = some c.schedule ∧ row.dueAt = some c.position.dueAt ∧
        c.position = ⟨c.position.dueAt, row.revisionDigest, row.person⟩ ∧ c.recipient = row.person ∧
        c.phase = phaseAt c.position.dueAt overdueBefore ∧ c.position.dueAt ≤ now ∧
        s.reminded row.revisionDigest c.schedule.version row.person c.phase = false ∧
        ∀ p, after = some p → p.key < c.position.key := by
  rw [State.reminderRow]
  constructor
  · intro is
    obtain ⟨schedule, found, is⟩ := Option.bind_eq_some_iff.mp is
    obtain ⟨dueAt, due, is⟩ := Option.bind_eq_some_iff.mp is
    dsimp only at is
    split_ifs at is with passes
    obtain rfl := Option.some.inj is
    obtain ⟨soon, fresh, behind⟩ := passes
    refine ⟨found, due, rfl, rfl, rfl, soon, fresh, ?_⟩
    rintro p rfl
    simpa using behind
  · rintro ⟨found, due, position, recipient, phase, soon, fresh, behind⟩
    obtain ⟨schedule, recipient', phase', dueAt, digest, person⟩ := c
    obtain ⟨-, rfl, rfl⟩ := ReminderPosition.mk.inj position
    dsimp only at *
    subst recipient phase
    have last : after.all (fun p => p.key < (⟨dueAt, row.revisionDigest, row.person⟩ :
        ReminderPosition).key) = true := by
      cases after with
      | none => rfl
      | some p => simpa using behind p rfl
    simp [found, due, soon, fresh, last]

/-- The rows of the query are those who are due, behind the position. -/
theorem State.Sound.mem_reminderRows {s : State} (sound : s.Sound) {now overdueBefore : String}
    {after : Option ReminderPosition} {c : ReminderCandidate} :
    c ∈ s.reminderRows now overdueBefore after ↔
      s.Due now overdueBefore c ∧ ∀ p, after = some p → p.key < c.position.key := by
  rw [State.reminderRows, List.mem_insertionSort, List.mem_filterMap]
  constructor
  · rintro ⟨row, mem, is⟩
    obtain ⟨found, due, position, recipient, phase, soon, fresh, behind⟩ :=
      State.reminderRow_eq.mp is
    obtain ⟨schedule, stored, assigned, same⟩ := (sound.mirror row).mp mem
    obtain rfl := Option.some.inj (stored.symm.trans found)
    have digest : c.position.revisionDigest = row.revisionDigest := by rw [position]
    have person : c.position.person = row.person := by rw [position]
    refine ⟨⟨digest ▸ found, recipient ▸ assigned, same.symm.trans due, person.trans recipient.symm,
      soon, phase, ?_⟩, behind⟩
    rw [digest, recipient]
    exact State.reminded_iff.mp fresh
  · rintro ⟨due, behind⟩
    refine ⟨⟨c.position.revisionDigest, c.recipient, some c.position.dueAt⟩,
      (sound.mirror _).mpr ⟨c.schedule, due.schedule, due.assigned, due.dueAt.symm⟩,
      State.reminderRow_eq.mpr ⟨due.schedule, rfl, ?_, rfl, due.phase, due.soon,
        State.reminded_iff.mpr due.unreminded, behind⟩⟩
    rw [← due.person]

omit [Sha256] in
/-- A position has one candidate. -/
theorem State.Due.eq {s : State} {now overdueBefore : String} {c d : ReminderCandidate}
    (first : s.Due now overdueBefore c) (second : s.Due now overdueBefore d)
    (same : c.position = d.position) : c = d := by
  have schedule : c.schedule = d.schedule := by
    have := first.schedule
    rw [same, second.schedule] at this
    exact (Option.some.inj this).symm
  have recipient : c.recipient = d.recipient := by rw [← first.person, ← second.person, same]
  have phase : c.phase = d.phase := by rw [first.phase, second.phase, same]
  obtain ⟨schedule₁, recipient₁, phase₁, position₁⟩ := c
  obtain ⟨schedule₂, recipient₂, phase₂, position₂⟩ := d
  dsimp only at *
  rw [schedule, recipient, phase, same]

/-- The rows are in strict order. -/
theorem State.Sound.reminderRows_sorted {s : State} (sound : s.Sound) (now overdueBefore : String)
    (after : Option ReminderPosition) :
    (s.reminderRows now overdueBefore after).Pairwise fun a b =>
      a.position.key < b.position.key := by
  have sorted := List.pairwise_insertionSort
    (fun a b : ReminderCandidate => a.position.key ≤ b.position.key)
    (s.assignees.filterMap (s.reminderRow now overdueBefore after))
  have distinct : (s.reminderRows now overdueBefore after).Nodup := by
    refine (List.perm_insertionSort _ _).nodup_iff.mpr (List.Nodup.filterMap ?_ sound.distinct)
    intro a b c is other
    obtain ⟨-, due, position, -⟩ := State.reminderRow_eq.mp is
    obtain ⟨-, due', position', -⟩ := State.reminderRow_eq.mp other
    obtain ⟨-, digest, person⟩ := ReminderPosition.mk.inj (position.symm.trans position')
    obtain ⟨d, p, t⟩ := a
    obtain ⟨d', p', t'⟩ := b
    dsimp only at *
    rw [digest, person, due, due']
  refine (sorted.and distinct).imp_of_mem fun {a b} memA memB ⟨le, differ⟩ => ?_
  refine lt_of_le_of_ne le fun same => differ ?_
  exact (sound.mem_reminderRows.mp memA).1.eq (sound.mem_reminderRows.mp memB).1
    (ReminderPosition.key_inj.mp same)

/-- The page is the front of those who are due behind the position, in order. -/
structure State.PageOf (s : State) (now overdueBefore : String) (after : Option ReminderPosition)
    (limit : Nat) (page : List ReminderCandidate) : Prop where
  sorted : page.Pairwise fun a b => a.position.key < b.position.key
  short : page.length ≤ limit
  due : ∀ c ∈ page, s.Due now overdueBefore c ∧ ∀ p, after = some p → p.key < c.position.key
  front : ∀ c, s.Due now overdueBefore c → (∀ p, after = some p → p.key < c.position.key) →
    c ∈ page ∨ page.length = limit ∧ ∀ d ∈ page, d.position.key < c.position.key

theorem State.Sound.page {s : State} (sound : s.Sound) (now overdueBefore : String)
    (after : Option ReminderPosition) (limit : Nat) :
    s.PageOf now overdueBefore after limit ((s.reminderRows now overdueBefore after).take limit) := by
  have sorted := sound.reminderRows_sorted now overdueBefore after
  refine ⟨sorted.sublist (List.take_sublist _ _), List.length_take_le _ _, fun c mem =>
    sound.mem_reminderRows.mp (List.mem_of_mem_take mem), fun c due behind => ?_⟩
  have mem := sound.mem_reminderRows.mpr ⟨due, behind⟩
  rw [← List.take_append_drop limit (s.reminderRows now overdueBefore after)] at mem sorted
  rcases List.mem_append.mp mem with first | later
  · exact .inl first
  · refine .inr ⟨?_, fun d front => (List.pairwise_append.mp sorted).2.2 d front c later⟩
    have long := List.length_pos_of_mem later
    rw [List.length_drop] at long
    rw [List.length_take]
    omega

/-- **A scan lists exactly who is due**, a page at a time. -/
theorem State.Sound.reminderCandidates {s : State} (sound : s.Sound) {now overdueBefore : String}
    (iso : deliveryIso now = true) (iso' : deliveryIso overdueBefore = true)
    (after : Option ReminderPosition) {limit : Nat} (some_ : 1 ≤ limit) (few : limit ≤ 100) :
    ∃ page, s.reminderCandidates now overdueBefore after limit = .ok page ∧
      s.PageOf now overdueBefore after limit page := by
  have page := sound.page now overdueBefore after limit
  refine ⟨_, ?_, page⟩
  have asked : (!deliveryIso now || !deliveryIso overdueBefore || decide (limit < 1) ||
      decide (limit > 100)) = false := by
    simp only [iso, iso', Bool.not_true, Bool.false_or, Bool.or_eq_false_iff, decide_eq_false_iff_not]
    omega
  have fits : ((s.reminderRows now overdueBefore after).take limit).all ReminderCandidate.fits =
      true := by
    refine List.all_eq_true.mpr fun c mem => ?_
    obtain ⟨due, -⟩ := page.due c mem
    simp only [ReminderCandidate.fits, Bool.and_eq_true, beq_iff_eq, List.contains_iff_mem]
    exact ⟨⟨sound.valid _ _ due.schedule, due.dueAt⟩, due.assigned⟩
  rw [State.reminderCandidates, if_neg (by rw [asked]; exact Bool.false_ne_true)]
  dsimp only
  rw [if_pos fits]

/-! ## Complete scans -/

def ReminderCandidate.subject (c : ReminderCandidate) : Subject :=
  ⟨c.position.revisionDigest, c.schedule.version, c.recipient⟩

/-- A reminder was recorded of the phase, or of being overdue. -/
def State.Reminded (s : State) (c : ReminderCandidate) : Prop :=
  ∃ r ∈ s.reminders, r.subject = c.subject ∧ (r.phase = .overdue ∨ r.phase = c.phase)

/-- What is or may come to be reminded: the reminders, and the assignees of the schedules. -/
def State.Notable (s : State) (subject : Subject) (phase : Phase) : Prop :=
  (∃ r ∈ s.reminders, r.subject = subject ∧ r.phase = phase) ∨
    ∃ schedule, s.schedules.lookup subject.revisionDigest = some schedule ∧
      schedule.version = subject.version ∧ subject.person ∈ schedule.assignees

/-- No two of them have one reminder id: the shortened digests do not collide. -/
def State.Unmistaken (s : State) : Prop :=
  ∀ x p y q, s.Notable x p → s.Notable y q →
    reminderId x.revisionDigest x.version x.person p =
      reminderId y.revisionDigest y.version y.person q → x = y ∧ p = q

/-- The state is one that a scan of the first state comes to. -/
structure State.Scanned (s t : State) : Prop where
  sound : t.Sound
  schedules : t.schedules = s.schedules
  assignees : t.assignees = s.assignees
  kept : ∀ r ∈ s.reminders, r ∈ t.reminders
  notable : ∀ r ∈ t.reminders, s.Notable r.subject r.phase

theorem State.Sound.scanned {s : State} (sound : s.Sound) : s.Scanned s :=
  ⟨sound, rfl, rfl, fun _ mem => mem, fun r mem => .inl ⟨r, mem, rfl, rfl⟩⟩

section Scan

variable {s t : State} {now overdueBefore : String}

theorem reminderId_isOk {version : Int} (safe : isSafeInteger version = true) (digest : String)
    (person : Person) (phase : Phase) : ∃ id, reminderId digest version person phase = .ok id := by
  have fits : canonicalizable (.arr [jsonString digest, .num (.int version),
      record [("org_id", jsonString person.orgId), ("actor_id", jsonString person.actorId)],
      jsonString phase.text]) 0 = true := by
    simp [canonicalizable, canonicalizableItems, maxCanonicalDepth, maxCanonicalArrayItems,
      canonicalizable_record, canonicalNumberOk, safe]
  obtain ⟨text, is⟩ := canonicalize_isOk fits
  exact ⟨_, by rw [reminderId, reminderText, is]; rfl⟩

/-- The reminder that is recorded for a candidate. -/
def ReminderCandidate.reminder (c : ReminderCandidate) (id now : String) : ReminderRow :=
  ⟨id, c.position.revisionDigest, c.schedule.version, c.recipient, c.phase, c.position.dueAt, now⟩

def State.remind (s : State) (r : ReminderRow) : State :=
  { s with reminders := s.reminders ++ [r] }

omit [Sha256] in
theorem scheduleFits_digest {schedule : ReviewSchedule} {digest : String}
    (fits : scheduleFits schedule digest = true) :
    schedule.revisionDigest = digest ∧ isSafeInteger schedule.version = true := by
  simp only [scheduleFits, Bool.and_eq_true, beq_iff_eq] at fits
  exact ⟨fits.1.1.1.1.1.1.1.1, fits.1.1.1.1.1.1.2⟩

theorem State.Due.recorded {c : ReminderCandidate} (due : t.Due now overdueBefore c)
    (sound : t.Sound) {id : String}
    (named : reminderId c.position.revisionDigest c.schedule.version c.recipient c.phase = .ok id)
    (unused : ∀ q ∈ t.reminders, q.reminderId ≠ id) :
    t.recordReminder c now = .ok (true, t.remind (c.reminder id now)) := by
  have fits := sound.valid _ _ due.schedule
  obtain ⟨digest, -⟩ := scheduleFits_digest fits
  have subject : ∀ q : ReminderRow, q.revisionDigest = c.position.revisionDigest →
      q.scheduleVersion = c.schedule.version → q.person = c.recipient → q.subject = c.subject := by
    intro q digest version person
    rw [ReminderRow.subject, digest, version, person]
    rfl
  have passes : c.schedule.version = c.schedule.version ∧
      some c.position.dueAt = some c.position.dueAt ∧ c.position.dueAt ≤ now ∧
      c.recipient ∈ c.schedule.assignees ∧ (c.phase ≠ .due ∨ ¬ ∃ q ∈ t.reminders,
        q.revisionDigest = c.position.revisionDigest ∧ q.scheduleVersion = c.schedule.version ∧
        q.person = c.recipient ∧ q.phase = .overdue) := by
    refine ⟨rfl, rfl, due.soon, due.assigned, .inr ?_⟩
    rintro ⟨q, mem, digest, version, person, overdue⟩
    exact (due.unreminded q mem (subject q digest version person)).1 overdue
  have untaken : ¬ (t.reminders.any fun q => q.reminderId = id ∨
      (q.revisionDigest = c.position.revisionDigest ∧ q.scheduleVersion = c.schedule.version ∧
        q.person = c.recipient ∧ q.phase = c.phase)) = true := by
    simp only [List.any_eq_true, decide_eq_true_eq, not_exists, not_and]
    rintro q mem (same | ⟨digest, version, person, phase⟩)
    · exact unused q mem same
    · exact (due.unreminded q mem (subject q digest version person)).2 phase
  rw [State.recordReminder, State.schedule, digest, due.schedule]
  dsimp only
  rw [if_pos fits, ok_bind]
  dsimp only
  rw [due.dueAt]
  dsimp only
  rw [if_pos passes, named, ok_bind, State.insertReminder, if_neg untaken]
  rfl

omit [Sha256] in
/-- The reminder of a candidate leaves all others due. -/
theorem State.Due.after {c d : ReminderCandidate} (due : t.Due now overdueBefore c) (id : String)
    (before : t.Due now overdueBefore d) (other : d ≠ c) :
    (t.remind (c.reminder id now)).Due now overdueBefore d := by
  refine { before with unreminded := fun q mem subject => ?_ }
  rcases List.mem_append.mp mem with old | last
  · exact before.unreminded q old subject
  · obtain rfl := List.mem_singleton.mp last
    obtain ⟨digest, -, person⟩ := Subject.mk.inj subject
    have schedule : d.schedule = c.schedule := by
      have stored := before.schedule
      rw [← show c.position.revisionDigest = d.position.revisionDigest from digest,
        due.schedule] at stored
      exact (Option.some.inj stored).symm
    have dueAt : some d.position.dueAt = some c.position.dueAt := by
      rw [← before.dueAt, ← due.dueAt, schedule]
    have recipient : d.position.person = c.position.person :=
      before.person.trans ((show c.recipient = d.recipient from person).symm.trans
        due.person.symm)
    have position : d.position = c.position :=
      ReminderPosition.ext (Option.some.inj dueAt) digest.symm recipient
    exact absurd (before.eq due position) other

/-- **A candidate that is due** is recorded. -/
theorem State.Scanned.record (scanned : s.Scanned t) (unmistaken : s.Unmistaken)
    {c : ReminderCandidate} (due : t.Due now overdueBefore c) :
    ∃ id, t.recordReminder c now = .ok (true, t.remind (c.reminder id now)) ∧
      s.Scanned (t.remind (c.reminder id now)) := by
  obtain ⟨-, safe⟩ := scheduleFits_digest (scanned.sound.valid _ _ due.schedule)
  obtain ⟨id, named⟩ := reminderId_isOk safe c.position.revisionDigest c.recipient c.phase
  have notable : s.Notable c.subject c.phase :=
    .inr ⟨c.schedule, scanned.schedules ▸ due.schedule, rfl, due.assigned⟩
  have unused : ∀ q ∈ t.reminders, q.reminderId ≠ id := by
    rintro q mem rfl
    obtain ⟨subject, phase⟩ := unmistaken _ _ _ _ (scanned.notable q mem) notable
      ((scanned.sound.named q mem).trans named.symm)
    exact (due.unreminded q mem subject).2 phase
  have run := due.recorded scanned.sound named unused
  refine ⟨id, run, scanned.sound.record run, scanned.schedules, scanned.assignees,
    fun q mem => List.mem_append_left _ (scanned.kept q mem), fun q mem => ?_⟩
  rcases List.mem_append.mp mem with old | last
  · exact scanned.notable q old
  · obtain rfl := List.mem_singleton.mp last
    exact notable

/-- A page of candidates is recorded one after another. -/
theorem State.Scanned.record_all (unmistaken : s.Unmistaken) {page : List ReminderCandidate}
    (scanned : s.Scanned t) (due : ∀ c ∈ page, t.Due now overdueBefore c) (distinct : page.Nodup) :
    ∃ u, page.foldlM (fun t c => Prod.snd <$> State.recordReminder t c now) t =
        (.ok u : Except ReviewFailure State) ∧ s.Scanned u ∧
      (∀ r ∈ t.reminders, r ∈ u.reminders) ∧ ∀ c ∈ page, u.Reminded c := by
  induction page generalizing t with
  | nil => exact ⟨t, rfl, scanned, fun _ mem => mem, List.forall_mem_nil _⟩
  | cons c page ih =>
      obtain ⟨first, rest⟩ := List.forall_mem_cons.mp due
      obtain ⟨absent, distinct⟩ := List.nodup_cons.mp distinct
      obtain ⟨id, run, scanned'⟩ := scanned.record unmistaken first
      have later : ∀ d ∈ page, (t.remind (c.reminder id now)).Due now overdueBefore d :=
        fun d mem => first.after id (rest d mem) fun same => absent (same ▸ mem)
      obtain ⟨u, runs, last, kept, reminded⟩ := ih scanned' later distinct
      refine ⟨u, ?_, last, fun r mem => kept r (List.mem_append_left _ mem),
        List.forall_mem_cons.mpr ⟨?_, reminded⟩⟩
      · rw [List.foldlM_cons, run]
        exact runs
      · exact ⟨c.reminder id now, kept _ (List.mem_append_right _ List.mem_cons_self), rfl, .inr rfl⟩

omit [Sha256] in
theorem phaseAt_due {dueAt early late : String} (le : early ≤ late)
    (due : phaseAt dueAt late = .due) : phaseAt dueAt early = .due := by
  rw [phaseAt] at due ⊢
  split_ifs at due with soon
  rw [if_neg fun before => soon (before.trans le)]

/-- The times only go on. -/
def Tick.le (a b : Tick) : Prop := a.now ≤ b.now ∧ a.overdueBefore ≤ b.overdueBefore

instance (a b : Tick) : Decidable (a.le b) :=
  inferInstanceAs (Decidable (a.now ≤ b.now ∧ a.overdueBefore ≤ b.overdueBefore))

/-- Who was due and is not reminded is due later on, in the phase of that time. -/
theorem State.Scanned.still_due {first tick : Tick} (le : first.le tick) (scanned : s.Scanned t)
    {c : ReminderCandidate} (due : s.Due first.now first.overdueBefore c)
    (unreminded : ¬ t.Reminded c) :
    t.Due tick.now tick.overdueBefore
      { c with phase := phaseAt c.position.dueAt tick.overdueBefore } := by
  refine ⟨scanned.schedules ▸ due.schedule, due.assigned, due.dueAt, due.person,
    due.soon.trans le.1, rfl, fun r mem subject => ?_⟩
  have phases : r.phase ≠ .overdue ∧ r.phase ≠ c.phase :=
    not_or.mp fun phase => unreminded ⟨r, mem, subject, phase⟩
  refine ⟨phases.1, ?_⟩
  cases is : phaseAt c.position.dueAt tick.overdueBefore with
  | overdue => exact phases.1
  | due =>
      rw [due.phase, phaseAt_due le.2 is] at phases
      exact phases.2

/-- Who is reminded in the phase of a later time is reminded. -/
theorem State.Reminded.of_later {first tick : Tick} (le : first.le tick) {c : ReminderCandidate}
    (due : s.Due first.now first.overdueBefore c) (reminded :
      t.Reminded { c with phase := phaseAt c.position.dueAt tick.overdueBefore }) :
    t.Reminded c := by
  obtain ⟨r, mem, subject, phase⟩ := reminded
  refine ⟨r, mem, subject, ?_⟩
  rcases phase with overdue | same
  · exact .inl overdue
  · cases is : phaseAt c.position.dueAt tick.overdueBefore with
    | overdue => exact .inl (same.trans is)
    | due =>
        rw [due.phase, phaseAt_due le.2 is]
        exact .inr (same.trans is)

/-- How many assignees with a due date are behind a position. -/
def State.behind (s : State) (position : Option ReminderPosition) : Nat :=
  s.assignees.countP fun row => row.dueAt.any fun dueAt => position.all fun p =>
    decide (p.key < (⟨dueAt, row.revisionDigest, row.person⟩ : ReminderPosition).key)

theorem State.Due.behind {c : ReminderCandidate} (due : t.Due now overdueBefore c)
    (sound : t.Sound) {position : Option ReminderPosition}
    (later : ∀ p, position = some p → p.key < c.position.key) :
    t.behind (some c.position) < t.behind position := by
  have mem : (⟨c.position.revisionDigest, c.recipient, some c.position.dueAt⟩ : AssigneeRow) ∈
      t.assignees := (sound.mirror _).mpr ⟨c.schedule, due.schedule, due.assigned, due.dueAt.symm⟩
  have own : (⟨c.position.dueAt, c.position.revisionDigest, c.recipient⟩ : ReminderPosition) =
      c.position := by rw [← due.person]
  obtain ⟨front, back, split⟩ := List.append_of_mem mem
  have mono : ∀ rows : List AssigneeRow,
      rows.countP (fun row => row.dueAt.any fun dueAt => (some c.position).all fun p =>
        decide (p.key < (⟨dueAt, row.revisionDigest, row.person⟩ : ReminderPosition).key)) ≤
      rows.countP (fun row => row.dueAt.any fun dueAt => position.all fun p =>
        decide (p.key < (⟨dueAt, row.revisionDigest, row.person⟩ : ReminderPosition).key)) := by
    refine fun rows => List.countP_mono_left fun row _ => ?_
    cases row.dueAt with
    | none => exact id
    | some dueAt =>
        cases position with
        | none => exact fun _ => rfl
        | some p =>
            simp only [Option.any_some, Option.all_some, decide_eq_true_eq]
            exact fun less => (later p rfl).trans less
  have gone : ¬ (some c.position).all (fun p => decide (p.key < (⟨c.position.dueAt,
      c.position.revisionDigest, c.recipient⟩ : ReminderPosition).key)) = true := by
    rw [own]
    simp
  have counted : position.all (fun p => decide (p.key < (⟨c.position.dueAt,
      c.position.revisionDigest, c.recipient⟩ : ReminderPosition).key)) = true := by
    rw [own]
    cases position with
    | none => rfl
    | some p => simpa using later p rfl
  have fronts := mono front
  have backs := mono back
  rw [State.behind, State.behind, split, List.countP_append, List.countP_append, List.countP_cons,
    List.countP_cons, Option.any_some, Option.any_some, if_neg gone, if_pos counted]
  omega

/-- Who was due first, and is served, is reminded or behind the position. -/
def State.Reached (s t : State) (serves : Person → Bool) (first : Tick)
    (position : Option ReminderPosition) : Prop :=
  ∀ c, s.Due first.now first.overdueBefore c → serves c.recipient = true →
    t.Reminded c ∨ ∀ p, position = some p → p.key < c.position.key

/-- One batch of a scan: it reminds whom it lists, and goes on behind them. -/
theorem State.Scanned.generate (unmistaken : s.Unmistaken) {serves : Person → Bool}
    {first tick : Tick} (le : first.le tick) (iso : deliveryIso tick.now = true)
    (iso' : deliveryIso tick.overdueBefore = true) {batchSize : Nat} (some_ : 1 ≤ batchSize)
    (few : batchSize ≤ 100) (scanned : s.Scanned t) {position : Option ReminderPosition}
    (reached : s.Reached t serves first position) :
    ∃ u next, t.generate serves position tick batchSize = .ok (u, next) ∧ s.Scanned u ∧
      (next = none → ∀ c, s.Due first.now first.overdueBefore c → serves c.recipient = true →
        u.Reminded c) ∧
      ∀ p, next = some p → s.Reached u serves first (some p) ∧
        u.behind (some p) < t.behind position := by
  obtain ⟨page, listed, exact_⟩ :=
    scanned.sound.reminderCandidates iso iso' position some_ few
  have distinct : page.Nodup := exact_.sorted.imp fun less same => by
    rw [same] at less
    exact lt_irrefl _ less
  obtain ⟨u, recorded, scanned', kept, reminded⟩ := State.Scanned.record_all unmistaken scanned
    (fun c mem => (exact_.due c (List.mem_of_mem_filter mem)).1)
    (distinct.filter fun c => serves c.recipient)
  -- Whoever was due first is reminded by now, or the page is full and ends before them.
  have ahead : ∀ c, s.Due first.now first.overdueBefore c → serves c.recipient = true →
      u.Reminded c ∨ page.length = batchSize ∧ ∀ d ∈ page, d.position.key < c.position.key := by
    intro c due served
    by_cases before : t.Reminded c
    · obtain ⟨r, mem, subject, phase⟩ := before
      exact .inl ⟨r, kept r mem, subject, phase⟩
    · have now := scanned.still_due le due before
      have behind := (reached c due served).resolve_left before
      rcases exact_.front _ now behind with mem | later
      · refine .inl (State.Reminded.of_later le due (reminded _ (List.mem_filter.mpr ⟨mem, ?_⟩)))
        exact served
      · exact .inr later
  refine ⟨u, _, by rw [State.generate, listed, ok_bind, recorded, ok_bind]; rfl, scanned',
    fun last c due served => ?_, fun p next => ?_⟩
  · rcases ahead c due served with done | ⟨full, -⟩
    · exact done
    · rw [if_neg (by omega), Option.map_eq_none_iff, List.getLast?_eq_none_iff] at last
      rw [last] at full
      simp only [List.length_nil] at full
      omega
  · split_ifs at next with short
    obtain ⟨c, last, rfl⟩ := Option.map_eq_some_iff.mp next
    have mem := List.mem_of_getLast? last
    obtain ⟨due, later⟩ := exact_.due c mem
    refine ⟨fun d before served => ?_, ?_⟩
    · rcases ahead d before served with done | ⟨-, behind⟩
      · exact .inl done
      · refine .inr fun p same => ?_
        obtain rfl := Option.some.inj same
        exact behind c mem
    · have fewer := due.behind scanned.sound later
      rw [State.behind, scanned.assignees, ← scanned'.assignees] at fewer
      exact fewer

/-- A scan of ever later times reminds whoever was due at the first one. -/
theorem State.Sound.scan (sound : s.Sound) (unmistaken : s.Unmistaken) {serves : Person → Bool}
    {batchSize : Nat} (some_ : 1 ≤ batchSize) (few : batchSize ≤ 100) {first : Tick}
    {ticks : List Tick}
    (iso : ∀ tick ∈ ticks, deliveryIso tick.now = true ∧ deliveryIso tick.overdueBefore = true)
    (clock : ∀ tick ∈ ticks, first.le tick) (enough : s.assignees.length < ticks.length) :
    ∃ t, State.scan serves batchSize ticks s none = .ok (some t) ∧ s.Scanned t ∧
      ∀ c, s.Due first.now first.overdueBefore c → serves c.recipient = true → t.Reminded c := by
  have rest : ∀ (ticks : List Tick) (t : State) (position : Option ReminderPosition),
      (∀ tick ∈ ticks, deliveryIso tick.now = true ∧ deliveryIso tick.overdueBefore = true) →
      (∀ tick ∈ ticks, first.le tick) → s.Scanned t → t.behind position < ticks.length →
      s.Reached t serves first position →
      ∃ u, State.scan serves batchSize ticks t position = .ok (some u) ∧ s.Scanned u ∧
        ∀ c, s.Due first.now first.overdueBefore c → serves c.recipient = true →
          u.Reminded c := by
    intro ticks
    induction ticks with
    | nil => exact fun t position _ _ _ enough => absurd enough (Nat.not_lt_zero _)
    | cons tick ticks ih =>
        intro t position iso clock scanned enough reached
        obtain ⟨⟨now, before⟩, isos⟩ := List.forall_mem_cons.mp iso
        obtain ⟨le, clocks⟩ := List.forall_mem_cons.mp clock
        obtain ⟨u, next, run, scanned', complete, more⟩ :=
          scanned.generate unmistaken le now before some_ few reached
        rw [State.scan, run, ok_bind]
        cases next with
        | none => exact ⟨u, rfl, scanned', complete rfl⟩
        | some p =>
            obtain ⟨behind, fewer⟩ := more p rfl
            rw [List.length_cons] at enough
            exact ih u (some p) isos clocks scanned' (by omega) behind
  refine rest ticks s none iso clock sound.scanned ?_ fun c _ _ => .inr fun _ none => by cases none
  exact (List.countP_le_length).trans_lt enough

end Scan

/-! ## Every run -/

/-- **A page of candidates is exact**: it never fails, and it holds the first of those who are
due and not reminded, in order. -/
theorem candidates_exact {events : List Event} {s : State}
    (run : Machine.run State.step State.new events = some s) {now overdueBefore : String}
    (iso : deliveryIso now = true) (iso' : deliveryIso overdueBefore = true)
    (after : Option ReminderPosition) {limit : Nat} (some_ : 1 ≤ limit) (few : limit ≤ 100) :
    ∃ page, s.reminderCandidates now overdueBefore after limit = .ok page ∧
      s.PageOf now overdueBefore after limit page :=
  (State.Sound.run run).reminderCandidates iso iso' after some_ few

end

namespace Demo

@[reducible] local instance reminderSha256 : Sha256 := Knowledger.Demo.sha256

def lead : Author := ⟨⟨"org", "owner"⟩, .human⟩

def revision : String := "sha256:" ++ String.ofList (List.replicate 64 '0')

def monthly : ReviewSchedule :=
  ⟨revision, 1, [⟨"org", "guest"⟩], some "2026-01-01T00:00:00.000Z", some 30, none⟩

def planned : ReviewEvent := ⟨"review-1", revision, lead, "2025-12-01T00:00:00.000Z", .schedule,
  .wellFormed "Please review.", [], some monthly⟩

def planning : Event :=
  .write lead revision "operation" .null (fun _ => .ok ⟨.schedule, planned.body, [], some monthly, []⟩)
    "review-1" planned.createdAt

def firstTick : Tick := ⟨"2026-01-02T00:00:00.000Z", "2025-12-26T00:00:00.000Z"⟩

def secondTick : Tick := ⟨"2026-02-02T00:00:00.000Z", "2026-01-26T00:00:00.000Z"⟩

def guestDue : ReminderCandidate := ⟨monthly, ⟨"org", "guest"⟩, .due,
  ⟨"2026-01-01T00:00:00.000Z", revision, ⟨"org", "guest"⟩⟩⟩

theorem planned_fits : eventFits planned = true := by decide

/-- The tables after the review was planned by a request of the digest. -/
def plannedState (request : String) : State :=
  State.new.append ⟨lead.toPerson, "operation", request, planned⟩ []

theorem planning_runs : ∃ request,
    Machine.run State.step State.new [planning] = some (plannedState request) := by
  have fits : canonicalizable (record [("digest", jsonString revision), ("input", Value.null),
      ("actor", record [("org_id", jsonString lead.orgId), ("actor_id", jsonString lead.actorId),
        ("kind", jsonString lead.kind.text)])]) 0 = true := by decide
  obtain ⟨text, is⟩ := canonicalize_isOk fits
  have written : State.new.write lead revision "operation" .null
      (fun _ => .ok ⟨.schedule, planned.body, [], some monthly, []⟩) "review-1" planned.createdAt =
      .ok (planned, plannedState (Sha256.hexDigest text)) := by
    rw [State.write, requestDigest, is]
    rfl
  refine ⟨Sha256.hexDigest text, Machine.run_cons.mpr ⟨_, ?_, rfl⟩⟩
  simp only [planning, State.step, written]

theorem plannedState_due (request : String) :
    (plannedState request).Due firstTick.now firstTick.overdueBefore guestDue := by
  have assigned : guestDue.recipient ∈ monthly.assignees := by decide
  have soon : guestDue.position.dueAt ≤ firstTick.now := by decide
  have phase : guestDue.phase = phaseAt guestDue.position.dueAt firstTick.overdueBefore := by
    decide
  exact ⟨rfl, assigned, rfl, rfl, soon, phase, fun r mem => by cases mem⟩

theorem ticks_iso : ∀ tick ∈ [firstTick, secondTick],
    deliveryIso tick.now = true ∧ deliveryIso tick.overdueBefore = true := by decide

/-- The guest is due, and the first page of the planned review is exact. -/
theorem candidates_exact_guest : ∃ s page, Machine.run State.step State.new [planning] = some s ∧
    s.Due firstTick.now firstTick.overdueBefore guestDue ∧
    s.reminderCandidates firstTick.now firstTick.overdueBefore none 100 = .ok page ∧
    s.PageOf firstTick.now firstTick.overdueBefore none 100 page := by
  obtain ⟨request, run⟩ := planning_runs
  obtain ⟨now, before⟩ := ticks_iso firstTick List.mem_cons_self
  obtain ⟨page, listed, exact_⟩ := candidates_exact run now before none
    (show 1 ≤ 100 by decide) (le_refl 100)
  exact ⟨_, page, run, plannedState_due request, listed, exact_⟩

end Demo

end Knowledger.Reviews
