import Knowledger.Requests
import Knowledger.Storage.SlackChanges

/-!
# No automatic duplicate notice

A row is sent again only behind a retry: the one its last attempt was settled with, or one that
somebody asked for.  The invariant holds a row against its history, and a conversation's limit
against the leases of its rows.
-/

namespace Knowledger.Slack

open Js Storage

variable {s t : State} {marks older newer : List Mark} {token : String}

/-! ## Histories -/

/-- The status a change leaves. -/
def Mark.status : Mark → Status
  | .sent _ => .sending
  | .expired => .unknown
  | .settled _ status => status
  | .resolved outcome => outcome.next

def Mark.isSent : Mark → Bool
  | .sent _ => true
  | _ => false

/-- The sends of a stretch of the history. -/
def sends (marks : List Mark) : Nat := marks.countP Mark.isSent

/-- The statuses behind which nothing is sent but on demand. -/
def Status.terminal : Status → Bool
  | .sending | .retryWait => false
  | _ => true

/-- What a send may follow: nothing, the settlement of the last send by the holder of its lease,
or a resolution that asks for it. -/
def Resendable (older : List Mark) : Prop :=
  older = [] ∨ (∃ token rest, older = .settled token .retryWait :: .sent token :: rest) ∨
    ∃ rest, older = .resolved .retry :: rest

/-- The sends since the first, or since the last retry that was asked for. -/
def sendsSince : List Mark → Nat
  | [] => 0
  | .sent _ :: older => sendsSince older + 1
  | .resolved .retry :: _ => 0
  | _ :: older => sendsSince older

def Orderly : List Mark → Prop
  | [] => True
  | mark :: older => Orderly older ∧ sendsSince (mark :: older) ≤ 3 ∧
      (mark.isSent = true → Resendable older)

theorem Orderly.few (orderly : Orderly marks) : sendsSince marks ≤ 3 := by
  cases marks with
  | nil => exact Nat.zero_le 3
  | cons mark older => exact orderly.2.1

theorem Orderly.suffix (orderly : Orderly (newer ++ older)) : Orderly older := by
  induction newer with
  | nil => exact orderly
  | cons mark newer ih => exact ih orderly.1

theorem sendsSince_append {between : List Mark} (unasked : .resolved .retry ∉ between) :
    sendsSince (between ++ older) = sends between + sendsSince older := by
  induction between with
  | nil => simp [sends]
  | cons mark between ih =>
      have ih := ih fun mem => unasked (List.mem_cons_of_mem _ mem)
      have other : mark ≠ .resolved .retry := fun same => unasked (same ▸ List.mem_cons_self)
      unfold sends at ih ⊢
      cases mark with
      | sent token =>
          simp only [List.cons_append, sendsSince, ih, List.countP_cons, Mark.isSent, if_true]
          omega
      | expired | settled =>
          simp only [List.cons_append, sendsSince, ih, List.countP_cons, Mark.isSent,
            Bool.false_eq_true, if_false, Nat.add_zero]
      | resolved outcome =>
          cases outcome with
          | retry => exact absurd rfl other
          | seen | dismiss =>
              simp only [List.cons_append, sendsSince, ih, List.countP_cons, Mark.isSent,
                Bool.false_eq_true, if_false, Nat.add_zero]

/-- Behind a terminal status a send follows only a retry that was asked for. -/
theorem Orderly.asked {mark : Mark} (terminal : mark.status.terminal = true) :
    ∀ {between : List Mark} {token : String},
      Orderly (.sent token :: (between ++ mark :: older)) → .resolved .retry ∈ between
  | [], token, orderly => by
      rcases orderly.2.2 rfl with none | ⟨_, _, same⟩ | ⟨_, same⟩
      · cases none
      · cases same
        cases terminal
      · cases same
        cases terminal
  | [m], token, orderly => by
      rcases orderly.2.2 rfl with none | ⟨_, _, same⟩ | ⟨_, same⟩
      · cases none
      · cases same
        cases terminal
      · cases same
        exact List.mem_cons_self
  | m :: n :: between, token, orderly => by
      rcases orderly.2.2 rfl with none | ⟨_, _, same⟩ | ⟨_, same⟩
      · cases none
      · cases same
        have inside := Orderly.asked terminal orderly.1.1
        exact List.mem_cons_of_mem _ (List.mem_cons_of_mem _ inside)
      · cases same
        exact List.mem_cons_self

/-! ## The statement -/

/-- The job's lease is the row's and has not run out. -/
def State.Holds (s : State) (job : Job) : Prop :=
  ∃ row, s.rows job.id = some row ∧ row.notice.status = .sending ∧
    row.notice.leaseToken = some job.token ∧ row.notice.lapsed s.clock = false

/-- No notice is sent twice unasked: what holds of the rows and their histories. -/
structure State.Safe [Sha256] (s : State) : Prop where
  ended : ∀ id row, s.rows id = some row →
    (s.marks id).head?.map Mark.status = some row.notice.status ∧
      row.notice.version = (s.marks id).length
  resent : ∀ id newer token older, s.marks id = newer ++ .sent token :: older → Resendable older
  few : ∀ id newer between older, s.marks id = newer ++ (between ++ older) →
    .resolved .retry ∉ between → sends between ≤ 3
  asked : ∀ id newer token between mark older,
    s.marks id = newer ++ .sent token :: (between ++ mark :: older) →
      mark.status.terminal = true → .resolved .retry ∈ between
  leased : ∀ id row, s.rows id = some row → row.notice.status = .sending →
    ∃ job ∈ s.jobs, job.id = id ∧ row.notice.leaseToken = some job.token
  alone : ∀ a ∈ s.jobs, ∀ b ∈ s.jobs, a.team = b.team → a.dm = b.dm → s.Holds a → s.Holds b →
    a = b
  decoded : ∀ actor id, s.get actor id ≠ .error .storeCorrupt
  limited : ∀ scope, s.limit scope ≠ .error .storeCorrupt
  replayed : ∀ actor id request input,
    s.resolutionReplay actor id request input ≠ .error .storeCorrupt

/-- A row stays, and its version goes up whenever it changes. -/
def Grows (s t : State) : Prop :=
  ∀ id row, s.rows id = some row →
    ∃ row', t.rows id = some row' ∧ (row' = row ∨ row.notice.version < row'.notice.version)

/-! ## The invariant -/

/-- A row fits its history and the jobs that were handed out. -/
structure Fits (jobs : List Job) (marks : List Mark) (id : String) (row : Row) : Prop where
  same : row.notice.reminderId = id
  named : isId id = true
  binding : isDigest row.notice.binding = true
  code : row.notice.lastCode.all isCode = true
  next : validTime row.notice.nextAttemptAt = true
  total : row.notice.attempts ≤ row.notice.totalAttempts
  version : row.notice.version = marks.length
  attempts : row.notice.attempts = sendsSince marks
  orderly : Orderly marks
  ended : marks.head?.map Mark.status = some row.notice.status
  used : row.notice.attempts = 0 →
    [Status.retryWait, .userConfirmed, .dismissed].contains row.notice.status = true
  waiting : row.notice.status = .retryWait → Resendable marks
  sending : row.notice.status = .sending → ∃ job ∈ jobs, job.id = id ∧
    row.notice.leaseToken = some job.token ∧ row.notice.leaseUntil = some job.until_ ∧
      isToken job.token = true ∧ validTime job.until_ = true ∧
        ∃ rest, marks = .sent job.token :: rest
  unleased : row.notice.status ≠ .sending →
    row.notice.leaseToken = none ∧ row.notice.leaseUntil = none
  accepted : row.notice.status = .providerAccepted →
    ∃ value, row.notice.receipt = some value ∧ slackAcceptance value = .ok value
  unaccepted : row.notice.status ≠ .providerAccepted → row.notice.receipt = none

def Job.scope (job : Job) : String := dmScope job.team job.dm

structure State.Sound (s : State) : Prop where
  clock : validTime s.clock = true
  rows : ∀ id row, s.rows id = some row → Fits s.jobs (s.marks id) id row
  unmarked : ∀ id, s.rows id = none → s.marks id = []
  tokens : ∀ a ∈ s.jobs, ∀ b ∈ s.jobs, a.token = b.token → a = b
  held : ∀ job ∈ s.jobs, s.Holds job → ∃ u, s.limits job.scope = some u ∧ job.until_ + 1000 ≤ u
  alone : ∀ a ∈ s.jobs, ∀ b ∈ s.jobs, a.scope = b.scope → s.Holds a → s.Holds b → a = b
  limits : ∀ scope u, s.limits scope = some u → validTime u = true
  results : ∀ actor operationId row, s.resolutions actor operationId = some row →
    decode row.result = .ok row.result

theorem State.Sound.new : State.new.Sound where
  clock := by decide
  rows id row stored := by cases stored
  unmarked id _ := rfl
  tokens a mem := by cases mem
  held job mem := by cases mem
  alone a mem := by cases mem
  limits scope u found := by cases found
  results actor operationId row found := by cases found

/-- A row that fits is read without complaint. -/
theorem Fits.decode {jobs : List Job} {id : String} {row : Row} (fits : Fits jobs marks id row)
    (readable : row.notice.readable = true) : decode row.notice = .ok row.notice := by
  have leased : row.notice.leased = true := by
    unfold SlackNotice.leased
    split
    · next sending =>
        obtain ⟨job, -, -, token, until_, isToken, valid, -⟩ := fits.sending sending
        rw [token, until_]
        simp [isToken, valid]
    · next idle =>
        obtain ⟨token, until_⟩ := fits.unleased idle
        rw [token, until_]
        rfl
  have positive : 1 ≤ row.notice.version := by
    rw [fits.version]
    cases marks with
    | nil => cases fits.ended
    | cons mark older => exact Nat.succ_pos _
  have few : row.notice.attempts ≤ 3 := fits.attempts ▸ fits.orderly.few
  have valid : row.notice.valid = true := by
    unfold SlackNotice.readable at readable
    rw [Bool.and_eq_true] at readable
    have used : (row.notice.attempts != 0 ||
        [Status.retryWait, .userConfirmed, .dismissed].contains row.notice.status) = true := by
      by_cases zero : row.notice.attempts = 0
      · rw [fits.used zero, Bool.or_true]
      · simp [zero]
    unfold SlackNotice.valid
    rw [used, leased, fits.code, fits.binding, fits.next, fits.same, fits.named, readable.1,
      readable.2]
    simp [few, positive, fits.total]
  unfold Slack.decode
  rw [if_pos valid]
  by_cases accepted : row.notice.status = .providerAccepted
  · obtain ⟨value, receipt, checked⟩ := fits.accepted accepted
    rw [receipt]
    simp [checked, accepted]
  · rw [fits.unaccepted accepted]
    simp [accepted]

/-! ## Rows -/

variable {id : String} {row : Row} {mark : Mark} {job : Job}

/-- A job's lease ends when its row says. -/
theorem State.Sound.unexpired (sound : s.Sound) (mem : job ∈ s.jobs) (holds : s.Holds job) :
    s.clock < job.until_ := by
  obtain ⟨row, stored, sending, token, lapsed⟩ := holds
  obtain ⟨other, inside, -, held, until_, -⟩ := (sound.rows _ row stored).sending sending
  obtain rfl := sound.tokens other inside job mem (Option.some.inj (held.symm.trans token))
  unfold SlackNotice.lapsed at lapsed
  rw [sending, until_] at lapsed
  simpa using lapsed

theorem put_other {x : String} (differs : x ≠ id) : (s.put id row mark).rows x = s.rows x :=
  Function.update_of_ne differs _ _

theorem put_self : (s.put id row mark).rows id = some row := Function.update_self _ _ _

theorem marks_other {x : String} (differs : x ≠ id) : (s.put id row mark).marks x = s.marks x :=
  Function.update_of_ne differs _ _

theorem marks_self : (s.put id row mark).marks id = mark :: s.marks id := Function.update_self _ _ _

/-- A row that is not being sent is nobody's. -/
theorem holds_put (idle : row.notice.status ≠ .sending) (holds : (s.put id row mark).Holds job) :
    job.id ≠ id ∧ s.Holds job := by
  obtain ⟨found, stored, sending, token, lapsed⟩ := holds
  by_cases same : job.id = id
  · rw [same, put_self] at stored
    cases stored
    exact absurd sending idle
  · rw [put_other same] at stored
    exact ⟨same, found, stored, sending, token, lapsed⟩

theorem State.Sound.fits_put (sound : s.Sound) (fits : Fits s.jobs (mark :: s.marks id) id row)
    (x : String) (found : Row) (stored : (s.put id row mark).rows x = some found) :
    Fits s.jobs ((s.put id row mark).marks x) x found := by
  by_cases same : x = id
  · subst same
    rw [put_self] at stored
    cases stored
    rw [marks_self]
    exact fits
  · rw [put_other same] at stored
    rw [marks_other same]
    exact sound.rows x found stored

theorem State.Sound.unmarked_put (sound : s.Sound) (x : String)
    (absent : (s.put id row mark).rows x = none) : (s.put id row mark).marks x = [] := by
  by_cases same : x = id
  · rw [same, put_self] at absent
    cases absent
  · rw [put_other same] at absent
    rw [marks_other same]
    exact sound.unmarked x absent

theorem State.Sound.put (sound : s.Sound) (fits : Fits s.jobs (mark :: s.marks id) id row)
    (idle : row.notice.status ≠ .sending) : (s.put id row mark).Sound where
  clock := sound.clock
  rows := sound.fits_put fits
  unmarked := sound.unmarked_put
  tokens := sound.tokens
  held job mem holds := sound.held job mem (holds_put idle holds).2
  alone a memA b memB same holdsA holdsB :=
    sound.alone a memA b memB same (holds_put idle holdsA).2 (holds_put idle holdsB).2
  limits := sound.limits
  results := sound.results

/-! ## Limits -/

theorem le_raise (old : Option Nat) (until_ : Nat) :
    until_ ≤ raise old until_ ∧ ∀ u, old = some u → u ≤ raise old until_ := by
  cases old with
  | none => exact ⟨le_rfl, fun u h => by cases h⟩
  | some v => exact ⟨Nat.le_max_right _ _, fun u h => by cases h; exact Nat.le_max_left _ _⟩

theorem validTime_raise {old : Option Nat} {until_ : Nat} (valid : validTime until_ = true)
    (before : ∀ u, old = some u → validTime u = true) : validTime (raise old until_) = true := by
  cases old with
  | none => exact valid
  | some v =>
      have before := before v rfl
      unfold validTime raise at *
      simp only [decide_eq_true_eq] at *
      exact max_le before valid

/-- Raising a limit takes nothing from anybody. -/
theorem State.Sound.defer {scope : String} {until_ : Nat} (sound : s.Sound)
    (valid : validTime until_ = true) : (s.defer scope until_).Sound where
  clock := sound.clock
  rows := sound.rows
  unmarked := sound.unmarked
  tokens := sound.tokens
  held job mem holds := by
    obtain ⟨u, found, covers⟩ := sound.held job mem holds
    by_cases same : job.scope = scope
    · refine ⟨raise (s.limits scope) until_, ?_, ?_⟩
      · exact same ▸ Function.update_self _ _ _
      · exact covers.trans ((le_raise _ _).2 u (same ▸ found))
    · exact ⟨u, (Function.update_of_ne same _ _).trans found, covers⟩
  alone := sound.alone
  limits x u found := by
    change Function.update s.limits scope _ x = some u at found
    rw [Function.update_apply] at found
    split at found
    · cases found
      exact validTime_raise valid fun u before => sound.limits scope u before
    · exact sound.limits x u found
  results := sound.results

/-- A conversation is released once nobody's lease is behind its limit. -/
theorem State.Sound.release (sound : s.Sound) (valid : validTime (s.clock + 1000) = true)
    (done : ∀ b ∈ s.jobs, b.scope = job.scope → s.Holds b → ¬ b.until_ ≤ job.until_) :
    (s.release job).Sound := by
  unfold State.release
  split
  · next limit =>
      refine { sound with
        held := fun b mem holds => ?_
        limits := fun x u found => ?_ }
      · obtain ⟨u, found, covers⟩ := sound.held b mem holds
        by_cases same : b.scope = job.scope
        · rw [same] at found
          have top : some u = some (job.until_ + 1000) := found.symm.trans limit
          obtain rfl := Option.some.inj top
          exact absurd (by omega) (done b mem same holds)
        · exact ⟨u, (Function.update_of_ne same _ _).trans found, covers⟩
      · dsimp only at found
        rw [Function.update_apply] at found
        split at found
        · cases found
          exact valid
        · exact sound.limits x u found
  · exact sound

/-! ## Leases -/

theorem Fits.more {jobs : List Job} (fits : Fits jobs marks id row) :
    Fits (job :: jobs) marks id row :=
  { fits with
    sending := fun sending => by
      obtain ⟨held, mem, rest⟩ := fits.sending sending
      exact ⟨held, List.mem_cons_of_mem _ mem, rest⟩ }

theorem free_limit {team dm : String} (free : s.free team dm = .ok true) (u : Nat)
    (found : s.limits (dmScope team dm) = some u) : u ≤ s.clock := by
  unfold State.free at free
  obtain ⟨a, -, free⟩ := bind_ok.mp free
  split at free
  · cases free
  · obtain ⟨b, limit, free⟩ := bind_ok.mp free
    unfold State.limit at limit
    rw [found] at limit
    dsimp only at limit
    split at limit
    · cases limit
      have open_ := Except.ok.inj free
      simp only [Bool.not_eq_eq_eq_not, Bool.not_true, decide_eq_false_iff_not] at open_
      omega
    · cases limit

/-- A new lease: its conversation was free, so nobody else holds it. -/
theorem State.Sound.lease (sound : s.Sound) (fresh : s.fresh job.token)
    (free : s.free job.team job.dm = .ok true)
    (timely : validTime (job.until_ + 1000) = true)
    (fits : Fits (job :: s.jobs) (.sent job.token :: s.marks job.id) job.id row)
    (token : row.notice.leaseToken = some job.token) :
    ((s.put job.id row (.sent job.token)).lease job).Sound := by
  -- Who holds a lease now held it before, elsewhere, or is the new one.
  have before : ∀ b ∈ job :: s.jobs, ((s.put job.id row (.sent job.token)).lease job).Holds b →
      b = job ∨ b ∈ s.jobs ∧ s.Holds b ∧ b.scope ≠ job.scope := by
    intro b mem holds
    rcases List.mem_cons.mp mem with rfl | mem
    · exact Or.inl rfl
    · obtain ⟨found, stored, sending, named, lapsed⟩ := holds
      change (s.put job.id row (.sent job.token)).rows b.id = some found at stored
      by_cases same : b.id = job.id
      · rw [same, put_self] at stored
        cases stored
        exact absurd (Option.some.inj (named.symm.trans token)) (fresh.2 b mem)
      · rw [put_other same] at stored
        have holds : s.Holds b := ⟨found, stored, sending, named, lapsed⟩
        refine Or.inr ⟨mem, holds, fun scope => ?_⟩
        obtain ⟨u, limit, covers⟩ := sound.held b mem holds
        have ended := free_limit free u (by rw [← limit, scope]; rfl)
        have unexpired := sound.unexpired mem holds
        omega
  refine ⟨sound.clock, ?_, sound.unmarked_put, ?_, ?_, ?_, ?_, sound.results⟩
  · intro x found stored
    change (s.put job.id row (.sent job.token)).rows x = some found at stored
    change Fits (job :: s.jobs) ((s.put job.id row (.sent job.token)).marks x) x found
    by_cases same : x = job.id
    · subst same
      rw [put_self] at stored
      cases stored
      rw [marks_self]
      exact fits
    · rw [put_other same] at stored
      rw [marks_other same]
      exact (sound.rows x found stored).more
  · intro a memA b memB same
    rcases List.mem_cons.mp memA with rfl | memA <;> rcases List.mem_cons.mp memB with rfl | memB
    · rfl
    · exact absurd same.symm (fresh.2 b memB)
    · exact absurd same (fresh.2 a memA)
    · exact sound.tokens a memA b memB same
  · intro b mem holds
    rcases before b mem holds with rfl | ⟨mem, holds, elsewhere⟩
    · exact ⟨_, Function.update_self _ _ _, (le_raise _ _).1⟩
    · obtain ⟨u, found, covers⟩ := sound.held b mem holds
      exact ⟨u, (Function.update_of_ne elsewhere _ _).trans found, covers⟩
  · intro a memA b memB same holdsA holdsB
    rcases before a memA holdsA with rfl | ⟨memA, holdsA, elsewhereA⟩ <;>
      rcases before b memB holdsB with rfl | ⟨memB, holdsB, elsewhereB⟩
    · rfl
    · exact absurd same.symm elsewhereB
    · exact absurd same elsewhereA
    · exact sound.alone a memA b memB same holdsA holdsB
  · intro x u found
    change Function.update s.limits _ _ x = some u at found
    rw [Function.update_apply] at found
    split at found
    · cases found
      exact validTime_raise timely fun u before => sound.limits _ u before
    · exact sound.limits x u found

/-! ## Changes of a row -/

/-- A row that somebody holds and whose lease has run out is unknown. -/
theorem Fits.expire {jobs : List Job} (fits : Fits jobs marks id row)
    (sending : row.notice.status = .sending) :
    Fits jobs (.expired :: marks) id (row.changed SlackNotice.expire) where
  same := fits.same
  named := fits.named
  binding := fits.binding
  code := by change isCode "SLACK_RESULT_UNKNOWN" = true; decide
  next := fits.next
  total := fits.total
  version := congrArg (· + 1) fits.version
  attempts := fits.attempts
  orderly := ⟨fits.orderly, fits.orderly.few, fun h => by cases h⟩
  ended := rfl
  used zero := by
    have used := fits.used zero
    rw [sending] at used
    cases used
  waiting h := by cases h
  sending h := by cases h
  unleased _ := ⟨rfl, rfl⟩
  accepted h := by cases h
  unaccepted _ := fits.unaccepted (by rw [sending]; decide)

theorem waiting_iff {n : SlackNotice} {binding : String} {now : Nat}
    (waiting : n.waiting binding now = true) : n.status = .retryWait ∧ n.attempts < 3 := by
  unfold SlackNotice.waiting at waiting
  simp only [Bool.and_eq_true, beq_iff_eq, decide_eq_true_eq] at waiting
  exact ⟨waiting.1.1.2, waiting.2⟩

theorem Fits.send {jobs : List Job} {binding : String} {now : Nat} (fits : Fits jobs marks job.id row)
    (waiting : row.notice.waiting binding now = true) (isToken : isToken job.token = true)
    (valid : validTime job.until_ = true) :
    Fits (job :: jobs) (.sent job.token :: marks) job.id
      (row.changed (SlackNotice.send job.token job.until_)) where
  same := fits.same
  named := fits.named
  binding := fits.binding
  code := rfl
  next := fits.next
  total := Nat.succ_le_succ fits.total
  version := congrArg (· + 1) fits.version
  attempts := congrArg (· + 1) fits.attempts
  orderly := by
    obtain ⟨status, few⟩ := waiting_iff waiting
    refine ⟨fits.orderly, ?_, fun _ => fits.waiting status⟩
    rw [sendsSince, ← fits.attempts]
    omega
  ended := rfl
  used h := by cases h
  waiting h := by cases h
  sending _ := ⟨job, List.mem_cons_self, rfl, rfl, rfl, isToken, valid, marks, rfl⟩
  unleased h := absurd rfl h
  accepted h := by cases h
  unaccepted _ := fits.unaccepted (by rw [(waiting_iff waiting).1]; decide)

theorem Fits.first {jobs : List Job} {actor : Person} {binding : String} {now : Nat}
    (named : isId job.id = true) (bound : isDigest binding = true) (timely : validTime now = true)
    (isToken : isToken job.token = true) (valid : validTime job.until_ = true) :
    Fits (job :: jobs) [.sent job.token] job.id
      (Row.first actor job.id binding job.token now job.until_) where
  same := rfl
  named := named
  binding := bound
  code := rfl
  next := timely
  total := le_rfl
  version := rfl
  attempts := rfl
  orderly := ⟨trivial, by simp [sendsSince], fun _ => Or.inl rfl⟩
  ended := rfl
  used h := by cases h
  waiting h := by cases h
  sending _ := ⟨job, List.mem_cons_self, rfl, rfl, rfl, isToken, valid, [], rfl⟩
  unleased h := absurd rfl h
  accepted h := by cases h
  unaccepted _ := rfl

theorem settles_cases (result : SlackResult) (attempts : Nat) :
    result.settles attempts = result.status ∨
      result.settles attempts = .failed ∧ result.status = .retryWait := by
  unfold SlackResult.settles
  split
  · next retried => exact Or.inr ⟨rfl, retried.1⟩
  · exact Or.inl rfl

theorem Fits.settle {jobs : List Job} {result : SlackResult} {receipt : Option Value} {next : Nat}
    (fits : Fits jobs marks id row) (sending : row.notice.status = .sending)
    (token : row.notice.leaseToken = some job.token) (adapted : result.adapted = true)
    (accepted : result.receipt = .ok receipt) (timely : validTime next = true) :
    Fits jobs (.settled job.token (result.settles row.notice.attempts) :: marks) id
      (row.changed (SlackNotice.settle (result.settles row.notice.attempts) next result.code
        receipt)) where
  same := fits.same
  named := fits.named
  binding := fits.binding
  code := adapted
  next := timely
  total := fits.total
  version := congrArg (· + 1) fits.version
  attempts := fits.attempts
  orderly := ⟨fits.orderly, fits.orderly.few, fun h => by cases h⟩
  ended := rfl
  used zero := by
    have used := fits.used zero
    rw [sending] at used
    cases used
  waiting waits := by
    obtain ⟨held, -, -, lease, -, -, -, rest, rfl⟩ := fits.sending sending
    have same : held.token = job.token := Option.some.inj (lease.symm.trans token)
    refine Or.inr (Or.inl ⟨job.token, rest, ?_⟩)
    rw [same, show result.settles row.notice.attempts = .retryWait from waits]
  sending again := by
    have again : result.settles row.notice.attempts = .sending := again
    rcases settles_cases result row.notice.attempts with same | ⟨same, -⟩ <;> rw [same] at again
    · cases result <;> cases again
    · cases again
  unleased _ := ⟨rfl, rfl⟩
  accepted is := by
    have is : result.settles row.notice.attempts = .providerAccepted := is
    rcases settles_cases result row.notice.attempts with same | ⟨same, -⟩ <;> rw [same] at is
    · cases result with
      | providerAccepted value =>
          obtain ⟨checked, run, rfl⟩ := map_ok.mp accepted
          obtain rfl := slackAcceptance_ok run
          exact ⟨checked, rfl, run⟩
      | retryWait | blocked | unknown => cases is
    · cases is
  unaccepted other := by
    have other : result.settles row.notice.attempts ≠ .providerAccepted := other
    cases result with
    | providerAccepted value =>
        rcases settles_cases (.providerAccepted value) row.notice.attempts with same | ⟨-, retried⟩
        · exact absurd same other
        · cases retried
    | retryWait | blocked | unknown => exact (Except.ok.inj accepted).symm

theorem Fits.resolve {jobs : List Job} {binding : Option String} {now : Nat}
    (fits : Fits jobs marks id row) (outcome : Outcome) (timely : validTime now = true)
    (terminal : [Status.unknown, .blocked, .failed].contains (row.notice.seen binding now) = true) :
    Fits jobs (.resolved outcome :: marks) id (row.changed (SlackNotice.resolve outcome now)) where
  same := fits.same
  named := fits.named
  binding := fits.binding
  code := by
    cases outcome with
    | retry => exact (by decide : isCode "SLACK_MANUAL_RETRY" = true)
    | seen | dismiss => exact (by decide : isCode "SLACK_USER_RESOLUTION" = true)
  next := timely
  total := by
    cases outcome with
    | retry => exact Nat.zero_le _
    | seen | dismiss => exact fits.total
  version := congrArg (· + 1) fits.version
  attempts := by
    cases outcome with
    | retry => rfl
    | seen | dismiss => exact fits.attempts
  orderly := by
    refine ⟨fits.orderly, ?_, fun h => by cases h⟩
    cases outcome with
    | retry => exact Nat.zero_le 3
    | seen | dismiss => exact fits.orderly.few
  ended := rfl
  used _ := by cases outcome <;> rfl
  waiting waits := by
    cases outcome with
    | retry => exact Or.inr (Or.inr ⟨marks, rfl⟩)
    | seen | dismiss => cases waits
  sending again := by cases outcome <;> cases again
  unleased _ := ⟨rfl, rfl⟩
  accepted is := by cases outcome <;> cases is
  unaccepted _ := by
    refine fits.unaccepted fun accepted => ?_
    rcases seen_terminal terminal with lapsed | ⟨-, is⟩ | is | is | is
    · unfold SlackNotice.lapsed at lapsed
      rw [accepted] at lapsed
      cases lapsed
    all_goals
      rw [accepted] at is
      cases is

/-! ## Steps -/

theorem lapsed_sending {n : SlackNotice} {now : Nat} (lapsed : n.lapsed now = true) :
    n.status = .sending := by
  unfold SlackNotice.lapsed at lapsed
  rw [Bool.and_eq_true, beq_iff_eq] at lapsed
  exact lapsed.1

/-- A job whose row has its token still holds it until its lease runs out. -/
theorem State.Sound.holds (sound : s.Sound) (mem : job ∈ s.jobs) (stored : s.rows job.id = some row)
    (sending : row.notice.status = .sending) (token : row.notice.leaseToken = some job.token)
    (unexpired : s.clock < job.until_) : s.Holds job := by
  refine ⟨row, stored, sending, token, ?_⟩
  obtain ⟨other, inside, -, held, until_, -⟩ := (sound.rows _ row stored).sending sending
  obtain rfl := sound.tokens other inside job mem (Option.some.inj (held.symm.trans token))
  unfold SlackNotice.lapsed
  rw [until_]
  simp [unexpired]

theorem State.Sound.conclude {result : SlackResult} {receipt : Option Value} (sound : s.Sound)
    (mem : job ∈ s.jobs) (stored : s.rows job.id = some row)
    (sending : row.notice.status = .sending) (token : row.notice.leaseToken = some job.token)
    (adapted : result.adapted = true) (accepted : result.receipt = .ok receipt)
    (soon : validTime (s.clock + 1000) = true)
    (timely : validTime (s.clock + result.retry.toNat) = true) :
    (s.conclude job result row.notice.attempts receipt).Sound := by
  have fits := (sound.rows _ row stored).settle sending token adapted accepted timely
  have idle : (row.changed (SlackNotice.settle (result.settles row.notice.attempts)
      (s.clock + result.retry.toNat) result.code receipt)).notice.status ≠ .sending := by
    intro again
    obtain ⟨_, _, _, lease, _⟩ := fits.sending again
    cases lease
  have put := sound.put fits idle
  -- Whoever holds the conversation now has a later lease than the settled one.
  have done : ∀ b ∈ s.jobs, b.scope = job.scope →
      (s.put job.id (row.changed (SlackNotice.settle (result.settles row.notice.attempts)
        (s.clock + result.retry.toNat) result.code receipt))
        (.settled job.token (result.settles row.notice.attempts))).Holds b →
      ¬ b.until_ ≤ job.until_ := by
    intro b inside scope holds earlier
    obtain ⟨elsewhere, holds⟩ := holds_put idle holds
    have unexpired := sound.unexpired inside holds
    have own := sound.holds mem stored sending token (by omega)
    exact elsewhere (congrArg Job.id (sound.alone b inside job mem scope holds own))
  unfold State.conclude
  dsimp only
  rw [write_eq stored]
  split
  · exact (put.defer timely).release soon done
  · exact put.release soon done

theorem record_cases {actor other : Person} {operationId name : String} {new row : Resolution}
    (found : (s.record actor operationId new).resolutions other name = some row) :
    (other = actor ∧ name = operationId ∧ row = new) ∨ s.resolutions other name = some row := by
  change Function.update s.resolutions actor _ other name = some row at found
  by_cases same : other = actor
  · subst same
    rw [Function.update_self, Function.update_apply] at found
    split at found
    · next named => exact Or.inl ⟨rfl, named, (Option.some.inj found).symm⟩
    · exact Or.inr found
  · rw [Function.update_of_ne same] at found
    exact Or.inr found

theorem record_self {actor : Person} {operationId : String} {new : Resolution} :
    (s.record actor operationId new).resolutions actor operationId = some new := by
  change Function.update s.resolutions actor (Function.update (s.resolutions actor) operationId
    (some new)) actor operationId = some new
  rw [Function.update_self, Function.update_self]

theorem Change.sound (change : Change s t) (sound : s.Sound) : t.Sound := by
  cases change with
  | nothing => exact sound
  | @clock now later timely =>
      have earlier : ∀ job : Job, State.Holds { s with clock := now } job → s.Holds job := by
        intro job holds
        obtain ⟨row, stored, sending, token, lapsed⟩ := holds
        refine ⟨row, stored, sending, token, ?_⟩
        unfold SlackNotice.lapsed at lapsed ⊢
        rw [sending] at lapsed ⊢
        cases ends : row.notice.leaseUntil with
        | none => rfl
        | some u =>
            rw [ends] at lapsed
            simp only [beq_self_eq_true, Option.any_some, Bool.true_and,
              decide_eq_false_iff_not] at lapsed ⊢
            omega
      exact { sound with
        clock := timely
        held := fun job mem holds => sound.held job mem (earlier job holds)
        alone := fun a memA b memB same holdsA holdsB =>
          sound.alone a memA b memB same (earlier a holdsA) (earlier b holdsB) }
  | expired stored lapsed =>
      rw [write_eq stored]
      exact sound.put ((sound.rows _ _ stored).expire (lapsed_sending lapsed))
        fun h => by cases h
  | resent stored waiting free fresh named ends timely =>
      subst named
      rw [write_eq stored]
      refine sound.lease fresh free timely ((sound.rows _ _ stored).send waiting fresh.1 ?_) rfl
      unfold validTime at timely ⊢
      simp only [decide_eq_true_eq] at timely ⊢
      omega
  | created absent valid free fresh named ends timely =>
      subst named
      refine sound.lease fresh free timely ?_ rfl
      rw [sound.unmarked _ absent]
      refine Fits.first valid.1 valid.2.1 valid.2.2 fresh.1 ?_
      unfold validTime at timely ⊢
      simp only [decide_eq_true_eq] at timely ⊢
      omega
  | settled held stored sending token adapted retry accepted soon timely =>
      exact sound.conclude held stored sending token adapted accepted soon timely
  | @resolved actor id operationId row outcome digest binding result stored terminal allowed new
      decoded =>
      rw [write_eq stored]
      have idle : (row.changed (SlackNotice.resolve outcome s.clock)).notice.status ≠ .sending := by
        cases outcome <;> exact fun h => by cases h
      have put := sound.put ((sound.rows _ _ stored).resolve outcome sound.clock terminal) idle
      refine { put with results := fun other name row found => ?_ }
      obtain ⟨-, -, rfl⟩ | before := record_cases found
      · exact decoded
      · exact sound.results other name row before

/-! ## What stays -/

theorem grows_update (rows : t.rows = Function.update s.rows id (some row))
    (newer : ∀ old, s.rows id = some old → old.notice.version < row.notice.version) :
    Grows s t := by
  intro x old stored
  rw [rows, Function.update_apply]
  by_cases same : x = id
  · rw [if_pos same]
    exact ⟨row, rfl, Or.inr (newer old (same ▸ stored))⟩
  · rw [if_neg same]
    exact ⟨old, stored, Or.inl rfl⟩

theorem grows_changed {change : SlackNotice → SlackNotice} (stored : s.rows id = some row)
    (rows : t.rows = Function.update s.rows id (some (row.changed change))) : Grows s t := by
  refine grows_update rows fun old found => ?_
  obtain rfl := Option.some.inj (stored.symm.trans found)
  exact Nat.lt_succ_self _

theorem release_rows : (s.release job).rows = s.rows := by
  unfold State.release
  split <;> rfl

theorem conclude_rows {result : SlackResult} {attempts : Nat} {receipt : Option Value} :
    (s.conclude job result attempts receipt).rows =
      (s.write job.id (.settled job.token (result.settles attempts))
        (SlackNotice.settle (result.settles attempts) (s.clock + result.retry.toNat) result.code
          receipt)).rows := by
  unfold State.conclude
  refine release_rows.trans ?_
  split <;> rfl

theorem release_resolutions : (s.release job).resolutions = s.resolutions := by
  unfold State.release
  split <;> rfl

theorem Change.grows (change : Change s t) : Grows s t := by
  cases change with
  | nothing | clock => exact fun id row stored => ⟨row, stored, Or.inl rfl⟩
  | expired stored lapsed =>
      rw [write_eq stored]
      exact grows_changed stored rfl
  | resent stored waiting free fresh named ends timely =>
      rw [write_eq stored]
      exact grows_changed stored rfl
  | created absent valid free fresh named ends timely =>
      exact grows_update rfl fun old found => by rw [absent] at found; cases found
  | settled held stored sending token adapted retry accepted soon timely =>
      exact grows_changed stored (conclude_rows.trans (congrArg State.rows (write_eq stored)))
  | resolved stored terminal allowed new decoded =>
      rw [write_eq stored]
      exact grows_changed stored rfl

/-- A resolution is never replaced. -/
theorem Change.resolutions (change : Change s t) {actor : Person} {operationId : String}
    {row : Resolution} (found : s.resolutions actor operationId = some row) :
    t.resolutions actor operationId = some row := by
  cases change with
  | nothing | clock | expired | resent | created => exact found
  | settled held stored sending token adapted retry accepted soon timely =>
      unfold State.conclude
      rw [release_resolutions]
      split <;> exact found
  | @resolved other _ name _ _ _ _ _ stored terminal allowed new decoded =>
      change Function.update s.resolutions other _ actor operationId = some row
      by_cases same : actor = other
      · subst same
        rw [Function.update_self]
        by_cases named : operationId = name
        · subst named
          rw [new] at found
          cases found
        · rw [Function.update_of_ne named]
          exact found
      · rw [Function.update_of_ne same]
        exact found

theorem Grows.refl (s : State) : Grows s s := fun _ row stored => ⟨row, stored, Or.inl rfl⟩

theorem Grows.trans {u : State} (first : Grows s t) (second : Grows t u) : Grows s u := by
  intro id row stored
  obtain ⟨middle, held, before⟩ := first id row stored
  obtain ⟨last, found, after⟩ := second id middle held
  refine ⟨last, found, ?_⟩
  rcases before with rfl | before
  · exact after
  · rcases after with rfl | after
    · exact Or.inr before
    · exact Or.inr (before.trans after)

/-! ## Repetition -/

section Repetition

variable [Sha256] {actor : Person} {input : Value} {result : SlackNotice}

/-- The resolution is answered with its first result, and another one under its operation id is
refused; both leave the store as it is. -/
structure State.Repeats (s : State) (actor : Person) (id : String) (input : Value)
    (result : SlackNotice) : Prop where
  same : ∀ binding eligible, s.resolve actor id binding input eligible = .ok (result, s)
  other : ∀ id' input' request request' digest digest',
    validateSlackResolution input = .ok request → validateSlackResolution input' = .ok request' →
    request'.operationId = request.operationId → isId id' = true →
    requestDigest id input = .ok digest → requestDigest id' input' = .ok digest' →
    digest' ≠ digest → ∀ binding eligible, s.resolve actor id' binding input' eligible =
      .error (.delivery "IDEMPOTENCY_CONFLICT" 409 false)

/-- The resolution of the input is recorded with its result. -/
structure State.Recorded (s : State) (actor : Person) (id : String) (input : Value)
    (result : SlackNotice) (request : SlackResolution) (digest : String) : Prop where
  named : isId id = true
  valid : validateSlackResolution input = .ok request
  hashed : requestDigest id input = .ok digest
  stored : s.resolutions actor request.operationId = some ⟨digest, result⟩
  decoded : decode result = .ok result

theorem resolveNew_recorded {binding : Option String} {eligible : Option Bool}
    {request : SlackResolution} (named : isId id = true)
    (valid : validateSlackResolution input = .ok request)
    (run : s.resolveNew actor id binding request input eligible = .ok (result, t)) :
    ∃ digest, t.Recorded actor id input result request digest := by
  unfold State.resolveNew at run
  obtain ⟨current, -, run⟩ := bind_ok.mp run
  cases current with
  | none => cases run
  | some n =>
      dsimp only at run
      split at run
      · obtain ⟨allowed, -, run⟩ := bind_ok.mp run
        split at run
        · obtain ⟨found, read, run⟩ := bind_ok.mp run
          cases found with
          | none => cases run
          | some after =>
              obtain ⟨digest, hashed, run⟩ := bind_ok.mp run
              obtain ⟨row, -, -, rfl, decoded⟩ := get_some read
              cases run
              refine ⟨digest, named, valid, hashed, ?_, decoded⟩
              exact record_self
        · cases run
      · cases run

theorem resolve_recorded {binding : Option String} {eligible : Option Bool}
    (run : s.resolve actor id binding input eligible = .ok (result, t)) :
    ∃ request digest, t.Recorded actor id input result request digest := by
  unfold State.resolve at run
  obtain ⟨request, valid, run⟩ := bind_ok.mp run
  split at run
  · next checks =>
      rw [Bool.and_eq_true] at checks
      obtain ⟨replay, replayed, run⟩ := bind_ok.mp run
      cases replay with
      | none => exact ⟨request, resolveNew_recorded checks.1 valid run⟩
      | some replay =>
          cases run
          unfold State.resolutionReplay at replayed
          split at replayed
          · cases replayed
          · next row stored =>
              obtain ⟨digest, hashed, replayed⟩ := bind_ok.mp replayed
              split at replayed
              · next same =>
                  split at replayed
                  · next n decoded =>
                      cases replayed
                      obtain rfl := decode_ok decoded
                      exact ⟨request, digest, checks.1, valid, hashed, same ▸ stored, decoded⟩
                  · cases replayed
              · cases replayed
  · cases run

theorem State.Recorded.repeats {request : SlackResolution} {digest : String}
    (recorded : s.Recorded actor id input result request digest)
    (clock : validTime s.clock = true) : s.Repeats actor id input result where
  same binding eligible := by
    unfold State.resolve State.resolutionReplay
    rw [recorded.valid, ok_bind, recorded.named, clock, recorded.stored, recorded.hashed]
    simp [recorded.decoded]
  other id' input' request₁ request' digest₁ digest' valid valid' same named hashed hashed' differs
      binding eligible := by
    obtain rfl := Except.ok.inj (recorded.valid.symm.trans valid)
    obtain rfl := Except.ok.inj (recorded.hashed.symm.trans hashed)
    unfold State.resolve State.resolutionReplay
    rw [valid', ok_bind, named, clock, same, recorded.stored, hashed']
    simp [differs.symm]
    rfl

end Repetition

theorem State.Sound.orderly (sound : s.Sound) (id : String) : Orderly (s.marks id) := by
  cases stored : s.rows id with
  | none =>
      rw [sound.unmarked id stored]
      trivial
  | some row => exact (sound.rows id row stored).orderly

/-! ## Runs -/

section Runs

variable [Sha256]

/-- The invariant says what the statement does. -/
theorem State.Sound.safe (sound : s.Sound) : s.Safe where
  ended id row stored :=
    ⟨(sound.rows id row stored).ended, (sound.rows id row stored).version⟩
  resent id newer token older split := by
    have orderly := sound.orderly id
    rw [split] at orderly
    exact orderly.suffix.2.2 rfl
  few id newer between older split unasked := by
    have orderly := sound.orderly id
    rw [split] at orderly
    have few := orderly.suffix.few
    rw [sendsSince_append unasked] at few
    omega
  asked id newer token between mark older split terminal := by
    have orderly := sound.orderly id
    rw [split] at orderly
    exact orderly.suffix.asked terminal
  leased id row stored sending := by
    obtain ⟨job, mem, named, token, -⟩ := (sound.rows id row stored).sending sending
    exact ⟨job, mem, named, token⟩
  alone a memA b memB team dm holdsA holdsB :=
    sound.alone a memA b memB (by unfold Job.scope; rw [team, dm]) holdsA holdsB
  decoded actor id := by
    unfold State.get
    split
    · next row stored =>
        split
        · split
          · next readable =>
              rw [(sound.rows id row stored).decode readable]
              exact fun h => by cases h
          · exact fun h => by cases h
        · exact fun h => by cases h
    · exact fun h => by cases h
  limited scope := by
    unfold State.limit
    split
    · next u found =>
        rw [if_pos (sound.limits scope u found)]
        exact fun h => by cases h
    · exact fun h => by cases h
  replayed actor id request input := by
    unfold State.resolutionReplay
    split
    · exact fun h => by cases h
    · next row found =>
        rw [sound.results actor _ row found]
        intro run
        cases hashed : requestDigest id input with
        | error e =>
            rw [hashed] at run
            unfold requestDigest deliveryHash at hashed
            cases digest : canonicalDigest (Knowledger.record [("id", jsonString id), ("input", input)]) with
            | error e' =>
                rw [digest] at hashed
                cases hashed
                cases run
            | ok d =>
                rw [digest] at hashed
                cases hashed
        | ok digest =>
            rw [hashed, ok_bind] at run
            split at run <;> cases run

/-- **No automatic duplicate.**  In every run of claims, settlements and resolutions a notice is
sent again only behind a retry, at most three times for each; one worker at a time holds a
conversation; what is stored is read back; versions only grow; and a resolution is answered once. -/
theorem slack_notices_once {events : List Event}
    (timely : Machine.Always State.step Timely State.new events)
    (taken : Machine.run State.step State.new events = some s) :
    s.Safe ∧
    (∀ more t, Machine.Always State.step Timely s more → Machine.run State.step s more = some t →
      Grows s t) ∧
    ∀ actor id binding input eligible result t,
      s.resolve actor id binding input eligible = .ok (result, t) → ∀ more u,
        Machine.Always State.step Timely t more → Machine.run State.step t more = some u →
          u.Repeats actor id input result := by
  have sound : s.Sound := Machine.run_keeps_of (P := State.Sound)
    (fun _ _ _ sound timely taken => (step_change timely taken).sound sound) State.Sound.new timely
    taken
  refine ⟨sound.safe, fun more t timely taken => ?_, ?_⟩
  · exact Machine.run_relates Grows.refl (fun _ _ _ => Grows.trans)
      (fun _ _ _ timely taken => (step_change timely taken).grows) timely taken
  · intro actor id binding input eligible result t run more u timely taken
    obtain ⟨request, digest, recorded⟩ := resolve_recorded run
    have later := Machine.run_keeps_of
      (P := fun s => s.Sound ∧ s.Recorded actor id input result request digest)
      (fun _ _ _ holds timely taken =>
        have change := step_change timely taken
        ⟨change.sound holds.1, { holds.2 with stored := change.resolutions holds.2.stored }⟩)
      ⟨(resolve_change run).sound sound, recorded⟩ timely taken
    exact later.2.repeats later.1.clock

end Runs

namespace Demo

@[reducible] local instance : Sha256 := Knowledger.Demo.sha256

def person : Person := ⟨"org", "owner"⟩

def firstToken : String := "00000000-0000-4000-8000-000000000001"
def secondToken : String := "00000000-0000-4000-8000-000000000002"

def claimed (token : String) : Event :=
  .claim person "reminder" ("sha256:" ++ String.ofList (List.replicate 64 '0')) "T01" "D01" 45000
    token

/-- A notice is limited, sent again a minute later, and its second send gets no answer. -/
def limited : List Event :=
  [claimed firstToken, .settle 0 (.retryWait "SLACK_RATE_LIMITED" (some 60000)), .clock 60000,
    claimed secondToken, .settle 0 (.unknown "SLACK_RESULT_UNKNOWN"), .clock 200000,
    claimed "00000000-0000-4000-8000-000000000003"]

/-- It is not sent a third time. -/
theorem slack_notices_once_limited : ∃ s, Machine.run State.step State.new limited = some s ∧
    s.marks "reminder" = [.settled secondToken .unknown, .sent secondToken,
      .settled firstToken .retryWait, .sent firstToken] ∧ s.Safe := by
  have ⟨s, taken, marks⟩ : ∃ s, Machine.run State.step State.new limited = some s ∧
      s.marks "reminder" = [.settled secondToken .unknown, .sent secondToken,
        .settled firstToken .retryWait, .sent firstToken] := ⟨_, rfl, by decide +kernel⟩
  exact ⟨s, taken, marks, (slack_notices_once (by decide +kernel) taken).1⟩

end Demo

end Knowledger.Slack
