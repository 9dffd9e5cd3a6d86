import Knowledger.Requests
import Knowledger.Storage.ReviewDelivery
import Knowledger.Lib.Utf8

/-!
# Delivered once

The outbox may send a packet many times, and the inbox keeps it once.  The invariant ties a row's
lease to the newest job of its delivery, its attempts to the claims in its history, and its
receipt to a row of the inbox.
-/

namespace Knowledger.Delivery

open Js Storage

/-! ## Histories -/

/-- The claims since the last retry. -/
def claimsSince : List Mark → Nat
  | [] => 0
  | .claimed _ :: older => claimsSince older + 1
  | .retried :: _ => 0

/-- Every claim was within the limit it was made with. -/
def Limited : List Mark → Prop
  | [] => True
  | .claimed maxAttempts :: older => claimsSince older < maxAttempts ∧ Limited older
  | .retried :: older => Limited older

theorem Limited.suffix {newer older : List Mark} (limited : Limited (newer ++ older)) :
    Limited older := by
  induction newer with
  | nil => exact limited
  | cons mark newer ih =>
      cases mark with
      | claimed maxAttempts => exact ih limited.2
      | retried => exact ih limited

theorem claimsSince_append {between older : List Mark} (unretried : .retried ∉ between) :
    claimsSince (between ++ older) = between.length + claimsSince older := by
  induction between with
  | nil => simp
  | cons mark between ih =>
      have ih := ih fun mem => unretried (List.mem_cons_of_mem _ mem)
      cases mark with
      | claimed maxAttempts =>
          rw [List.cons_append, claimsSince, ih, List.length_cons]
          omega
      | retried => exact absurd List.mem_cons_self unretried

section Delivering

variable [Sha256] {s t u : State} {row : OutboxRow} {packet : ReviewPacket}

/-! ## The statement -/

/-- Delivery is at least once, with an effect exactly once: the inbox keeps a delivery of a source
once; a delivered row's packet is in the inbox; a superseded lease settles nothing; a row is
claimed within its limit between two retries; and every row is decoded. -/
structure State.Safe (s : State) : Prop where
  once : (s.inbox.map fun row => (row.sourceId, row.deliveryId)).Nodup
  delivered : ∀ row ∈ s.outbox, row.status = .delivered →
    ∃ packet, validateReviewPacket row.packetJson = .ok packet ∧
      ∃ r ∈ s.inbox, r.deliveryId = row.deliveryId ∧ r.payloadDigest = packet.payloadDigest
  superseded : ∀ newer job older, s.jobs = newer ++ job :: older →
    (∃ later ∈ newer, later.packet.deliveryId = job.packet.deliveryId) →
      ∀ status next code receipt settled t,
        s.settle job status next code receipt = .ok (settled, t) → settled = false ∧ t = s
  counted : ∀ row ∈ s.outbox, row.attempts = claimsSince (s.marks row.deliveryId)
  limited : ∀ id newer maxAttempts between older,
    s.marks id = newer ++ .claimed maxAttempts :: (between ++ older) → .retried ∉ between →
      between.length < maxAttempts
  decoded : ∀ row ∈ s.outbox, ∃ found, job row = .ok found
  received : ∀ row ∈ s.inbox, ∃ found, received row = .ok found

/-! ## Decoding -/

/-- A row of this packet is decoded. -/
structure Decodes (row : OutboxRow) (packet : ReviewPacket) : Prop where
  checked : validateReviewPacket row.packetJson = .ok packet
  valid : row.valid packet = true
  receipted : row.receipted packet = true

theorem job_ok {found : DeliveryJob} (run : job row = .ok found) :
    Decodes row found.packet ∧ found.leaseToken = row.leaseToken ∧ found.status = row.status := by
  unfold job at run
  split at run
  · next packet validated =>
      split at run
      · next checks =>
          rw [Bool.and_eq_true] at checks
          cases run
          exact ⟨⟨validated, checks.1, checks.2⟩, rfl, rfl⟩
      · cases run
  · cases run

theorem Decodes.job (decodes : Decodes row packet) : ∃ found, job row = .ok found := by
  unfold Delivery.job
  rw [decodes.checked]
  dsimp only
  rw [if_pos (Bool.and_eq_true _ _ ▸ ⟨decodes.valid, decodes.receipted⟩)]
  exact ⟨_, rfl⟩

omit [Sha256] in
/-- What a row's validity says, apart from its lease. -/
theorem valid_iff : row.valid packet = true ↔
    packet.deliveryId = row.deliveryId ∧ packet.author = row.owner ∧ isId row.targetId = true ∧
      isSafeInteger row.attempts = true ∧ isSafeInteger row.totalAttempts = true ∧
        row.attempts ≤ row.totalAttempts ∧ isSafeInteger row.nextAttemptAt = true ∧
          isDigest row.targetBinding = true ∧ row.lastCode.all isCode = true ∧
            row.leased = true := by
  unfold OutboxRow.valid
  simp only [Bool.and_eq_true, beq_iff_eq, decide_eq_true_eq, and_assoc]

theorem Decodes.id (decodes : Decodes row packet) : packet.deliveryId = row.deliveryId :=
  (valid_iff.mp decodes.valid).1

omit [Sha256] in
/-- A row that is not being sent has no lease. -/
theorem leased_idle (idle : row.status ≠ .sending) (token : row.leaseToken = none)
    (until_ : row.leaseUntil = none) : row.leased = true := by
  unfold OutboxRow.leased
  rw [if_neg idle, token, until_]
  rfl

theorem Decodes.unreceipted (decodes : Decodes row packet) (other : row.status ≠ .delivered) :
    row.receiptJson = none := by
  have receipted := decodes.receipted
  unfold OutboxRow.receipted at receipted
  split at receipted
  · rw [Bool.and_eq_true, decide_eq_true_eq] at receipted
    exact absurd receipted.1 other
  · assumption

/-! ## The invariant -/

/-- The job of the delivery that was handed out last. -/
def lastJob (jobs : List DeliveryJob) (id : String) : Option DeliveryJob :=
  jobs.find? fun job => job.packet.deliveryId == id

/-- The inbox has the packet of the row. -/
def State.Stored (s : State) (row : OutboxRow) : Prop :=
  ∀ packet, validateReviewPacket row.packetJson = .ok packet →
    ∃ r ∈ s.inbox, r.deliveryId = row.deliveryId ∧ r.payloadDigest = packet.payloadDigest

structure State.Sound (s : State) : Prop where
  rows : ∀ row ∈ s.outbox, ∃ packet, Decodes row packet
  ids : (s.outbox.map OutboxRow.deliveryId).Nodup
  counted : ∀ row ∈ s.outbox, row.attempts = claimsSince (s.marks row.deliveryId)
  unmarked : ∀ id, (∀ row ∈ s.outbox, row.deliveryId ≠ id) → s.marks id = []
  limited : ∀ id, Limited (s.marks id)
  newest : ∀ row ∈ s.outbox, row.status = .sending →
    row.leaseToken = (lastJob s.jobs row.deliveryId).bind DeliveryJob.leaseToken
  tokens : (s.jobs.map DeliveryJob.leaseToken).Nodup
  packets : ∀ job ∈ s.jobs, ∀ row ∈ s.outbox, row.deliveryId = job.packet.deliveryId →
    validateReviewPacket row.packetJson = .ok job.packet
  claimed : ∀ job ∈ s.jobs, ∃ row ∈ s.outbox, row.deliveryId = job.packet.deliveryId
  delivered : ∀ row ∈ s.outbox, row.status = .delivered → s.Stored row
  once : (s.inbox.map fun row => (row.sourceId, row.deliveryId)).Nodup
  received : ∀ row ∈ s.inbox, ∃ found, received row = .ok found
  answers : ∀ receipt ∈ s.answers, ∃ row ∈ s.inbox, row.receiptJson = receipt

theorem State.Sound.new : State.new.Sound where
  rows row mem := by cases mem
  ids := List.nodup_nil
  counted row mem := by cases mem
  unmarked id _ := rfl
  limited id := trivial
  newest row mem := by cases mem
  tokens := List.nodup_nil
  packets job mem := by cases mem
  claimed job mem := by cases mem
  delivered row mem := by cases mem
  once := List.nodup_nil
  received row mem := by cases mem
  answers receipt mem := by cases mem

theorem State.Sound.same (sound : s.Sound) {a b : OutboxRow} (memA : a ∈ s.outbox)
    (memB : b ∈ s.outbox) (id : a.deliveryId = b.deliveryId) : a = b :=
  List.inj_on_of_nodup_map sound.ids memA memB id

/-! ## Changes of rows -/

/-- Every row goes on as itself, with its packet. -/
theorem State.Sound.map {f : OutboxRow → OutboxRow} {marks : String → List Mark}
    {jobs : List DeliveryJob} (sound : s.Sound) (id : ∀ row, (f row).deliveryId = row.deliveryId)
    (packet : ∀ row, (f row).packetJson = row.packetJson)
    (rows : ∀ row ∈ s.outbox, ∃ packet, Decodes (f row) packet)
    (counted : ∀ row ∈ s.outbox, (f row).attempts = claimsSince (marks row.deliveryId))
    (unmarked : ∀ id, (∀ row ∈ s.outbox, row.deliveryId ≠ id) → marks id = [])
    (limited : ∀ id, Limited (marks id))
    (newest : ∀ row ∈ s.outbox, (f row).status = .sending →
      (f row).leaseToken = (lastJob jobs row.deliveryId).bind DeliveryJob.leaseToken)
    (tokens : (jobs.map DeliveryJob.leaseToken).Nodup)
    (packets : ∀ job ∈ jobs, ∃ row ∈ s.outbox, row.deliveryId = job.packet.deliveryId ∧
      validateReviewPacket row.packetJson = .ok job.packet)
    (delivered : ∀ row ∈ s.outbox, (f row).status = .delivered → s.Stored row) :
    ({ s with outbox := s.outbox.map f, marks := marks, jobs := jobs } : State).Sound where
  rows row mem := by
    obtain ⟨old, inside, rfl⟩ := List.mem_map.mp mem
    exact rows old inside
  ids := by
    have ids : (s.outbox.map f).map OutboxRow.deliveryId = s.outbox.map OutboxRow.deliveryId := by
      rw [List.map_map]
      exact List.map_congr_left fun row _ => id row
    change ((s.outbox.map f).map OutboxRow.deliveryId).Nodup
    rw [ids]
    exact sound.ids
  counted row mem := by
    obtain ⟨old, inside, rfl⟩ := List.mem_map.mp mem
    rw [id]
    exact counted old inside
  unmarked x absent := by
    refine unmarked x fun row mem => ?_
    rw [← id row]
    exact absent _ (List.mem_map_of_mem mem)
  limited := limited
  newest row mem := by
    obtain ⟨old, inside, rfl⟩ := List.mem_map.mp mem
    rw [id]
    exact newest old inside
  tokens := tokens
  packets job mem row inside same := by
    obtain ⟨old, kept, rfl⟩ := List.mem_map.mp inside
    obtain ⟨own, held, named, validated⟩ := packets job mem
    rw [id] at same
    obtain rfl := sound.same kept held (same.trans named.symm)
    rw [packet]
    exact validated
  claimed job mem := by
    obtain ⟨own, held, named, -⟩ := packets job mem
    exact ⟨f own, List.mem_map_of_mem held, (id own).trans named⟩
  delivered row mem done := by
    obtain ⟨old, inside, rfl⟩ := List.mem_map.mp mem
    intro found validated
    rw [packet] at validated
    rw [id]
    exact delivered old inside done found validated
  once := sound.once
  received := sound.received
  answers := sound.answers

theorem State.Sound.own (sound : s.Sound) (job : DeliveryJob) (mem : job ∈ s.jobs) :
    ∃ row ∈ s.outbox, row.deliveryId = job.packet.deliveryId ∧
      validateReviewPacket row.packetJson = .ok job.packet := by
  obtain ⟨row, held, named⟩ := sound.claimed job mem
  exact ⟨row, held, named, sound.packets job mem row held named⟩

omit [Sha256] in
/-- A row that has had its attempts is failed, and another one is left alone. -/
theorem expire_cases (maxAttempts now : Nat) (row : OutboxRow) :
    row.expire maxAttempts now = row ∨
      ((row.status = .pending ∨ row.status = .sending) ∧
        row.expire maxAttempts now = { row with
          status := .failed, lastCode := some "DELIVERY_UNCONFIRMED", leaseToken := none
          leaseUntil := none }) := by
  unfold OutboxRow.expire
  split
  · next done =>
      refine Or.inr ⟨done.2.imp_right fun lapsed => ?_, rfl⟩
      unfold OutboxRow.lapsed at lapsed
      rw [Bool.and_eq_true, beq_iff_eq] at lapsed
      exact lapsed.1
  · exact Or.inl rfl

theorem State.Sound.expire (sound : s.Sound) (maxAttempts now : Nat) :
    ({ s with outbox := s.outbox.map (OutboxRow.expire maxAttempts now) } : State).Sound := by
  refine sound.map (fun row => ?_) (fun row => ?_) (fun row mem => ?_) (fun row mem => ?_)
    sound.unmarked sound.limited (fun row mem sending => ?_) sound.tokens sound.own
    fun row mem done => ?_
  · rcases expire_cases maxAttempts now row with same | ⟨-, same⟩ <;> rw [same]
  · rcases expire_cases maxAttempts now row with same | ⟨-, same⟩ <;> rw [same]
  · obtain ⟨packet, decodes⟩ := sound.rows row mem
    rcases expire_cases maxAttempts now row with same | ⟨status, same⟩
    · rw [same]
      exact ⟨packet, decodes⟩
    · have unreceipted := decodes.unreceipted (by rcases status with h | h <;> rw [h] <;> decide)
      obtain ⟨id, owner, target, attempts, total, le, next, binding, -, -⟩ :=
        valid_iff.mp decodes.valid
      rw [same]
      refine ⟨packet, decodes.checked, valid_iff.mpr ⟨id, owner, target, attempts, total, le, next,
        binding, (by decide : isCode "DELIVERY_UNCONFIRMED" = true), rfl⟩, ?_⟩
      unfold OutboxRow.receipted
      rw [unreceipted]
      rfl
  · have counted := sound.counted row mem
    rcases expire_cases maxAttempts now row with same | ⟨-, same⟩ <;> rw [same] <;> exact counted
  · rcases expire_cases maxAttempts now row with same | ⟨-, same⟩ <;> rw [same] at sending ⊢
    · exact sound.newest row mem sending
    · cases sending
  · rcases expire_cases maxAttempts now row with same | ⟨-, same⟩ <;> rw [same] at done
    · exact sound.delivered row mem done
    · cases done

omit [Sha256] in
theorem heldBy_iff {job : DeliveryJob} : row.heldBy job = true ↔
    row.deliveryId = job.packet.deliveryId ∧ row.status = .sending ∧
      row.leaseToken.isSome = true ∧ row.leaseToken = job.leaseToken := by
  unfold OutboxRow.heldBy
  simp only [Bool.and_eq_true, beq_iff_eq, and_assoc]

/-- A settlement's status, code and receipt go together. -/
structure Settles (job : DeliveryJob) (status : DeliveryStatus) (next : Nat)
    (code : Option String) (receipt : Option Value) : Prop where
  idle : status ≠ .sending
  next : isSafeInteger next = true
  code : code.all isCode = true
  receipted : (status = .delivered ∧ ∃ value, receipt = some value ∧
    validateReviewReceipt value job.packet = .ok value) ∨ (status ≠ .delivered ∧ receipt = none)

theorem State.Sound.settle {job : DeliveryJob} {status : DeliveryStatus} {next : Nat}
    {code : Option String} {receipt : Option Value} (sound : s.Sound) (mem : job ∈ s.jobs)
    (settles : Settles job status next code receipt) (stored : status = .delivered →
      ∃ r ∈ s.inbox, r.deliveryId = job.packet.deliveryId ∧
        r.payloadDigest = job.packet.payloadDigest) :
    ({ s with outbox := s.outbox.map fun row =>
        if row.heldBy job then row.settle status next code receipt else row } : State).Sound := by
  refine sound.map (fun row => ?_) (fun row => ?_) (fun row inside => ?_) (fun row inside => ?_)
    sound.unmarked sound.limited (fun row inside sending => ?_) sound.tokens sound.own
    fun row inside done => ?_
  · split <;> rfl
  · split <;> rfl
  · obtain ⟨packet, decodes⟩ := sound.rows row inside
    split
    · next held =>
        obtain ⟨named, -, -, -⟩ := heldBy_iff.mp held
        obtain rfl : packet = job.packet :=
          Except.ok.inj (decodes.checked.symm.trans (sound.packets job mem row inside named))
        obtain ⟨id, owner, target, attempts, total, le, -, binding, -, -⟩ :=
          valid_iff.mp decodes.valid
        refine ⟨job.packet, decodes.checked, valid_iff.mpr ⟨id, owner, target, attempts, total, le,
          settles.next, binding, settles.code, leased_idle settles.idle rfl rfl⟩, ?_⟩
        unfold OutboxRow.receipted OutboxRow.settle
        rcases settles.receipted with ⟨rfl, value, rfl, valid⟩ | ⟨other, rfl⟩
        · dsimp only
          rw [valid]
          rfl
        · simpa using other
    · exact ⟨packet, decodes⟩
  · split <;> exact sound.counted row inside
  · split at sending
    · exact absurd sending settles.idle
    · next free =>
        rw [if_neg free]
        exact sound.newest row inside sending
  · split at done
    · next held =>
        obtain ⟨named, -, -, -⟩ := heldBy_iff.mp held
        intro packet validated
        obtain rfl : job.packet = packet :=
          Except.ok.inj ((sound.packets job mem row inside named).symm.trans validated)
        obtain ⟨r, found, id, digest⟩ := stored done
        exact ⟨r, found, id.trans named.symm, digest⟩
    · exact sound.delivered row inside done

/-- A claim: the row's lease is that of the job that was just handed out. -/
theorem State.Sound.take {found : DeliveryJob} {token : String} {until_ maxAttempts : Nat}
    (sound : s.Sound) (mem : row ∈ s.outbox) (fresh : s.fresh token = true)
    (few : row.attempts < maxAttempts) (run : job (row.claim token until_) = .ok found) :
    ({ (s.update row.deliveryId (OutboxRow.claim token until_)).mark row.deliveryId
        (.claimed maxAttempts) with jobs := found :: s.jobs } : State).Sound := by
  obtain ⟨decodes, lease, -⟩ := job_ok run
  have named : found.packet.deliveryId = row.deliveryId := decodes.id
  have drawn : found.leaseToken = some token := lease
  have self : ∀ other ∈ s.outbox, other.deliveryId = row.deliveryId → other = row :=
    fun other inside same => sound.same inside mem same
  have new : ∀ job ∈ s.jobs, job.leaseToken ≠ some token := by
    unfold State.fresh at fresh
    rw [Bool.and_eq_true, List.all_eq_true] at fresh
    exact fun job held => by simpa using fresh.2 job held
  refine sound.map (fun other => ?_) (fun other => ?_) (fun other inside => ?_)
    (fun other inside => ?_) (fun id absent => ?_) (fun id => ?_) (fun other inside sending => ?_) ?_
    (fun job held => ?_) fun other inside done => ?_
  · split <;> rfl
  · split <;> rfl
  · split
    · next same =>
        obtain rfl := self other inside same
        exact ⟨found.packet, decodes⟩
    · exact sound.rows other inside
  · change _ = claimsSince (Function.update s.marks row.deliveryId _ other.deliveryId)
    rw [Function.update_apply]
    split
    · next same =>
        obtain rfl := self other inside same
        exact congrArg (· + 1) (sound.counted other inside)
    · exact sound.counted other inside
  · change Function.update s.marks row.deliveryId _ id = []
    rw [Function.update_of_ne fun same => absent row mem same.symm]
    exact sound.unmarked id absent
  · change Limited (Function.update s.marks row.deliveryId _ id)
    rw [Function.update_apply]
    split
    · exact ⟨sound.counted row mem ▸ few, sound.limited row.deliveryId⟩
    · exact sound.limited id
  · unfold lastJob
    rw [List.find?_cons]
    split at sending
    · next same =>
        rw [if_pos same, named, same, beq_self_eq_true]
        exact drawn.symm
    · next differs =>
        rw [if_neg differs, named, beq_false_of_ne (Ne.symm differs)]
        exact sound.newest other inside sending
  · rw [List.map_cons, List.nodup_cons]
    refine ⟨fun again => ?_, sound.tokens⟩
    obtain ⟨job, held, same⟩ := List.mem_map.mp again
    exact new job held (same.trans drawn)
  · rcases List.mem_cons.mp held with rfl | held
    · exact ⟨row, mem, named.symm, decodes.checked⟩
    · exact sound.own job held
  · split at done
    · cases done
    · exact sound.delivered other inside done

/-- A retry: the row's count starts again. -/
theorem State.Sound.retried {now : Nat} (sound : s.Sound) (mem : row ∈ s.outbox)
    (decodes : ∃ packet, Decodes (row.retry now) packet) :
    ((s.update row.deliveryId (OutboxRow.retry now)).mark row.deliveryId .retried).Sound := by
  have self : ∀ other ∈ s.outbox, other.deliveryId = row.deliveryId → other = row :=
    fun other inside same => sound.same inside mem same
  refine sound.map (fun other => ?_) (fun other => ?_) (fun other inside => ?_)
    (fun other inside => ?_) (fun id absent => ?_) (fun id => ?_) (fun other inside sending => ?_)
    sound.tokens sound.own fun other inside done => ?_
  · split <;> rfl
  · split <;> rfl
  · split
    · next same =>
        obtain rfl := self other inside same
        exact decodes
    · exact sound.rows other inside
  · change _ = claimsSince (Function.update s.marks row.deliveryId _ other.deliveryId)
    rw [Function.update_apply]
    split
    · rfl
    · exact sound.counted other inside
  · change Function.update s.marks row.deliveryId _ id = []
    rw [Function.update_of_ne fun same => absent row mem same.symm]
    exact sound.unmarked id absent
  · change Limited (Function.update s.marks row.deliveryId _ id)
    rw [Function.update_apply]
    split
    · exact sound.limited row.deliveryId
    · exact sound.limited id
  · split at sending
    · cases sending
    · next differs =>
        rw [if_neg differs]
        exact sound.newest other inside sending
  · split at done
    · cases done
    · exact sound.delivered other inside done

/-- A new row, under an id that no row has. -/
theorem State.Sound.insert (sound : s.Sound) (run : s.insert row = .ok t)
    (decodes : Decodes row packet) (pending : row.status = .pending) (unused : row.attempts = 0) :
    t.Sound := by
  unfold State.insert at run
  split at run
  · cases run
  · next unique =>
      cases run
      have new : ∀ old ∈ s.outbox, old.deliveryId ≠ row.deliveryId := by
        intro old mem same
        refine unique (List.any_eq_true.mpr ⟨old, mem, ?_⟩)
        rw [same, beq_self_eq_true, Bool.true_or]
      refine { sound with
        rows := fun other mem => ?_
        ids := ?_
        counted := fun other mem => ?_
        unmarked := fun id absent => sound.unmarked id fun old mem =>
          absent old (List.mem_append_left _ mem)
        newest := fun other mem sending => ?_
        packets := fun job held other mem same => ?_
        claimed := fun job held => ?_
        delivered := fun other mem done => ?_ }
      · rcases List.mem_append.mp mem with mem | mem
        · exact sound.rows other mem
        · obtain rfl := List.mem_singleton.mp mem
          exact ⟨packet, decodes⟩
      · rw [List.map_append, List.nodup_append]
        refine ⟨sound.ids, List.nodup_singleton _, fun a first b second same => ?_⟩
        obtain ⟨old, mem, rfl⟩ := List.mem_map.mp first
        obtain rfl := List.mem_singleton.mp second
        exact new old mem same
      · rcases List.mem_append.mp mem with mem | mem
        · exact sound.counted other mem
        · obtain rfl := List.mem_singleton.mp mem
          rw [sound.unmarked other.deliveryId new]
          exact unused
      · rcases List.mem_append.mp mem with mem | mem
        · exact sound.newest other mem sending
        · obtain rfl := List.mem_singleton.mp mem
          rw [pending] at sending
          cases sending
      · rcases List.mem_append.mp mem with mem | mem
        · exact sound.packets job held other mem same
        · obtain rfl := List.mem_singleton.mp mem
          obtain ⟨old, inside, named⟩ := sound.claimed job held
          exact absurd (named.trans same.symm) (new old inside)
      · obtain ⟨old, inside, named⟩ := sound.claimed job held
        exact ⟨old, List.mem_append_left _ inside, named⟩
      · rcases List.mem_append.mp mem with mem | mem
        · exact sound.delivered other mem done
        · obtain rfl := List.mem_singleton.mp mem
          rw [pending] at done
          cases done

/-! ## Receipts -/

section Receipts

variable {value receipt : Value} {p q : ReviewPacket}

theorem validateReviewPacket_json (run : validateReviewPacket value = .ok p) : p.json = value := by
  unfold validateReviewPacket at run
  dsimp only at run
  split at run
  · next found =>
      cases run
      obtain ⟨fs, -, found⟩ := Option.bind_eq_some_iff.mp found
      obtain ⟨message, -, found⟩ := Option.bind_eq_some_iff.mp found
      obtain ⟨digest, -, found⟩ := Option.bind_eq_some_iff.mp found
      obtain ⟨packet, made, found⟩ := Option.bind_eq_some_iff.mp found
      split at found
      · obtain rfl := Option.some.inj found
        unfold reviewMessage at made
        split at made
        · split at made
          · split at made
            · cases made
              rfl
            · cases made
          · cases made
        · cases made
      · cases found
  · cases run

omit [Sha256] in
theorem validateReviewReceipt_ok (run : validateReviewReceipt value p = .ok receipt) :
    receipt = value ∧ ∃ found : Fields,
      fields (some value) ["schema_version", "delivery_id", "payload_digest", "received_at"] =
        some found ∧ isString (found.get "delivery_id") p.deliveryId = true ∧
          isString (found.get "payload_digest") p.payloadDigest = true := by
  unfold validateReviewReceipt at run
  split at run
  · next found exact_ =>
      split at run
      · next checks =>
          simp only [Bool.and_eq_true] at checks
          exact ⟨(Except.ok.inj run).symm, found, exact_, checks.1.1.2, checks.1.2⟩
      · cases run
  · cases run

omit [Sha256] in
theorem isString_unique {v : Option Value} {a b : String} (first : isString v a = true)
    (second : isString v b = true) : a = b := by
  unfold isString at first second
  split at first
  · rw [beq_iff_eq] at first second
    exact first.symm.trans second
  · cases first

omit [Sha256] in
/-- A receipt is of one delivery and one digest. -/
theorem receipt_names (first : validateReviewReceipt value p = .ok receipt)
    (second : validateReviewReceipt value q = .ok receipt) :
    p.deliveryId = q.deliveryId ∧ p.payloadDigest = q.payloadDigest := by
  obtain ⟨-, f, foundP, idP, digestP⟩ := validateReviewReceipt_ok first
  obtain ⟨-, g, foundQ, idQ, digestQ⟩ := validateReviewReceipt_ok second
  obtain rfl := Option.some.inj (foundP.symm.trans foundQ)
  exact ⟨isString_unique idP idQ, isString_unique digestP digestQ⟩

omit [Sha256] in
/-- A new receipt passes its check. -/
theorem reviewReceipt_valid {receivedAt : String} (iso : deliveryIso receivedAt = true) :
    validateReviewReceipt (reviewReceipt p receivedAt) p = .ok (reviewReceipt p receivedAt) := by
  have exact_ : fields (some (reviewReceipt p receivedAt))
      ["schema_version", "delivery_id", "payload_digest", "received_at"] =
        some (recordFields [("schema_version", jsonNat 1), ("delivery_id", jsonString p.deliveryId),
          ("payload_digest", jsonString p.payloadDigest), ("received_at", jsonString receivedAt)]) :=
    rfl
  unfold validateReviewReceipt
  rw [exact_]
  dsimp only
  rw [if_pos]
  simp only [Bool.and_eq_true]
  exact ⟨⟨⟨rfl, beq_self_eq_true _⟩, beq_self_eq_true _⟩, iso⟩

theorem received_ok {row : InboxRow} (run : received row = .ok (p, receipt)) :
    receipt = row.receiptJson ∧ p.sourceId = row.sourceId ∧ p.deliveryId = row.deliveryId ∧
      p.payloadDigest = row.payloadDigest ∧
        validateReviewReceipt row.receiptJson p = .ok row.receiptJson := by
  unfold received at run
  split at run
  · split at run
    · next same =>
        split at run
        · next validated =>
            cases run
            obtain ⟨rfl, -⟩ := validateReviewReceipt_ok validated
            exact ⟨rfl, same.1, same.2.1, same.2.2.1, validated⟩
        · cases run
    · cases run
  · cases run

end Receipts

/-! ## Calls -/

/-- What a step keeps. -/
structure Next (s t : State) : Prop where
  sound : t.Sound
  kept : ∀ row ∈ s.outbox, row.status = .delivered → row ∈ t.outbox
  stored : ∀ row ∈ s.inbox, row ∈ t.inbox

theorem Next.refl (sound : s.Sound) : Next s s := ⟨sound, fun _ mem _ => mem, fun _ mem => mem⟩

theorem get_ok {actor : Person} {id : String} {found : DeliveryJob}
    (run : s.get actor id = .ok found) :
    ∃ row ∈ s.outbox, row.deliveryId = id ∧ job row = .ok found := by
  unfold State.get at run
  split at run
  · next row first =>
      have is := List.find?_some first
      rw [Bool.and_eq_true, beq_iff_eq, beq_iff_eq] at is
      exact ⟨row, List.mem_of_find?_eq_some first, is.1, run⟩
  · cases run

omit [Sha256] in
theorem insert_ok (run : s.insert row = .ok t) :
    t = { s with outbox := s.outbox ++ [row], seq := s.seq + 1 } ∧
      ∀ old ∈ s.outbox, old.deliveryId ≠ row.deliveryId := by
  unfold State.insert at run
  split at run
  · cases run
  · next unique =>
      cases run
      refine ⟨rfl, fun old mem same => unique (List.any_eq_true.mpr ⟨old, mem, ?_⟩)⟩
      rw [same, beq_self_eq_true, Bool.true_or]

theorem State.Sound.enqueue {actor : Person} {operationId targetId targetBinding : String}
    {input packet : Value} {now : Nat} {found : DeliveryJob} (sound : s.Sound)
    (run : s.enqueue actor operationId input targetId targetBinding packet now = .ok (found, t)) :
    Next s t := by
  unfold State.enqueue at run
  obtain ⟨checked, -, run⟩ := bind_ok.mp run
  obtain ⟨requestDigest, -, run⟩ := bind_ok.mp run
  split at run
  · split at run
    · obtain ⟨_, -, run⟩ := bind_ok.mp run
      cases run
      exact .refl sound
    · cases run
  · obtain ⟨u, inserted, run⟩ := bind_ok.mp run
    obtain ⟨after, read, run⟩ := bind_ok.mp run
    cases run
    obtain ⟨rfl, new⟩ := insert_ok inserted
    obtain ⟨row, mem, named, decoded⟩ := get_ok read
    rcases List.mem_append.mp mem with mem | mem
    · exact absurd named (new row mem)
    · obtain rfl := List.mem_singleton.mp mem
      exact ⟨sound.insert inserted (job_ok decoded).1 rfl rfl,
        fun old held _ => List.mem_append_left _ held, fun _ mem => mem⟩

theorem State.Sound.claim {now leaseMs maxAttempts : Nat} {exclude : List String} {token : String}
    {found : Option DeliveryJob} (sound : s.Sound) (fresh : s.fresh token = true)
    (run : s.claim now leaseMs maxAttempts exclude token = .ok (found, t)) : Next s t := by
  have expired := sound.expire maxAttempts now
  have kept : ∀ row ∈ s.outbox, row.status = .delivered →
      row ∈ s.outbox.map (OutboxRow.expire maxAttempts now) := by
    intro row mem done
    refine List.mem_map.mpr ⟨row, mem, ?_⟩
    rcases expire_cases maxAttempts now row with same | ⟨open_, -⟩
    · exact same
    · rw [done] at open_
      rcases open_ with h | h <;> cases h
  unfold State.claim at run
  split at run
  · cases run
  · dsimp only at run
    split at run
    · cases run
      exact ⟨expired, kept, fun _ mem => mem⟩
    · next row first =>
        obtain ⟨_, -, run⟩ := bind_ok.mp run
        obtain ⟨taken, decoded, run⟩ := bind_ok.mp run
        cases run
        have sorted := List.mem_of_mem_head? first
        rw [List.mem_insertionSort] at sorted
        obtain ⟨mem, claimable⟩ := List.mem_filter.mp sorted
        have open_ : row.status = .pending ∨ row.lapsed now = true := by
          unfold OutboxRow.claimable at claimable
          simp only [Bool.and_eq_true, Bool.or_eq_true, beq_iff_eq] at claimable
          exact claimable.1.imp_left And.left
        have undelivered : row.status ≠ .delivered := by
          rcases open_ with pending | lapsed
          · rw [pending]
            decide
          · unfold OutboxRow.lapsed at lapsed
            rw [Bool.and_eq_true, beq_iff_eq] at lapsed
            rw [lapsed.1]
            decide
        have few : row.attempts < maxAttempts := by
          obtain ⟨old, -, rfl⟩ := List.mem_map.mp mem
          unfold OutboxRow.expire at open_ ⊢
          split at open_
          · rcases open_ with h | h <;> cases h
          · next fewer =>
              rw [if_neg fewer]
              exact Nat.lt_of_not_le fun le => fewer ⟨le, open_⟩
        refine ⟨expired.take mem fresh few decoded, fun other held done => ?_, fun _ mem => mem⟩
        refine List.mem_map.mpr ⟨other, kept other held done, if_neg fun same => ?_⟩
        obtain rfl := expired.same (kept other held done) mem same
        exact undelivered done

theorem State.Sound.retry {actor : Person} {id : String} {now : Nat} {found : DeliveryJob}
    (sound : s.Sound) (run : s.retry actor id now = .ok (found, t)) : Next s t := by
  unfold State.retry at run
  obtain ⟨before, read, run⟩ := bind_ok.mp run
  split at run
  · next stopped =>
      obtain ⟨after, reread, run⟩ := bind_ok.mp run
      cases run
      obtain ⟨row, mem, rfl, decoded⟩ := get_ok read
      obtain ⟨changed, inside, named, redecoded⟩ := get_ok reread
      obtain ⟨-, -, status⟩ := job_ok decoded
      obtain ⟨old, held, rfl⟩ := List.mem_map.mp inside
      have same : old.deliveryId = row.deliveryId := by
        split at named <;> exact named
      obtain rfl := sound.same held mem same
      rw [if_pos rfl] at redecoded
      refine ⟨sound.retried mem ⟨_, (job_ok redecoded).1⟩, fun other held done => ?_,
        fun _ mem => mem⟩
      refine List.mem_map.mpr ⟨other, held, if_neg fun same => ?_⟩
      obtain rfl := sound.same held mem same
      rw [status, done] at stopped
      rcases stopped with h | h <;> cases h
  · cases run

/-- The inbox holds the packet under its receipt. -/
def State.Answered (s : State) (packet : ReviewPacket) (receipt : Value) : Prop :=
  ∃ row ∈ s.inbox, row.sourceId = packet.sourceId ∧ row.deliveryId = packet.deliveryId ∧
    row.payloadDigest = packet.payloadDigest ∧ row.receiptJson = receipt

theorem State.Sound.receive {value receipt : Value} {receivedAt : String} (sound : s.Sound)
    (iso : deliveryIso receivedAt = true)
    (run : s.receive value receivedAt = .ok (receipt, t)) :
    Next s { t with answers := receipt :: t.answers } ∧
      ∃ packet, validateReviewPacket value = .ok packet ∧ t.Answered packet receipt := by
  unfold State.receive at run
  obtain ⟨packet, validated, run⟩ := bind_ok.mp run
  split at run
  · next row first =>
      have mem := List.mem_of_find?_eq_some first
      have is := List.find?_some first
      rw [Bool.and_eq_true, beq_iff_eq, beq_iff_eq] at is
      split at run
      · next same =>
          obtain ⟨⟨p, given⟩, decoded, run⟩ := bind_ok.mp run
          cases run
          obtain ⟨rfl, -⟩ := received_ok decoded
          refine ⟨⟨{ sound with answers := fun other inside => ?_ }, fun _ mem _ => mem,
            fun _ mem => mem⟩, packet, validated, row, mem, is.1, is.2, same, rfl⟩
          rcases List.mem_cons.mp inside with rfl | inside
          · exact ⟨row, mem, rfl⟩
          · exact sound.answers other inside
      · cases run
  · next none =>
      cases run
      have json := validateReviewPacket_json validated
      have append : ∀ {r : InboxRow}, r ∈ s.inbox → r ∈ s.inbox ++ [⟨packet.sourceId,
          packet.deliveryId, packet.payloadDigest, packet.recipient, packet.json,
          reviewReceipt packet receivedAt⟩] := fun mem => List.mem_append_left _ mem
      refine ⟨⟨{ sound with
        delivered := fun row mem done found validated => ?_
        once := ?_
        received := fun row mem => ?_
        answers := fun other inside => ?_ }, fun _ mem _ => mem, fun _ mem => append mem⟩, packet,
        validated, _, List.mem_append_right _ (List.mem_singleton_self _), rfl, rfl, rfl, rfl⟩
      · obtain ⟨r, held, same⟩ := sound.delivered row mem done found validated
        exact ⟨r, append held, same⟩
      · rw [List.map_append, List.nodup_append]
        refine ⟨sound.once, List.nodup_singleton _, fun a first b second same => ?_⟩
        obtain ⟨old, mem, rfl⟩ := List.mem_map.mp first
        obtain rfl := List.mem_singleton.mp second
        have unlike := List.find?_eq_none.mp none old mem
        obtain ⟨source, id⟩ := Prod.mk.inj same
        rw [source, id, beq_self_eq_true, beq_self_eq_true] at unlike
        exact unlike rfl
      · rcases List.mem_append.mp mem with mem | mem
        · exact sound.received row mem
        · obtain rfl := List.mem_singleton.mp mem
          unfold Delivery.received
          dsimp only
          rw [json, validated]
          dsimp only
          rw [if_pos ⟨rfl, rfl, rfl, rfl⟩, reviewReceipt_valid iso]
          exact ⟨_, rfl⟩
      · rcases List.mem_cons.mp inside with rfl | inside
        · exact ⟨_, List.mem_append_right _ (List.mem_singleton_self _), rfl⟩
        · obtain ⟨row, mem, same⟩ := sound.answers other inside
          exact ⟨row, append mem, same⟩

/-- A packet the inbox holds is answered again with its receipt. -/
theorem State.Answered.again {value receipt : Value} {packet : ReviewPacket} (sound : s.Sound)
    (validated : validateReviewPacket value = .ok packet) (answered : s.Answered packet receipt)
    (receivedAt : String) : s.receive value receivedAt = .ok (receipt, s) := by
  obtain ⟨row, mem, source, id, digest, rfl⟩ := answered
  obtain ⟨⟨p, given⟩, decoded⟩ := sound.received row mem
  obtain ⟨rfl, -⟩ := received_ok decoded
  unfold State.receive
  rw [validated, ok_bind]
  split
  · next other first =>
      have is := List.find?_some first
      rw [Bool.and_eq_true, beq_iff_eq, beq_iff_eq] at is
      obtain rfl := List.inj_on_of_nodup_map sound.once (List.mem_of_find?_eq_some first) mem
        (Prod.ext (is.1.trans source.symm) (is.2.trans id.symm))
      rw [if_pos digest, decoded]
      rfl
  · next none =>
      have unlike := List.find?_eq_none.mp none row mem
      rw [source, id, beq_self_eq_true, beq_self_eq_true] at unlike
      exact absurd rfl unlike

omit [Sha256] in
theorem settle_ok {job : DeliveryJob} {status : DeliveryStatus} {next : Nat}
    {code : Option String} {receipt : Option Value} {settled : Bool}
    (run : s.settle job status next code receipt = .ok (settled, t)) :
    settled = s.outbox.any (·.heldBy job) ∧ t = { s with
      outbox := s.outbox.map fun row =>
        if row.heldBy job then row.settle status next code receipt else row } := by
  unfold State.settle at run
  dsimp only at run
  split at run
  · obtain ⟨_, -, run⟩ := bind_ok.mp run
    cases run
    exact ⟨rfl, rfl⟩
  · cases run
    exact ⟨rfl, rfl⟩

theorem State.Sound.settled {job : DeliveryJob} {status : DeliveryStatus} {next : Nat}
    {code : Option String} {receipt : Option Value} {settled : Bool} (sound : s.Sound)
    (mem : job ∈ s.jobs) (settles : Settles job status next code receipt)
    (stored : status = .delivered → ∃ r ∈ s.inbox, r.deliveryId = job.packet.deliveryId ∧
      r.payloadDigest = job.packet.payloadDigest)
    (run : s.settle job status next code receipt = .ok (settled, t)) : Next s t := by
  obtain ⟨-, rfl⟩ := settle_ok run
  refine ⟨sound.settle mem settles stored, fun row held done => ?_, fun _ mem => mem⟩
  refine List.mem_map.mpr ⟨row, held, if_neg fun holds => ?_⟩
  rw [(heldBy_iff.mp holds).2.1] at done
  cases done

theorem keptCode_isCode (error : Option (String × Bool)) : isCode (keptCode error) = true := by
  unfold keptCode
  split
  · split
    · assumption
    · decide
  · decide

theorem isSafeInteger_soon {now delay : Nat} (date : isDate now = true) (short : delay ≤ 3600000) :
    isSafeInteger (now + delay : Nat) = true := by
  unfold isDate at date
  unfold isSafeInteger maxSafeInteger
  simp only [decide_eq_true_eq, Bool.and_eq_true] at date ⊢
  omega

theorem State.Sound.fail {o : Options} {job : DeliveryJob} {error : Option (String × Bool)}
    {now : Nat} {settled : Bool} (sound : s.Sound) (mem : job ∈ s.jobs) (date : isDate now = true)
    (run : s.fail o job error now = .ok (settled, t)) : Next s t := by
  unfold State.fail at run
  have settles : ∀ status, status ≠ .sending ∧ status ≠ .delivered →
      Settles job status (now + min 3600000 (o.retryBaseMs * 2 ^ (job.attempts - 1)))
        (some (keptCode error)) none := fun status other =>
    ⟨other.1, isSafeInteger_soon date (Nat.min_le_left _ _), keptCode_isCode error,
      Or.inr ⟨other.2, rfl⟩⟩
  dsimp only at run
  split at run
  all_goals
    refine sound.settled mem (settles _ ?_) (fun done => ?_) run
    · split_ifs <;> decide
    · split_ifs at done

theorem State.Sound.drain {o : Options} {job : DeliveryJob} {answer : Answer} {now : Nat}
    {settled : Bool} (sound : s.Sound) (mem : job ∈ s.jobs) (date : isDate now = true)
    (given : ∀ receipt, answer = .returned receipt → receipt ∈ s.answers)
    (run : s.drain o job answer now = .ok (settled, t)) : Next s t := by
  unfold State.drain at run
  split at run
  · next receipt =>
      split at run
      · next checked validated =>
          obtain ⟨rfl, -⟩ := validateReviewReceipt_ok validated
          refine sound.settled mem ⟨by decide, isSafeInteger_soon date (Nat.zero_le _), rfl,
            Or.inl ⟨rfl, checked, rfl, validated⟩⟩ (fun _ => ?_) run
          obtain ⟨row, held, same⟩ := sound.answers _ (given _ rfl)
          obtain ⟨⟨p, kept⟩, decoded⟩ := sound.received row held
          obtain ⟨-, -, id, digest, own⟩ := received_ok decoded
          rw [same] at own
          obtain ⟨ids, digests⟩ := receipt_names own validated
          exact ⟨row, held, id.symm.trans ids, digest.symm.trans digests⟩
      · exact sound.fail mem date run
      · exact sound.fail mem date run
  · exact sound.fail mem date run

/-! ## Runs -/

theorem Next.after {α : Type} {result : Except Failure (α × State)} (sound : s.Sound)
    (next : ∀ a t, result = .ok (a, t) → Next s t) : Next s (s.after result) := by
  unfold State.after
  split
  · next t => exact next _ _ rfl
  · exact .refl sound

theorem State.Sound.step {e : Event} (sound : s.Sound) (taken : s.step e = some t) : Next s t := by
  cases e with
  | enqueue actor operationId input targetId targetBinding packet now =>
      obtain rfl := Option.some.inj taken
      exact .after sound fun _ _ run => sound.enqueue run
  | claim now leaseMs maxAttempts exclude token =>
      obtain ⟨checks, rfl⟩ := (Option.ite_none_right_eq_some.mp taken).imp_right Option.some.inj
      rw [Bool.and_eq_true] at checks
      exact .after sound fun _ _ run => sound.claim checks.1 run
  | receive packet receivedAt =>
      obtain ⟨iso, rfl⟩ := (Option.ite_none_right_eq_some.mp taken).imp_right Option.some.inj
      unfold State.answer
      split
      · next run => exact (sound.receive iso run).1
      · exact .refl sound
  | returned o job answer now =>
      dsimp only [State.step] at taken
      split at taken
      · next found given =>
          obtain ⟨date, rfl⟩ :=
            (Option.ite_none_right_eq_some.mp taken).imp_right Option.some.inj
          refine .after sound fun _ _ run => sound.drain (List.mem_of_getElem? found) date ?_ run
          intro receipt same
          cases same
          exact List.mem_of_getElem? given
      · cases taken
  | threw o job error now =>
      dsimp only [State.step] at taken
      split at taken
      · next found =>
          obtain ⟨date, rfl⟩ :=
            (Option.ite_none_right_eq_some.mp taken).imp_right Option.some.inj
          refine .after sound fun _ _ run => sound.drain (List.mem_of_getElem? found) date ?_ run
          intro receipt same
          cases same
      · cases taken
  | retry actor id now =>
      obtain rfl := Option.some.inj taken
      exact .after sound fun _ _ run => sound.retry run

/-- A lease that a later job of the delivery replaced is no row's. -/
theorem State.Sound.superseded (sound : s.Sound) {newer older : List DeliveryJob}
    {job later : DeliveryJob} (split : s.jobs = newer ++ job :: older) (mem : later ∈ newer)
    (same : later.packet.deliveryId = job.packet.deliveryId) :
    ∀ row ∈ s.outbox, row.heldBy job = false := by
  intro row held
  rw [Bool.eq_false_iff]
  intro holds
  obtain ⟨named, sending, isSome, lease⟩ := heldBy_iff.mp holds
  have last := sound.newest row held sending
  have tokens := sound.tokens
  rw [split] at last tokens
  unfold lastJob at last
  rw [List.find?_append] at last
  cases found : newer.find? fun other => other.packet.deliveryId == row.deliveryId with
  | none =>
      have unlike := List.find?_eq_none.mp found later mem
      rw [same, named, beq_self_eq_true] at unlike
      exact unlike rfl
  | some first =>
      rw [found] at last
      rw [List.map_append, List.map_cons, List.nodup_append] at tokens
      refine tokens.2.2 _ (List.mem_map_of_mem (List.mem_of_find?_eq_some found)) _
        List.mem_cons_self ?_
      exact last.symm.trans lease

/-- The invariant says what the statement does. -/
theorem State.Sound.safe (sound : s.Sound) : s.Safe where
  once := sound.once
  delivered row mem done := by
    obtain ⟨packet, decodes⟩ := sound.rows row mem
    exact ⟨packet, decodes.checked, sound.delivered row mem done packet decodes.checked⟩
  superseded newer job older split replaced status next code receipt settled t run := by
    obtain ⟨later, mem, same⟩ := replaced
    have free := sound.superseded split mem same
    obtain ⟨rfl, rfl⟩ := settle_ok run
    refine ⟨List.any_eq_false.mpr fun row held => by rw [free row held]; exact Bool.false_ne_true, ?_⟩
    have unchanged : (s.outbox.map fun row =>
        if row.heldBy job then row.settle status next code receipt else row) = s.outbox := by
      refine (List.map_congr_left fun row held => ?_).trans (List.map_id _)
      rw [free row held]
      rfl
    rw [unchanged]
  counted := sound.counted
  limited id newer maxAttempts between older split unretried := by
    have limited := sound.limited id
    rw [split] at limited
    have few := limited.suffix.1
    rw [claimsSince_append unretried] at few
    omega
  decoded row mem := by
    obtain ⟨packet, decodes⟩ := sound.rows row mem
    exact decodes.job
  received := sound.received

/-- **At least once, with an effect exactly once.**  In every run of the sender's and the
receiver's calls the stores are safe, a delivered row stays as it is, and a packet that was
received is answered with one receipt for good. -/
theorem review_delivered_once {events : List Event}
    (taken : Machine.run State.step State.new events = some s) :
    s.Safe ∧
    (∀ more t, Machine.run State.step s more = some t → ∀ row ∈ s.outbox,
      row.status = .delivered → row ∈ t.outbox) ∧
    ∀ packet receivedAt receipt, deliveryIso receivedAt = true → ∀ t,
      s.receive packet receivedAt = .ok (receipt, t) →
        ∀ more u, Machine.run State.step { t with answers := receipt :: t.answers } more = some u →
          ∀ again, u.receive packet again = .ok (receipt, u) := by
  have sound : s.Sound := Machine.run_keeps (P := State.Sound)
    (fun _ _ _ sound taken => (sound.step taken).sound) State.Sound.new taken
  refine ⟨sound.safe, fun more t taken row mem done => ?_, ?_⟩
  · exact (Machine.run_keeps (P := fun s => s.Sound ∧ row ∈ s.outbox)
      (fun _ _ _ holds taken =>
        have next := holds.1.step taken
        ⟨next.sound, next.kept row holds.2 done⟩) ⟨sound, mem⟩ taken).2
  · intro packet receivedAt receipt iso t run more u taken again
    obtain ⟨next, checked, validated, row, mem, same⟩ := sound.receive iso run
    have later := Machine.run_keeps (P := fun s => s.Sound ∧ row ∈ s.inbox)
      (fun _ _ _ holds taken =>
        have next := holds.1.step taken
        ⟨next.sound, next.stored row holds.2⟩) ⟨next.sound, mem⟩ taken
    exact State.Answered.again later.1 validated ⟨row, later.2, same⟩ again

end Delivering

namespace Demo
@[reducible] local instance : Sha256 := Knowledger.Demo.sha256

def message : Value := record [("schema_version", jsonNat 1), ("delivery_id", jsonString "delivery-1"),
  ("source_id", jsonString "source"), ("workspace_id", jsonString "team"),
  ("slot", record [("channel_id", jsonString "team"), ("document_id", jsonString "base"),
    ("context_id", jsonString "context"), ("scope_id", jsonString "scope"),
    ("usage_scope", jsonString "review/v1")]),
  ("revision_digest", jsonString ("sha256:" ++ String.ofList (List.replicate 64 '0'))),
  ("recipient", record [("org_id", jsonString "org"), ("actor_id", jsonString "guest")]),
  ("comment", record [("event_id", jsonString "event"),
    ("author", record [("org_id", jsonString "org"), ("actor_id", jsonString "owner"),
      ("kind", jsonString "human")]),
    ("created_at", jsonString "2026-01-01T00:00:00.000Z"), ("body", jsonString "Please look.")])]

def packet : Value := record [("message", message), ("payload_digest", jsonString
  "sha256:e688e0aead636a8a6f00454e1f9095538124a935929b8cb4874ea8e85eb7f89f")]

def sent : List Event :=
  [.enqueue ⟨"org", "owner"⟩ "operation" .null "target"
      ("sha256:" ++ String.ofList (List.replicate 64 '0')) packet 0,
    .claim 0 15000 5 [] "00000000-0000-4000-8000-000000000001",
    .receive packet "2026-01-01T00:00:01.000Z", .returned ⟨5, 1000⟩ 0 0 1000]

theorem canonicalize_eq_ofList (value : Value) :
    canonicalize value = (canonicalizeValue value 0).map String.ofList := by
  rw [canonicalize]
  cases canonicalizeValue value 0 <;> rfl

theorem deliveryHash_eq (value : Value) : (deliveryHash value).toOption =
    (canonicalizeValue value 0).toOption.map fun text => "sha256:" ++ String.ofList (Sha2.hexDigest
      ((Utf8.encode text).map UInt8.toNat)) := by
  rw [deliveryHash, canonicalDigest, canonicalize_eq_ofList]
  cases canonicalizeValue value 0 with
  | error e => rfl
  | ok text =>
      simp only [← Utf8.toUTF8_ofList]
      rfl

theorem withinBytes_eq (value : Value) : withinBytes value =
    ((canonicalizeValue value 0).toOption.any fun text =>
      Nat.ble (Utf8.encode text).length DELIVERY_MAX_BYTES) := by
  rw [withinBytes, canonicalize_eq_ofList]
  cases canonicalizeValue value 0 with
  | error e => rfl
  | ok text =>
      simp only [← Utf8.utf8ByteSize_ofList]
      rfl

def digest : String := "sha256:e688e0aead636a8a6f00454e1f9095538124a935929b8cb4874ea8e85eb7f89f"

def checked : ReviewPacket where
  json := packet
  deliveryId := "delivery-1"
  sourceId := "source"
  author := ⟨"org", "owner"⟩
  recipient := ⟨"org", "guest"⟩
  payloadDigest := digest

theorem message_digest : (deliveryHash message).toOption = some digest := by
  rw [deliveryHash_eq]
  decide +kernel



theorem validateReviewPacket_of {value message : Value} {found : Fields} {digest : String}
    {packet : ReviewPacket} (shaped : fields (some value) ["message", "payload_digest"] = some found)
    (inner : found.get "message" = some message)
    (hash : (deliveryHash message).toOption = some digest)
    (read : reviewMessage value digest (some message) = some packet)
    (short : withinBytes value = true)
    (named : isString (found.get "payload_digest") digest = true) :
    validateReviewPacket value = .ok packet := by
  unfold validateReviewPacket
  simp only [Option.bind_eq_bind, shaped, Option.bind_some, inner, hash, read, short, named,
    Bool.and_self, if_true]

theorem packet_short : withinBytes packet = true := by
  rw [withinBytes_eq]
  decide +kernel

theorem packet_checked : validateReviewPacket packet = .ok checked := by
  have shaped : fields (some packet) ["message", "payload_digest"] =
      some [(.wellFormed "message", message), (.wellFormed "payload_digest", jsonString digest)] :=
    rfl
  exact validateReviewPacket_of shaped rfl message_digest rfl packet_short (by decide)

theorem job_of {row : OutboxRow} {packet : ReviewPacket}
   (validated : validateReviewPacket row.packetJson = .ok packet) (valid : row.valid packet = true) (receipted : row.receipted packet = true) :
   job row = .ok ⟨packet, row.targetId, row.targetBinding, row.status, row.attempts, row.totalAttempts,
          row.nextAttemptAt, row.leaseToken, row.lastCode, row.receiptJson⟩ := by
  unfold job
  rw [validated]
  dsimp only
  rw [valid, receipted, Bool.and_self, if_pos rfl]



theorem null_digest : deliveryHash .null =
    .ok "sha256:74234e98afe7498fb5daf1f36ac2d78acc339464f950703b8c019892f982b90b" := by
  have hashed : (deliveryHash .null).toOption =
      some "sha256:74234e98afe7498fb5daf1f36ac2d78acc339464f950703b8c019892f982b90b" := by
    rw [deliveryHash_eq]
    decide +kernel
  revert hashed
  cases deliveryHash .null with
  | ok d => exact fun h => congrArg _ (Option.some.inj h)
  | error e => exact fun h => nomatch h

def binding : String := "sha256:" ++ String.ofList (List.replicate 64 '0')

def token : String := "00000000-0000-4000-8000-000000000001"

/-- The row of the delivery before it is claimed. -/
def pending : OutboxRow where
  seq := 1
  deliveryId := "delivery-1"
  owner := ⟨"org", "owner"⟩
  operationId := "operation"
  requestDigest := "sha256:74234e98afe7498fb5daf1f36ac2d78acc339464f950703b8c019892f982b90b"
  targetId := "target"
  targetBinding := binding
  packetJson := packet
  status := .pending
  attempts := 0
  totalAttempts := 0
  nextAttemptAt := 0
  leaseToken := none
  leaseUntil := none
  lastCode := none
  receiptJson := none

def sending : OutboxRow := pending.claim token 15000

def OutboxRow.job (row : OutboxRow) : DeliveryJob :=
  ⟨checked, row.targetId, row.targetBinding, row.status, row.attempts, row.totalAttempts, row.nextAttemptAt, row.leaseToken, row.lastCode, row.receiptJson⟩

theorem pending_job : job pending = .ok (OutboxRow.job pending) :=
  job_of packet_checked (by decide) (by decide)

theorem sending_job : job sending = .ok (OutboxRow.job sending) :=
  job_of packet_checked (by decide) (by decide)


def queued : State :=
  { State.new with
    outbox := [pending], seq := 2 }

def claimed : State :=
  let t := ({ queued with outbox := queued.outbox.map (OutboxRow.expire 5 0) }.update "delivery-1"
    (OutboxRow.claim token 15000)).mark "delivery-1" (.claimed 5)
  { t with jobs := OutboxRow.job sending :: t.jobs }

def receipt : Value := reviewReceipt checked "2026-01-01T00:00:01.000Z"

def stored : State :=
  { claimed with
    inbox := [⟨"source", "delivery-1", digest, ⟨"org", "guest"⟩, packet, receipt⟩]
    answers := [receipt] }

theorem enqueue_step : State.new.step (.enqueue ⟨"org", "owner"⟩ "operation" .null "target" binding
    packet 0) = some queued := by
  have got : queued.get ⟨"org", "owner"⟩ "delivery-1" = .ok (OutboxRow.job pending) := pending_job
  have inserted : State.new.insert pending = .ok queued := rfl
  have run : State.new.enqueue ⟨"org", "owner"⟩ "operation" .null "target" binding packet 0 =
      .ok (OutboxRow.job pending, queued) := by
    unfold State.enqueue
    rw [packet_checked, ok_bind, null_digest, ok_bind]
    change (State.new.insert pending >>= fun t => t.get ⟨"org", "owner"⟩ "delivery-1" >>= fun found => Except.ok (found, t)) = _
    rw [inserted, ok_bind, got]
    rfl
  dsimp only [State.step]
  rw [run]
  rfl

theorem claim_step : queued.step (.claim 0 15000 5 [] token) = some claimed := by
  have fresh : (queued.fresh token && isDate 0) = true := by decide
  have run : queued.claim 0 15000 5 [] Demo.token = .ok (some (OutboxRow.job sending), claimed) := by
    change (job pending >>= fun _ => job sending >>= fun found => _) = _
    rw [pending_job, ok_bind, sending_job, ok_bind]
    rfl
  dsimp only [State.step]
  rw [fresh, if_pos rfl, run]
  rfl

theorem receive_step : claimed.step (.receive packet "2026-01-01T00:00:01.000Z") = some stored := by
  have iso : deliveryIso "2026-01-01T00:00:01.000Z" = true := by decide
  dsimp only [State.step, State.receive]
  rw [iso, if_pos rfl, packet_checked]
  rfl

theorem return_step : (stored.step (.returned ⟨5, 1000⟩ 0 0 1000)).map
      (fun s => s.outbox.map (·.status)) = some [.delivered] := by decide

/-- A delivery that is claimed, received and settled. -/
theorem review_delivered_once_sent : ∃ s, Machine.run State.step State.new sent = some s ∧
    s.outbox.map (·.status) = [.delivered] ∧ s.Safe := by
  obtain ⟨s, returned, same⟩ := Option.map_eq_some_iff.mp return_step
  have taken : Machine.run State.step State.new sent = some s := by
    refine Machine.run_cons.mpr ⟨queued, enqueue_step, ?_⟩
    refine Machine.run_cons.mpr ⟨claimed, claim_step, ?_⟩
    refine Machine.run_cons.mpr ⟨stored, receive_step, ?_⟩
    exact Machine.run_cons.mpr ⟨s, returned, rfl⟩
  exact ⟨s, taken, same, (review_delivered_once taken).1⟩

end Demo

end Knowledger.Delivery
