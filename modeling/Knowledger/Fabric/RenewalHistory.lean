import Knowledger.Fabric.CertificateRenewal

/-!
# Histories of a renewal

What the forward pass, the rollback and the record of the plan leave under every list of faults,
and what follows for a history of attempts.  The one slip is the plan's record: its `rename` may
take effect although its write fails, and no rollback takes it back.
-/

namespace Knowledger.Fabric.Renewal

/-! ## Writes -/

/-- Only the targets of the items differ, and each holds what it held or the bytes given. -/
structure Writes (bytes : PreflightEntry → List UInt8) (items : List PreflightEntry)
    (before after : Disk) : Prop where
  plan : after.plan = before.plan
  frame : ∀ path, (∀ item ∈ items, item.paths.cert ≠ path) → after.files path = before.files path
  target : ∀ item ∈ items, after.files item.paths.cert = before.files item.paths.cert ∨
    after.files item.paths.cert = some (bytes item)

def Apart (items : List PreflightEntry) : Prop := (items.map (·.paths.cert)).Nodup

theorem Apart.rest {item : PreflightEntry} {rest : List PreflightEntry}
    (apart : Apart (item :: rest)) : Apart rest := (List.nodup_cons.mp apart).2

theorem Apart.first {item : PreflightEntry} {rest : List PreflightEntry}
    (apart : Apart (item :: rest)) : ∀ other ∈ rest, other.paths.cert ≠ item.paths.cert := by
  intro other mem same
  exact (List.nodup_cons.mp apart).1 (List.mem_map.mpr ⟨other, mem, same⟩)

section

variable {bytes : PreflightEntry → List UInt8} {item : PreflightEntry} {rest : List PreflightEntry}
  {before middle after : Disk}

theorem Writes.none (disk : Disk) : Writes bytes [] disk disk :=
  ⟨rfl, fun _ _ => rfl, List.forall_mem_nil _⟩

/-- One write, which took effect or not, and the writes after it. -/
theorem Writes.cons (apart : Apart (item :: rest))
    (first : middle = before ∨ middle = before.put item.paths.cert (bytes item))
    (later : Writes bytes rest middle after) : Writes bytes (item :: rest) before after := by
  have plan : middle.plan = before.plan := by
    rcases first with rfl | rfl <;> rfl
  have frame : ∀ path, item.paths.cert ≠ path → middle.files path = before.files path := by
    intro path different
    rcases first with rfl | rfl
    · rfl
    · exact Disk.put_other different.symm _ _
  refine ⟨later.plan.trans plan, ?_, List.forall_mem_cons.mpr ⟨?_, ?_⟩⟩
  · intro path outside
    obtain ⟨other, others⟩ := List.forall_mem_cons.mp outside
    exact (later.frame path others).trans (frame path other)
  · rw [later.frame _ apart.first]
    rcases first with rfl | rfl
    · exact .inl rfl
    · exact .inr (Disk.put_same _ _ _)
  · intro other mem
    rw [← frame _ (apart.first other mem).symm]
    exact later.target other mem

/-- A target that is written first keeps what the first write gave it. -/
theorem Writes.kept (apart : Apart (item :: rest)) (later : Writes bytes rest middle after) :
    after.files item.paths.cert = middle.files item.paths.cert :=
  later.frame _ apart.first

end

@[simp] theorem World.fault_drop (disk : Disk) (faults : List Fault) (n i : Nat) :
    ({ disk, faults := faults.drop n } : World).fault i = faults.getD (n + i) .none := by
  simp [World.fault, List.getD_eq_getElem?_getD]

/-- How an `atomicWrite` ends: without a fault in its effect, else in an error. -/
theorem atomicWrite_cases (replace : Disk → Disk) (w : World) :
    (w.fault 0 = .none ∧
      atomicWrite replace w = (.ok (), ⟨replace w.disk, w.faults.drop 1⟩)) ∨
    (w.fault 0 ≠ .none ∧ ∃ halt disk, (halt = .io ∨ halt = .stopped) ∧
      (disk = w.disk ∨ disk = replace w.disk) ∧
      atomicWrite replace w = (.error halt, ⟨disk, w.faults.drop 1⟩)) := by
  unfold atomicWrite
  cases w.fault 0 with
  | none => exact .inl ⟨rfl, rfl⟩
  | write => exact .inr ⟨by simp, .io, _, .inl rfl, .inl rfl, rfl⟩
  | sync => exact .inr ⟨by simp, .io, _, .inl rfl, .inr rfl, rfl⟩
  | stopBefore => exact .inr ⟨by simp, .stopped, _, .inr rfl, .inl rfl, rfl⟩
  | stopAfter => exact .inr ⟨by simp, .stopped, _, .inr rfl, .inr rfl, rfl⟩

/-! ## The forward pass -/

/-- The items that the forward pass replaces. -/
def olds (items : List PreflightEntry) : List PreflightEntry :=
  items.filter fun item => item.state = .old

/-- The forward pass: what it began, and what its end says. -/
structure Installed (items begun : List PreflightEntry) (w : World) (result : Except Halt Unit)
    (w' : World) : Prop where
  begun_olds : begun.Sublist (olds items)
  writes : Writes (·.new_bytes) begun w.disk w'.disk
  finished : result = .ok () → begun = olds items ∧
    (∀ item ∈ begun, w'.disk.files item.paths.cert = some item.new_bytes) ∧
    w'.faults = w.faults.drop begun.length ∧ ∀ i < begun.length, w.fault i = .none
  failed : ∀ halt, result = .error halt →
    (halt = .io ∨ halt = .stopped) ∧ ∃ i < (olds items).length, w.fault i ≠ .none

theorem install_installed {items : List PreflightEntry} (apart : Apart items)
    (readable : ∀ item ∈ items, sha256 item.new_bytes = item.entry.new_sha256 ∧
      item.new_bytes.length ≤ MAX_CERT_BYTES) (changed : List PreflightEntry) (w : World) :
    ∃ begun, (install changed items w).1 = changed ++ begun ∧
      Installed items begun w (install changed items w).2.1 (install changed items w).2.2 := by
  induction items generalizing changed w with
  | nil =>
      refine ⟨[], (List.append_nil _).symm, List.Sublist.refl _, Writes.none _, ?_, ?_⟩
      · intro _
        exact ⟨rfl, List.forall_mem_nil _, rfl, by simp⟩
      · intro halt failed
        cases failed
  | cons item rest ih =>
      obtain ⟨⟨digest, small⟩, readableRest⟩ := List.forall_mem_cons.mp readable
      have continues := ih apart.rest readableRest
      cases state : item.state with
      | new =>
          have skips : install changed (item :: rest) w = install changed rest w := by
            rw [install, if_pos state]
          have same : olds (item :: rest) = olds rest := by
            simp [olds, state]
          rw [skips]
          obtain ⟨begun, list, run⟩ := continues changed w
          exact ⟨begun, list, same ▸ run.begun_olds, run.writes, same ▸ run.finished,
            same ▸ run.failed⟩
      | old =>
          have isOld : item.state ≠ .new := by simp [state]
          have here : olds (item :: rest) = item :: olds rest := by
            simp [olds, state]
          rcases atomicWrite_cases (Disk.put item.paths.cert item.new_bytes) w with
            ⟨clear, write⟩ | ⟨fault, halt, disk, kind, effect, write⟩
          · have reads : readBounded (w.disk.put item.paths.cert item.new_bytes).files
                item.paths.cert MAX_CERT_BYTES = .ok item.new_bytes :=
              readBounded_ok.mpr ⟨Disk.put_same _ _ _, small⟩
            have steps : install changed (item :: rest) w = install (changed ++ [item]) rest
                ⟨w.disk.put item.paths.cert item.new_bytes, w.faults.drop 1⟩ := by
              rw [install, if_neg isOld]
              simp [write, reads, digest]
            rw [steps]
            obtain ⟨begun, list, run⟩ := continues (changed ++ [item])
              ⟨w.disk.put item.paths.cert item.new_bytes, w.faults.drop 1⟩
            have sub : (item :: begun).Sublist (item :: olds rest) := run.begun_olds.cons_cons item
            have apart' : Apart (item :: begun) :=
              apart.sublist ((here ▸ sub).trans List.filter_sublist |>.map _)
            refine ⟨item :: begun, ?_, here ▸ sub, Writes.cons apart' (.inr rfl) run.writes, ?_, ?_⟩
            · rw [list, List.append_assoc]
              rfl
            · intro done
              obtain ⟨all, targets, faults, quiet⟩ := run.finished done
              refine ⟨by rw [here, all], List.forall_mem_cons.mpr ⟨?_, targets⟩, ?_, ?_⟩
              · rw [run.writes.kept apart', Disk.put_same]
              · rw [faults, List.drop_drop, List.length_cons, Nat.add_comm]
              · intro i small
                cases i with
                | zero => exact clear
                | succ i =>
                    have later := quiet i (by simpa using small)
                    rw [World.fault_drop, Nat.add_comm] at later
                    exact later
            · intro halt failed
              obtain ⟨kind, i, small, fault⟩ := run.failed halt failed
              rw [World.fault_drop, Nat.add_comm] at fault
              exact ⟨kind, i + 1, by rw [here, List.length_cons]; omega, fault⟩
          · have halts : install changed (item :: rest) w =
                (changed ++ [item], .error halt, ⟨disk, w.faults.drop 1⟩) := by
              rw [install, if_neg isOld]
              simp [write]
            rw [halts]
            have alone : Apart [item] := List.nodup_singleton _
            refine ⟨[item], rfl, ?_, Writes.cons alone effect (Writes.none _), ?_, ?_⟩
            · rw [here]
              exact (List.nil_sublist _).cons_cons item
            · intro done
              cases done
            · intro other same
              cases same
              exact ⟨kind, 0, by rw [here, List.length_cons]; omega, fault⟩

/-! ## The rollback -/

structure RolledBack (items : List PreflightEntry) (failed : Bool) (w : World)
    (result : Except Halt Bool) (w' : World) : Prop where
  writes : Writes (·.old_bytes) items w.disk w'.disk
  restored : result = .ok false → failed = false ∧
    (∀ item ∈ items, w'.disk.files item.paths.cert = some item.old_bytes) ∧
    ∀ i < items.length, w.fault i = .none
  completes : failed = false → (∀ i < items.length, w.fault i = .none) → result = .ok false

theorem rollback_rolledBack {items : List PreflightEntry} (apart : Apart items)
    (readable : ∀ item ∈ items, sha256 item.old_bytes = item.entry.old_sha256 ∧
      item.old_bytes.length ≤ MAX_CERT_BYTES) (failed : Bool) (w : World) :
    RolledBack items failed w (rollback failed items w).1 (rollback failed items w).2 := by
  induction items generalizing failed w with
  | nil =>
      refine ⟨Writes.none _, ?_, ?_⟩
      · intro done
        exact ⟨Except.ok.inj done, List.forall_mem_nil _, by simp⟩
      · rintro rfl _
        rfl
  | cons item rest ih =>
      obtain ⟨⟨digest, small⟩, readableRest⟩ := List.forall_mem_cons.mp readable
      have continues := ih apart.rest readableRest
      rcases atomicWrite_cases (Disk.put item.paths.cert item.old_bytes) w with
        ⟨clear, write⟩ | ⟨fault, halt, disk, kind, effect, write⟩
      · have reads : readBounded (w.disk.put item.paths.cert item.old_bytes).files
            item.paths.cert MAX_CERT_BYTES = .ok item.old_bytes :=
          readBounded_ok.mpr ⟨Disk.put_same _ _ _, small⟩
        have steps : rollback failed (item :: rest) w = rollback failed rest
            ⟨w.disk.put item.paths.cert item.old_bytes, w.faults.drop 1⟩ := by
          rw [rollback]
          simp [write, reads, digest]
        rw [steps]
        have run := continues failed ⟨w.disk.put item.paths.cert item.old_bytes, w.faults.drop 1⟩
        refine ⟨Writes.cons apart (.inr rfl) run.writes, ?_, ?_⟩
        · intro done
          obtain ⟨fine, targets, quiet⟩ := run.restored done
          refine ⟨fine, List.forall_mem_cons.mpr ⟨?_, targets⟩, ?_⟩
          · rw [run.writes.kept apart, Disk.put_same]
          · intro i small
            cases i with
            | zero => exact clear
            | succ i =>
                have later := quiet i (by simpa using small)
                rw [World.fault_drop, Nat.add_comm] at later
                exact later
        · intro fine quiet
          refine run.completes fine fun i small => ?_
          rw [World.fault_drop, Nat.add_comm]
          exact quiet (i + 1) (by simpa using small)
      · have hurts : (∀ i < (item :: rest).length, w.fault i = .none) → False := by
          intro quiet
          exact fault (quiet 0 (by simp))
        rcases kind with rfl | rfl
        · have steps : rollback failed (item :: rest) w =
              rollback true rest ⟨disk, w.faults.drop 1⟩ := by
            rw [rollback]
            simp [write]
          rw [steps]
          have run := continues true ⟨disk, w.faults.drop 1⟩
          refine ⟨Writes.cons apart effect run.writes, ?_, ?_⟩
          · intro done
            exact absurd (run.restored done).1 (by simp)
          · intro _ quiet
            exact (hurts quiet).elim
        · have stops : rollback failed (item :: rest) w =
              (.error .stopped, ⟨disk, w.faults.drop 1⟩) := by
            rw [rollback]
            simp [write]
          have stays : Writes (·.old_bytes) rest disk disk :=
            ⟨rfl, fun _ _ => rfl, fun _ _ => .inl rfl⟩
          rw [stops]
          refine ⟨Writes.cons apart effect stays, ?_, ?_⟩
          · intro done
            cases done
          · intro _ quiet
            exact (hurts quiet).elim

/-! ## One attempt -/

section

variable {stage : Text} {old new : ProfilePaths → List UInt8}

structure Attempt where
  surroundings : Surroundings
  /-- The faults of its writes, in order. -/
  faults : List Fault

variable {attempt : Attempt} {disk : Disk}

def Attempt.outcome (attempt : Attempt) (stage : Text) (disk : Disk) : Outcome :=
  (applyRenewal attempt.surroundings stage attempt.faults disk).1

def Attempt.after (attempt : Attempt) (stage : Text) (disk : Disk) : Disk :=
  (applyRenewal attempt.surroundings stage attempt.faults disk).2

/-- The plan record of the attempt, and whether `writePlan` takes it. -/
def Attempt.recorded (attempt : Attempt) (disk : Disk) : RenewalPlan :=
  disk.plan.appliedAt (attempt.surroundings.toISOString attempt.surroundings.now)

def Attempt.fits (attempt : Attempt) (disk : Disk) : Prop :=
  byteLength (planText (attempt.recorded disk)) ≤ MAX_PLAN_BYTES

def Attempt.accepts (attempt : Attempt) (stage : Text) (disk : Disk)
    (entries : List PreflightEntry) : Prop :=
  parsePlan attempt.surroundings disk.plan = .ok disk.plan ∧
    preflightApply attempt.surroundings stage disk = .ok entries

/-- The record of the plan is in place when its write fails, after the `n` targets that the attempt
replaced, and nothing fails in the rollback of these: a plan that was prepared says applied. -/
def Attempt.recordOutlives (attempt : Attempt) (stage : Text) (disk : Disk) : Prop :=
  disk.plan.status = .prepared ∧ attempt.fits disk ∧
    ∃ entries, attempt.accepts stage disk entries ∧
      (∀ i < (olds entries).length, attempt.faults.getD i .none = .none) ∧
      attempt.faults.getD (olds entries).length .none = .sync ∧
      ∀ i < (olds entries).length,
        attempt.faults.getD ((olds entries).length + 1 + i) .none = .none

/-- The attempt, with the process stopped before its write number `n`. -/
def Attempt.upTo (attempt : Attempt) (n : Nat) : Attempt :=
  { attempt with faults := (List.range n).map (attempt.faults.getD · .none) ++ [.stopBefore] }

/-- What the renewal promises of an attempt. -/
structure AllOrNothing (stage : Text) (old new : ProfilePaths → List UInt8) (disk : Disk)
    (attempt : Attempt) : Prop where
  always : ∀ n, Held stage old new ((attempt.upTo n).after stage disk)
  held : Held stage old new (attempt.after stage disk)
  applied : ∀ n, attempt.outcome stage disk = .applied n → Renewed new (attempt.after stage disk)
  restored : ∀ code, attempt.outcome stage disk = .threw code → code ≠ .rollbackFailed →
    SameTargets disk (attempt.after stage disk) ∧
      (attempt.after stage disk).plan.status = disk.plan.status
  recognised : ∀ s, preflightApply s stage (attempt.after stage disk) ≠ .error .targetDrift
  resumes : ∀ next : Attempt, ∀ entries, next.accepts stage (attempt.after stage disk) entries →
    (∀ fault ∈ next.faults, fault = .none) → next.fits (attempt.after stage disk) →
    ∃ n, next.outcome stage (attempt.after stage disk) = .applied n ∧
      Renewed new (next.after stage (attempt.after stage disk))

/-! ## What an attempt leaves -/

theorem Held.files {after : Disk} (held : Held stage old new disk) (same : after.files = disk.files) :
    Held stage old new after :=
  ⟨same ▸ held.old_file, same ▸ held.new_file, same ▸ held.target⟩

/-- Writes of old and new certificates leave every target with one of the two. -/
theorem Held.writes {bytes : PreflightEntry → List UInt8} {items : List PreflightEntry}
    {after : Disk} (held : Held stage old new disk)
    (known : ∀ item ∈ items, item.paths ∈ profilePaths ∧
      (bytes item = old item.paths ∨ bytes item = new item.paths))
    (writes : Writes bytes items disk after) : Held stage old new after := by
  have staged : ∀ suffix : String, ∀ paths ∈ profilePaths,
      after.files (stagePath stage suffix paths) = disk.files (stagePath stage suffix paths) := by
    intro suffix paths _
    refine writes.frame _ fun item mem => ?_
    exact (stagePath_ne_cert stage suffix paths (known item mem).1).symm
  refine ⟨?_, ?_, ?_⟩
  · intro paths mem
    exact (staged _ paths mem).trans (held.old_file paths mem)
  · intro paths mem
    exact (staged _ paths mem).trans (held.new_file paths mem)
  · intro paths mem
    by_cases touched : ∃ item ∈ items, item.paths.cert = paths.cert
    · obtain ⟨item, itemMem, same⟩ := touched
      obtain ⟨itemPaths, either⟩ := known item itemMem
      obtain rfl : item.paths = paths := List.inj_on_of_nodup_map cert_nodup itemPaths mem same
      rcases writes.target item itemMem with stays | put
      · rw [stays]
        exact held.target _ mem
      · rw [put]
        exact either.imp (congrArg some) (congrArg some)
    · rw [writes.frame _ fun item itemMem same => touched ⟨item, itemMem, same⟩]
      exact held.target paths mem

/-- What the `catch` block leaves. -/
structure Compensated (begun : List PreflightEntry) (w : World) (outcome : Outcome)
    (after : Disk) : Prop where
  writes : Writes (·.old_bytes) begun.reverse w.disk after ∨ after = w.disk
  not_applied : ∀ n, outcome ≠ .applied n
  restored : ∀ code, outcome = .threw code → code ≠ .rollbackFailed →
    Writes (·.old_bytes) begun.reverse w.disk after ∧
    (∀ item ∈ begun, after.files item.paths.cert = some item.old_bytes) ∧
    ∀ i < begun.length, w.fault i = .none

theorem compensate_compensated {begun : List PreflightEntry} (apart : Apart begun)
    (readable : ∀ item ∈ begun, sha256 item.old_bytes = item.entry.old_sha256 ∧
      item.old_bytes.length ≤ MAX_CERT_BYTES) (halt : Halt) (w : World) :
    Compensated begun w (compensate begun halt w).1 (compensate begun halt w).2 ∧
      (halt = .io → (∀ i < begun.length, w.fault i = .none) →
        (compensate begun halt w).1 = .threw .applyFailed) := by
  have apart' : Apart begun.reverse := by
    unfold Apart
    rw [List.map_reverse]
    exact List.nodup_reverse.mpr apart
  have run := rollback_rolledBack apart' (fun item mem => readable item (List.mem_reverse.mp mem))
    false w
  by_cases stopped : halt = .stopped
  · subst stopped
    refine ⟨⟨.inr rfl, ?_, ?_⟩, ?_⟩
    · intro n same
      cases same
    · intro code same
      cases same
    · intro same
      cases same
  · unfold compensate
    rw [if_neg stopped]
    rcases ended : rollback false begun.reverse w with ⟨failed | failed, w'⟩
    · rw [ended] at run
      refine ⟨⟨.inl run.writes, ?_, ?_⟩, ?_⟩
      · intro n same
        cases same
      · intro code same
        cases same
      · intro _ quiet
        have clean := run.completes rfl (by simpa using quiet)
        cases clean
    · rw [ended] at run
      cases failed with
      | true =>
          refine ⟨⟨.inl run.writes, ?_, ?_⟩, ?_⟩
          · intro n same
            cases same
          · intro code same different
            cases same
            exact absurd rfl different
          · intro _ quiet
            have clean := run.completes rfl (by simpa using quiet)
            cases clean
      | false =>
          obtain ⟨-, targets, quiet⟩ := run.restored rfl
          have restored : Writes (·.old_bytes) begun.reverse w.disk w'.disk ∧
              (∀ item ∈ begun, w'.disk.files item.paths.cert = some item.old_bytes) ∧
              ∀ i < begun.length, w.fault i = .none :=
            ⟨run.writes, fun item mem => targets item (List.mem_reverse.mpr mem), by simpa using quiet⟩
          cases halt with
          | io =>
              refine ⟨⟨.inl run.writes, ?_, fun code _ _ => restored⟩, fun _ _ => rfl⟩
              intro n same
              cases same
          | maintenance code =>
              refine ⟨⟨.inl run.writes, ?_, fun code _ _ => restored⟩, ?_⟩
              · intro n same
                cases same
              · intro same
                cases same
          | stopped => exact absurd rfl stopped

/-- The forward pass of an attempt that preflight let through. -/
structure Forward (stage : Text) (old new : ProfilePaths → List UInt8) (disk : Disk)
    (faults : List Fault) (entries begun : List PreflightEntry) (result : Except Halt Unit)
    (w : World) : Prop where
  paths : entries.map (·.paths) = profilePaths
  inspected : ∀ item ∈ entries, Inspected stage old new disk item
  ran : install [] entries ⟨disk, faults⟩ = (begun, result, w)
  installed : Installed entries begun ⟨disk, faults⟩ result w

theorem Attempt.accepts.forward (held : Held stage old new disk) (told : Told old new)
    {entries : List PreflightEntry} (accepts : attempt.accepts stage disk entries) :
    ∃ begun result w, Forward stage old new disk attempt.faults entries begun result w := by
  obtain ⟨paths, inspected⟩ := preflightApply_inspected held told accepts.2
  have apart : Apart entries := by
    have certs : entries.map (·.paths.cert) = (entries.map (·.paths)).map (·.cert) := by
      rw [List.map_map]
      rfl
    unfold Apart
    rw [certs, paths]
    exact cert_nodup
  obtain ⟨begun, list, installed⟩ := install_installed apart
    (fun item mem => ⟨(inspected item mem).new_sha256, (inspected item mem).new_small⟩) []
    ⟨disk, attempt.faults⟩
  refine ⟨begun, (install [] entries ⟨disk, attempt.faults⟩).2.1,
    (install [] entries ⟨disk, attempt.faults⟩).2.2, paths, inspected, ?_, installed⟩
  rw [← list.trans (List.nil_append begun)]

section

variable {faults : List Fault} {entries begun : List PreflightEntry} {result : Except Halt Unit}
  {w : World}

theorem Forward.apart (run : Forward stage old new disk faults entries begun result w) :
    Apart begun := by
  have certs : entries.map (·.paths.cert) = (entries.map (·.paths)).map (·.cert) := by
    rw [List.map_map]
    rfl
  have apart : Apart entries := by
    unfold Apart
    rw [certs, run.paths]
    exact cert_nodup
  exact apart.sublist ((run.installed.begun_olds.trans List.filter_sublist).map _)

theorem Forward.begun_old (run : Forward stage old new disk faults entries begun result w)
    {item : PreflightEntry} (mem : item ∈ begun) :
    Inspected stage old new disk item ∧ item.state = .old := by
  obtain ⟨inside, state⟩ := List.mem_filter.mp (run.installed.begun_olds.subset mem)
  exact ⟨run.inspected item inside, by simpa using state⟩

theorem Forward.held (run : Forward stage old new disk faults entries begun result w)
    (held : Held stage old new disk) : Held stage old new w.disk := by
  refine held.writes (fun item mem => ?_) run.installed.writes
  obtain ⟨inspected, -⟩ := run.begun_old mem
  exact ⟨inspected.mem, .inr inspected.new_bytes⟩

/-- A forward pass that finished leaves every target new. -/
theorem Forward.renewed (run : Forward stage old new disk faults entries begun (.ok ()) w) :
    Renewed new w.disk := by
  intro paths mem
  obtain ⟨all, targets, -, -⟩ := run.installed.finished rfl
  obtain ⟨item, itemMem, rfl⟩ := List.mem_map.mp (run.paths ▸ mem)
  have inspected := run.inspected item itemMem
  cases state : item.state with
  | old =>
      have inside : item ∈ begun := by
        rw [all]
        exact List.mem_filter.mpr ⟨itemMem, by simp [state]⟩
      rw [targets item inside, inspected.new_bytes]
  | new =>
      by_cases touched : ∃ other ∈ begun, other.paths.cert = item.paths.cert
      · obtain ⟨other, otherMem, same⟩ := touched
        have otherInspected := (run.begun_old otherMem).1
        rw [← same, targets other otherMem, otherInspected.new_bytes,
          List.inj_on_of_nodup_map cert_nodup otherInspected.mem inspected.mem same]
      · rw [run.installed.writes.frame _ fun other otherMem same => touched ⟨other, otherMem, same⟩,
          ← inspected.new_bytes]
        exact inspected.is_new state

/-- A rollback that was verified leaves every target as the attempt found it. -/
theorem Forward.sameTargets (run : Forward stage old new disk faults entries begun result w)
    {middle after : Disk} (files : middle.files = w.disk.files)
    (writes : Writes (·.old_bytes) begun.reverse middle after)
    (targets : ∀ item ∈ begun, after.files item.paths.cert = some item.old_bytes) :
    SameTargets disk after := by
  intro paths mem
  by_cases touched : ∃ item ∈ begun, item.paths.cert = paths.cert
  · obtain ⟨item, itemMem, same⟩ := touched
    obtain ⟨inspected, state⟩ := run.begun_old itemMem
    rw [← same, targets item itemMem, inspected.is_old state]
  · have outside : ∀ item ∈ begun, item.paths.cert ≠ paths.cert :=
      fun item itemMem same => touched ⟨item, itemMem, same⟩
    rw [writes.frame _ fun item itemMem => outside item (List.mem_reverse.mp itemMem), files]
    exact run.installed.writes.frame _ outside

/-- The `catch` block after the forward pass, whether the plan was recorded or not. -/
theorem Forward.compensated (run : Forward stage old new disk faults entries begun result w)
    (halt : Halt) (middle : World) :
    Compensated begun middle (compensate begun halt middle).1 (compensate begun halt middle).2 ∧
      (halt = .io → (∀ i < begun.length, middle.fault i = .none) →
        (compensate begun halt middle).1 = .threw .applyFailed) := by
  refine compensate_compensated run.apart (fun item mem => ?_) halt middle
  obtain ⟨inspected, -⟩ := run.begun_old mem
  exact ⟨inspected.old_sha256, inspected.old_small⟩

theorem Forward.heldAfter (run : Forward stage old new disk faults entries begun result w)
    (held : Held stage old new disk) {halt : Halt} {middle : World}
    (files : middle.disk.files = w.disk.files) :
    Held stage old new (compensate begun halt middle).2 := by
  have middleHeld : Held stage old new middle.disk := (run.held held).files files
  rcases (run.compensated halt middle).1.writes with writes | same
  · refine middleHeld.writes (fun item mem => ?_) writes
    obtain ⟨inspected, -⟩ := run.begun_old (List.mem_reverse.mp mem)
    exact ⟨inspected.mem, .inl inspected.old_bytes⟩
  · rw [same]
    exact middleHeld

end

theorem parsePlan_ok {s : Surroundings} {plan plan' : RenewalPlan}
    (run : parsePlan s plan = .ok plan') : plan' = plan := by
  simp only [parsePlan, bind_ok, failIf_ok, pure_ok] at run
  obtain ⟨-, -, -, -, -, -, -, -, -, -, -, -, -, -, -, -, rfl⟩ := run
  rfl

/-- How an attempt goes: it is refused, it fails in the forward pass or at the plan record, or it
is applied. -/
theorem applyRenewal_cases (attempt : Attempt) (held : Held stage old new disk) (told : Told old new) :
    (∃ code, applyRenewal attempt.surroundings stage attempt.faults disk = (.threw code, disk)) ∨
    ∃ entries begun result w, attempt.accepts stage disk entries ∧
      Forward stage old new disk attempt.faults entries begun result w ∧
      ((∃ halt, result = .error halt ∧
        applyRenewal attempt.surroundings stage attempt.faults disk = compensate begun halt w) ∨
      (result = .ok () ∧ ∃ halt middle, writePlan (attempt.recorded disk) w = (.error halt, middle) ∧
        applyRenewal attempt.surroundings stage attempt.faults disk =
          compensate begun halt middle) ∨
      (result = .ok () ∧ ∃ last, writePlan (attempt.recorded disk) w = (.ok (), last) ∧
        applyRenewal attempt.surroundings stage attempt.faults disk =
          (.applied begun.length, last.disk))) := by
  unfold applyRenewal
  rcases parsed : parsePlan attempt.surroundings disk.plan with code | plan
  · exact .inl ⟨code, rfl⟩
  · obtain rfl := parsePlan_ok parsed
    rcases passed : preflightApply attempt.surroundings stage disk with code | entries
    · exact .inl ⟨code, rfl⟩
    · have accepts : attempt.accepts stage disk entries := ⟨parsed, passed⟩
      obtain ⟨begun, result, w, run⟩ := accepts.forward held told
      refine .inr ⟨entries, begun, result, w, accepts, run, ?_⟩
      dsimp only
      rw [run.ran]
      cases result with
      | error halt => exact .inl ⟨halt, rfl, rfl⟩
      | ok =>
          dsimp only
          rcases wrote : writePlan (attempt.recorded disk) w with ⟨halt | done, middle⟩
          · refine .inr (.inl ⟨rfl, halt, middle, rfl, ?_⟩)
            unfold Attempt.recorded at wrote
            rw [wrote]
          · refine .inr (.inr ⟨rfl, middle, rfl, ?_⟩)
            unfold Attempt.recorded at wrote
            rw [wrote]

theorem writePlan_cases (plan : RenewalPlan) (w : World) :
    (MAX_PLAN_BYTES < byteLength (planText plan) ∧
      writePlan plan w = (.error (.maintenance .invalidPlan), w)) ∨
    (byteLength (planText plan) ≤ MAX_PLAN_BYTES ∧
      writePlan plan w = atomicWrite (Disk.record plan) w) := by
  unfold writePlan
  by_cases large : MAX_PLAN_BYTES < byteLength (planText plan)
  · exact .inl ⟨large, if_pos large⟩
  · exact .inr ⟨by omega, if_neg large⟩

/-- `writePlan` changes no file beside the plan. -/
theorem writePlan_files {plan : RenewalPlan} {w w' : World} {result : Except Halt Unit}
    (wrote : writePlan plan w = (result, w')) : w'.disk.files = w.disk.files := by
  rcases writePlan_cases plan w with ⟨-, large⟩ | ⟨-, writes⟩
  · rw [large] at wrote
    cases wrote
    rfl
  · rcases atomicWrite_cases (Disk.record plan) w with ⟨-, clear⟩ | ⟨-, halt, disk, -, effect, fails⟩
    · rw [writes, clear] at wrote
      cases wrote
      rfl
    · rw [writes, fails] at wrote
      cases wrote
      rcases effect with rfl | rfl <;> rfl

/-- The plan record is in place although its write failed only where the `fsync` did. -/
theorem writePlan_failed {plan : RenewalPlan} {w middle : World} {halt : Halt}
    (wrote : writePlan plan w = (.error halt, middle)) (alive : halt ≠ .stopped) :
    middle.disk.plan = w.disk.plan ∨
      (byteLength (planText plan) ≤ MAX_PLAN_BYTES ∧ w.fault 0 = .sync ∧
        middle = ⟨w.disk.record plan, w.faults.drop 1⟩) := by
  rcases writePlan_cases plan w with ⟨-, large⟩ | ⟨small, writes⟩
  · rw [large] at wrote
    cases wrote
    exact .inl rfl
  · rw [writes, atomicWrite] at wrote
    cases fault : w.fault 0 with
    | none =>
        rw [fault] at wrote
        cases wrote
    | write =>
        rw [fault] at wrote
        cases wrote
        exact .inl rfl
    | sync =>
        rw [fault] at wrote
        cases wrote
        exact .inr ⟨small, rfl, rfl⟩
    | stopBefore =>
        rw [fault] at wrote
        cases wrote
        exact absurd rfl alive
    | stopAfter =>
        rw [fault] at wrote
        cases wrote
        exact absurd rfl alive

theorem after_held (attempt : Attempt) (held : Held stage old new disk) (told : Told old new) :
    Held stage old new (attempt.after stage disk) := by
  unfold Attempt.after
  rcases applyRenewal_cases attempt held told with ⟨code, refused⟩ |
    ⟨entries, begun, result, w, -, run, ⟨halt, rfl, failed⟩ | ⟨rfl, halt, middle, wrote, failed⟩ |
      ⟨rfl, last, wrote, done⟩⟩
  · rw [refused]
    exact held
  · rw [failed]
    exact run.heldAfter held rfl
  · rw [failed]
    exact run.heldAfter held (writePlan_files wrote)
  · rw [done]
    exact (run.held held).files (writePlan_files wrote)

theorem outcome_applied (held : Held stage old new disk) (told : Told old new) {n : Nat}
    (applied : attempt.outcome stage disk = .applied n) : Renewed new (attempt.after stage disk) := by
  unfold Attempt.outcome at applied
  unfold Attempt.after
  rcases applyRenewal_cases attempt held told with ⟨code, refused⟩ |
    ⟨entries, begun, result, w, -, run, ⟨halt, rfl, failed⟩ | ⟨rfl, halt, middle, -, failed⟩ |
      ⟨rfl, last, wrote, done⟩⟩
  · rw [refused] at applied
    cases applied
  · rw [failed] at applied
    exact absurd applied ((run.compensated halt w).1.not_applied n)
  · rw [failed] at applied
    exact absurd applied ((run.compensated halt middle).1.not_applied n)
  · intro paths mem
    rw [done, writePlan_files wrote]
    exact run.renewed paths mem

theorem compensate_stopped (begun : List PreflightEntry) (w : World) :
    compensate begun .stopped w = (.stopped, w.disk) := if_pos rfl

/-- An attempt that throws and whose plan record does not outlive it leaves everything as it
was. -/
theorem outcome_restored (held : Held stage old new disk) (told : Told old new) {code : Code}
    (fine : ¬ attempt.recordOutlives stage disk)
    (threw : attempt.outcome stage disk = .threw code) (verified : code ≠ .rollbackFailed) :
    SameTargets disk (attempt.after stage disk) ∧
      (attempt.after stage disk).plan.status = disk.plan.status := by
  unfold Attempt.outcome at threw
  unfold Attempt.after
  rcases applyRenewal_cases attempt held told with ⟨other, refused⟩ |
    ⟨entries, begun, result, w, accepts, run, ⟨halt, rfl, failed⟩ |
      ⟨rfl, halt, middle, wrote, failed⟩ | ⟨rfl, last, -, done⟩⟩
  · rw [refused]
    exact ⟨fun _ _ => rfl, rfl⟩
  · rw [failed] at threw ⊢
    obtain ⟨writes, targets, -⟩ := (run.compensated halt w).1.restored code threw verified
    refine ⟨run.sameTargets rfl writes targets, ?_⟩
    rw [writes.plan, run.installed.writes.plan]
  · rw [failed] at threw ⊢
    obtain ⟨writes, targets, quiet⟩ := (run.compensated halt middle).1.restored code threw verified
    refine ⟨run.sameTargets (writePlan_files wrote) writes targets, ?_⟩
    rw [writes.plan]
    have alive : halt ≠ .stopped := by
      rintro rfl
      rw [compensate_stopped] at threw
      cases threw
    obtain ⟨all, -, faults, clear⟩ := run.installed.finished rfl
    rcases writePlan_failed wrote alive with same | ⟨fits, fault, rfl⟩
    · rw [same, run.installed.writes.plan]
    · cases status : disk.plan.status with
      | applied => rfl
      | prepared =>
          refine absurd ⟨status, fits, entries, accepts, ?_⟩ fine
          have start : w = ⟨w.disk, attempt.faults.drop (olds entries).length⟩ := by
            rw [← all, ← faults]
          rw [start, World.fault_drop, Nat.add_zero] at fault
          rw [all] at clear quiet
          refine ⟨clear, fault, fun i small => ?_⟩
          have later := quiet i small
          rw [start, List.drop_drop, World.fault_drop] at later
          exact later
  · rw [done] at threw
    cases threw

/-- The converse: such an attempt throws, and the prepared plan says applied. -/
theorem recordOutlives_throws (held : Held stage old new disk) (told : Told old new)
    (outlives : attempt.recordOutlives stage disk) :
    attempt.outcome stage disk = .threw .applyFailed ∧
      (attempt.after stage disk).plan.status ≠ disk.plan.status := by
  obtain ⟨prepared, fits, entries, accepts, clear, sync, quiet⟩ := outlives
  obtain ⟨begun, result, w, run⟩ := accepts.forward held told
  have done : result = .ok () := by
    cases result with
    | ok => rfl
    | error halt =>
        obtain ⟨-, i, small, fault⟩ := run.installed.failed halt rfl
        exact absurd (clear i small) fault
  subst done
  obtain ⟨all, -, faults, -⟩ := run.installed.finished rfl
  have start : w = ⟨w.disk, attempt.faults.drop (olds entries).length⟩ := by
    rw [← all, ← faults]
  have wrote : writePlan (attempt.recorded disk) w = (.error .io,
      ⟨w.disk.record (attempt.recorded disk), w.faults.drop 1⟩) := by
    have fault : w.fault 0 = .sync := by
      rw [start, World.fault_drop, Nat.add_zero]
      exact sync
    rw [writePlan, if_neg (Nat.not_lt.mpr fits), atomicWrite, fault]
    rfl
  have ran : applyRenewal attempt.surroundings stage attempt.faults disk =
      compensate begun .io ⟨w.disk.record (attempt.recorded disk), w.faults.drop 1⟩ := by
    unfold Attempt.recorded at wrote ⊢
    rw [applyRenewal, accepts.1]
    dsimp only
    rw [accepts.2]
    dsimp only
    rw [run.ran]
    dsimp only
    rw [wrote]
  obtain ⟨compensated, threw⟩ := run.compensated .io
    ⟨w.disk.record (attempt.recorded disk), w.faults.drop 1⟩
  have outcome := threw rfl fun i small => by
    rw [start, List.drop_drop, World.fault_drop]
    exact quiet i (all ▸ small)
  obtain ⟨writes, -, -⟩ := compensated.restored _ outcome (by decide)
  unfold Attempt.outcome Attempt.after
  rw [ran]
  refine ⟨outcome, ?_⟩
  rw [writes.plan, prepared]
  exact Status.noConfusion

/-- An attempt that preflight lets through and whose writes all succeed is applied. -/
theorem outcome_resumes (held : Held stage old new disk) (told : Told old new)
    {entries : List PreflightEntry} (accepts : attempt.accepts stage disk entries)
    (clear : ∀ fault ∈ attempt.faults, fault = .none) (fits : attempt.fits disk) :
    ∃ n, attempt.outcome stage disk = .applied n ∧ Renewed new (attempt.after stage disk) := by
  have quiet : ∀ i, attempt.faults.getD i .none = .none := by
    intro i
    rw [List.getD_eq_getElem?_getD]
    cases found : attempt.faults[i]? with
    | none => rfl
    | some fault => exact clear fault (List.mem_of_getElem? found)
  obtain ⟨begun, result, w, run⟩ := accepts.forward held told
  have done : result = .ok () := by
    cases result with
    | ok => rfl
    | error halt =>
        obtain ⟨-, i, small, fault⟩ := run.installed.failed halt rfl
        exact absurd (quiet i) fault
  subst done
  obtain ⟨all, -, faults, -⟩ := run.installed.finished rfl
  have wrote : writePlan (attempt.recorded disk) w =
      (.ok (), ⟨w.disk.record (attempt.recorded disk), w.faults.drop 1⟩) := by
    have fault : w.fault 0 = .none := by
      rw [World.fault, faults, List.getD_eq_getElem?_getD, List.getElem?_drop,
        ← List.getD_eq_getElem?_getD]
      exact quiet _
    rw [writePlan, if_neg (Nat.not_lt.mpr fits), atomicWrite, fault]
    rfl
  have applied : attempt.outcome stage disk = .applied begun.length := by
    unfold Attempt.recorded at wrote
    rw [Attempt.outcome, applyRenewal, accepts.1]
    dsimp only
    rw [accepts.2]
    dsimp only
    rw [run.ran]
    dsimp only
    rw [wrote]
  exact ⟨_, applied, outcome_applied held told applied⟩

/-- One attempt is all or nothing just when its plan record does not outlive it. -/
theorem allOrNothing_iff (held : Held stage old new disk) (told : Told old new) :
    AllOrNothing stage old new disk attempt ↔ ¬ attempt.recordOutlives stage disk := by
  constructor
  · intro promised outlives
    obtain ⟨threw, changed⟩ := recordOutlives_throws held told outlives
    exact changed (promised.restored _ threw (by decide)).2
  · intro fine
    have after := after_held attempt held told
    exact {
      always := fun n => after_held _ held told
      held := after
      applied := fun n applied => outcome_applied held told applied
      restored := fun code threw verified => outcome_restored held told fine threw verified
      recognised := fun s => preflightApply_drift after
      resumes := fun next entries accepts clear fits =>
        outcome_resumes after told accepts clear fits }

/-! ## Histories -/

/-- The disk after a history of attempts. -/
def history (stage : Text) (attempts : List Attempt) (disk : Disk) : Disk :=
  attempts.foldl (fun disk attempt => attempt.after stage disk) disk

theorem history_held (held : Held stage old new disk) (told : Told old new)
    (attempts : List Attempt) : Held stage old new (history stage attempts disk) := by
  induction attempts generalizing disk with
  | nil => exact held
  | cons attempt rest ih => exact ih (after_held attempt held told)

/-- **Histories of attempts.**  In every history every attempt is all or nothing just when no
attempt's plan record outlives it. -/
theorem applyRenewal_allOrNothing (held : Held stage old new disk) (told : Told old new)
    (attempts : List Attempt) :
    (∀ earlier attempt later, attempts = earlier ++ attempt :: later →
      AllOrNothing stage old new (history stage earlier disk) attempt) ↔
    ∀ earlier attempt later, attempts = earlier ++ attempt :: later →
      ¬ attempt.recordOutlives stage (history stage earlier disk) := by
  constructor
  · intro promised earlier attempt later split
    exact (allOrNothing_iff (history_held held told earlier) told).mp
      (promised earlier attempt later split)
  · intro fine earlier attempt later split
    exact (allOrNothing_iff (history_held held told earlier) told).mpr
      (fine earlier attempt later split)

end

/-! ## A renewal -/

namespace Demo

def stage : Text := "renewal-20270101000000-0123456789abcdef".toList

def oldCert : List UInt8 := [0x6f]
def newCert : List UInt8 := [0x6e]
def caCert : List UInt8 := [0x63]

/-- Midnight of the first of January 2027, and the dates around it. -/
def now : Int := 1798761600000

def date (time : Int) : Text :=
  if time = now then "2027-01-01T00:00:00.000Z".toList
  else if time = now + DAY_MS then "2027-01-02T00:00:00.000Z".toList
  else "2027-04-01T00:00:00.000Z".toList

def surroundings : Surroundings where
  now := now
  parseDate text := [now, now + DAY_MS, now + 90 * DAY_MS].find? fun time => date time = text
  toISOString := date
  extractApplicationRoots _ :=
    .ok (DEVELOPMENT_ORGANIZATIONS.map fun (org_id, _, _) => (org_id, [caCert]))
  validateLeafCertificate bytes _ _ _ :=
    if bytes = oldCert then .ok ⟨now + DAY_MS, [0x70]⟩
    else if bytes = newCert then .ok ⟨now + 90 * DAY_MS, [0x70]⟩ else .error "INVALID_CERTIFICATE"
  parseCertificate _ := .ok ⟨now + 90 * DAY_MS, [0x71]⟩
  singlePrivateKey directory := .ok (directory ++ "/priv_sk".toList)
  checkPrivateKey _ _ := .ok true

def plan : RenewalPlan where
  status := .prepared
  created_at := date now
  days := 90
  renew_before_days := 14
  channel_block_sha256 := sha256 []
  certificates := profilePaths.map fun paths =>
    { org_id := paths.org_id
      domain := paths.domain
      target_path := paths.cert
      old_cert_path := oldPath stage paths
      csr_path := csrPath stage paths
      new_cert_path := newPath stage paths
      old_sha256 := sha256 oldCert
      new_sha256 := sha256 newCert
      ca_sha256 := sha256 caCert
      old_valid_to := date (now + DAY_MS)
      new_valid_to := date (now + 90 * DAY_MS) }
  applied_at := none

/-- A state directory whose renewal is prepared. -/
def prepared : Disk where
  files path := List.lookup path (("channel.block".toList, []) :: profilePaths.flatMap fun paths =>
    [(paths.cert, oldCert), (paths.ca_cert, caCert), (paths.ca_msp_cert, caCert),
      (oldPath stage paths, oldCert), (newPath stage paths, newCert), (csrPath stage paths, [])])
  plan := plan

/-- The `fsync` after the rename of the plan's record fails. -/
def unsynced : Attempt := ⟨surroundings, [.none, .none, .none, .sync]⟩

def old (_ : ProfilePaths) : List UInt8 := oldCert
def new (_ : ProfilePaths) : List UInt8 := newCert

theorem told : Told old new := by
  intro paths _ same
  have differ : sha256 oldCert ≠ sha256 newCert := by decide +kernel
  exact absurd same differ

theorem held : Held stage old new prepared :=
  ⟨by decide +kernel, by decide +kernel, fun paths mem => .inl (by revert paths; decide +kernel)⟩

/-- The attempt throws, the targets are rolled back, and the plan says applied. -/
theorem applyRenewal_records :
    Held stage old new prepared ∧ Told old new ∧ prepared.plan.status = .prepared ∧
      unsynced.outcome stage prepared = .threw .applyFailed ∧
      (unsynced.after stage prepared).plan.status = .applied ∧
      ¬ AllOrNothing stage old new prepared unsynced := by
  have ran : (unsynced.outcome stage prepared, (unsynced.after stage prepared).plan.status) =
      (.threw .applyFailed, .applied) := by decide +kernel
  obtain ⟨threw, applied⟩ := Prod.mk.inj ran
  refine ⟨held, told, rfl, threw, applied, fun promised => ?_⟩
  have same := (promised.restored _ threw (by decide)).2
  exact Status.noConfusion (applied.symm.trans same)

/-- The process stops after the second certificate. -/
def interrupted : Attempt := ⟨surroundings, [.none, .stopAfter]⟩

/-- The same plan is applied again. -/
def resumed : Attempt := ⟨surroundings, []⟩

theorem applyRenewal_allOrNothing_resumed :
    AllOrNothing stage old new prepared interrupted ∧
      AllOrNothing stage old new (history stage [interrupted] prepared) resumed := by
  have never : ∀ attempt ∈ [interrupted, resumed], Fault.sync ∉ attempt.faults := by
    intro attempt mem
    rcases List.mem_cons.mp mem with rfl | mem
    · decide
    · obtain rfl := List.mem_singleton.mp mem
      decide
  have promised := (applyRenewal_allOrNothing held told [interrupted, resumed]).mpr (by
    rintro earlier attempt later split ⟨-, -, entries, -, -, sync, -⟩
    have mem : attempt ∈ [interrupted, resumed] := by
      rw [split]
      exact List.mem_append_right _ List.mem_cons_self
    have synced : Fault.sync ∈ attempt.faults := by
      rw [List.getD_eq_getElem?_getD] at sync
      cases found : attempt.faults[(olds entries).length]? with
      | none =>
          rw [found] at sync
          cases sync
      | some fault =>
          rw [found] at sync
          cases sync
          exact List.mem_of_getElem? found
    exact never attempt mem synced)
  exact ⟨promised [] interrupted [resumed] rfl, promised [interrupted] resumed [] rfl⟩

end Demo

end Knowledger.Fabric.Renewal
