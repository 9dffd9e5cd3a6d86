import Knowledger.Lib.Json
import Knowledger.Lib.Utf8

/-!
# The audit log of the signing service

A record is a line of JSON.  It is written in as many pieces as the file takes, and flushed before
its request is acknowledged.  A line that is cut short tears the log, which then takes no more
records: the file is always a sequence of complete lines with at most one fragment after them.
-/

namespace Knowledger.SigningService

open Js

/-! ## Lines -/

def newline : UInt8 := 10

/-- The octets of the record's JSON and a newline. -/
def line (record : Value) : List UInt8 := Utf8.encode record.text ++ [newline]

/-- A line is terminated by its only newline. -/
theorem newline_notMem (record : Value) : newline ∉ Utf8.encode record.text := by
  intro mem
  obtain ⟨c, inside, same⟩ := Utf8.mem_encode mem (by decide)
  have is : c = '\n' := Char.toNat_inj.mp same
  exact record.newline_notMem_text (is ▸ inside)

theorem length_line_pos (record : Value) : 0 < (line record).length := by
  simp [line]

/-! ## The log -/

/-- What the calls of one record come to: how much each `writeSync` takes, or that it throws, having
written nothing; and whether `fsyncSync` succeeds. -/
structure Io where
  writes : List (Option Nat)
  flushed : Bool

/-- The log, with the records whose lines are complete, and how many of them were flushed. -/
structure AuditLog where
  file : List UInt8
  records : List Value
  flushed : Nat
  torn : Bool
  closed : Bool

/-- An existing file has to end with a complete line. -/
def openAuditLog (file : List UInt8) : Option AuditLog :=
  if file = [] ∨ file.getLast? = some newline then some ⟨file, [], 0, false, false⟩ else none

/-- How much of a line is written: a call that throws or takes nothing ends the loop. -/
def writeAll : List UInt8 → List (Option Nat) → Nat
  | [], _ => 0
  | _ :: _, [] => 0
  | _ :: _, none :: _ => 0
  | rest, some n :: more =>
      if n = 0 then 0 else min n rest.length + writeAll (rest.drop n) more

/-- Whether the record was written and flushed, and the log after it. -/
def AuditLog.audit (log : AuditLog) (record : Value) (io : Io) : Bool × AuditLog :=
  if log.closed || log.torn then (false, log)
  else
    let written := writeAll (line record) io.writes
    let file := log.file ++ (line record).take written
    if written = (line record).length then
      (io.flushed, { log with
        file := file, records := log.records ++ [record]
        flushed := if io.flushed then log.records.length + 1 else log.flushed })
    else (false, { log with
      file := file, torn := decide (0 < written) })

def AuditLog.close (log : AuditLog) : AuditLog := { log with closed := true }

/-! ## The invariant -/

/-- The file is what it was opened with, the lines of the records, and a fragment if it is torn. -/
def AuditLog.Intact (start : List UInt8) (log : AuditLog) : Prop :=
  ∃ fragment, log.file = start ++ log.records.flatMap line ++ fragment ∧
    (fragment = [] ∨ log.torn = true ∧ ∃ record, fragment <+: line record ∧ fragment ≠ line record)

/-- The record's line is complete, and was flushed. -/
def AuditLog.Kept (log : AuditLog) (record : Value) : Prop :=
  record ∈ log.records.take log.flushed

structure AuditLog.Sound (start : List UInt8) (log : AuditLog) : Prop where
  intact : log.Intact start
  whole : log.torn = false → log.file = start ++ log.records.flatMap line
  flushed : log.flushed ≤ log.records.length

theorem writeAll_le (rest : List UInt8) (writes : List (Option Nat)) :
    writeAll rest writes ≤ rest.length := by
  fun_induction writeAll rest writes with
  | case1 writes => exact Nat.le_refl 0
  | case2 b rest => exact Nat.zero_le _
  | case3 b rest more => exact Nat.zero_le _
  | case4 rest n more => exact Nat.zero_le _
  | case5 rest n more _ _ ih =>
      rw [List.length_drop] at ih
      omega

theorem openAuditLog_sound {start : List UInt8} {log : AuditLog}
    (opened : openAuditLog start = some log) :
    log.Sound start ∧ (start = [] ∨ start.getLast? = some newline) := by
  obtain ⟨terminated, rfl⟩ := (Option.ite_none_right_eq_some.mp opened).imp_right Option.some.inj
  exact ⟨⟨⟨[], by simp, Or.inl rfl⟩, fun _ => by simp, Nat.le_refl 0⟩, terminated⟩

/-- What `audit` can do: refuse, fail part of the way, or write the line. -/
theorem AuditLog.audit_cases (log : AuditLog) (record : Value) (io : Io) :
    ((log.closed || log.torn) = true ∧ log.audit record io = (false, log)) ∨
    (log.closed = false ∧ log.torn = false ∧ ∃ written < (line record).length,
      log.audit record io = (false, { log with
        file := log.file ++ (line record).take written, torn := decide (0 < written) })) ∨
    log.closed = false ∧ log.torn = false ∧ log.audit record io = (io.flushed, { log with
      file := log.file ++ line record, records := log.records ++ [record]
      flushed := if io.flushed then log.records.length + 1 else log.flushed }) := by
  unfold AuditLog.audit
  by_cases refused : (log.closed || log.torn) = true
  · exact Or.inl ⟨refused, if_pos refused⟩
  · rw [if_neg refused]
    rw [Bool.not_eq_true, Bool.or_eq_false_iff] at refused
    dsimp only
    by_cases whole : writeAll (line record) io.writes = (line record).length
    · refine Or.inr (Or.inr ⟨refused.1, refused.2, ?_⟩)
      rw [if_pos whole, whole, List.take_length]
    · refine Or.inr (Or.inl ⟨refused.1, refused.2, writeAll (line record) io.writes, ?_, if_neg whole⟩)
      have := writeAll_le (line record) io.writes
      omega

variable {start : List UInt8} {log : AuditLog}

theorem AuditLog.Sound.audit (sound : log.Sound start) (record : Value) (io : Io) :
    (log.audit record io).2.Sound start := by
  rcases log.audit_cases record io with ⟨-, run⟩ | ⟨-, whole, written, short, run⟩ |
    ⟨-, whole, run⟩
  · rw [run]
    exact sound
  · have file := sound.whole whole
    rw [run]
    refine ⟨⟨(line record).take written, by rw [file], ?_⟩, fun torn => ?_, sound.flushed⟩
    · by_cases none : written = 0
      · subst none
        exact Or.inl rfl
      · refine Or.inr ⟨decide_eq_true (Nat.pos_of_ne_zero none), record, List.take_prefix _ _, ?_⟩
        intro same
        have := congrArg List.length same
        rw [List.length_take] at this
        omega
    · have none : written = 0 := by
        have := of_decide_eq_false torn
        omega
      rw [none, List.take_zero, List.append_nil, file]
  · have file := sound.whole whole
    have after : log.file ++ line record = start ++ (log.records ++ [record]).flatMap line := by
      simp [file]
    rw [run]
    refine ⟨⟨[], ?_, Or.inl rfl⟩, fun _ => after, ?_⟩
    · rw [List.append_nil]
      exact after
    · dsimp only
      rw [List.length_append, List.length_singleton]
      split_ifs
      · exact Nat.le_refl _
      · exact Nat.le_succ_of_le sound.flushed

/-- What was flushed stays so. -/
theorem AuditLog.Kept.audit {kept : Value} (held : log.Kept kept) (sound : log.Sound start)
    (record : Value) (io : Io) : (log.audit record io).2.Kept kept := by
  rcases log.audit_cases record io with ⟨-, run⟩ | ⟨-, -, written, -, run⟩ | ⟨-, -, run⟩
  · rw [run]
    exact held
  · rw [run]
    exact held
  · rw [run]
    unfold AuditLog.Kept at held ⊢
    dsimp only
    split_ifs
    · rw [List.take_of_length_le (by rw [List.length_append, List.length_singleton])]
      exact List.mem_append_left _ (List.mem_of_mem_take held)
    · rw [List.take_append_of_le_length sound.flushed]
      exact held

/-- A record that `audit` accepts was written and flushed. -/
theorem AuditLog.audit_kept {record : Value} {io : Io} (accepted : (log.audit record io).1 = true) :
    (log.audit record io).2.Kept record := by
  rcases log.audit_cases record io with ⟨-, run⟩ | ⟨-, -, written, -, run⟩ | ⟨-, -, run⟩
  · rw [run] at accepted
    cases accepted
  · rw [run] at accepted
    cases accepted
  · rw [run] at accepted ⊢
    have flushed : io.flushed = true := accepted
    unfold AuditLog.Kept
    dsimp only
    rw [if_pos flushed, List.take_of_length_le (by rw [List.length_append, List.length_singleton])]
    exact List.mem_append_right _ (List.mem_singleton_self record)

/-- A torn log stays as it is. -/
theorem AuditLog.audit_torn (torn : log.torn = true) (record : Value) (io : Io) :
    log.audit record io = (false, log) := by
  unfold AuditLog.audit
  rw [torn, Bool.or_true, if_pos rfl]

end Knowledger.SigningService
