import Mathlib

/-!
# Longest common subsequences

The recursion for the length of a longest common subsequence of two lists, which keeps equal
heads at once.  `length_isGreatest` says that it is the greatest length of a common subsequence.
-/

namespace Lcs

variable {α : Type} [DecidableEq α]

/-- The length of a longest common subsequence. -/
def length : List α → List α → Nat
  | [], _ => 0
  | _ :: _, [] => 0
  | a :: as, b :: bs =>
    if a = b then length as bs + 1 else max (length as (b :: bs)) (length (a :: as) bs)
termination_by as bs => as.length + bs.length

@[simp] theorem length_nil_left (bs : List α) : length [] bs = 0 := by rw [length.eq_def]

@[simp] theorem length_nil_right (as : List α) : length as [] = 0 := by
  cases as <;> rw [length.eq_def]

theorem length_cons_self (a : α) (as bs : List α) :
    length (a :: as) (a :: bs) = length as bs + 1 := by
  rw [length, if_pos rfl]

theorem length_cons_ne {a b : α} (differ : a ≠ b) (as bs : List α) :
    length (a :: as) (b :: bs) = max (length as (b :: bs)) (length (a :: as) bs) := by
  rw [length, if_neg differ]

/-- No common subsequence is longer. -/
theorem le_length {as bs s : List α} (left : s.Sublist as) (right : s.Sublist bs) :
    s.length ≤ length as bs := by
  induction as, bs using length.induct generalizing s with
  | case1 bs =>
      rw [List.eq_nil_of_sublist_nil left]
      exact Nat.zero_le _
  | case2 a as =>
      rw [List.eq_nil_of_sublist_nil right]
      exact Nat.zero_le _
  | case3 as a bs ih =>
      have shorter := ih left.tail right.tail
      rw [List.length_tail] at shorter
      rw [length_cons_self]
      omega
  | case4 a as b bs differ dropLeft dropRight =>
      rw [length_cons_ne differ]
      rcases List.sublist_cons_iff.mp left with skipped | ⟨s', rfl, -⟩
      · exact le_max_of_le_left (dropLeft skipped right)
      · rcases List.sublist_cons_iff.mp right with skipped | ⟨s'', heads, -⟩
        · exact le_max_of_le_right (dropRight left skipped)
        · exact absurd (List.cons.inj heads).1 differ

theorem exists_length (as bs : List α) :
    ∃ s : List α, s.Sublist as ∧ s.Sublist bs ∧ s.length = length as bs := by
  induction as, bs using length.induct with
  | case1 bs => exact ⟨[], List.nil_sublist _, List.nil_sublist _, by simp⟩
  | case2 a as => exact ⟨[], List.nil_sublist _, List.nil_sublist _, by simp⟩
  | case3 as a bs ih =>
      obtain ⟨s, left, right, same⟩ := ih
      refine ⟨a :: s, left.cons_cons a, right.cons_cons a, ?_⟩
      rw [length_cons_self, List.length_cons, same]
  | case4 a as b bs differ dropLeft dropRight =>
      rw [length_cons_ne differ]
      rcases le_total (length as (b :: bs)) (length (a :: as) bs) with less | more
      · obtain ⟨s, left, right, same⟩ := dropRight
        exact ⟨s, left, right.cons b, by rw [max_eq_right less, same]⟩
      · obtain ⟨s, left, right, same⟩ := dropLeft
        exact ⟨s, left.cons a, right, by rw [max_eq_left more, same]⟩

theorem length_isGreatest (as bs : List α) :
    IsGreatest {n | ∃ s : List α, s.Sublist as ∧ s.Sublist bs ∧ s.length = n} (length as bs) := by
  refine ⟨exists_length as bs, ?_⟩
  rintro n ⟨s, left, right, rfl⟩
  exact le_length left right

theorem length_le_left (as bs : List α) : length as bs ≤ as.length := by
  obtain ⟨s, left, -, same⟩ := exists_length as bs
  rw [← same]
  exact left.length_le

end Lcs
