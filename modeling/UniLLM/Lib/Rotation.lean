import Mathlib.Data.List.Basic
import Mathlib.Data.List.Count
import Mathlib.Data.List.TakeWhile

/-!
# Queues whose refused elements go to the end

A batch takes elements from the front of a queue until one is refused, which goes to the
end, or until it has taken as many as it may.  A batch that takes nothing has moved a refused
element away from the front.  So between two batches that take something there are at most as
many as there are refused elements, and all others are taken in the end.
-/

namespace Rotation

variable {α : Type*} (refused : α → Bool)

/-- A batch of at most `n`: what is taken, and what is left. -/
def batch : Nat → List α → List α × List α
  | 0, l => ([], l)
  | _ + 1, [] => ([], [])
  | n + 1, x :: l =>
    if refused x then ([], l ++ [x]) else (x :: (batch n l).1, (batch n l).2)

/-- Batches, one after the other. -/
def batches (n : Nat) : Nat → List α → List α × List α
  | 0, l => ([], l)
  | k + 1, l =>
    ((batch refused n l).1 ++ (batches n k (batch refused n l).2).1,
      (batches n k (batch refused n l).2).2)

/-- How many elements are not refused. -/
def accepted (l : List α) : Nat := l.countP fun x => !refused x

/-- How many batches it takes at most until nothing is left that is not refused. -/
def rounds (l : List α) : Nat :=
  if accepted refused l = 0 then 0
  else (accepted refused l - 1) * (l.countP refused + 1) + (l.takeWhile refused).length + 1

/-! ### One batch -/

variable {n : Nat} {l : List α}

/-- Nothing is lost. -/
theorem batch_perm (n : Nat) (l : List α) :
    ((batch refused n l).1 ++ (batch refused n l).2).Perm l := by
  induction n generalizing l with
  | zero => exact List.Perm.refl l
  | succ n ih =>
    cases l with
    | nil => exact List.Perm.refl []
    | cons x l =>
      unfold batch
      split
      · exact List.perm_append_singleton x l
      · exact (ih l).cons x

variable {refused} in
/-- Nothing that is taken is refused. -/
theorem not_refused_of_mem_batch {x : α} (h : x ∈ (batch refused n l).1) : refused x = false := by
  induction n generalizing l with
  | zero => cases h
  | succ n ih =>
    cases l with
    | nil => cases h
    | cons y l =>
      unfold batch at h
      split at h
      · cases h
      · rename_i hy
        rcases List.mem_cons.mp h with rfl | h
        · simpa using hy
        · exact ih h

theorem filter_batch (n : Nat) (l : List α) :
    ((batch refused n l).1 ++ (batch refused n l).2.filter fun x => !refused x).Perm
        (l.filter fun x => !refused x) ∧
      ((batch refused n l).2.filter refused).Perm (l.filter refused) := by
  have htaken : (batch refused n l).1.filter (fun x => !refused x) = (batch refused n l).1 :=
    List.filter_eq_self.mpr fun x hx => by rw [not_refused_of_mem_batch hx]; rfl
  have hnone : (batch refused n l).1.filter refused = [] :=
    List.filter_eq_nil_iff.mpr fun x hx => by rw [not_refused_of_mem_batch hx]; decide
  have haccepted := (batch_perm refused n l).filter fun x => !refused x
  have hrefused := (batch_perm refused n l).filter refused
  rw [List.filter_append, htaken] at haccepted
  rw [List.filter_append, hnone] at hrefused
  exact ⟨haccepted, hrefused⟩

theorem accepted_batch (n : Nat) (l : List α) :
    (batch refused n l).1.length + accepted refused (batch refused n l).2 = accepted refused l := by
  have hlength := (filter_batch refused n l).1.length_eq
  rw [List.length_append, ← List.countP_eq_length_filter, ← List.countP_eq_length_filter] at hlength
  exact hlength

theorem countP_batch (n : Nat) (l : List α) :
    (batch refused n l).2.countP refused = l.countP refused := by
  rw [List.countP_eq_length_filter, List.countP_eq_length_filter]
  exact (filter_batch refused n l).2.length_eq

/-! ### How many batches -/

theorem length_takeWhile_le (l : List α) : (l.takeWhile refused).length ≤ l.countP refused := by
  have hall : (l.takeWhile refused).countP refused = (l.takeWhile refused).length :=
    List.countP_eq_length.mpr fun x hx => List.mem_takeWhile_imp hx
  rw [← hall]
  exact (List.takeWhile_sublist refused).countP_le

theorem rounds_le (l : List α) :
    rounds refused l ≤ accepted refused l * (l.countP refused + 1) := by
  have hle := length_takeWhile_le refused l
  unfold rounds
  split
  · exact Nat.zero_le _
  · rename_i hsome
    obtain ⟨g, hg⟩ := Nat.exists_eq_succ_of_ne_zero hsome
    rw [hg, Nat.succ_sub_one, Nat.succ_mul]
    omega

variable {refused} in
/-- A refused element at the front goes behind what is taken first. -/
theorem takeWhile_rotate {x : α} (hx : refused x = true) (hl : accepted refused l ≠ 0) :
    ((x :: l).takeWhile refused).length = ((l ++ [x]).takeWhile refused).length + 1 := by
  have hexists : ∃ y ∈ l, ¬ refused y = true := by
    obtain ⟨y, hy, hfalse⟩ := List.countP_pos_iff.mp (Nat.pos_of_ne_zero hl)
    exact ⟨y, hy, by simpa using hfalse⟩
  rw [List.takeWhile_cons_of_pos hx, List.length_cons, List.takeWhile_append, if_neg]
  intro hlength
  obtain ⟨y, hy, hfalse⟩ := hexists
  have hself : l.takeWhile refused = l := (List.takeWhile_prefix refused).eq_of_length hlength
  rw [← hself] at hy
  exact hfalse (List.mem_takeWhile_imp hy)

variable {refused} in
/-- **Every batch brings the end closer.** -/
theorem rounds_batch_lt (hn : 0 < n) (hl : accepted refused l ≠ 0) :
    rounds refused (batch refused n l).2 < rounds refused l := by
  have hle := rounds_le refused (batch refused n l).2
  have haccepted := accepted_batch refused n l
  rw [countP_batch] at hle
  obtain ⟨n, rfl⟩ := Nat.exists_eq_succ_of_ne_zero hn.ne'
  cases l with
  | nil => exact absurd rfl hl
  | cons x l =>
    by_cases hx : refused x = true
    · -- nothing is taken, and the front moves on
      have hbatch : batch refused (n + 1) (x :: l) = ([], l ++ [x]) := by rw [batch, if_pos hx]
      have hrest : accepted refused l ≠ 0 := by
        rwa [accepted, List.countP_cons_of_neg (by simp [hx])] at hl
      rw [Nat.succ_eq_add_one, hbatch] at haccepted ⊢
      have hcount := countP_batch refused (n + 1) (x :: l)
      rw [hbatch] at hcount
      have htake := takeWhile_rotate hx hrest
      simp only [List.length_nil, Nat.zero_add] at haccepted
      unfold rounds
      rw [haccepted, hcount, if_neg hl, if_neg hl, htake]
      exact Nat.lt_succ_self _
    · -- the first element is taken
      have htaken : 0 < (batch refused (n + 1) (x :: l)).1.length := by
        rw [batch, if_neg hx]
        exact Nat.succ_pos _
      have hless :
          accepted refused (batch refused n.succ (x :: l)).2 ≤ accepted refused (x :: l) - 1 := by
        rw [Nat.succ_eq_add_one] at haccepted ⊢
        omega
      refine Nat.lt_of_le_of_lt hle ?_
      unfold rounds
      rw [if_neg hl]
      have hmul := Nat.mul_le_mul_right ((x :: l).countP refused + 1) hless
      omega

variable {refused} in
/-- **Whatever is not refused is taken, and what is refused stays.** -/
theorem batches_complete (hn : 0 < n) {k : Nat} (hk : rounds refused l ≤ k) :
    (batches refused n k l).1.Perm (l.filter fun x => !refused x) ∧
      (batches refused n k l).2.Perm (l.filter refused) := by
  induction k generalizing l with
  | zero =>
    have hnone : accepted refused l = 0 := by
      by_contra hsome
      rw [rounds, if_neg hsome] at hk
      omega
    rw [accepted, List.countP_eq_zero] at hnone
    have hall : ∀ x ∈ l, refused x = true := fun x hx => by simpa using hnone x hx
    rw [List.filter_eq_nil_iff.mpr hnone, List.filter_eq_self.mpr hall]
    exact ⟨List.Perm.refl [], List.Perm.refl l⟩
  | succ k ih =>
    have hrest : rounds refused (batch refused n l).2 ≤ k := by
      by_cases hsome : accepted refused l = 0
      · have hzero : accepted refused (batch refused n l).2 = 0 := by
          have := accepted_batch refused n l
          omega
        rw [rounds, if_pos hzero]
        exact Nat.zero_le k
      · have := rounds_batch_lt hn hsome
        omega
    obtain ⟨htaken, hleft⟩ := ih hrest
    obtain ⟨haccepted, hrefused⟩ := filter_batch refused n l
    exact ⟨(htaken.append_left _).trans haccepted, hleft.trans hrefused⟩

end Rotation
