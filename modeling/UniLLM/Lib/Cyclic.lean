import Mathlib.Order.Interval.Finset.Nat

/-!
# Taking turns

`n` positions are taken in turn, over and over.  A window is any stretch of the
sequence, wherever it begins.  A window of `n` uses every position once, so in a window
of any length two positions are used equally often, up to one.
-/

namespace Cyclic

/-- The next `w` positions after `a` turns. -/
def window (n a w : Nat) : List Nat := (List.range' a w).map (· % n)

variable {n a v w p q : Nat} {l : List Nat}

theorem window_append : window n a v ++ window n (a + v) w = window n a (v + w) := by
  have hsplit : List.range' a v ++ List.range' (a + v) w = List.range' a (v + w) := by
    simp
  rw [window, window, window, ← List.map_append, hsplit]

/-- A full cycle is every position once. -/
theorem window_cycle (n a : Nat) : (window n a n : Multiset Nat) = Multiset.range n := by
  have hIco : (List.range' a n : Multiset Nat) = Multiset.Ico a (a + n) := by
    have hval := congrArg Finset.val (Nat.Ico_eq_range' a (a + n))
    rw [Nat.add_sub_cancel_left] at hval
    exact hval.symm
  rw [← Nat.multiset_Ico_map_mod a n, ← hIco]
  rfl

theorem count_cycle (hp : p < n) (a : Nat) : (window n a n).count p = 1 := by
  rw [← Multiset.coe_count, window_cycle]
  exact Multiset.count_eq_one_of_mem (Multiset.nodup_range n) (Multiset.mem_range.mpr hp)

theorem count_le_one (hp : p < n) (h : w ≤ n) : (window n a w).count p ≤ 1 := by
  have hsplit : window n a w ++ window n (a + w) (n - w) = window n a n := by
    rw [window_append, Nat.add_sub_cancel' h]
  have hcount := count_cycle hp a
  rw [← hsplit, List.count_append] at hcount
  omega

/-- **Everyone gets their turn**: in a window two positions are used equally often, up to
one. -/
theorem count_le (hp : p < n) (hq : q < n) :
    (window n a w).count p ≤ (window n a w).count q + 1 := by
  induction w using Nat.strong_induction_on generalizing a with
  | _ w ih =>
    by_cases hw : w ≤ n
    · exact Nat.le_add_left_of_le (count_le_one hp hw)
    · -- the first cycle counts one for both
      have hsplit : window n a n ++ window n (a + n) (w - n) = window n a w := by
        rw [window_append, Nat.add_sub_cancel' (Nat.le_of_not_le hw)]
      rw [← hsplit, List.count_append, List.count_append, count_cycle hp, count_cycle hq]
      have hrest := ih (w - n) (by omega) (a := a + n)
      omega

/-- A stretch of a window is a window. -/
theorem eq_window_of_infix (h : l <:+: window n a w) : ∃ b v, l = window n b v := by
  obtain ⟨front, back, heq⟩ := h
  rw [window] at heq
  obtain ⟨most, _, hrange, hmost, -⟩ := List.append_eq_map_iff.mp heq
  obtain ⟨k, -, rfl, -⟩ := List.range'_eq_append_iff.mp hrange
  obtain ⟨_, mid, hrange, -, rfl⟩ := List.append_eq_map_iff.mp hmost.symm
  obtain ⟨j, -, -, rfl⟩ := List.range'_eq_append_iff.mp hrange
  exact ⟨_, _, by rw [window, Nat.mul_one]⟩

end Cyclic
