import Mathlib.Data.List.Rotate

/-!
# Ring buffers

A buffer of bounded capacity appends until it is full, and then writes over its elements in
turn, at an index that counts all writes.  It holds the last elements written, and its oldest
is where the next write goes.
-/

namespace RingBuffer

variable {α : Type*} {cap idx : Nat} {items log : List α}

/-- Writes an element, when `idx` have been written before. -/
def push (cap : Nat) (items : List α) (idx : Nat) (x : α) : List α :=
  if items.length < cap then items ++ [x] else items.set (idx % cap) x

/-- The buffer after the writes of a log: from the oldest on, it has the last of them. -/
structure Holds (cap : Nat) (items : List α) (idx : Nat) (log : List α) : Prop where
  count : idx = log.length
  recent : items.rotate (idx % cap) = log.drop (log.length - cap)

theorem holds_nil (cap : Nat) : Holds cap ([] : List α) 0 [] := ⟨rfl, by simp⟩

theorem Holds.length (h : Holds cap items idx log) : items.length = min log.length cap := by
  have hlength := congrArg List.length h.recent
  rw [List.length_rotate, List.length_drop] at hlength
  omega

/-- The elements are the last ones, in some order. -/
theorem Holds.perm (h : Holds cap items idx log) : items.Perm (log.drop (log.length - cap)) := by
  rw [← h.recent]
  exact (List.rotate_perm items _).symm

/-- In a full buffer the oldest element is at the index. -/
theorem Holds.oldest (h : Holds cap items idx log) (hcap : 0 < cap) (hfull : cap ≤ log.length) :
    items[idx % cap]? = log[log.length - cap]? := by
  have hlength : items.length = cap := by rw [h.length, min_eq_right hfull]
  have hlt : idx % cap < items.length := by
    rw [hlength]
    exact Nat.mod_lt _ hcap
  have hhead := congrArg (·[0]?) h.recent
  simp only [List.getElem?_drop, Nat.add_zero] at hhead
  rw [← hhead, List.getElem?_rotate (by omega), Nat.zero_add, Nat.mod_eq_of_lt hlt]

/-- Appending, as long as there is room. -/
theorem Holds.append (h : Holds cap items idx log) (hroom : items.length < cap) (x : α) :
    Holds cap (items ++ [x]) (idx + 1) (log ++ [x]) := by
  have hlog : log.length < cap := by
    have hlength := h.length
    omega
  have hitems : items = log := by
    have hrecent := h.recent
    rw [h.count, Nat.mod_eq_of_lt hlog, Nat.sub_eq_zero_of_le hlog.le, List.drop_zero] at hrecent
    have hlength : log.length = items.length := by
      rw [h.length, min_eq_left hlog.le]
    rwa [hlength, List.rotate_length] at hrecent
  refine ⟨by rw [h.count, List.length_append, List.length_singleton], ?_⟩
  have hzero : (log ++ [x]).length - cap = 0 := by
    rw [List.length_append, List.length_singleton]
    omega
  rw [hitems, hzero, List.drop_zero, h.count]
  have hle : log.length + 1 ≤ cap := hlog
  rcases Nat.lt_or_eq_of_le hle with hlt | heq
  · have hlength : log.length + 1 = (log ++ [x]).length := by simp
    rw [Nat.mod_eq_of_lt hlt, hlength, List.rotate_length]
  · rw [heq, Nat.mod_self, List.rotate_zero]

/-- Writing over the oldest. -/
theorem Holds.overwrite (h : Holds cap items idx log) (hcap : 0 < cap) (hfull : items.length = cap)
    (x : α) : Holds cap (items.set (idx % cap) x) (idx + 1) (log ++ [x]) := by
  have hlog : cap ≤ log.length := by
    have hlength := h.length
    omega
  have hlt : idx % cap < items.length := by
    rw [hfull]
    exact Nat.mod_lt _ hcap
  -- what is before the index, the oldest element, and what follows it
  obtain ⟨a, y, b, hitems, ha⟩ : ∃ a y b, items = a ++ y :: b ∧ a.length = idx % cap := by
    refine ⟨items.take (idx % cap), items[idx % cap], items.drop (idx % cap + 1), ?_, ?_⟩
    · rw [← List.drop_eq_getElem_cons hlt, List.take_append_drop]
    · rw [List.length_take, min_eq_left hlt.le]
  have hrecent := h.recent
  rw [hitems, ← ha, List.rotate_append_length_eq, List.cons_append] at hrecent
  have hrest : log.drop (log.length - cap + 1) = b ++ a := by
    rw [← List.drop_drop, ← hrecent]
    rfl
  have hset : items.set (idx % cap) x = (a ++ [x]) ++ b := by
    rw [hitems, ← ha]
    simp
  have hlength : ((a ++ [x]) ++ b).length = cap := by
    rw [← hset, List.length_set, hfull]
  refine ⟨by rw [h.count, List.length_append, List.length_singleton], ?_⟩
  have hidx : ((a ++ [x]) ++ b).rotate ((idx + 1) % cap) =
      ((a ++ [x]) ++ b).rotate (a ++ [x]).length := by
    rw [← hlength, List.rotate_mod]
    have hsucc : (a ++ [x]).length = idx % cap + 1 := by simp [ha]
    rw [hsucc, ← List.rotate_mod, ← List.rotate_mod _ (idx % cap + 1), hlength, Nat.mod_add_mod]
  have hdrop : (log ++ [x]).length - cap = log.length - cap + 1 := by
    rw [List.length_append, List.length_singleton]
    omega
  rw [hset, hidx, List.rotate_append_length_eq, hdrop, List.drop_append_of_le_length (by omega),
    hrest, List.append_assoc]

/-- **One write.** -/
theorem Holds.push (h : Holds cap items idx log) (hcap : 0 < cap) (x : α) :
    Holds cap (push cap items idx x) (idx + 1) (log ++ [x]) := by
  unfold RingBuffer.push
  split
  · rename_i hroom
    exact h.append hroom x
  · rename_i hfull
    have hlength := h.length
    exact h.overwrite hcap (by omega) x

end RingBuffer
