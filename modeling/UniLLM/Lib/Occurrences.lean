import Mathlib.Data.List.Basic

/-!
# Lists that occur in a list, one after the other

`OccurInOrder ts s`: each of the lists `ts` occurs in `s`, in this order and without
overlap, with anything before, between and after them.
-/

variable {α : Type*}

def OccurInOrder : List (List α) → List α → Prop
  | [], _ => True
  | t :: ts, s => ∃ before rest, s = before ++ (t ++ rest) ∧ OccurInOrder ts rest

variable {ts us : List (List α)} {s : List α}

/-- The lists occur where they are joined. -/
theorem occurInOrder_flatten (ts : List (List α)) : OccurInOrder ts ts.flatten := by
  induction ts with
  | nil => trivial
  | cons t ts ih => exact ⟨[], ts.flatten, rfl, ih⟩

/-- Empty lists occur anywhere. -/
theorem OccurInOrder.nils_append (hts : ∀ t ∈ ts, t = []) (h : OccurInOrder us s) :
    OccurInOrder (ts ++ us) s := by
  induction ts with
  | nil => exact h
  | cons t ts ih =>
    obtain rfl := hts _ List.mem_cons_self
    exact ⟨[], s, rfl, ih fun t ht => hts t (List.mem_cons_of_mem _ ht)⟩

/-- There is room for what occurs without overlap. -/
theorem OccurInOrder.length_le (h : OccurInOrder ts s) : ts.flatten.length ≤ s.length := by
  induction ts generalizing s with
  | nil => exact Nat.zero_le _
  | cons t ts ih =>
    obtain ⟨before, rest, rfl, hrest⟩ := h
    have := ih hrest
    simp only [List.flatten_cons, List.length_append]
    omega

/-- What occurs together with all of a list is empty. -/
theorem OccurInOrder.eq_nil_of_append (h : OccurInOrder (ts ++ us) us.flatten) :
    ∀ t ∈ ts, t = [] := by
  have hle := h.length_le
  rw [List.flatten_append, List.length_append] at hle
  have hnil : ts.flatten = [] := List.eq_nil_of_length_eq_zero (by omega)
  exact List.flatten_eq_nil_iff.mp hnil
