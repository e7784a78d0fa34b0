/-!
# Loops over a list whose body may return

The body changes the variables and either returns a value, which ends the loop, or goes on.
What holds before the body of each position, when none before has returned, holds where the
loop ends: before the position whose body returns, or after the last.
-/

namespace ForLoop

variable {α σ ρ : Type}

/-- `for` each of the list.  The result is none if no body returns. -/
def forEach (body : α → σ → Option ρ × σ) : List α → σ → Option ρ × σ
  | [], s => (none, s)
  | a :: as, s =>
    match body a s with
    | (some r, s) => (some r, s)
    | (none, s) => forEach body as s

theorem forEach_cons_return {body : α → σ → Option ρ × σ} {a : α} {as : List α} {s s' : σ} {r : ρ}
    (h : body a s = (some r, s')) : forEach body (a :: as) s = (some r, s') := by
  rw [forEach, h]

theorem forEach_cons_goOn {body : α → σ → Option ρ × σ} {a : α} {as : List α} {s s' : σ}
    (h : body a s = (none, s')) : forEach body (a :: as) s = forEach body as s' := by
  rw [forEach, h]

/-- How a loop ends: the body of some position returns, before which the invariant held, or
no body returns and it holds at the end. -/
theorem forEach_cases (body : α → σ → Option ρ × σ) (as : List α) (inv : Nat → σ → Prop) {s : σ}
    (hstart : inv 0 s)
    (hstep : ∀ i a t t', as[i]? = some a → inv i t → body a t = (none, t') → inv (i + 1) t') :
    (∃ i a t r t', as[i]? = some a ∧ inv i t ∧ body a t = (some r, t') ∧
        forEach body as s = (some r, t')) ∨
      ∃ t, inv as.length t ∧ forEach body as s = (none, t) := by
  induction as generalizing s inv with
  | nil => exact Or.inr ⟨s, hstart, rfl⟩
  | cons a as ih =>
    cases hbody : body a s with
    | mk answer s' =>
      cases answer with
      | some r =>
        exact Or.inl ⟨0, a, s, r, s', rfl, hstart, hbody, forEach_cons_return hbody⟩
      | none =>
        -- the rest of the list, one position further on
        have hone : inv 1 s' := hstep 0 a s s' rfl hstart hbody
        have hrest := ih (fun i => inv (i + 1)) hone fun i b t t' hb => hstep (i + 1) b t t' hb
        rw [forEach_cons_goOn hbody]
        rcases hrest with ⟨i, b, t, r, t', hb, hinv, hreturn, hloop⟩ | ⟨t, hinv, hloop⟩
        · exact Or.inl ⟨i + 1, b, t, r, t', hb, hinv, hreturn, hloop⟩
        · exact Or.inr ⟨t, hinv, hloop⟩

theorem getElem?_range_eq_some {n i a : Nat} (h : (List.range n)[i]? = some a) : i < n ∧ a = i := by
  obtain ⟨hi, ha⟩ := List.getElem?_eq_some_iff.mp h
  rw [List.length_range] at hi
  rw [List.getElem_range] at ha
  exact ⟨hi, ha.symm⟩

/-- A loop that counts. -/
theorem forEach_range_cases (body : Nat → σ → Option ρ × σ) (n : Nat) (inv : Nat → σ → Prop) {s : σ}
    (hstart : inv 0 s) (hstep : ∀ i < n, ∀ t t', inv i t → body i t = (none, t') → inv (i + 1) t') :
    (∃ i < n, ∃ t r t', inv i t ∧ body i t = (some r, t') ∧
        forEach body (List.range n) s = (some r, t')) ∨
      ∃ t, inv n t ∧ forEach body (List.range n) s = (none, t) := by
  have hloop := forEach_cases body (List.range n) inv hstart (by
    intro i a t t' ha hinv hbody
    obtain ⟨hi, rfl⟩ := getElem?_range_eq_some ha
    exact hstep a hi t t' hinv hbody)
  rw [List.length_range] at hloop
  rcases hloop with ⟨i, a, t, r, t', ha, hinv, hreturn, hloop⟩ | hend
  · obtain ⟨hi, rfl⟩ := getElem?_range_eq_some ha
    exact Or.inl ⟨a, hi, t, r, t', hinv, hreturn, hloop⟩
  · exact Or.inr hend

/-- A loop that knows its position. -/
theorem forEach_zipIdx_cases (body : α × Nat → σ → Option ρ × σ) (as : List α)
    (inv : Nat → σ → Prop) {s : σ} (hstart : inv 0 s)
    (hstep : ∀ i a t t', as[i]? = some a → inv i t → body (a, i) t = (none, t') → inv (i + 1) t') :
    (∃ i a t r t', as[i]? = some a ∧ inv i t ∧ body (a, i) t = (some r, t') ∧
        forEach body as.zipIdx s = (some r, t')) ∨
      ∃ t, inv as.length t ∧ forEach body as.zipIdx s = (none, t) := by
  have hget : ∀ {i : Nat} {b : α × Nat}, as.zipIdx[i]? = some b →
      as[i]? = some b.1 ∧ b = (b.1, i) := by
    intro i b h
    rw [List.getElem?_zipIdx, Option.map_eq_some_iff] at h
    obtain ⟨a, ha, rfl⟩ := h
    exact ⟨ha, by rw [Nat.zero_add]⟩
  have hloop := forEach_cases body as.zipIdx inv hstart (by
    intro i b t t' hb hinv hbody
    obtain ⟨ha, hpair⟩ := hget hb
    rw [hpair] at hbody
    exact hstep i b.1 t t' ha hinv hbody)
  rw [List.length_zipIdx] at hloop
  rcases hloop with ⟨i, b, t, r, t', hb, hinv, hreturn, hloop⟩ | hend
  · obtain ⟨ha, hpair⟩ := hget hb
    rw [hpair] at hreturn
    exact Or.inl ⟨i, b.1, t, r, t', ha, hinv, hreturn, hloop⟩
  · exact Or.inr hend

end ForLoop
