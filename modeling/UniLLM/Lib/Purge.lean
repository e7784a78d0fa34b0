import UniLLM.Lib.Answers

/-!
# Taking requests out of a run

Some requests of a run are kept and the others are left out; which, may depend on the state a
request is served in.  The kept ones are served again by a second system, which is told with each
of them what it is to know of that state.  If a kept request is then answered alike in related
states and keeps them related, and the others do not matter to the relation, then the run of the
kept requests alone is possible and is answered as in the whole run: but for what it is told,
nobody can tell whether the others were there.
-/

namespace Transition

variable {σ τ α β ο : Type*}

/-- The requests of a run that are kept, as they are told, with their answers in the whole run. -/
def kept (serve : σ → α → Option (σ × ο)) (keep : σ → α → Bool) (tell : σ → α → β) :
    σ → List α → List (β × ο)
  | _, [] => []
  | s, a :: as =>
    match serve s a with
    | none => []
    | some (s', o) =>
      if keep s a then (tell s a, o) :: kept serve keep tell s' as else kept serve keep tell s' as

/-- The left state is that of the whole run, the right one that of the kept requests. -/
structure Unwinding (serve : σ → α → Option (σ × ο)) (keep : σ → α → Bool) (tell : σ → α → β)
    (serve' : τ → β → Option (τ × ο)) (R : σ → τ → Prop) : Prop where
  keeps : ∀ s t a s' o, R s t → keep s a = true → serve s a = some (s', o) →
    ∃ t', serve' t (tell s a) = some (t', o) ∧ R s' t'
  drops : ∀ s t a s' o, R s t → keep s a = false → serve s a = some (s', o) → R s' t

variable {serve : σ → α → Option (σ × ο)} {keep : σ → α → Bool} {tell : σ → α → β}
  {serve' : τ → β → Option (τ × ο)} {R : σ → τ → Prop} {s s' : σ} {t : τ} {a : α} {as : List α}

theorem kept_cons {o : ο} (h : serve s a = some (s', o)) :
    kept serve keep tell s (a :: as) =
      if keep s a then (tell s a, o) :: kept serve keep tell s' as
      else kept serve keep tell s' as := by
  rw [kept, h]

/-- **Nobody can tell.**  The kept requests alone are a run with the answers they had. -/
theorem Unwinding.exec_kept (h : Unwinding serve keep tell serve' R) (hR : R s t)
    (hexec : exec (stepOf serve) s as = some s') :
    ∃ t', exec (stepOf serve') t ((kept serve keep tell s as).map Prod.fst) = some t' ∧
      log serve' t ((kept serve keep tell s as).map Prod.fst) = kept serve keep tell s as ∧
      R s' t' := by
  induction as generalizing s t with
  | nil =>
    obtain rfl := Option.some.inj hexec
    exact ⟨t, rfl, rfl, hR⟩
  | cons a as ih =>
    obtain ⟨s₁, hs₁, hrest⟩ := exec_cons_eq_some.mp hexec
    obtain ⟨o, hserve⟩ := stepOf_eq_some.mp hs₁
    rw [kept_cons hserve]
    cases hkeep : keep s a with
    | true =>
      obtain ⟨t₁, ht₁, hR₁⟩ := h.keeps s t a s₁ o hR hkeep hserve
      obtain ⟨t', hrun, hlog, hR'⟩ := ih hR₁ hrest
      refine ⟨t', exec_cons_eq_some.mpr ⟨t₁, stepOf_eq_some.mpr ⟨o, ht₁⟩, hrun⟩, ?_, hR'⟩
      rw [if_pos rfl, List.map_cons, log_cons ht₁, hlog]
    | false => exact ih (h.drops s t a s₁ o hR hkeep hserve) hrest

end Transition
