import UniLLM.Lib.Transition
import Mathlib.Data.List.Induction

/-!
# Runs with answers

A server takes one request after the other: `serve s a` is the state after the request `a` and
what it is answered, or `none` when `a` is not possible in `s`.  The log of a run has every
request with its answer, and says more than the state: what was answered stays said.
-/

namespace Transition

variable {σ α ο : Type*}

/-- The steps without the answers. -/
def stepOf (serve : σ → α → Option (σ × ο)) (s : σ) (a : α) : Option σ := (serve s a).map Prod.fst

/-- The requests of a run with their answers. -/
def log (serve : σ → α → Option (σ × ο)) : σ → List α → List (α × ο)
  | _, [] => []
  | s, a :: as =>
    match serve s a with
    | none => []
    | some (s', o) => (a, o) :: log serve s' as

variable {serve : σ → α → Option (σ × ο)} {s t : σ} {a : α} {as : List α}

theorem stepOf_eq_some : stepOf serve s a = some t ↔ ∃ o, serve s a = some (t, o) := by
  simp [stepOf, Option.map_eq_some_iff]

theorem log_cons {o : ο} (h : serve s a = some (t, o)) :
    log serve s (a :: as) = (a, o) :: log serve t as := by
  rw [log, h]

/-- The log of a run that is one step longer. -/
theorem log_concat {s₁ : σ} {o : ο} (hexec : exec (stepOf serve) s as = some s₁)
    (h : serve s₁ a = some (t, o)) : log serve s (as ++ [a]) = log serve s as ++ [(a, o)] := by
  induction as generalizing s with
  | nil =>
    obtain rfl := Option.some.inj hexec
    exact log_cons h
  | cons b as ih =>
    obtain ⟨s₂, hs₂, hrest⟩ := exec_cons_eq_some.mp hexec
    obtain ⟨o₂, hserve⟩ := stepOf_eq_some.mp hs₂
    rw [List.cons_append, log_cons hserve, log_cons hserve, ih hrest, List.cons_append]

/-- **The induction rule**, for what a state has to do with the run that leads to it. -/
theorem exec_run_invariant (inv : List α → σ → Prop)
    (hstep : ∀ as s₁ a s₂ o, exec (stepOf serve) s as = some s₁ → inv as s₁ →
      serve s₁ a = some (s₂, o) → inv (as ++ [a]) s₂)
    (h₀ : inv [] s) (hexec : exec (stepOf serve) s as = some t) : inv as t := by
  induction as using List.reverseRecOn generalizing t with
  | nil =>
    obtain rfl := Option.some.inj hexec
    exact h₀
  | append_singleton as a ih =>
    obtain ⟨s₁, hs₁, hlast⟩ := exec_concat_eq_some.mp hexec
    obtain ⟨o, hserve⟩ := stepOf_eq_some.mp hlast
    exact hstep as s₁ a t o hs₁ (ih hs₁) hserve

/-- The rule for what a state has to do with the log: a step puts its answer at the end. -/
theorem exec_log_invariant {inv : σ → List (α × ο) → Prop}
    (hstep : ∀ s l a s' o, inv s l → serve s a = some (s', o) → inv s' (l ++ [(a, o)]))
    (h₀ : inv s []) (hexec : exec (stepOf serve) s as = some t) : inv t (log serve s as) := by
  refine exec_run_invariant (fun as t => inv t (log serve s as)) ?_ h₀ hexec
  intro as s₁ a s₂ o hs₁ ih hserve
  rw [log_concat hs₁ hserve]
  exact hstep s₁ _ a s₂ o ih hserve

/-- An entry of the log belongs to a request of the run: what was before it, the state it was
served in, and what came after it. -/
theorem split_log {o : ο} {before after : List (α × ο)}
    (hexec : exec (stepOf serve) s as = some t) (h : log serve s as = before ++ (a, o) :: after) :
    ∃ pre post s₁ s₂, as = pre ++ a :: post ∧ exec (stepOf serve) s pre = some s₁ ∧
      serve s₁ a = some (s₂, o) ∧ exec (stepOf serve) s₂ post = some t ∧
      log serve s pre = before ∧ log serve s₂ post = after := by
  induction as generalizing s before with
  | nil => simp [log] at h
  | cons b as ih =>
    obtain ⟨s', hs', hrest⟩ := exec_cons_eq_some.mp hexec
    obtain ⟨o', hserve⟩ := stepOf_eq_some.mp hs'
    rw [log_cons hserve] at h
    cases before with
    | nil =>
      simp only [List.nil_append, List.cons.injEq, Prod.mk.injEq] at h
      obtain ⟨⟨rfl, rfl⟩, hafter⟩ := h
      exact ⟨[], as, s, s', rfl, rfl, hserve, hrest, rfl, hafter⟩
    | cons e before =>
      simp only [List.cons_append, List.cons.injEq] at h
      obtain ⟨rfl, h⟩ := h
      obtain ⟨pre, post, s₁, s₂, rfl, hpre, hs₂, hpost, hbefore, hafter⟩ := ih hrest h
      refine ⟨b :: pre, post, s₁, s₂, rfl, ?_, hs₂, hpost, ?_, hafter⟩
      · exact exec_cons_eq_some.mpr ⟨s', hs', hpre⟩
      · rw [log_cons hserve, hbefore]

/-- A request of a run is in the log, between what was before it and what came after it. -/
theorem log_split {pre post : List α} {s₁ s₂ : σ} {o : ο}
    (hpre : exec (stepOf serve) s pre = some s₁) (h : serve s₁ a = some (s₂, o)) :
    log serve s (pre ++ a :: post) = log serve s pre ++ (a, o) :: log serve s₂ post := by
  induction pre generalizing s with
  | nil =>
    obtain rfl := Option.some.inj hpre
    exact log_cons h
  | cons b pre ih =>
    obtain ⟨s', hs', hrest⟩ := exec_cons_eq_some.mp hpre
    obtain ⟨o', hserve⟩ := stepOf_eq_some.mp hs'
    rw [List.cons_append, log_cons hserve, log_cons hserve, ih hrest, List.cons_append]

end Transition
