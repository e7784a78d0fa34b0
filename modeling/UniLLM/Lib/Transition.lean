import Mathlib.Data.List.Basic
import Mathlib.Data.List.Forall2

/-!
# Runs of a partial step function

A system is a step function `step : σ → α → Option σ`: `step s a` is the state
after the action `a`, or `none` when `a` is not enabled in `s`.  Whatever the
environment decides (which process moves, what a call answers) is part of the
action, so a run is a list of actions and `exec` computes where it ends.

Every prefix of a run is a run, so a statement about the end of every run is a
statement about every state that is reached.  `Along` restricts the runs to
those whose steps all meet a condition on the state they start from, and
`exec_invariant` is the induction rule for both.
-/

namespace Transition

variable {σ α : Type*}

/-- The state at the end of a run, if every action is enabled in turn. -/
def exec (step : σ → α → Option σ) : σ → List α → Option σ
  | s, [] => some s
  | s, a :: as => (step s a).bind fun s' => exec step s' as

/-- Every step of the run meets `good` in the state it is taken from. -/
def Along (step : σ → α → Option σ) (good : σ → α → Prop) : σ → List α → Prop
  | _, [] => True
  | s, a :: as => good s a ∧ ∀ s', step s a = some s' → Along step good s' as

/-- `s` is reached from `s₀` by some run. -/
def Reachable (step : σ → α → Option σ) (s₀ s : σ) : Prop :=
  ∃ as, exec step s₀ as = some s

variable {step : σ → α → Option σ} {good : σ → α → Prop}

@[simp] theorem exec_nil (s : σ) : exec step s [] = some s := rfl

theorem exec_cons (s : σ) (a : α) (as : List α) :
    exec step s (a :: as) = (step s a).bind fun s' => exec step s' as := rfl

theorem exec_cons_eq_some {s t : σ} {a : α} {as : List α} :
    exec step s (a :: as) = some t ↔ ∃ s', step s a = some s' ∧ exec step s' as = some t := by
  rw [exec_cons, Option.bind_eq_some_iff]

/-- A run of two parts passes through the end of the first. -/
theorem exec_append (s : σ) (as bs : List α) :
    exec step s (as ++ bs) = (exec step s as).bind fun s' => exec step s' bs := by
  induction as generalizing s with
  | nil => rfl
  | cons a as ih =>
    rw [List.cons_append, exec_cons, exec_cons]
    cases step s a with
    | none => rfl
    | some s' => exact ih s'

/-- A run that ends with a given action. -/
theorem exec_concat_eq_some {s t : σ} {as : List α} {a : α} :
    exec step s (as ++ [a]) = some t ↔ ∃ s', exec step s as = some s' ∧ step s' a = some t := by
  rw [exec_append, Option.bind_eq_some_iff]
  simp [exec_cons]

/-- **The induction rule.**  What a step that meets `good` preserves holds at the
end of every run whose steps all meet `good`. -/
theorem exec_invariant {inv : σ → Prop}
    (hstep : ∀ s a s', inv s → good s a → step s a = some s' → inv s')
    {s t : σ} {as : List α} (h₀ : inv s) (hgood : Along step good s as)
    (hexec : exec step s as = some t) : inv t := by
  -- the start is generalised: the invariant holds wherever the rest of the run begins
  induction as generalizing s with
  | nil =>
    rw [exec_nil] at hexec
    exact Option.some.inj hexec ▸ h₀
  | cons a as ih =>
    obtain ⟨s', hs, hrest⟩ := exec_cons_eq_some.mp hexec
    exact ih (hstep s a s' h₀ hgood.1 hs) (hgood.2 s' hs) hrest

/-- The steps of a run that is one step longer. -/
theorem along_concat {s t : σ} {as : List α} {a : α} (hgood : Along step good s (as ++ [a]))
    (hexec : exec step s as = some t) : Along step good s as ∧ good t a := by
  induction as generalizing s with
  | nil =>
    obtain rfl := Option.some.inj hexec
    exact ⟨trivial, hgood.1⟩
  | cons b as ih =>
    obtain ⟨s₁, hs₁, hrest⟩ := exec_cons_eq_some.mp hexec
    have hlast := ih (hgood.2 s₁ hs₁) hrest
    refine ⟨⟨hgood.1, fun s₂ hs₂ => ?_⟩, hlast.2⟩
    obtain rfl := Option.some.inj (hs₁.symm.trans hs₂)
    exact hlast.1

/-- **The rule for an exact condition.**  If a step keeps the invariant exactly when it
meets `good`, then the invariant holds all along a run exactly when every step does. -/
theorem forall_prefix_iff_along {inv : σ → Prop}
    (hstep : ∀ s a s', inv s → step s a = some s' → (inv s' ↔ good s a))
    {s t : σ} {as : List α} (h₀ : inv s) (hexec : exec step s as = some t) :
    (∀ pre s', pre <+: as → exec step s pre = some s' → inv s') ↔ Along step good s as := by
  induction as generalizing s with
  | nil =>
    refine ⟨fun _ => trivial, fun _ pre s' hpre hs' => ?_⟩
    obtain rfl := List.prefix_nil.mp hpre
    exact Option.some.inj hs' ▸ h₀
  | cons a as ih =>
    obtain ⟨s₁, hs₁, hrest⟩ := exec_cons_eq_some.mp hexec
    constructor
    · intro h
      have hinv : inv s₁ := h [a] s₁ ⟨as, rfl⟩ (exec_cons_eq_some.mpr ⟨s₁, hs₁, rfl⟩)
      refine ⟨(hstep s a s₁ h₀ hs₁).mp hinv, fun s₂ hs₂ => ?_⟩
      obtain rfl := Option.some.inj (hs₁.symm.trans hs₂)
      refine (ih hinv hrest).mp fun pre s' hpre hs' => ?_
      exact h (a :: pre) s' (List.cons_prefix_cons.mpr ⟨rfl, hpre⟩)
        (exec_cons_eq_some.mpr ⟨s₁, hs₁, hs'⟩)
    · intro h pre s' hpre hs'
      have hinv : inv s₁ := (hstep s a s₁ h₀ hs₁).mpr h.1
      cases pre with
      | nil => exact Option.some.inj hs' ▸ h₀
      | cons b pre =>
        obtain ⟨rfl, hpre'⟩ := List.cons_prefix_cons.mp hpre
        obtain ⟨s₂, hs₂, hs'⟩ := exec_cons_eq_some.mp hs'
        obtain rfl := Option.some.inj (hs₁.symm.trans hs₂)
        exact (ih hinv hrest).mpr (h.2 s₁ hs₁) pre s' hpre' hs'

/-- Of a run at hand one can see whether its steps meet a decidable condition. -/
instance decidableAlong [∀ s a, Decidable (good s a)] : ∀ s as, Decidable (Along step good s as)
  | _, [] => isTrue trivial
  | s, a :: as =>
    match h : step s a with
    | none => decidable_of_iff (good s a) (by simp [Along, h])
    | some s' =>
      have := decidableAlong s' as
      decidable_of_iff (good s a ∧ Along step good s' as) (by simp [Along, h])

/-- A condition every step meets restricts nothing. -/
theorem along_of_forall (h : ∀ s a, good s a) (s : σ) (as : List α) : Along step good s as := by
  induction as generalizing s with
  | nil => trivial
  | cons a as ih => exact ⟨h s a, fun s' _ => ih s'⟩

/-- The unconditional form of the rule. -/
theorem Reachable.invariant {motive : σ → Prop}
    (hstep : ∀ s a s', motive s → step s a = some s' → motive s')
    {s₀ s : σ} (h₀ : motive s₀) (h : Reachable step s₀ s) : motive s := by
  obtain ⟨as, has⟩ := h
  have hall : Along step (fun _ _ => True) s₀ as := along_of_forall (fun _ _ => trivial) s₀ as
  exact exec_invariant (fun s a s' hs _ hstep' => hstep s a s' hs hstep') h₀ hall has

/-! ### Processes in a list -/

/-- A list of processes around one of them, and what a step of that one changes. -/
theorem split_at {β : Type*} {l : List β} {j : Nat} {b : β} (h : l[j]? = some b) :
    ∃ pre post, l = pre ++ ([b] ++ post) ∧ ∀ b', l.set j b' = pre ++ ([b'] ++ post) := by
  obtain ⟨hlt, rfl⟩ := List.getElem?_eq_some_iff.mp h
  exact ⟨l.take j, l.drop (j + 1), by simp,
    fun b' => by simp [List.set_eq_take_append_cons_drop, hlt]⟩

/-- Two lists of processes side by side, around one place of both. -/
theorem split_beside {β γ : Type*} {R : β → γ → Prop} {l : List β} {l' : List γ}
    (h : List.Forall₂ R l l') {j : Nat} {b : β} (hb : l[j]? = some b) :
    ∃ pre post pre' c post', l = pre ++ ([b] ++ post) ∧
      (∀ b', l.set j b' = pre ++ ([b'] ++ post)) ∧ l' = pre' ++ ([c] ++ post') ∧
      (∀ f, l'.modify j f = pre' ++ ([f c] ++ post')) ∧ R b c ∧
      ∀ b' c', R b' c' → List.Forall₂ R (pre ++ ([b'] ++ post)) (pre' ++ ([c'] ++ post')) := by
  induction h generalizing j with
  | nil => cases hb
  | @cons b₀ c₀ l l' h₀ h ih =>
    cases j with
    | zero =>
      obtain rfl := Option.some.inj hb
      exact ⟨[], l, [], c₀, l', rfl, fun _ => rfl, rfl, fun _ => rfl, h₀, fun _ _ hR => .cons hR h⟩
    | succ j =>
      obtain ⟨pre, post, pre', c, post', hl, hset, hl', hmodify, hR, hall⟩ := ih hb
      refine ⟨b₀ :: pre, post, c₀ :: pre', c, post', by rw [hl]; rfl, fun b' => ?_, by rw [hl']; rfl,
        fun f => ?_, hR, fun b' c' hR' => .cons h₀ (hall b' c' hR')⟩
      · rw [List.set_cons_succ, hset]
        rfl
      · rw [List.modify_succ_cons, hmodify]
        rfl

/-! ### Histories -/

/-- An entry of a history that has grown by one is the new one or was there before. -/
theorem split_concat {β : Type*} {l pre post : List β} {x o : β} (h : l ++ [x] = pre ++ o :: post) :
    (post = [] ∧ pre = l ∧ o = x) ∨ ∃ post', post = post' ++ [x] ∧ l = pre ++ o :: post' := by
  rcases List.eq_nil_or_concat post with rfl | ⟨post', y, rfl⟩
  · obtain ⟨rfl, hx⟩ := List.append_inj' h rfl
    exact Or.inl ⟨rfl, rfl, (List.singleton_inj.mp hx).symm⟩
  · rw [List.concat_eq_append] at h ⊢
    rw [← List.cons_append, ← List.append_assoc] at h
    obtain ⟨rfl, hx⟩ := List.append_inj' h rfl
    exact Or.inr ⟨post', by rw [List.singleton_inj.mp hx], rfl⟩

end Transition
