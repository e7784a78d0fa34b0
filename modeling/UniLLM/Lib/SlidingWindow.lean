import Mathlib.Algebra.Order.Group.Defs
import Mathlib.Algebra.Order.Group.Int
import Mathlib.Data.List.Basic
import Mathlib.Data.List.Induction
import Mathlib.Order.Defs.LinearOrder

/-!
# Sliding windows

A limiter answers calls one after the other; a call has a key and a time.  Its log is
what was called and answered, oldest first.  A log is exact for a limit and a window
if each call was admitted exactly when fewer than `limit` admitted calls of its key
lie in the window before it, `(time - window, time]`.

What an exact log says follows from that alone, whatever the limiter keeps: the calls
determine the answers, an interval as long as the window has at most `limit`
admitted calls of a key, and the calls that were refused, or belong to other keys, can
be left out.
-/

namespace SlidingWindow

/-- A call and its answer. -/
structure Call (κ τ : Type*) where
  key : κ
  time : τ
  admitted : Bool

variable {κ τ : Type*}

/-- The times do not decrease. -/
def Ordered [LE τ] (log : List (Call κ τ)) : Prop := (log.map Call.time).Pairwise (· ≤ ·)

theorem Ordered.of_concat [Preorder τ] {log : List (Call κ τ)} {c : Call κ τ}
    (h : Ordered (log ++ [c])) : Ordered log ∧ ∀ d ∈ log, d.time ≤ c.time := by
  rw [Ordered, List.map_append, List.pairwise_append] at h
  refine ⟨h.1, ?_⟩
  intro d hd
  exact h.2.2 d.time (List.mem_map_of_mem hd) c.time (List.mem_singleton_self _)

variable [DecidableEq κ]

/-- The times of the admitted calls of a key. -/
def admissions (key : κ) (log : List (Call κ τ)) : List τ :=
  (log.filter fun c => c.admitted && decide (c.key = key)).map Call.time

theorem admissions_append (key : κ) (log log' : List (Call κ τ)) :
    admissions key (log ++ log') = admissions key log ++ admissions key log' := by
  simp [admissions]

theorem admissions_singleton (key : κ) (c : Call κ τ) :
    admissions key [c] = if c.admitted && decide (c.key = key) then [c.time] else [] := by
  cases h : c.admitted && decide (c.key = key) <;> simp [admissions, h]

theorem mem_admissions {log : List (Call κ τ)} {key : κ} {t : τ} :
    t ∈ admissions key log ↔ ∃ c ∈ log, c.admitted = true ∧ c.key = key ∧ c.time = t := by
  simp [admissions, and_assoc]

variable [AddCommGroup τ] [LinearOrder τ]

/-- Of these times, the ones in the window before `now`.  No call is later than
`now`, so the lower end decides. -/
def recent (window : τ) (key : κ) (now : τ) (log : List (Call κ τ)) : List τ :=
  (admissions key log).filter fun t => now - window < t

/-- A limiter that is sure of its past answers like this. -/
def admits (limit : Int) (window : τ) (log : List (Call κ τ)) (key : κ) (now : τ) : Bool :=
  ((recent window key now log).length : Int) < limit

/-- Every call was answered by what came before it. -/
def Exact (limit : Int) (window : τ) (log : List (Call κ τ)) : Prop :=
  ∀ pre c post, log = pre ++ c :: post → c.admitted = admits limit window pre c.key c.time

variable {limit : Int} {window : τ} {log log' : List (Call κ τ)}

/-! ### One more call -/

theorem recent_append (key : κ) (now : τ) (log log' : List (Call κ τ)) :
    recent window key now (log ++ log') =
      recent window key now log ++ recent window key now log' := by
  simp [recent, admissions_append]

theorem exact_nil : Exact limit window ([] : List (Call κ τ)) := by
  intro pre c post h
  cases pre <;> cases h

theorem exact_concat {c : Call κ τ} :
    Exact limit window (log ++ [c]) ↔
      Exact limit window log ∧ c.admitted = admits limit window log c.key c.time := by
  constructor
  · intro h
    refine ⟨?_, h log c [] rfl⟩
    intro pre d post hlog
    exact h pre d (post ++ [c]) (by rw [hlog, List.append_assoc, List.cons_append])
  · rintro ⟨hlog, hc⟩ pre d post heq
    rcases List.eq_nil_or_concat post with rfl | ⟨post, e, rfl⟩
    · obtain ⟨rfl, hd⟩ := List.append_inj' heq rfl
      obtain rfl := List.singleton_inj.mp hd
      exact hc
    · rw [List.concat_eq_append, ← List.cons_append, ← List.append_assoc] at heq
      exact hlog pre d post (List.append_inj' heq rfl).1

/-! ### What the answers depend on -/

/-- **The calls determine the answers.** -/
theorem Exact.unique (h : Exact limit window log) (h' : Exact limit window log')
    (hcalls : log.map (fun c => (c.key, c.time)) = log'.map fun c => (c.key, c.time)) :
    log = log' := by
  induction log using List.reverseRecOn generalizing log' with
  | nil => exact (List.map_eq_nil_iff.mp hcalls.symm).symm
  | append_singleton log c ih =>
    rcases List.eq_nil_or_concat log' with rfl | ⟨log', c', rfl⟩
    · simp at hcalls
    · rw [List.concat_eq_append] at h' ⊢
      rw [List.concat_eq_append, List.map_append, List.map_append] at hcalls
      obtain ⟨hcalls, hlast⟩ := List.append_inj' hcalls rfl
      obtain ⟨hlog, hc⟩ := exact_concat.mp h
      obtain ⟨hlog', hc'⟩ := exact_concat.mp h'
      obtain rfl := ih hlog hlog' hcalls
      obtain ⟨key, time, admitted⟩ := c
      obtain ⟨key', time', admitted'⟩ := c'
      obtain ⟨rfl, rfl⟩ := Prod.mk.inj (List.singleton_inj.mp hlast)
      simp only at hc hc'
      rw [hc, hc']

/-- Only the admitted calls of the same key count. -/
theorem admits_filter {p : Call κ τ → Bool} {key : κ}
    (hp : ∀ c, c.admitted = true → c.key = key → p c = true) (now : τ) :
    admits limit window (log.filter p) key now = admits limit window log key now := by
  have hsame : admissions key (log.filter p) = admissions key log := by
    rw [admissions, admissions, List.filter_filter]
    refine congrArg (List.map Call.time) (List.filter_congr ?_)
    intro c _
    cases hc : c.admitted && decide (c.key = key) with
    | false => rfl
    | true =>
      rw [Bool.and_eq_true, decide_eq_true_eq] at hc
      exact hp c hc.1 hc.2
  rw [admits, recent, hsame]
  rfl

/-- A part of the calls that has all admitted calls of its keys was answered as if there
were no others. -/
theorem Exact.filter {p : Call κ τ → Bool} (h : Exact limit window log)
    (hp : ∀ c d, p c = true → d.admitted = true → d.key = c.key → p d = true) :
    Exact limit window (log.filter p) := by
  induction log using List.reverseRecOn with
  | nil => exact exact_nil
  | append_singleton log c ih =>
    obtain ⟨hlog, hc⟩ := exact_concat.mp h
    rw [List.filter_append]
    cases hpc : p c with
    | false => simpa [List.filter_cons, hpc] using ih hlog
    | true =>
      have hone : [c].filter p = [c] := by simp [hpc]
      rw [hone]
      refine exact_concat.mpr ⟨ih hlog, ?_⟩
      rw [hc, admits_filter fun d => hp c d hpc]

/-- The refused calls use no budget. -/
theorem Exact.filter_admitted (h : Exact limit window log) :
    Exact limit window (log.filter Call.admitted) :=
  h.filter fun _ _ _ hd _ => hd

/-- Each key has a budget of its own. -/
theorem Exact.filter_key (h : Exact limit window log) (key : κ) :
    Exact limit window (log.filter fun c => decide (c.key = key)) := by
  refine h.filter ?_
  intro c d hc _ hd
  rw [decide_eq_true_eq] at hc ⊢
  exact hd.trans hc

/-! ### How many are admitted -/

/-- **A stretch of time no longer than the window has at most `limit` admitted calls of a
key.**  `inside` holds of the times of the stretch: no two are a window apart. -/
theorem Exact.length_le (h : Exact limit window log) (hordered : Ordered log) (key : κ)
    {inside : τ → Bool}
    (hinside : ∀ t t', inside t = true → inside t' = true → t' - window < t) :
    ((admissions key log).filter inside).length ≤ limit.toNat := by
  induction log using List.reverseRecOn with
  | nil => exact Nat.zero_le _
  | append_singleton log c ih =>
    obtain ⟨hlog, hc⟩ := exact_concat.mp h
    have hle := ih hlog hordered.of_concat.1
    rw [admissions_append, List.filter_append, admissions_singleton]
    split
    · rename_i hadmitted
      rw [Bool.and_eq_true, decide_eq_true_eq] at hadmitted
      obtain ⟨hyes, rfl⟩ := hadmitted
      cases hin : inside c.time with
      | false => simpa [List.filter_cons, hin] using hle
      | true =>
        -- the last call counted all of the stretch before it
        have hsub : ((admissions c.key log).filter inside).Sublist
            (recent window c.key c.time log) := by
          refine List.monotone_filter_right _ ?_
          intro t ht
          rw [decide_eq_true_eq]
          exact hinside t c.time ht hin
        rw [hyes, admits, eq_comm, decide_eq_true_eq] at hc
        have hlen := hsub.length_le
        simp only [List.filter_cons, hin, if_true, List.filter_nil, List.length_append,
          List.length_singleton]
        omega
    · simpa using hle

/-! ### Forgetting -/

/-- Times that have left the window before `now` can be forgotten: they are in no later
window either. -/
theorem filter_window [IsOrderedAddMonoid τ] {now now' : τ} (h : now ≤ now') (times : List τ) :
    (times.filter fun t => now - window < t).filter (fun t => now' - window < t) =
      times.filter fun t => now' - window < t := by
  rw [List.filter_filter]
  refine List.filter_congr ?_
  intro t _
  rw [Bool.and_eq_left_iff_imp, decide_eq_true_eq, decide_eq_true_eq]
  intro ht
  exact lt_of_le_of_lt (sub_le_sub_right h window) ht

end SlidingWindow
