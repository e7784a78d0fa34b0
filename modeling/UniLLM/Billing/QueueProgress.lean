import UniLLM.Billing.Conservation
import UniLLM.Lib.Rotation
import Mathlib.Logic.Function.Iterate

/-!
# Entries that the database refuses

A tick of the flush worker ends at the first entry the database refuses, and puts that entry
at the end of the queue.  As the tick moves on by at least one entry, entries that are always
refused delay the others but do not stop them: with `g` entries that can be inserted and `p`
that cannot, `g * (p + 1)` ticks insert them all.
-/

namespace UniLLM.Billing
open Go Transition

/-- The queue and the table. -/
structure Usage where
  queue : List GoString
  rows : List UsageLog

/-- The loop of `flushOnce`.  The database refuses the same rows at any time. -/
def flushLoop (refuses : UsageLog → Bool) : Nat → Usage → Usage
  | 0, u => u
  | n + 1, u =>
    match u.queue with
    | [] => u
    | data :: queue =>
      match parseUsageLog data with
      | none => flushLoop refuses n { u with queue := queue }
      | some ul =>
        if refuses ul then { u with queue := queue ++ [data] }
        else flushLoop refuses n ⟨queue, u.rows ++ [ul]⟩

/-- One tick, with a live context, while nothing else uses the queue. -/
def flushOnce (refuses : UsageLog → Bool) (u : Usage) : Usage := flushLoop refuses 100 u

/-! ### The flush worker's tick -/

/-- A step of the worker between its ticks, with the answers of the database. -/
def IsWorkerStep (refuses : UsageLog → Bool) (s : Flush.State) : Flush.Action → Prop
  | .workerPop => True
  | .workerInsert ok =>
    ∃ i data, s.worker = .holding i data ∧
      ∀ ul, parseUsageLog data = some ul → ok = !refuses ul
  | .pushBack => True
  | _ => False

/-- The state with another queue and another table, and the worker elsewhere. -/
def atUsage (s : Flush.State) (u : Usage) (worker : Flush.Worker) : Flush.State :=
  { s with redis := { s.redis with queue := u.queue }, rows := u.rows, worker := worker }

variable {s : Flush.State} {i : Nat} {data : GoString} {queue : List GoString} {u : Usage}

theorem step_workerPop_nil (h : ¬ (i < 100 ∧ s.cancelled = false) ∨ u.queue = []) :
    Flush.step (atUsage s u (.popping i)) .workerPop = some (atUsage s u .idle) := by
  show some (Flush.workerPop (atUsage s u (.popping i)) i) = _
  unfold Flush.workerPop
  split
  · rename_i hlive
    have hqueue : (atUsage s u (.popping i)).redis.queue = [] := h.resolve_left (not_not_intro hlive)
    rw [hqueue]
    rfl
  · rfl

theorem step_tick (hidle : s.worker = .idle) :
    Flush.step s .tick = some { s with worker := .popping 0 } := by
  simp only [Flush.step, hidle]

theorem step_workerPop_cons (hlive : s.cancelled = false) (hi : i < 100)
    (hqueue : u.queue = data :: queue) :
    Flush.step (atUsage s u (.popping i)) .workerPop =
      some (atUsage s { u with queue := queue } (.holding i data)) := by
  obtain ⟨_, rows⟩ := u
  obtain rfl := hqueue
  show some (Flush.workerPop (atUsage s _ (.popping i)) i) = _
  unfold Flush.workerPop
  rw [if_pos ⟨hi, hlive⟩]
  rfl

theorem step_workerInsert_none (hparse : parseUsageLog data = none) (ok : Bool) :
    Flush.step (atUsage s u (.holding i data)) (.workerInsert ok) =
      some (atUsage s u (.popping (i + 1))) := by
  show some (Flush.workerInsert (atUsage s u (.holding i data)) i data ok) = _
  rw [Flush.workerInsert, hparse]
  rfl

theorem step_workerInsert_ok {ul : UsageLog} (hlive : s.cancelled = false)
    (hparse : parseUsageLog data = some ul) :
    Flush.step (atUsage s u (.holding i data)) (.workerInsert true) =
      some (atUsage s { u with rows := u.rows ++ [ul] } (.popping (i + 1))) := by
  show some (Flush.workerInsert (atUsage s u (.holding i data)) i data true) = _
  rw [Flush.workerInsert, hparse]
  exact congrArg some (if_pos ⟨rfl, hlive⟩)

theorem step_workerInsert_refused {ul : UsageLog} (hparse : parseUsageLog data = some ul) :
    Flush.step (atUsage s u (.holding i data)) (.workerInsert false) =
      some (atUsage s u (.failed data)) := by
  show some (Flush.workerInsert (atUsage s u (.holding i data)) i data false) = _
  rw [Flush.workerInsert, hparse]
  exact congrArg some (if_neg fun h => Bool.false_ne_true h.1)

theorem step_pushBack (hlive : s.cancelled = false) :
    Flush.step (atUsage s u (.failed data)) .pushBack =
      some (atUsage s { u with queue := u.queue ++ [data] } .idle) := by
  show some (Flush.pushBack (atUsage s u (.failed data)) data) = _
  have hcancelled : (atUsage s u (.failed data)).cancelled = false := hlive
  rw [Flush.pushBack, if_neg (by rw [hcancelled]; exact Bool.false_ne_true)]
  rfl

/-- A step in front of a run. -/
theorem exists_run_cons {refuses : UsageLog → Bool} {t t' t'' : Flush.State} {a : Flush.Action}
    (ha : IsWorkerStep refuses t a) (hstep : Flush.step t a = some t')
    (h : ∃ as, Along Flush.step (IsWorkerStep refuses) t' as ∧ exec Flush.step t' as = some t'') :
    ∃ as, Along Flush.step (IsWorkerStep refuses) t as ∧ exec Flush.step t as = some t'' := by
  obtain ⟨as, halong, hexec⟩ := h
  refine ⟨a :: as, ⟨ha, fun t₁ ht₁ => ?_⟩, exec_cons_eq_some.mpr ⟨t', hstep, hexec⟩⟩
  obtain rfl := Option.some.inj (hstep.symm.trans ht₁)
  exact halong

/-- The worker takes the turns of the loop one by one. -/
theorem exec_flushLoop (refuses : UsageLog → Bool) (hlive : s.cancelled = false) {n : Nat}
    (hi : i + n = 100) (u : Usage) :
    ∃ as, Along Flush.step (IsWorkerStep refuses) (atUsage s u (.popping i)) as ∧
      exec Flush.step (atUsage s u (.popping i)) as =
        some (atUsage s (flushLoop refuses n u) .idle) := by
  induction n generalizing i u with
  | zero =>
    refine exists_run_cons (a := .workerPop) trivial (step_workerPop_nil (Or.inl ?_)) ⟨[], trivial, rfl⟩
    rintro ⟨hlt, -⟩
    omega
  | succ n ih =>
    obtain ⟨queue, rows⟩ := u
    cases queue with
    | nil =>
      exact exists_run_cons (a := .workerPop) trivial (step_workerPop_nil (Or.inr rfl))
        ⟨[], trivial, rfl⟩
    | cons data queue =>
      refine exists_run_cons (a := .workerPop) trivial
        (step_workerPop_cons hlive (by omega) rfl) ?_
      unfold flushLoop
      simp only
      cases hparse : parseUsageLog data with
      | none =>
        refine exists_run_cons (a := .workerInsert true) ⟨i, data, rfl, fun ul hul => ?_⟩
          (step_workerInsert_none hparse true) (ih (i := i + 1) (by omega) _)
        rw [hparse] at hul
        cases hul
      | some ul =>
        have hanswer (ok : Bool) (hok : ok = !refuses ul) :
            IsWorkerStep refuses (atUsage s ⟨queue, rows⟩ (.holding i data)) (.workerInsert ok) := by
          refine ⟨i, data, rfl, fun ul' hul' => ?_⟩
          obtain rfl := Option.some.inj (hparse.symm.trans hul')
          exact hok
        cases hrefuses : refuses ul with
        | true =>
          simp only [hrefuses, if_true]
          refine exists_run_cons (hanswer false (by rw [hrefuses]; rfl))
            (step_workerInsert_refused hparse) ?_
          exact exists_run_cons (a := .pushBack) trivial (step_pushBack hlive) ⟨[], trivial, rfl⟩
        | false =>
          simp only [hrefuses, Bool.false_eq_true, if_false]
          exact exists_run_cons (hanswer true (by rw [hrefuses]; rfl))
            (step_workerInsert_ok hlive hparse) (ih (i := i + 1) (by omega) _)

/-- **A tick is the worker's run from one idle state to the next.** -/
theorem exec_flushOnce (refuses : UsageLog → Bool) (hlive : s.cancelled = false)
    (hidle : s.worker = .idle) :
    ∃ as, Along Flush.step (IsWorkerStep refuses) { s with worker := .popping 0 } as ∧
      exec Flush.step s (.tick :: as) =
        some (atUsage s (flushOnce refuses ⟨s.redis.queue, s.rows⟩) .idle) := by
  obtain ⟨as, halong, hexec⟩ := exec_flushLoop refuses hlive (Nat.zero_add 100) ⟨s.redis.queue, s.rows⟩
  exact ⟨as, halong, exec_cons_eq_some.mpr ⟨_, step_tick hidle, hexec⟩⟩

/-! ### The queue as records -/

variable (refuses : UsageLog → Bool)

/-- The database refuses the row of the record. -/
def Refused (r : UsageRecord) : Bool := refuses r.row

open Rotation

/-- The loop takes a batch of the records. -/
theorem flushLoop_records (n : Nat) (rs : List UsageRecord) (rows : List UsageLog) :
    flushLoop refuses n ⟨rs.map logBytes, rows⟩ =
      ⟨(batch (Refused refuses) n rs).2.map logBytes,
        rows ++ (batch (Refused refuses) n rs).1.map UsageRecord.row⟩ := by
  induction n generalizing rs rows with
  | zero => simp [flushLoop, batch]
  | succ n ih =>
    cases rs with
    | nil => simp [flushLoop, batch]
    | cons r rs =>
      rw [List.map_cons]
      unfold flushLoop batch
      simp only [parseUsageLog_logBytes]
      by_cases hr : refuses r.row = true
      · have hrefused : Refused refuses r = true := hr
        simp [hr, hrefused]
      · have hrefused : ¬ Refused refuses r = true := hr
        simp only [hr, hrefused, if_false, Bool.false_eq_true, ih]
        simp

theorem iterate_flushOnce (k : Nat) (rs : List UsageRecord) (rows : List UsageLog) :
    (flushOnce refuses)^[k] ⟨rs.map logBytes, rows⟩ =
      ⟨(batches (Refused refuses) 100 k rs).2.map logBytes,
        rows ++ (batches (Refused refuses) 100 k rs).1.map UsageRecord.row⟩ := by
  induction k generalizing rs rows with
  | zero => simp [batches]
  | succ k ih =>
    rw [Function.iterate_succ_apply, flushOnce, flushLoop_records, ih, batches]
    simp

/-- **Refused entries do not starve the others**: after `g * (p + 1)` ticks each of the `g`
entries that can be inserted has its row, and the `p` others are the queue. -/
theorem flushOnce_drains (rs : List UsageRecord) (rows : List UsageLog) (k : Nat)
    (hk : rs.countP (fun r => !refuses r.row) * (rs.countP (fun r => refuses r.row) + 1) ≤ k) :
    ∃ stored left : List UsageRecord,
      (flushOnce refuses)^[k] ⟨rs.map logBytes, rows⟩ =
          ⟨left.map logBytes, rows ++ stored.map UsageRecord.row⟩ ∧
        stored.Perm (rs.filter fun r => !refuses r.row) ∧
        left.Perm (rs.filter fun r => refuses r.row) := by
  have hrounds : rounds (Refused refuses) rs ≤ k := Nat.le_trans (rounds_le (Refused refuses) rs) hk
  obtain ⟨hstored, hleft⟩ := batches_complete (by decide : 0 < 100) hrounds
  exact ⟨_, _, iterate_flushOnce refuses k rs rows, hstored, hleft⟩

theorem inInt64_two : InInt64 2 := by
  decide

/-- A record of a user that the database does not know. -/
def unknownUser : UsageRecord := { Flush.oneDollar with userID := ⟨2, inInt64_two⟩ }

theorem flushOnce_drains_unknownUser :
    ∃ stored left : List UsageRecord,
      (flushOnce fun ul => ul.userID == 2)^[2] ⟨[unknownUser, Flush.oneDollar].map logBytes, []⟩ =
          ⟨left.map logBytes, [] ++ stored.map UsageRecord.row⟩ ∧
        stored.Perm ([unknownUser, Flush.oneDollar].filter fun r => !(r.row.userID == 2)) ∧
        left.Perm ([unknownUser, Flush.oneDollar].filter fun r => r.row.userID == 2) :=
  flushOnce_drains (fun ul => ul.userID == 2) [unknownUser, Flush.oneDollar] [] 2 (by decide)

end UniLLM.Billing
