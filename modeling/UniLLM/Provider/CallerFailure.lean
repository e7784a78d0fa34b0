import UniLLM.Provider.OpenCircuit

/-!
# Failures that are the caller's own

A call can fail because its context is done, or because its request cannot be encoded.
Neither says anything about the provider.  The breaker does not hear of it where the
context ends a backoff; everywhere else the call goes on to `RecordFailure`.
-/

namespace UniLLM.Provider
open Go OpenAI Transition

variable {p : Resilient} {http : Http} {s s' : ResilientRun} {x : Op}

/-! ### What is to hold -/

/-- The error a call has returned. -/
def ProviderCall.error (c : ProviderCall) : Option CallError :=
  match c.phase with
  | .returned e => e
  | .abandoned e => some e
  | _ => none

/-- Call `j` has returned an error of its own context or encoding. -/
def ResilientRun.OwnFailure (s : ResilientRun) (j : Nat) : Prop :=
  ∃ c ∈ s.calls[j]?, ∃ e ∈ c.error, e.fault = .context ∨ e.fault = .encoding

instance (s : ResilientRun) (j : Nat) : Decidable (s.OwnFailure j) :=
  inferInstanceAs (Decidable (∃ c ∈ s.calls[j]?, ∃ e ∈ c.error, _))

/-- A history that a breaker goes through. -/
def Replays : CircuitBreaker → List Op → CircuitBreaker → Prop
  | cb, [], cb' => cb = cb'
  | cb, x :: log, cb' => x.before = cb ∧ x.Performed ∧ Replays x.after log cb'

/-- These calls leave the breaker alone. -/
structure Harmless (cb : CircuitBreaker) (s : ResilientRun) (own : List Nat) : Prop where
  /-- None of their steps changes its state or failure count. -/
  leaves : ∀ x ∈ s.run.log, x.request ∈ own →
    x.after.state = x.before.state ∧ x.after.failures = x.before.failures
  /-- Without them the breaker goes through the same, with the same answers to all others. -/
  unaffected : Replays cb (s.run.log.filter fun x => x.request ∉ own) s.run.breaker

/-! ### The condition -/

def ProviderCall.isAbandoned (c : ProviderCall) : Bool :=
  match c.phase with
  | .abandoned _ => true
  | _ => false

/-- Call `j` returned from a backoff. -/
def ResilientRun.ReturnedFromBackoff (s : ResilientRun) (j : Nat) : Prop :=
  ∃ c ∈ s.calls[j]?, c.isAbandoned = true

instance (s : ResilientRun) (j : Nat) : Decidable (s.ReturnedFromBackoff j) :=
  inferInstanceAs (Decidable (∃ c ∈ s.calls[j]?, _))

/-- `Allow` let call `j` through an open breaker. -/
def ResilientRun.TookTrial (s : ResilientRun) (j : Nat) : Prop :=
  ∃ x ∈ s.run.log, x.admits j = true ∧ x.before.state = .open

instance (s : ResilientRun) (j : Nat) : Decidable (s.TookTrial j) :=
  inferInstanceAs (Decidable (∃ x ∈ s.run.log, _))

/-! ### Histories without some calls -/

theorem replays_append {cb cb' : CircuitBreaker} {log log' : List Op} :
    Replays cb (log ++ log') cb' ↔ ∃ mid, Replays cb log mid ∧ Replays mid log' cb' := by
  induction log generalizing cb with
  | nil =>
    constructor
    · intro h
      exact ⟨cb, rfl, h⟩
    · rintro ⟨mid, rfl, h⟩
      exact h
  | cons x log ih =>
    constructor
    · rintro ⟨hbefore, hperformed, hrest⟩
      obtain ⟨mid, hlog, hlog'⟩ := ih.mp hrest
      exact ⟨mid, ⟨hbefore, hperformed, hlog⟩, hlog'⟩
    · rintro ⟨mid, ⟨hbefore, hperformed, hlog⟩, hlog'⟩
      exact ⟨hbefore, hperformed, ih.mpr ⟨mid, hlog, hlog'⟩⟩

/-- Entries that change nothing can be left out. -/
theorem Replays.filter {cb cb' : CircuitBreaker} {log : List Op} {keep : Op → Bool}
    (h : Replays cb log cb') (hidle : ∀ x ∈ log, keep x = false → x.after = x.before) :
    Replays cb (log.filter keep) cb' := by
  induction log generalizing cb with
  | nil => exact h
  | cons x log ih =>
    obtain ⟨hbefore, hperformed, hrest⟩ := h
    have hrest := ih hrest fun y hy => hidle y (List.mem_cons_of_mem x hy)
    cases hkeep : keep x with
    | true =>
      rw [List.filter_cons_of_pos hkeep]
      exact ⟨hbefore, hperformed, hrest⟩
    | false =>
      rw [List.filter_cons_of_neg (by simp [hkeep])]
      rw [hidle x List.mem_cons_self hkeep, hbefore] at hrest
      exact hrest

theorem replays_of_reachable {cb : CircuitBreaker} {clock : Int}
    (h : Reachable (ResilientRun.step p http) (.start cb clock) s) :
    Replays cb s.run.log s.run.breaker := by
  refine h.invariant (motive := fun s => Replays cb s.run.log s.run.breaker) ?_ ?_
  · intro s a s' hreplays hstep
    rcases ResilientRun.run_cases hstep with ⟨hbreaker, hlog⟩ | ⟨x, hx, hrun⟩
    · rw [hlog, hbreaker]
      exact hreplays
    · rw [hrun]
      exact replays_append.mpr ⟨s.run.breaker, hreplays, hx.before, hx.performed, rfl⟩
  · show Replays cb [] cb
    rfl

/-! ### Each call -/

/-- A call that returned from a backoff has recorded nothing. -/
theorem going_of_returnedFromBackoff {j : Nat} (hinv : s.Inv p) (h : s.ReturnedFromBackoff j) :
    Going s.run.log j := by
  obtain ⟨c, hc, habandoned⟩ := h
  obtain ⟨-, hfits⟩ := hinv.fits j c hc
  unfold ProviderCall.isAbandoned at habandoned
  cases hphase : c.phase with
  | abandoned e =>
    rw [hphase] at hfits
    exact hfits.1
  | _ => simp [hphase] at habandoned

/-- So its entries change the breaker only where `Allow` does. -/
theorem after_eq_of_returnedFromBackoff {j : Nat} (hinv : s.Inv p)
    (hperformed : ∀ x ∈ s.run.log, x.Performed) (hback : s.ReturnedFromBackoff j)
    (htrial : ¬ s.TookTrial j) (hx : x ∈ s.run.log) (hown : x.request = j) :
    x.after = x.before := by
  have hrecords := (going_of_returnedFromBackoff hinv hback).2 x hx
  cases hevent : x.event with
  | allow admitted =>
    rcases (hperformed x hx).allow hevent with hsame | ⟨hopen, rfl, -⟩
    · exact hsame
    · refine absurd ⟨x, hx, ?_, hopen⟩ htrial
      rw [Op.admits, decide_eq_true_eq]
      exact ⟨hown, hevent⟩
  | attempt => exact (hperformed x hx).attempt hevent
  | success => simp [Op.records, hown, hevent] at hrecords
  | failure => simp [Op.records, hown, hevent] at hrecords

/-- A call that fails of its own, and not in a backoff, has recorded the failure. -/
theorem exists_failure_of_ownFailure {j : Nat} (hinv : s.Inv p) (hown : s.OwnFailure j)
    (hback : ¬ s.ReturnedFromBackoff j) : ∃ x ∈ s.run.log, x.request = j ∧ x.event = .failure := by
  obtain ⟨c, hc, e, he, hfault⟩ := hown
  obtain ⟨-, hfits⟩ := hinv.fits j c hc
  unfold ProviderCall.error at he
  cases hphase : c.phase with
  | returned result =>
    rw [hphase] at hfits he
    obtain rfl : result = some e := he
    rcases hfits with hbreaker | hfailure
    · rw [hbreaker] at hfault
      simp at hfault
    · exact hfailure
  | abandoned e' =>
    refine absurd ⟨c, hc, ?_⟩ hback
    rw [ProviderCall.isAbandoned, hphase]
  | _ => simp [hphase] at he

/-- **When the caller's own failures leave the breaker alone**: exactly when each of these
calls returned from a backoff and had not been let through an open breaker. -/
theorem harmless_iff {cb : CircuitBreaker} {clock : Int}
    (h : Reachable (ResilientRun.step p http) (.start cb clock) s) {own : List Nat}
    (hown : ∀ j ∈ own, s.OwnFailure j) :
    Harmless cb s own ↔ ∀ j ∈ own, s.ReturnedFromBackoff j ∧ ¬ s.TookTrial j := by
  have hinv := ResilientRun.inv_of_reachable h
  have hperformed := (shuts_of_reachable h).performed
  constructor
  · intro hharmless j hj
    refine ⟨?_, ?_⟩
    · -- it has recorded its failure, and a failure counts
      by_contra hback
      obtain ⟨x, hx, rfl, hevent⟩ := exists_failure_of_ownFailure hinv (hown j hj) hback
      have hfailures := (hharmless.leaves x hx hj).2
      rw [(hperformed x hx).failure hevent] at hfailures
      simp [CircuitBreaker.recordFailure] at hfailures
    · -- `Allow` let it through by opening the trial, so the state has changed
      rintro ⟨x, hx, hadmits, hopen⟩
      rw [Op.admits, decide_eq_true_eq] at hadmits
      obtain ⟨rfl, hevent⟩ := hadmits
      have hstate := (hharmless.leaves x hx hj).1
      rcases (hperformed x hx).allow_open hopen hevent with ⟨-, -, hafter⟩ | ⟨hno, -, -⟩
      · rw [hafter, hopen] at hstate
        cases hstate
      · cases hno
  · intro hall
    have hidle : ∀ x ∈ s.run.log, x.request ∈ own → x.after = x.before := by
      intro x hx hj
      obtain ⟨hback, htrial⟩ := hall x.request hj
      exact after_eq_of_returnedFromBackoff hinv hperformed hback htrial hx rfl
    refine ⟨?_, (replays_of_reachable h).filter ?_⟩
    · intro x hx hj
      rw [hidle x hx hj]
      exact ⟨rfl, rfl⟩
    · intro x hx hleft
      refine hidle x hx ?_
      simpa using hleft

/-! ### One user's calls and another's -/

/-- One user cancels five streams while they are opened. -/
def cancelledStreams : List ResilientAction := streams (.cancelled (lit "context canceled")) 0 5

/-- The breaker is open after them, so a call of another user is refused. -/
theorem not_harmless_cancelledStreams :
    ∃ s, exec (ResilientRun.step openAI permissive) (.start newProviderBreaker 0) cancelledStreams =
      some s ∧ (∀ j ∈ [0, 1, 2, 3, 4], s.OwnFailure j) ∧
        (s.run.breaker.allow s.run.clock).1 = false ∧
      ¬ Harmless newProviderBreaker s [0, 1, 2, 3, 4] := by
  have hrun : (exec (ResilientRun.step openAI permissive) (.start newProviderBreaker 0)
      cancelledStreams).any (fun s => (∀ j ∈ [0, 1, 2, 3, 4], s.OwnFailure j) ∧
        (s.run.breaker.allow s.run.clock).1 = false ∧
        ∃ h : 2 < s.run.log.length, s.run.log[2].request = 0 ∧
          s.run.log[2].after.failures ≠ s.run.log[2].before.failures) = true := by
    decide
  obtain ⟨s, hexec, hbad⟩ := (Option.any_eq_true _ _).mp hrun
  obtain ⟨hown, hrefused, hlen, hrequest, hfailures⟩ := of_decide_eq_true hbad
  refine ⟨s, hexec, hown, hrefused, ?_⟩
  intro h
  refine hfailures (h.leaves s.run.log[2] (List.getElem_mem hlen) ?_).2
  rw [hrequest]
  exact List.mem_cons_self

/-- A completion fails once, its caller goes away during the backoff, and another user's
stream is opened. -/
def cancelledBackoff : List ResilientAction :=
  [.call false hello, .attempt 0, .answer 0 (.failed (lit "upstream error (status 503): ")),
      .cancel 0 (lit "context canceled")] ++
    streams .opened 1 1

theorem harmless_iff_cancelledBackoff :
    ∃ s, exec (ResilientRun.step openAI permissive) (.start newProviderBreaker 0) cancelledBackoff =
      some s ∧ Harmless newProviderBreaker s [0] := by
  have hrun : (exec (ResilientRun.step openAI permissive) (.start newProviderBreaker 0)
      cancelledBackoff).any (fun s => s.OwnFailure 0 ∧ s.ReturnedFromBackoff 0 ∧
        ¬ s.TookTrial 0) = true := by
    decide
  obtain ⟨s, hexec, hgood⟩ := (Option.any_eq_true _ _).mp hrun
  obtain ⟨hown, hback, htrial⟩ := of_decide_eq_true hgood
  refine ⟨s, hexec, (harmless_iff ⟨cancelledBackoff, hexec⟩ ?_).mpr ?_⟩
  · intro j hj
    rw [List.mem_singleton.mp hj]
    exact hown
  · intro j hj
    rw [List.mem_singleton.mp hj]
    exact ⟨hback, htrial⟩

end UniLLM.Provider
