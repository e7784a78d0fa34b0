import UniLLM.Lib.Transition
import UniLLM.Provider.Upstream

/-!
# Runs of a circuit breaker

Requests ask one breaker for admission, make attempts, and record one outcome each; the
breaker's methods hold its lock, so these follow one another.  A run keeps the history:
who did what and when, with the breaker before and after.

The comment on the half-open state says that it tests with a single request.  It does as
long as nobody asks in that state, and requests from before the opening stay out of it.
-/

namespace UniLLM.Provider
open Go Transition

/-! ### Histories -/

/-- What a request does. -/
inductive BreakerEvent where
  | allow (admitted : Bool)
  /-- An attempt starts upstream; the breaker is not asked. -/
  | attempt
  | success
  | failure
  deriving DecidableEq

/-- An entry of the history. -/
structure Op where
  request : Nat
  event : BreakerEvent
  time : Int
  before : CircuitBreaker
  after : CircuitBreaker

/-- The request is admitted. -/
def Op.admits (o : Op) (request : Nat) : Bool := o.request = request ∧ o.event = .allow true

/-- The request records its outcome. -/
def Op.records (o : Op) (request : Nat) : Bool :=
  o.request = request ∧ (o.event = .success ∨ o.event = .failure)

/-- Somebody is admitted. -/
def Op.isAdmission (o : Op) : Bool := o.event = .allow true

/-- The breaker opens. -/
def Op.opens (o : Op) : Bool := o.before.state ≠ .open ∧ o.after.state = .open

/-- The breaker after the entry is what the method makes of the one before. -/
def Op.Performed (o : Op) : Prop :=
  match o.event with
  | .allow admitted => o.before.allow o.time = (admitted, o.after)
  | .attempt => o.after = o.before
  | .success => o.after = o.before.recordSuccess
  | .failure => o.after = o.before.recordFailure o.time

/-! ### Steps -/

structure BreakerRun where
  clock : Int
  breaker : CircuitBreaker
  log : List Op

inductive BreakerAction where
  /-- Time goes on. -/
  | advance (clock : Int)
  | allow (request : Nat)
  | attempt (request : Nat)
  | success (request : Nat)
  | failure (request : Nat)

/-- The request has been admitted, and is still to record its outcome. -/
def BreakerRun.active (s : BreakerRun) (request : Nat) : Bool :=
  s.log.any (·.admits request) && !s.log.any (·.records request)

def BreakerRun.write (s : BreakerRun) (request : Nat) (event : BreakerEvent) (cb : CircuitBreaker) :
    BreakerRun :=
  { s with breaker := cb, log := s.log ++ [⟨request, event, s.clock, s.breaker, cb⟩] }

def BreakerRun.step (s : BreakerRun) : BreakerAction → Option BreakerRun
  | .advance clock => if s.clock ≤ clock then some { s with clock := clock } else none
  | .allow request =>
    -- a request asks once
    if s.log.any (fun o => o.request = request) then none
    else
      let (admitted, cb) := s.breaker.allow s.clock
      some (s.write request (.allow admitted) cb)
  | .attempt request => if s.active request then some (s.write request .attempt s.breaker) else none
  | .success request =>
    if s.active request then some (s.write request .success s.breaker.recordSuccess) else none
  | .failure request =>
    if s.active request then
      some (s.write request .failure (s.breaker.recordFailure s.clock))
    else none

def BreakerRun.start (cb : CircuitBreaker) (clock : Int) : BreakerRun := ⟨clock, cb, []⟩

variable {s s' : BreakerRun} {a : BreakerAction}

/-- An entry that the history can get next. -/
structure BreakerRun.Next (s : BreakerRun) (o : Op) : Prop where
  time : o.time = s.clock
  before : o.before = s.breaker
  performed : o.Performed
  /-- Who is new asks, who has been admitted and has not recorded does the rest. -/
  inTurn : match o.event with
    | .allow _ => s.log.any (fun x => x.request = o.request) = false
    | _ => s.active o.request = true

/-- The step that makes such an entry. -/
def BreakerEvent.action (request : Nat) : BreakerEvent → BreakerAction
  | .allow _ => .allow request
  | .attempt => .attempt request
  | .success => .success request
  | .failure => .failure request

theorem BreakerEvent.action_ne_advance (event : BreakerEvent) (request : Nat) (clock : Int) :
    event.action request ≠ .advance clock := by
  cases event <;> nofun

theorem BreakerEvent.eq_of_action_allow {event : BreakerEvent} {request request' : Nat}
    (h : event.action request = .allow request') :
    request = request' ∧ ∃ admitted, event = .allow admitted := by
  cases event with
  | allow admitted => exact ⟨BreakerAction.allow.inj h, admitted, rfl⟩
  | attempt => cases h
  | success => cases h
  | failure => cases h

/-- But for the answer of `Allow`, the step determines the entry. -/
theorem BreakerEvent.eq_of_action {event event' : BreakerEvent} {request request' : Nat}
    (h : event.action request = event'.action request')
    (hne : ∀ admitted, event' ≠ .allow admitted) :
    request = request' ∧ event = event' := by
  cases event' with
  | allow admitted => exact absurd rfl (hne admitted)
  | attempt | success | failure => cases event <;> simp_all [BreakerEvent.action]

/-- What a step makes of the state: time passes, or the history gets an entry. -/
theorem BreakerRun.step_cases (h : s.step a = some s') :
    (∃ clock, a = .advance clock ∧ s.clock ≤ clock ∧ s' = { s with clock := clock }) ∨
      ∃ o : Op, s.Next o ∧ s' = { s with breaker := o.after, log := s.log ++ [o] } ∧
        a = o.event.action o.request := by
  cases a with
  | advance clock =>
    rw [step] at h
    split at h
    · rename_i hle
      exact Or.inl ⟨clock, rfl, hle, (Option.some.inj h).symm⟩
    · cases h
  | allow request =>
    rw [step] at h
    split at h
    · cases h
    · rename_i hnew
      refine Or.inr ⟨⟨request, .allow (s.breaker.allow s.clock).1, s.clock, s.breaker,
        (s.breaker.allow s.clock).2⟩, ⟨rfl, rfl, rfl, Bool.not_eq_true _ ▸ hnew⟩, ?_, rfl⟩
      exact (Option.some.inj h).symm
  | attempt request =>
    rw [step] at h
    split at h
    · rename_i hactive
      exact Or.inr ⟨⟨request, .attempt, s.clock, s.breaker, s.breaker⟩, ⟨rfl, rfl, rfl, hactive⟩,
        (Option.some.inj h).symm, rfl⟩
    · cases h
  | success request =>
    rw [step] at h
    split at h
    · rename_i hactive
      exact Or.inr ⟨⟨request, .success, s.clock, s.breaker, s.breaker.recordSuccess⟩,
        ⟨rfl, rfl, rfl, hactive⟩, (Option.some.inj h).symm, rfl⟩
    · cases h
  | failure request =>
    rw [step] at h
    split at h
    · rename_i hactive
      exact Or.inr ⟨⟨request, .failure, s.clock, s.breaker, s.breaker.recordFailure s.clock⟩,
        ⟨rfl, rfl, rfl, hactive⟩, (Option.some.inj h).symm, rfl⟩
    · cases h

/-! ### What the methods do -/

variable {o x : Op}

/-- `Allow` changes the breaker only if it lets the first request through an open one. -/
theorem Op.Performed.allow (h : o.Performed)
    {admitted : Bool} (hevent : o.event = .allow admitted) :
    o.after = o.before ∨
      o.before.state = .open ∧ admitted = true ∧
          o.after = { o.before with state := .halfOpen } := by
  rw [Op.Performed, hevent] at h
  simp only [CircuitBreaker.allow] at h
  cases hstate : o.before.state with
  | closed =>
    simp only [hstate] at h
    exact Or.inl (Prod.mk.inj h).2.symm
  | halfOpen =>
    simp only [hstate] at h
    exact Or.inl (Prod.mk.inj h).2.symm
  | «open» =>
    simp only [hstate] at h
    split at h
    · exact Or.inr ⟨rfl, (Prod.mk.inj h).1.symm, (Prod.mk.inj h).2.symm⟩
    · exact Or.inl (Prod.mk.inj h).2.symm

theorem Op.Performed.attempt (h : o.Performed) (hevent : o.event = .attempt) :
    o.after = o.before := by
  rw [Op.Performed, hevent] at h
  exact h

theorem Op.Performed.success (h : o.Performed) (hevent : o.event = .success) :
    o.after = o.before.recordSuccess := by
  rw [Op.Performed, hevent] at h
  exact h

theorem Op.Performed.failure (h : o.Performed) (hevent : o.event = .failure) :
    o.after = o.before.recordFailure o.time := by
  rw [Op.Performed, hevent] at h
  exact h

theorem Op.Performed.resetTimeout (h : o.Performed) :
    o.after.resetTimeout = o.before.resetTimeout := by
  cases hevent : o.event with
  | allow admitted =>
    rcases h.allow hevent with hafter | ⟨-, -, hafter⟩
    · rw [hafter]
    · rw [hafter]
  | attempt => rw [h.attempt hevent]
  | success =>
    rw [h.success hevent]
    rfl
  | failure =>
    rw [h.failure hevent]
    rfl

/-- An open breaker admits nobody before the timeout, and changes for the first request
after it. -/
theorem Op.Performed.allow_open (h : o.Performed) (hopen : o.before.state = .open) {admitted : Bool}
    (hevent : o.event = .allow admitted) :
    (admitted = true ∧ o.before.resetTimeout < o.time - o.before.lastFailure ∧
        o.after = { o.before with state := .halfOpen }) ∨
      (admitted = false ∧ o.time - o.before.lastFailure ≤ o.before.resetTimeout ∧
        o.after = o.before) := by
  rw [Op.Performed, hevent] at h
  simp only [CircuitBreaker.allow, hopen] at h
  split at h
  · rename_i hlate
    obtain ⟨rfl, hafter⟩ := Prod.mk.inj h
    exact Or.inl ⟨rfl, hlate, hafter.symm⟩
  · rename_i hearly
    obtain ⟨rfl, hafter⟩ := Prod.mk.inj h
    exact Or.inr ⟨rfl, Int.not_lt.mp hearly, hafter.symm⟩

/-- A failure leaves an open breaker open. -/
theorem recordFailure_open {cb : CircuitBreaker} (hopen : cb.state = .open) (now : Int) :
    (cb.recordFailure now).state = .open := by
  show (if cb.failures + 1 ≥ cb.threshold then CircuitState.open else cb.state) = .open
  rw [hopen, ite_self]

/-- A breaker opens by a failure only. -/
theorem Op.Performed.failure_of_opens (h : o.Performed) (hopens : o.opens = true) :
    o.event = .failure := by
  rw [Op.opens, decide_eq_true_eq] at hopens
  obtain ⟨hbefore, hafter⟩ := hopens
  cases hevent : o.event with
  | failure => rfl
  | attempt =>
    rw [h.attempt hevent] at hafter
    exact absurd hafter hbefore
  | success =>
    rw [h.success hevent] at hafter
    cases hafter
  | allow admitted =>
    rcases h.allow hevent with hsame | ⟨hopen, -, -⟩
    · rw [hsame] at hafter
      exact absurd hafter hbefore
    · exact absurd hopen hbefore

/-! ### A single trial -/

/-- The entries since the breaker last opened. -/
def sinceOpening (log : List Op) : List Op := (log.reverse.takeWhile fun o => !o.opens).reverse

/-- The request was admitted after the breaker last opened. -/
def BreakerRun.admittedSince (s : BreakerRun) (request : Nat) : Bool :=
  (sinceOpening s.log).any (·.admits request)

/-- What keeps the trial single: in the half-open state nobody asks, and no request from
before the opening records its outcome; in the open state none of these records a success. -/
def KeepsSingle (s : BreakerRun) : BreakerAction → Prop
  | .allow _ => s.breaker.state ≠ .halfOpen
  | .success request => s.breaker.state = .closed ∨ s.admittedSince request = true
  | .failure request => s.breaker.state ≠ .halfOpen ∨ s.admittedSince request = true
  | _ => True

instance (s : BreakerRun) (a : BreakerAction) : Decidable (KeepsSingle s a) := by
  cases a <;> (unfold KeepsSingle; infer_instance)

/-- Some request that was admitted more than the reset timeout after the opening has
recorded its outcome. -/
def TrialRecorded (opening : Op) (since : List Op) : Prop :=
  ∃ a ∈ since, a.isAdmission = true ∧ opening.time + opening.after.resetTimeout < a.time ∧
    ∃ b ∈ since, b.records a.request = true

instance (opening : Op) (since : List Op) : Decidable (TrialRecorded opening since) :=
  inferInstanceAs (Decidable (∃ a ∈ since, _ ∧ _ ∧ ∃ b ∈ since, _))

/-- Since an opening at most one request has been admitted, unless a trial has recorded. -/
def SingleTrial (log : List Op) : Prop :=
  ∀ pre opening since, log = pre ++ opening :: since → opening.opens = true →
    ¬ TrialRecorded opening since → (since.filter Op.isAdmission).length ≤ 1

theorem TrialRecorded.concat {since : List Op} (h : TrialRecorded o since) (x : Op) :
    TrialRecorded o (since ++ [x]) := by
  obtain ⟨a, ha, hadmitted, hlate, b, hb, hrecords⟩ := h
  exact ⟨a, List.mem_append_left _ ha, hadmitted, hlate, b, List.mem_append_left _ hb, hrecords⟩

theorem mem_of_mem_sinceOpening {pre since : List Op} (hopens : o.opens = true)
    (h : x ∈ sinceOpening (pre ++ o :: since)) : x ∈ since := by
  rw [sinceOpening, List.mem_reverse, List.reverse_append, List.reverse_cons, List.append_assoc] at h
  rw [← List.mem_reverse]
  generalize since.reverse = back at h ⊢
  induction back with
  | nil => simp [hopens] at h
  | cons y back ih =>
    rw [List.cons_append, List.takeWhile_cons] at h
    split at h
    · rcases List.mem_cons.mp h with rfl | h
      · exact List.mem_cons_self
      · exact List.mem_cons_of_mem y (ih h)
    · cases h

/-- While no trial of an opening has been recorded, the breaker is still open, or half-open
because of the one trial. -/
structure Waits (cb : CircuitBreaker) (opening : Op) (since : List Op) : Prop where
  resetTimeout : cb.resetTimeout = opening.after.resetTimeout
  lastFailure : opening.time ≤ cb.lastFailure
  state : (since.filter Op.isAdmission = [] ∧ cb.state = .open) ∨
    ∃ trial, since.filter Op.isAdmission = [trial] ∧
      opening.time + opening.after.resetTimeout < trial.time ∧ cb.state = .halfOpen

/-- An entry that admits nobody and changes no more than the time of the last failure. -/
theorem Waits.idle {cb cb' : CircuitBreaker} {opening : Op} {since : List Op}
    (h : Waits cb opening since) (hx : x.isAdmission = false)
    (hreset : cb'.resetTimeout = cb.resetTimeout)
    (hlast : opening.time ≤ cb'.lastFailure) (hstate : cb'.state = cb.state) :
    Waits cb' opening (since ++ [x]) := by
  have hfilter : (since ++ [x]).filter Op.isAdmission = since.filter Op.isAdmission := by
    simp [hx]
  refine ⟨hreset.trans h.resetTimeout, hlast, ?_⟩
  rw [hfilter, hstate]
  exact h.state

theorem Waits.allow {opening : Op} {since : List Op} (h : Waits x.before opening since)
    (hperformed : x.Performed) {admitted : Bool} (hevent : x.event = .allow admitted)
    (hgood : x.before.state ≠ .halfOpen) : Waits x.after opening (since ++ [x]) := by
  obtain ⟨hempty, hopen⟩ | ⟨-, -, -, hhalf⟩ := h.state
  · rcases hperformed.allow_open hopen hevent with ⟨rfl, hlate, hafter⟩ | ⟨rfl, -, hafter⟩
    · -- the trial
      have hone : x.isAdmission = true := by simp [Op.isAdmission, hevent]
      have hreset := h.resetTimeout
      have hlast := h.lastFailure
      rw [hafter]
      refine ⟨hreset, hlast, Or.inr ⟨x, by simp [hempty, hone], ?_, rfl⟩⟩
      omega
    · rw [hafter]
      exact h.idle (by simp [Op.isAdmission, hevent]) rfl h.lastFailure rfl
  · exact absurd hhalf hgood

/-- The one request that may record is the trial. -/
theorem Waits.trialRecorded {opening : Op} {since : List Op} (h : Waits s.breaker opening since)
    {pre : List Op} (hlog : s.log = pre ++ opening :: since) (hopens : opening.opens = true)
    (hsince : s.admittedSince x.request = true) (hrecords : x.records x.request = true) :
    TrialRecorded opening (since ++ [x]) := by
  obtain ⟨y, hy, hadmits⟩ := List.any_eq_true.mp hsince
  rw [hlog] at hy
  rw [Op.admits, decide_eq_true_eq] at hadmits
  have hmem := mem_of_mem_sinceOpening hopens hy
  have hadmission : y.isAdmission = true := by
    rw [Op.isAdmission, decide_eq_true_eq]
    exact hadmits.2
  have hfilter : y ∈ since.filter Op.isAdmission := List.mem_filter.mpr ⟨hmem, hadmission⟩
  obtain ⟨hempty, -⟩ | ⟨trial, hone, hlate, -⟩ := h.state
  · rw [hempty] at hfilter
    cases hfilter
  · rw [hone, List.mem_singleton] at hfilter
    refine ⟨y, List.mem_append_left _ hmem, hadmission, hfilter ▸ hlate, x,
      List.mem_append_right _ (List.mem_singleton_self x), ?_⟩
    rw [hadmits.1]
    exact hrecords

/-- The invariant: all openings wait for their trial. -/
structure AwaitsTrial (s : BreakerRun) : Prop where
  past : ∀ o ∈ s.log, o.time ≤ s.clock
  waits : ∀ pre opening since, s.log = pre ++ opening :: since → opening.opens = true →
    ¬ TrialRecorded opening since → Waits s.breaker opening since

theorem AwaitsTrial.singleTrial (h : AwaitsTrial s) : SingleTrial s.log := by
  intro pre opening since hlog hopens hnot
  obtain ⟨hnone, -⟩ | ⟨trial, hone, -⟩ := (h.waits pre opening since hlog hopens hnot).state
  · rw [hnone]
    exact Nat.zero_le 1
  · rw [hone]
    exact le_refl 1

theorem awaitsTrial_start (cb : CircuitBreaker) (clock : Int) : AwaitsTrial (.start cb clock) := by
  refine ⟨?_, ?_⟩
  · intro o ho
    exact absurd ho List.not_mem_nil
  · intro pre opening since hlog
    exact absurd hlog.symm (List.append_ne_nil_of_right_ne_nil pre (List.cons_ne_nil opening since))

/-- What `KeepsSingle` says of the entry that the step adds. -/
def Op.KeepsSingle (s : BreakerRun) (x : Op) : Prop :=
  match x.event with
  | .allow _ => s.breaker.state ≠ .halfOpen
  | .attempt => True
  | .success => s.breaker.state = .closed ∨ s.admittedSince x.request = true
  | .failure => s.breaker.state ≠ .halfOpen ∨ s.admittedSince x.request = true

theorem AwaitsTrial.next (h : AwaitsTrial s) (hx : s.Next x) (hgood : x.KeepsSingle s) :
    AwaitsTrial { s with breaker := x.after, log := s.log ++ [x] } := by
  obtain ⟨htime, hbefore, hperformed, -⟩ := hx
  refine ⟨?_, ?_⟩
  · intro o ho
    rcases List.mem_append.mp ho with ho | ho
    · exact h.past o ho
    · rw [List.mem_singleton.mp ho, htime]
  · intro pre opening since hlog hopens hnot
    rcases split_concat hlog with ⟨rfl, rfl, rfl⟩ | ⟨since, rfl, hsplit⟩
    · -- the breaker has just opened
      have hafter := hperformed.failure (hperformed.failure_of_opens hopens)
      rw [Op.opens, decide_eq_true_eq] at hopens
      refine ⟨rfl, ?_, Or.inl ⟨rfl, hopens.2⟩⟩
      show opening.time ≤ opening.after.lastFailure
      rw [hafter]
      exact le_refl opening.time
    · have hwaits := h.waits pre opening since hsplit hopens fun hrecorded =>
        hnot (hrecorded.concat x)
      have hopened : opening.time ≤ s.clock := h.past opening (by rw [hsplit]; simp)
      unfold Op.KeepsSingle at hgood
      show Waits x.after opening (since ++ [x])
      cases hevent : x.event with
      | attempt =>
        rw [hperformed.attempt hevent, hbefore]
        exact hwaits.idle (by simp [Op.isAdmission, hevent]) rfl hwaits.lastFailure rfl
      | allow admitted =>
        rw [hevent, ← hbefore] at hgood
        exact (hbefore.symm ▸ hwaits).allow hperformed hevent hgood
      | success =>
        rw [hevent] at hgood
        have hrecords : x.records x.request = true := by simp [Op.records, hevent]
        rcases hgood with hclosed | hsince
        · obtain ⟨-, hopen⟩ | ⟨-, -, -, hhalf⟩ := hwaits.state
          · exact absurd (hopen.symm.trans hclosed) (by decide)
          · exact absurd (hhalf.symm.trans hclosed) (by decide)
        · exact absurd (hwaits.trialRecorded hsplit hopens hsince hrecords) hnot
      | failure =>
        rw [hevent] at hgood
        have hrecords : x.records x.request = true := by simp [Op.records, hevent]
        by_cases hsince : s.admittedSince x.request = true
        · exact absurd (hwaits.trialRecorded hsplit hopens hsince hrecords) hnot
        · -- a request from before the opening fails: the breaker stays open
          obtain ⟨-, hopen⟩ | ⟨-, -, -, hhalf⟩ := hwaits.state
          · rw [hperformed.failure hevent, hbefore, htime]
            refine hwaits.idle (by simp [Op.isAdmission, hevent]) rfl hopened ?_
            rw [recordFailure_open hopen, hopen]
          · exact absurd hhalf (hgood.resolve_right hsince)

/-- The step lemma. -/
theorem AwaitsTrial.step (h : AwaitsTrial s) (hgood : KeepsSingle s a)
    (hstep : s.step a = some s') :
    AwaitsTrial s' := by
  obtain ⟨clock, rfl, hle, rfl⟩ | ⟨x, hx, rfl, hact⟩ := BreakerRun.step_cases hstep
  · exact ⟨fun o ho => (h.past o ho).trans hle, h.waits⟩
  · refine h.next hx ?_
    rw [Op.KeepsSingle]
    rw [hact] at hgood
    cases hevent : x.event with
    | allow admitted =>
      rw [hevent] at hgood
      exact hgood
    | attempt => trivial
    | success =>
      rw [hevent] at hgood
      exact hgood
    | failure =>
      rw [hevent] at hgood
      exact hgood

/-- **The half-open state has a single trial** in every run in which nobody asks there, and
requests from before the opening stay out of it. -/
theorem singleTrial_of_along {threshold resetTimeout clock : Int} {as : List BreakerAction}
    (hgood : Along BreakerRun.step KeepsSingle
      (.start (newCircuitBreaker threshold resetTimeout) clock) as)
    (hexec : exec BreakerRun.step (.start (newCircuitBreaker threshold resetTimeout) clock) as = some s) :
    SingleTrial s.log :=
  (exec_invariant (fun _ _ _ h hgood hstep => h.step hgood hstep)
    (awaitsTrial_start (newCircuitBreaker threshold resetTimeout) clock) hgood hexec).singleTrial

/-- Requests that fail one after the other. -/
def failing (requests : List Nat) : List BreakerAction :=
  requests.flatMap fun request => [.allow request, .failure request]

/-- Five failures open the breaker, and after the timeout two requests ask. -/
def twoTrials : List BreakerAction :=
  failing [0, 1, 2, 3, 4] ++ [.advance (31 * second), .allow 5, .allow 6]

/-- Both are admitted. -/
theorem not_singleTrial_twoTrials :
    ∃ s, exec BreakerRun.step (.start newProviderBreaker 0) twoTrials = some s ∧
      ¬ SingleTrial s.log := by
  have hrun : (exec BreakerRun.step (.start newProviderBreaker 0) twoTrials).any (fun s =>
      ∃ h : 9 < s.log.length, s.log[9].opens = true ∧ ¬ TrialRecorded s.log[9] (s.log.drop 10) ∧
        1 < ((s.log.drop 10).filter Op.isAdmission).length) = true := by decide
  obtain ⟨s, hexec, hbad⟩ := (Option.any_eq_true _ _).mp hrun
  obtain ⟨hlen, hopens, hnot, hmany⟩ := of_decide_eq_true hbad
  refine ⟨s, hexec, ?_⟩
  intro hsingle
  have hsplit : s.log = s.log.take 9 ++ s.log[9] :: s.log.drop 10 := by
    rw [← List.drop_eq_getElem_cons hlen, List.take_append_drop]
  exact absurd (hsingle _ _ _ hsplit hopens hnot) (Nat.not_le.mpr hmany)

/-- A request from before the opening fails again, the trial succeeds, and others ask. -/
def recovery : List BreakerAction :=
  .allow 9 :: failing [0, 1, 2, 3, 4] ++
    [.failure 9, .advance (31 * second), .allow 5, .success 5, .allow 6, .allow 7]

theorem singleTrial_of_along_recovery :
    ∃ s, exec BreakerRun.step (.start (newCircuitBreaker 5 (30 * second)) 0) recovery = some s ∧
      SingleTrial s.log := by
  have hrun : (exec BreakerRun.step (.start (newCircuitBreaker 5 (30 * second)) 0) recovery).isSome =
      true := by decide
  obtain ⟨s, hexec⟩ := Option.isSome_iff_exists.mp hrun
  exact ⟨s, hexec, singleTrial_of_along (by decide) hexec⟩

end UniLLM.Provider
