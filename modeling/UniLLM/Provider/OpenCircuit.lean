import UniLLM.Provider.ResilientRuns

/-!
# What an open circuit keeps away from the provider

A call asks the breaker once.  While the breaker is open it admits nobody new, so what
still starts upstream are attempts of calls from before: the first one of a call that
has just been admitted, and retries.  A success of one of them closes the breaker.
-/

namespace UniLLM.Provider
open Go OpenAI Transition

variable {p : Resilient} {http : Http} {s s' : ResilientRun} {run : BreakerRun} {x : Op}

/-- No more than the reset timeout has passed since the last failure. -/
def Op.WithinTimeout (x : Op) : Prop := x.time - x.before.lastFailure ≤ x.before.resetTimeout

instance (x : Op) : Decidable x.WithinTimeout := inferInstanceAs (Decidable (_ ≤ _))

/-- From an opening on no attempt starts, as long as the timeout is not over. -/
def NoAttempts (log : List Op) : Prop :=
  ∀ pre opening mid e rest, log = pre ++ opening :: (mid ++ e :: rest) → opening.opens = true →
    (∀ x ∈ mid ++ [e], x.WithinTimeout) → e.event ≠ .attempt

/-- What the breaker does keep away. -/
structure Shielded (p : Resilient) (s : ResilientRun) : Prop where
  /-- An attempt that starts after an opening, while the timeout is not over and no call
  has recorded a success, is one of a call admitted before the opening. -/
  earlier : ∀ pre opening mid e rest, s.run.log = pre ++ opening :: (mid ++ e :: rest) →
    opening.opens = true → (∀ x ∈ mid ++ [e], x.WithinTimeout) → (∀ x ∈ mid, x.event ≠ .success) →
    e.event = .attempt → ∃ x ∈ pre, x.admits e.request = true
  /-- And no call has more attempts than its own. -/
  bounded : ∀ (j : Nat) (c : ProviderCall), s.calls[j]? = some c →
    attemptsOf s.run.log j ≤ p.maxAttempts c.isStream

/-- The invariant: after an opening the breaker stays open and admits nobody. -/
structure BreakerRun.Shuts (run : BreakerRun) : Prop where
  performed : ∀ x ∈ run.log, x.Performed
  shut : ∀ pre opening mid, run.log = pre ++ opening :: mid → opening.opens = true →
    (∀ x ∈ mid, x.WithinTimeout ∧ x.event ≠ .success) →
    run.breaker.state = .open ∧ ∀ x ∈ mid, x.isAdmission = false
  earlier : ∀ pre opening mid e rest, run.log = pre ++ opening :: (mid ++ e :: rest) →
    opening.opens = true → (∀ x ∈ mid ++ [e], x.WithinTimeout) → (∀ x ∈ mid, x.event ≠ .success) →
    e.event = .attempt → ∃ x ∈ pre, x.admits e.request = true

theorem shuts_start (cb : CircuitBreaker) (clock : Int) : (BreakerRun.start cb clock).Shuts := by
  refine ⟨?_, ?_, ?_⟩
  · intro x hx
    exact absurd hx List.not_mem_nil
  · intro pre opening mid hlog
    exact absurd hlog.symm (List.append_ne_nil_of_right_ne_nil pre (List.cons_ne_nil opening mid))
  · intro pre opening mid e rest hlog
    exact absurd hlog.symm (List.append_ne_nil_of_right_ne_nil pre (List.cons_ne_nil opening _))

/-- An open breaker stays open without a success and within the timeout, and admits
nobody. -/
theorem Op.Performed.stays_open (h : x.Performed) (hopen : x.before.state = .open)
    (hwithin : x.WithinTimeout) (hsuccess : x.event ≠ .success) :
    x.after.state = .open ∧ x.isAdmission = false := by
  cases hevent : x.event with
  | allow admitted =>
    rcases h.allow_open hopen hevent with ⟨-, hlate, -⟩ | ⟨rfl, -, hafter⟩
    · exact absurd hwithin (Int.not_le.mpr hlate)
    · exact ⟨hafter ▸ hopen, by simp [Op.isAdmission, hevent]⟩
  | attempt => exact ⟨h.attempt hevent ▸ hopen, by simp [Op.isAdmission, hevent]⟩
  | success => exact absurd hevent hsuccess
  | failure =>
    rw [h.failure hevent]
    exact ⟨recordFailure_open hopen x.time, by simp [Op.isAdmission, hevent]⟩

/-- The step lemma. -/
theorem BreakerRun.Shuts.next (h : run.Shuts) (hx : run.Next x) :
    ({ run with breaker := x.after, log := run.log ++ [x] } : BreakerRun).Shuts := by
  obtain ⟨-, hbefore, hperformed, hturn⟩ := hx
  refine ⟨?_, ?_, ?_⟩
  · intro y hy
    rcases List.mem_append.mp hy with hy | hy
    · exact h.performed y hy
    · rw [List.mem_singleton.mp hy]
      exact hperformed
  · intro pre opening mid hlog hopens hmid
    rcases split_concat hlog with ⟨rfl, rfl, rfl⟩ | ⟨mid, rfl, hsplit⟩
    · rw [Op.opens, decide_eq_true_eq] at hopens
      exact ⟨hopens.2, fun y hy => absurd hy List.not_mem_nil⟩
    · obtain ⟨hopen, hnone⟩ := h.shut pre opening mid hsplit hopens fun y hy =>
        hmid y (List.mem_append_left _ hy)
      obtain ⟨hwithin, hsuccess⟩ := hmid x (List.mem_append_right _ (List.mem_singleton_self x))
      obtain ⟨hafter, hadmission⟩ := hperformed.stays_open (hbefore ▸ hopen) hwithin hsuccess
      refine ⟨hafter, ?_⟩
      intro y hy
      rcases List.mem_append.mp hy with hy | hy
      · exact hnone y hy
      · rw [List.mem_singleton.mp hy]
        exact hadmission
  · intro pre opening mid e rest hlog hopens hwithin hsuccess hattempt
    rw [← List.cons_append, ← List.append_assoc] at hlog
    rcases split_concat hlog with ⟨rfl, hpre, rfl⟩ | ⟨rest, rfl, hsplit⟩
    · -- the new entry: whoever it is has been admitted before
      rw [hattempt] at hturn
      obtain ⟨-, hnone⟩ := h.shut pre opening mid hpre.symm hopens fun y hy =>
        ⟨hwithin y (List.mem_append_left _ hy), hsuccess y hy⟩
      rw [BreakerRun.active, Bool.and_eq_true, List.any_eq_true] at hturn
      obtain ⟨⟨y, hy, hadmits⟩, -⟩ := hturn
      -- the entry that admits it is neither the opening failure nor one in between
      have hadmission : y.event = .allow true := by
        rw [Op.admits, decide_eq_true_eq] at hadmits
        exact hadmits.2
      have hopening : opening.event = .failure := by
        refine (h.performed opening ?_).failure_of_opens hopens
        rw [← hpre]
        simp
      rw [← hpre] at hy
      rcases List.mem_append.mp hy with hy | hy
      · exact ⟨y, hy, hadmits⟩
      · rcases List.mem_cons.mp hy with rfl | hy
        · rw [hopening] at hadmission
          cases hadmission
        · have hno := hnone y hy
          rw [Op.isAdmission, hadmission] at hno
          cases hno
    · rw [List.append_assoc, List.cons_append] at hsplit
      exact h.earlier pre opening mid e rest hsplit hopens hwithin hsuccess hattempt

theorem shuts_of_reachable {cb : CircuitBreaker} {clock : Int}
    (h : Reachable (ResilientRun.step p http) (.start cb clock) s) : s.run.Shuts := by
  refine h.invariant (motive := fun s => s.run.Shuts) ?_ (shuts_start cb clock)
  intro s a s' hshuts hstep
  rcases ResilientRun.run_cases hstep with ⟨hbreaker, hlog⟩ | ⟨x, hx, hrun⟩
  -- the clock and the bookkeeping of a call leave the breaker and its history alone
  · refine ⟨?_, ?_, ?_⟩
    · rw [hlog]
      exact hshuts.performed
    · rw [hlog, hbreaker]
      exact hshuts.shut
    · rw [hlog]
      exact hshuts.earlier
  · rw [hrun]
    exact hshuts.next hx

/-- **An open circuit keeps new calls away**: what still starts are the attempts of calls
admitted before. -/
theorem shielded {cb : CircuitBreaker} {clock : Int}
    (h : Reachable (ResilientRun.step p http) (.start cb clock) s) : Shielded p s :=
  ⟨(shuts_of_reachable h).earlier, fun j c hc => ((ResilientRun.inv_of_reachable h).fits j c hc).1⟩

/-! ### What it does not -/

/-- A question. -/
def hello : ChatCompletionRequest :=
  { model := lit "gpt-4o", messages := [{ role := lit "user", content := .str (lit "Hello") }] }

def openAI : Resilient :=
  newResilientProvider (.openAI (lit "openai") (lit "https://api.openai.com/v1"))

/-- Nothing is refused before it is sent. -/
def permissive : Http := ⟨fun _ => none, fun _ _ => none, fun _ => []⟩

/-- Streams that each have this answer, as the calls from `j` on. -/
def streams (answer : Answer) (j : Nat) : Nat → List ResilientAction
  | 0 => []
  | n + 1 =>
    [.call true hello, .attempt j, .answer j answer, .record j] ++ streams answer (j + 1) n

/-- A completion fails its first attempt, five streams open the breaker during its backoff,
and it retries. -/
def retryWhileOpen : List ResilientAction :=
  [.call false hello, .attempt 0, .answer 0 (.failed (lit "upstream error (status 503): "))] ++
    streams (.failed (lit "upstream error (status 503): ")) 1 5 ++
    [.advance (second / 2), .attempt 0]

/-- The retry starts half a second after the breaker has opened. -/
theorem not_noAttempts_retryWhileOpen :
    ∃ s, exec (ResilientRun.step openAI permissive) (.start newProviderBreaker 0) retryWhileOpen =
      some s ∧ ¬ NoAttempts s.run.log := by
  have hrun : (exec (ResilientRun.step openAI permissive) (.start newProviderBreaker 0)
      retryWhileOpen).any (fun s => ∃ h : 17 < s.run.log.length, s.run.log[16].opens = true ∧
        (∀ x ∈ [s.run.log[17]], x.WithinTimeout) ∧ s.run.log[17].event = .attempt) = true := by
    decide
  obtain ⟨s, hexec, hbad⟩ := (Option.any_eq_true _ _).mp hrun
  obtain ⟨hlen, hopens, hwithin, hattempt⟩ := of_decide_eq_true hbad
  refine ⟨s, hexec, ?_⟩
  intro h
  have hsplit : s.run.log = s.run.log.take 16 ++
      s.run.log[16] :: ([] ++ s.run.log[17] :: s.run.log.drop 18) := by
    rw [List.nil_append, ← List.drop_eq_getElem_cons hlen,
      ← List.drop_eq_getElem_cons (Nat.lt_of_succ_lt hlen), List.take_append_drop]
  exact h _ _ [] _ _ hsplit hopens hwithin hattempt

/-- From an opening on the attempts are those of earlier calls, as long as the timeout is not
over, whatever is recorded. -/
def OnlyEarlier (log : List Op) : Prop :=
  ∀ pre opening mid e rest, log = pre ++ opening :: (mid ++ e :: rest) → opening.opens = true →
    (∀ x ∈ mid ++ [e], x.WithinTimeout) → e.event = .attempt → ∃ x ∈ pre, x.admits e.request = true

/-- A stream is slow, five others open the breaker, and then it succeeds. -/
def lateSuccess : List ResilientAction :=
  [.call true hello, .attempt 0] ++
    streams (.failed (lit "upstream error (status 503): ")) 1 5 ++
    [.answer 0 .opened, .record 0, .call true hello, .attempt 6]

/-- The success closes the breaker, and a new call is admitted at once. -/
theorem not_onlyEarlier_lateSuccess :
    ∃ s, exec (ResilientRun.step openAI permissive) (.start newProviderBreaker 0) lateSuccess =
      some s ∧ ¬ OnlyEarlier s.run.log := by
  have hrun : (exec (ResilientRun.step openAI permissive) (.start newProviderBreaker 0)
      lateSuccess).any (fun s => ∃ h : 19 < s.run.log.length, s.run.log[16].opens = true ∧
        (∀ x ∈ [s.run.log[17], s.run.log[18]] ++ [s.run.log[19]], x.WithinTimeout) ∧
        s.run.log[19].event = .attempt ∧
        ∀ x ∈ s.run.log.take 16, x.admits s.run.log[19].request = false) = true := by
    decide
  obtain ⟨s, hexec, hbad⟩ := (Option.any_eq_true _ _).mp hrun
  obtain ⟨hlen, hopens, hwithin, hattempt, hnew⟩ := of_decide_eq_true hbad
  refine ⟨s, hexec, ?_⟩
  intro h
  have hsplit : s.run.log = s.run.log.take 16 ++ s.run.log[16] ::
      ([s.run.log[17], s.run.log[18]] ++ s.run.log[19] :: s.run.log.drop 20) := by
    rw [List.cons_append, List.cons_append, List.nil_append, ← List.drop_eq_getElem_cons hlen,
      ← List.drop_eq_getElem_cons (by omega), ← List.drop_eq_getElem_cons (by omega),
      ← List.drop_eq_getElem_cons (by omega), List.take_append_drop]
  obtain ⟨x, hx, hadmits⟩ := h _ _ _ _ _ hsplit hopens hwithin hattempt
  rw [hnew x hx] at hadmits
  cases hadmits

theorem shielded_retryWhileOpen :
    ∃ s, exec (ResilientRun.step openAI permissive) (.start newProviderBreaker 0) retryWhileOpen =
      some s ∧ Shielded openAI s := by
  have hrun : (exec (ResilientRun.step openAI permissive) (.start newProviderBreaker 0)
      retryWhileOpen).isSome = true := by decide
  obtain ⟨s, hexec⟩ := Option.isSome_iff_exists.mp hrun
  exact ⟨s, hexec, shielded ⟨retryWhileOpen, hexec⟩⟩

end UniLLM.Provider
