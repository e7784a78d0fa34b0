import UniLLM.Middleware.RedisRateLimit

/-!
# How many calls the limiter admits

The count that a call is decided by is taken in one command and acted on later, and
three things go wrong in between.  Another call can count before the entry of an
admitted one is added.  Two calls that read the same microsecond share one entry.
And the entry that a rejected call removes is the highest, which need not be the one
it added.  An entry can also be gone too early: for a call that read the clock a while
ago, or when the key's lifetime ends before the pipeline that added it renews it.

Along runs where none of this happens, every call that passed the count has its
own entry in the set as long as a window that it belongs to is still to be counted,
so the counts bound what is admitted.
-/

namespace UniLLM.Middleware
open Transition

/-! ### What is counted -/

/-- The reading lies in the interval of length `window` from `beginning`, which is in
nanoseconds. -/
def RedisRateLimiter.inInterval (rl : RedisRateLimiter) (beginning reading : Int) : Bool :=
  beginning ≤ reading * 1000 ∧ reading * 1000 < beginning + rl.window

def Call.isAdmitted (c : Call) : Bool :=
  match c.stage with
  | .admitted => true
  | _ => false

/-- The number of admitted calls in an interval. -/
def State.admittedIn (rl : RedisRateLimiter) (s : State) (beginning : Int) : Nat :=
  s.calls.countP fun c => c.isAdmitted && rl.inInterval beginning c.reading

/-- No interval of length `window` has more admitted calls than `limit`. -/
def NeverOverAdmits (rl : RedisRateLimiter) (s : State) : Prop :=
  ∀ beginning, (s.admittedIn rl beginning : Int) ≤ rl.limit

/-! ### Steps that keep the count right -/

/-- The call has counted less than the limit, and has had no error. -/
def Call.passes (rl : RedisRateLimiter) (c : Call) : Bool :=
  match c.stage with
  | .counted count | .added count | .executed count => !c.failed && count < rl.limit
  | .admitted => true
  | _ => false

/-- The entry of the call has been added, and the call may have passed. -/
def Call.hasAdded (c : Call) : Bool :=
  match c.stage with
  | .added _ | .executed _ | .admitted => true
  | _ => false

/-- The call is still to count. -/
def Call.uncounted (c : Call) : Bool :=
  !c.failed && match c.stage with
    | .started | .pruned => true
    | _ => false

/-- The entry is in the window that ends at `now`, or later. -/
def RedisRateLimiter.inWindow (rl : RedisRateLimiter) (now entry : Int) : Bool :=
  now * 1000 < entry * 1000 + rl.window

/-- The readings of some of the calls. -/
def readings (p : Call → Bool) (calls : List Call) : List Int := (calls.filter p).map Call.reading

/-- The ends of the windows still to be counted: those of the calls under way, and the
clock. -/
def State.pending (s : State) : List Int := s.clock :: readings Call.uncounted s.calls

/-- The call passes, has added its entry, and belongs to a window still to be counted. -/
def State.holds (rl : RedisRateLimiter) (s : State) (c : Call) : Bool :=
  c.passes rl && c.hasAdded && s.pending.any fun now => rl.inWindow now c.reading

/-- The entries that are held. -/
def State.held (rl : RedisRateLimiter) (s : State) : List Int := readings (s.holds rl) s.calls

/-- No entry that is held is removed. -/
def Spares (rl : RedisRateLimiter) (s s' : State) : Prop :=
  ∀ e ∈ s'.held rl, e ∈ s.set.entries → e ∈ s'.set.entries

/-- `ZCard` does not let a call pass while another that passed, and is in its window, is
still to add its entry. -/
def CountsAll (rl : RedisRateLimiter) (s : State) (c : Call) : Prop :=
  c.failed = false → s.set.card < rl.limit →
    ∀ c' ∈ s.calls, c'.passes rl = true → rl.inWindow c.reading c'.reading = true →
      c'.hasAdded = true

/-- `ZAdd` of a call that passed does not share the entry of another one. -/
def AddsOwn (rl : RedisRateLimiter) (s : State) (c : Call) : Prop :=
  c.passes rl = true → c.reading ∉ s.held rl

/-- What the next command of the call needs. -/
def Orderly (rl : RedisRateLimiter) (s : State) (c : Call) : Prop :=
  match c.stage with
  | .pruned => CountsAll rl s c
  | .counted _ => AddsOwn rl s c
  | _ => True

/-- A step that keeps the count right. -/
def CountsRight (rl : RedisRateLimiter) (s : State) (a : Action) : Prop :=
  (∀ s' ∈ step rl s a, Spares rl s s') ∧
    match a with
    | .command j => ∀ c ∈ s.calls[j]?, Orderly rl s c
    | _ => True

variable {rl : RedisRateLimiter} {s s' : State}

instance (s s' : State) : Decidable (Spares rl s s') := by
  unfold Spares
  infer_instance

instance (s : State) (c : Call) : Decidable (Orderly rl s c) := by
  unfold Orderly CountsAll AddsOwn
  split <;> infer_instance

instance (s : State) (a : Action) : Decidable (CountsRight rl s a) := by
  cases a <;> (unfold CountsRight; infer_instance)

/-! ### The invariant -/

/-- The number of calls in an interval that pass. -/
def State.passingIn (rl : RedisRateLimiter) (s : State) (beginning : Int) : Nat :=
  s.calls.countP fun c => c.passes rl && rl.inInterval beginning c.reading

structure Inv (rl : RedisRateLimiter) (s : State) : Prop where
  /-- Held entries are each held by one call. -/
  nodup : (s.held rl).Nodup
  kept : ∀ e ∈ s.held rl, e ∈ s.set.entries
  fits : ∀ beginning, (s.passingIn rl beginning : Int) ≤ rl.limit

theorem inv_start (hlimit : 0 ≤ rl.limit) (clock : Int) : Inv rl (start clock) :=
  ⟨List.nodup_nil, nofun, fun _ => hlimit⟩

theorem Call.passes_of_isAdmitted {c : Call} (h : c.isAdmitted = true) : c.passes rl = true := by
  unfold isAdmitted at h
  unfold passes
  split at h
  · rename_i hstage
    rw [hstage]
  · cases h

/-- **Counts bound admissions.** -/
theorem Inv.neverOverAdmits (h : Inv rl s) : NeverOverAdmits rl s := by
  intro beginning
  have hle : s.admittedIn rl beginning ≤ s.passingIn rl beginning := by
    refine List.countP_mono_left fun c _ hc => ?_
    rw [Bool.and_eq_true] at hc ⊢
    exact ⟨Call.passes_of_isAdmitted hc.1, hc.2⟩
  exact (Int.ofNat_le.mpr hle).trans (h.fits beginning)

/-- A call in the interval of another is in its window. -/
theorem inWindow_of_inInterval {beginning now e : Int} (hnow : rl.inInterval beginning now = true)
    (he : rl.inInterval beginning e = true) : rl.inWindow now e = true := by
  simp only [RedisRateLimiter.inInterval, RedisRateLimiter.inWindow, decide_eq_true_eq] at *
  omega

/-! ### A call moves -/

theorem readings_append (p : Call → Bool) (cs cs' : List Call) :
    readings p (cs ++ cs') = readings p cs ++ readings p cs' := by
  simp [readings]

theorem readings_mono {p q : Call → Bool} (h : ∀ c, p c = true → q c = true) (cs : List Call) :
    (readings p cs).Sublist (readings q cs) :=
  (List.monotone_filter_right cs h).map Call.reading

theorem mem_readings {p : Call → Bool} {cs : List Call} {e : Int} :
    e ∈ readings p cs ↔ ∃ c ∈ cs, p c = true ∧ c.reading = e := by
  simp [readings, and_assoc]

/-- One call has gone on, to count at most the window it was to count before. -/
structure Moves (s s' : State) (c c' : Call) : Prop where
  clock_eq : s'.clock = s.clock
  calls_eq : ∃ pre post, s.calls = pre ++ ([c] ++ post) ∧ s'.calls = pre ++ ([c'] ++ post)
  reading_eq : c'.reading = c.reading
  uncounted : c'.uncounted = true → c.uncounted = true

variable {c c' : Call}

theorem Moves.pending_subset (h : Moves s s' c c') : s'.pending ⊆ s.pending := by
  obtain ⟨pre, post, hs, hs'⟩ := h.calls_eq
  have hone : readings Call.uncounted [c'] ⊆ readings Call.uncounted [c] := by
    intro e he
    obtain ⟨x, hx, hu, rfl⟩ := mem_readings.mp he
    obtain rfl := List.mem_singleton.mp hx
    exact mem_readings.mpr ⟨c, List.mem_singleton_self c, h.uncounted hu, h.reading_eq.symm⟩
  intro e he
  simp only [State.pending, hs, hs', h.clock_eq, readings_append, List.mem_cons, List.mem_append] at he ⊢
  rcases he with he | he | he | he
  · exact .inl he
  · exact .inr (.inl he)
  · exact .inr (.inr (.inl (hone he)))
  · exact .inr (.inr (.inr he))

/-- The windows to count end no earlier than before. -/
def Later (s s' : State) : Prop := ∀ now' ∈ s'.pending, ∃ now ∈ s.pending, now ≤ now'

theorem Moves.later (h : Moves s s' c c') : Later s s' :=
  fun now hnow => ⟨now, h.pending_subset hnow, le_rfl⟩

/-- With later windows to count, fewer calls hold their entries. -/
theorem Later.holds (rl : RedisRateLimiter) (h : Later s s') (x : Call)
    (hx : s'.holds rl x = true) :
    s.holds rl x = true := by
  simp only [State.holds, Bool.and_eq_true, List.any_eq_true] at hx ⊢
  obtain ⟨hx, now', hnow', hwindow⟩ := hx
  obtain ⟨now, hnow, hle⟩ := h now' hnow'
  refine ⟨hx, now, hnow, ?_⟩
  simp only [RedisRateLimiter.inWindow, decide_eq_true_eq] at hwindow ⊢
  omega

theorem Moves.held_sublist (h : Moves s s' c c')
    (hholds : s'.holds rl c' = true → s.holds rl c = true) : (s'.held rl).Sublist (s.held rl) := by
  obtain ⟨pre, post, hs, hs'⟩ := h.calls_eq
  have hmono := readings_mono (h.later.holds rl)
  have hone : (readings (s'.holds rl) [c']).Sublist (readings (s.holds rl) [c]) := by
    by_cases hc' : s'.holds rl c' = true
    · have hc := hholds hc'
      simp [readings, hc, hc', h.reading_eq]
    · simp [readings, hc']
  simp only [State.held, hs, hs', readings_append]
  exact (hmono pre).append (hone.append (hmono post))

theorem Moves.passingIn_eq (rl : RedisRateLimiter) (h : Moves s s' c c') (beginning : Int) :
    s'.passingIn rl beginning +
      (if c.passes rl && rl.inInterval beginning c.reading then 1 else 0) =
      s.passingIn rl beginning +
          (if c'.passes rl && rl.inInterval beginning c.reading then 1 else 0) := by
  obtain ⟨pre, post, hs, hs'⟩ := h.calls_eq
  simp only [State.passingIn, hs, hs', List.countP_append, List.countP_cons,
    List.countP_nil, h.reading_eq]
  omega

/-- A step that makes no call pass or hold an entry, and spares the held entries, keeps
the invariant. -/
theorem Inv.shrink (h : Inv rl s) (hheld : (s'.held rl).Sublist (s.held rl))
    (hspares : Spares rl s s')
    (hpassing : ∀ beginning, s'.passingIn rl beginning ≤ s.passingIn rl beginning) : Inv rl s' where
  nodup := h.nodup.sublist hheld
  kept e he := hspares e he (h.kept e (hheld.subset he))
  fits beginning := (Int.ofNat_le.mpr (hpassing beginning)).trans (h.fits beginning)

theorem Inv.moves (h : Inv rl s) (hmoves : Moves s s' c c') (hspares : Spares rl s s')
    (hpasses : c'.passes rl = true → c.passes rl = true)
    (hadded : c'.hasAdded = true → c.hasAdded = true) : Inv rl s' := by
  refine h.shrink (hmoves.held_sublist fun hc' => ?_) hspares fun beginning => ?_
  · -- what the call holds after its step it held before
    have hc := hmoves.later.holds rl c' hc'
    simp only [State.holds, Bool.and_eq_true, hmoves.reading_eq] at hc ⊢
    exact ⟨⟨hpasses hc.1.1, hadded hc.1.2⟩, hc.2⟩
  · have heq := hmoves.passingIn_eq rl beginning
    by_cases hc' : (c'.passes rl && rl.inInterval beginning c.reading) = true
    · have hc : (c.passes rl && rl.inInterval beginning c.reading) = true := by
        rw [Bool.and_eq_true] at hc' ⊢
        exact ⟨hpasses hc'.1, hc'.2⟩
      rw [if_pos hc, if_pos hc'] at heq
      omega
    · rw [if_neg hc'] at heq
      omega

/-! ### Counting and adding -/

/-- A call that counts everyone bounds its interval. -/
theorem passingIn_le_card (h : Inv rl s) (hc : c ∈ s.calls) (hu : c.uncounted = true)
    (hall : ∀ c' ∈ s.calls, c'.passes rl = true → rl.inWindow c.reading c'.reading = true →
      c'.hasAdded = true)
    {beginning : Int} (hin : rl.inInterval beginning c.reading = true) :
    (s.passingIn rl beginning : Int) ≤ s.set.card := by
  have hholds : s.passingIn rl beginning ≤ (s.held rl).length := by
    rw [State.held, readings, List.length_map, ← List.countP_eq_length_filter]
    refine List.countP_mono_left fun c' hc' hp => ?_
    rw [Bool.and_eq_true] at hp
    have hwindow := inWindow_of_inInterval hin hp.2
    have hpending : c.reading ∈ s.pending :=
      List.mem_cons_of_mem _ (mem_readings.mpr ⟨c, hc, hu, rfl⟩)
    simp only [State.holds, Bool.and_eq_true, List.any_eq_true]
    exact ⟨⟨hp.1, hall c' hc' hp.1 hwindow⟩, c.reading, hpending, hwindow⟩
  have hcard : (s.held rl).length ≤ s.set.entries.card := by
    rw [← List.toFinset_card_of_nodup h.nodup]
    exact Finset.card_le_card fun e he => h.kept e (List.mem_toFinset.mp he)
  exact Int.ofNat_le.mpr (hholds.trans hcard)

/-- `ZCard`. -/
theorem inv_count (h : Inv rl s) (hstage : c.stage = .pruned) (hall : CountsAll rl s c)
    (hmoves : Moves s s' c { c with stage := .counted s.set.card }) (hset : s'.set = s.set) :
    Inv rl s' := by
  have hheld : (s'.held rl).Sublist (s.held rl) := hmoves.held_sublist fun hc' => by
    simp [State.holds, Call.hasAdded] at hc'
  refine ⟨h.nodup.sublist hheld, fun e he => hset ▸ h.kept e (hheld.subset he), fun beginning => ?_⟩
  have heq := hmoves.passingIn_eq rl beginning
  have hbefore : c.passes rl = false := by rw [Call.passes, hstage]
  have hfits := h.fits beginning
  by_cases hnew : (Call.passes rl { c with stage := .counted s.set.card } &&
      rl.inInterval beginning c.reading) = true
  · -- one more call passes in the interval, and the count says there is room for it
    obtain ⟨hpasses, hin⟩ := Bool.and_eq_true_iff.mp hnew
    simp only [Call.passes, Bool.and_eq_true, Bool.not_eq_true', decide_eq_true_eq] at hpasses
    obtain ⟨pre, post, hs, -⟩ := hmoves.calls_eq
    have hc : c ∈ s.calls := by rw [hs]; simp
    have hu : c.uncounted = true := by rw [Call.uncounted, hstage, hpasses.1]; rfl
    have hcard := passingIn_le_card h hc hu (hall hpasses.1 hpasses.2) hin
    rw [hnew, hbefore] at heq
    simp only [Bool.false_and, Bool.false_eq_true, if_false, if_true] at heq
    have hlt := hpasses.2
    omega
  · rw [hbefore, if_neg hnew] at heq
    simp only [Bool.false_and, Bool.false_eq_true, if_false] at heq
    omega

/-- `ZAdd`. -/
theorem inv_add {count : Int} (h : Inv rl s) (hstage : c.stage = .counted count)
    (hown : AddsOwn rl s c) (hmoves : Moves s s' c { c with stage := .added count })
    (hset : s'.set = s.set.add c.reading) : Inv rl s' := by
  have hpasses : Call.passes rl { c with stage := .added count } = c.passes rl := by
    simp [Call.passes, hstage]
  have hkept : ∀ e ∈ s.set.entries, e ∈ s'.set.entries := fun e he => by
    rw [hset]
    exact Finset.mem_insert_of_mem he
  by_cases hnew : s'.holds rl { c with stage := .added count } = true
  · have hc : c.passes rl = true := by
      simp only [State.holds, Bool.and_eq_true, hpasses] at hnew
      exact hnew.1.1
    have hnotHeld : s.holds rl c = false := by simp [State.holds, Call.hasAdded, hstage]
    obtain ⟨pre, post, hs, hs'⟩ := hmoves.calls_eq
    have hmono := readings_mono (hmoves.later.holds rl)
    -- the entries held after are some of those held before, and the new one
    have hperm : (s'.held rl).Perm
        (c.reading :: (readings (s'.holds rl) pre ++ readings (s'.holds rl) post)) := by
      simp only [State.held, hs', readings_append]
      have hone : readings (s'.holds rl) [{ c with stage := .added count }] = [c.reading] := by
        simp [readings, hnew]
      rw [hone]
      exact List.perm_middle
    have hsub : (readings (s'.holds rl) pre ++ readings (s'.holds rl) post).Sublist
        (s.held rl) := by
      have hnone : readings (s.holds rl) [c] = [] := by simp [readings, hnotHeld]
      simp only [State.held, hs, readings_append, hnone, List.nil_append]
      exact (hmono pre).append (hmono post)
    refine ⟨?_, fun e he => ?_, fun beginning => ?_⟩
    · rw [hperm.nodup_iff, List.nodup_cons]
      exact ⟨fun hmem => hown hc (hsub.subset hmem), h.nodup.sublist hsub⟩
    · rcases List.mem_cons.mp (hperm.mem_iff.mp he) with rfl | he
      · rw [hset]
        exact Finset.mem_insert_self _ _
      · exact hkept e (h.kept e (hsub.subset he))
    · have heq := hmoves.passingIn_eq rl beginning
      rw [hpasses] at heq
      have hfits := h.fits beginning
      omega
  · -- an entry nobody counts with: the call failed, or its window is over
    refine h.shrink (hmoves.held_sublist fun hc' => absurd hc' hnew) (fun e _ he => hkept e he)
      fun beginning => ?_
    have heq := hmoves.passingIn_eq rl beginning
    rw [hpasses] at heq
    omega

/-! ### The other steps -/

theorem moves_set {j : Nat} (hc : s.calls[j]? = some c) (set : SortedSet)
    (hreading : c'.reading = c.reading) (hu : c'.uncounted = true → c.uncounted = true) :
    Moves s { s with set := set, calls := s.calls.set j c' } c c' := by
  obtain ⟨pre, post, hs, hs'⟩ := split_at hc
  exact ⟨rfl, ⟨pre, post, hs, hs' c'⟩, hreading, hu⟩

theorem inv_command {j : Nat} {next : SortedSet × Call} (h : Inv rl s) (hc : s.calls[j]? = some c)
    (horderly : Orderly rl s c) (hnext : command rl s.clock s.set c = some next)
    (hspares : Spares rl s { s with set := next.1, calls := s.calls.set j next.2 }) :
    Inv rl { s with set := next.1, calls := s.calls.set j next.2 } := by
  unfold Orderly at horderly
  unfold command at hnext
  -- by command: counting and adding have lemmas of their own, the others only remove
  cases hstage : c.stage with
  | started =>
    simp only [hstage] at hnext
    obtain rfl := Option.some.inj hnext
    refine h.moves (moves_set hc _ rfl fun hu => ?_) hspares (fun hp => ?_) fun ha => ?_
    · simpa [Call.uncounted, hstage] using hu
    · cases hp
    · cases ha
  | pruned =>
    simp only [hstage] at hnext horderly
    obtain rfl := Option.some.inj hnext
    refine inv_count h hstage horderly (moves_set hc _ rfl fun hu => ?_) rfl
    simp [Call.uncounted] at hu
  | counted count =>
    simp only [hstage] at hnext horderly
    obtain rfl := Option.some.inj hnext
    refine inv_add h hstage horderly (moves_set hc _ rfl fun hu => ?_) rfl
    simp [Call.uncounted] at hu
  | added count =>
    simp only [hstage] at hnext
    obtain rfl := Option.some.inj hnext
    refine h.moves (moves_set hc _ rfl fun hu => ?_) hspares (fun hp => ?_) fun _ => ?_
    · simp [Call.uncounted] at hu
    · simpa [Call.passes, hstage] using hp
    · simp [Call.hasAdded, hstage]
  | rejected =>
    simp only [hstage] at hnext
    obtain rfl := Option.some.inj hnext
    refine h.moves (moves_set hc _ rfl fun hu => ?_) hspares (fun hp => ?_) fun ha => ?_
    · simp [Call.uncounted] at hu
    · cases hp
    · cases ha
  | executed count | admitted | refused =>
    simp only [hstage] at hnext
    cases hnext

theorem inv_onCall {j : Nat} {f : Call → Option Call} (h : Inv rl s)
    (hstep : onCall s j f = some s')
    (hf : ∀ c c', f c = some c' → c'.reading = c.reading ∧ (c'.uncounted = true → c.uncounted = true) ∧
      (c'.passes rl = true → c.passes rl = true) ∧ (c'.hasAdded = true → c.hasAdded = true)) :
    Inv rl s' := by
  obtain ⟨c, hc, hnext⟩ := Option.bind_eq_some_iff.mp hstep
  obtain ⟨c', hc', rfl⟩ := Option.map_eq_some_iff.mp hnext
  obtain ⟨hreading, hu, hpasses, hadded⟩ := hf c c' hc'
  have hmoves : Moves s { s with calls := s.calls.set j c' } c c' := moves_set hc s.set hreading hu
  exact h.moves hmoves (fun _ _ he => he) hpasses hadded

/-- The decision lets pass what had counted less than the limit. -/
theorem finish_spec (h : finish rl c = some c') :
    c'.reading = c.reading ∧ (c'.uncounted = true → c.uncounted = true) ∧
      (c'.passes rl = true → c.passes rl = true) ∧ (c'.hasAdded = true → c.hasAdded = true) := by
  unfold finish at h
  split at h
  · rename_i count hstage hlive
    obtain rfl := Option.some.inj h
    by_cases hover : count ≥ rl.limit
    · simp [Call.uncounted, Call.passes, Call.hasAdded, hover]
    · simp [Call.uncounted, Call.passes, Call.hasAdded, hover, hstage, hlive, Int.not_le.mp hover]
  · cases h

theorem fail_spec (h : fail c = some c') :
    c'.reading = c.reading ∧ (c'.uncounted = true → c.uncounted = true) ∧
      (c'.passes rl = true → c.passes rl = true) ∧ (c'.hasAdded = true → c.hasAdded = true) := by
  have hc' : c' = { c with failed := true } := by
    unfold fail at h
    split at h
    · cases h
    · cases h
    · cases h
    · split at h
      · cases h
      · exact (Option.some.inj h).symm
  subst hc'
  refine ⟨rfl, fun hu => ?_, fun hp => ?_, id⟩
  · simp [Call.uncounted] at hu
  · cases hstage : c.stage <;> simp_all [Call.passes]

theorem inv_advance {clock : Int} (h : Inv rl s) (hle : s.clock ≤ clock)
    (hspares : Spares rl s { s with clock := clock, set := s.set.at clock }) :
    Inv rl { s with clock := clock, set := s.set.at clock } := by
  have hlater : Later s { s with clock := clock, set := s.set.at clock } := by
    intro now hnow
    rcases List.mem_cons.mp hnow with rfl | hnow
    · exact ⟨s.clock, List.mem_cons_self, hle⟩
    · exact ⟨now, List.mem_cons_of_mem _ hnow, le_rfl⟩
  exact h.shrink (readings_mono (hlater.holds rl) s.calls) hspares fun _ => le_rfl

theorem inv_call (h : Inv rl s) :
    Inv rl { s with calls := s.calls ++ [⟨s.clock, .started, false⟩] } := by
  have hlater : Later s { s with calls := s.calls ++ [⟨s.clock, .started, false⟩] } := by
    intro now hnow
    simp only [State.pending, readings_append, List.mem_cons, List.mem_append] at hnow
    rcases hnow with rfl | hnow | hnow
    · exact ⟨s.clock, List.mem_cons_self, le_rfl⟩
    · exact ⟨now, List.mem_cons_of_mem _ hnow, le_rfl⟩
    · obtain ⟨x, hx, -, rfl⟩ := mem_readings.mp hnow
      obtain rfl := List.mem_singleton.mp hx
      exact ⟨s.clock, List.mem_cons_self, le_rfl⟩
  have hheld : (State.held rl { s with calls := s.calls ++ [⟨s.clock, .started, false⟩] }).Sublist
      (s.held rl) := by
    rw [State.held, readings_append]
    have hnone : readings
      (State.holds rl { s with calls := s.calls ++ [⟨s.clock, .started, false⟩] })
        [⟨s.clock, .started, false⟩] = [] := rfl
    rw [hnone, List.append_nil]
    exact readings_mono (hlater.holds rl) s.calls
  refine h.shrink hheld (fun _ _ he => he) fun beginning => ?_
  simp [State.passingIn, Call.passes]

/-! ### Whole runs -/

/-- **One step.** -/
theorem step_inv {a : Action} (h : Inv rl s) (hgood : CountsRight rl s a)
    (hstep : step rl s a = some s') : Inv rl s' := by
  have hspares := hgood.1 s' hstep
  cases a with
  | advance clock =>
    by_cases hle : s.clock ≤ clock
    · rw [step, if_pos hle] at hstep
      obtain rfl := Option.some.inj hstep
      exact inv_advance h hle hspares
    · rw [step, if_neg hle] at hstep
      cases hstep
  | call =>
    obtain rfl := Option.some.inj hstep
    exact inv_call h
  | command j =>
    obtain ⟨c, hc, hmap⟩ := Option.bind_eq_some_iff.mp hstep
    obtain ⟨next, hnext, rfl⟩ := Option.map_eq_some_iff.mp hmap
    exact inv_command h hc (hgood.2 c hc) hnext hspares
  | finish j => exact inv_onCall h hstep fun _ _ => finish_spec
  | fail j => exact inv_onCall h hstep fun _ _ => fail_spec

variable {clock : Int} {as : List Action}

/-- **The run lemma.** -/
theorem exec_inv (hlimit : 0 ≤ rl.limit) (hgood : Along (step rl) (CountsRight rl) (start clock) as)
    (hexec : exec (step rl) (start clock) as = some s) : Inv rl s :=
  exec_invariant (fun _ _ _ h hgood hstep => step_inv h hgood hstep)
    (inv_start hlimit clock) hgood hexec

/-- One call a minute. -/
def onePerMinute : RedisRateLimiter := ⟨1, 60 * second⟩

/-- A whole call, up to its decision. -/
def allow (j : Nat) : List Action := .call :: List.replicate 4 (.command j) ++ [.finish j]

/-- Three calls one after the other in the same microsecond.  The second adds no entry
of its own and, rejected, removes that of the first. -/
def sameMicrosecond : List Action := allow 0 ++ (allow 1 ++ .command 1 :: allow 2)

theorem not_neverOverAdmits_sameMicrosecond :
    ∃ s, exec (step onePerMinute) (start 0) sameMicrosecond = some s ∧
      ¬ NeverOverAdmits onePerMinute s := by
  have hover : (exec (step onePerMinute) (start 0) sameMicrosecond).any
      (fun s => decide (onePerMinute.limit < s.admittedIn onePerMinute 0)) = true := by
    decide +kernel
  obtain ⟨s, hs, hlt⟩ := (Option.any_eq_true _ _).mp hover
  exact ⟨s, hs, fun h => absurd (h 0) (Int.not_le.mpr (of_decide_eq_true hlt))⟩

/-- **The limiter never over-admits** along every run in which each count that lets a call
pass comes after the entries of the calls let pass before, each of these has an entry of
its own, and no such entry is removed while a window it belongs to is still to be
counted. -/
theorem neverOverAdmits_of_countsRight (hlimit : 0 ≤ rl.limit)
    (hgood : Along (step rl) (CountsRight rl) (start clock) as)
    (hexec : exec (step rl) (start clock) as = some s) : NeverOverAdmits rl s :=
  (exec_inv hlimit hgood hexec).neverOverAdmits

/-- The first call is admitted, the second rejected, and a minute after the first another
one is admitted. -/
def minuteLater : List Action :=
  allow 0 ++ .advance 1 :: (allow 1 ++ .command 1 :: .advance 60000000 :: allow 2)

theorem neverOverAdmits_of_countsRight_minuteLater :
    ∃ s, exec (step onePerMinute) (start 0) minuteLater = some s ∧
        NeverOverAdmits onePerMinute s := by
  have hruns : (exec (step onePerMinute) (start 0) minuteLater).isSome = true := by decide +kernel
  have hgood : Along (step onePerMinute) (CountsRight onePerMinute) (start 0) minuteLater := by
    decide +kernel
  obtain ⟨s, hs⟩ := Option.isSome_iff_exists.mp hruns
  exact ⟨s, hs, neverOverAdmits_of_countsRight (by decide) hgood hs⟩

end UniLLM.Middleware
