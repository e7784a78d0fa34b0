import UniLLM.Middleware.RedisRateLimit
import UniLLM.Middleware.SimpleRateLimit
import Mathlib.Data.Finset.Image

/-!
# The two limiters on sequential traces

When each call of `RedisRateLimiter.Allow` completes before the next one starts, the
sorted set of a key has the readings of its admitted calls: an entry of a rejected
call is the highest when it is taken back.  So the count of a call is the number of
admitted calls in its window, as in the in-memory limiter, unless the key has outlived
its lifetime meanwhile.

The lifetime is longer than the window, but it ends by the clock of Redis, and the
window is the one before the reading that the call took earlier.
-/

namespace UniLLM.Middleware
open Go SlidingWindow Transition

/-- A call of `Allow`: its clock reading, and when Redis executes its commands.  The last
one is sent only if the call is over the limit.  All times are in microseconds. -/
structure TimedCall where
  key : GoString
  reading : Int
  removeAt : Int
  countAt : Int
  addAt : Int
  expireAt : Int
  takeBackAt : Int

/-- `rl.prefix + key`. -/
def rkey (key : GoString) : GoString := lit "rl:" ++ key

theorem rkey_injective : Function.Injective rkey := List.append_right_injective _

/-- The sorted sets. -/
abbrev Rdb := GoString → SortedSet

/-- `Allow` on the set of its key, with nothing in between its commands but time. -/
def RedisRateLimiter.allowOn (rl : RedisRateLimiter) (z : SortedSet) (c : TimedCall) :
    Bool × SortedSet :=
  let pruned := (z.at c.removeAt).removeRangeByScore (rl.windowStart c.reading)
  let counted := pruned.at c.countAt
  let count := counted.card
  let added := (counted.at c.addAt).add c.reading
  let expiring := (added.at c.expireAt).expire c.expireAt rl.ttl
  if count ≥ rl.limit then (false, (expiring.at c.takeBackAt).removeHighest)
  else (true, expiring)

def RedisRateLimiter.allow (rl : RedisRateLimiter) (rdb : Rdb) (c : TimedCall) : Bool × Rdb :=
  let result := rl.allowOn (rdb (rkey c.key)) c
  (result.1, Function.update rdb (rkey c.key) result.2)

/-- The sets and the log after a trace.  Nothing is in Redis at first. -/
def RedisRateLimiter.run (rl : RedisRateLimiter) (trace : List TimedCall) :
    Rdb × List (SlidingWindow.Call GoString Int) :=
  trace.foldl (fun s c => ((rl.allow s.1 c).2, s.2 ++ [⟨c.key, c.reading * 1000, (rl.allow s.1 c).1⟩]))
    (fun _ => ⟨∅, none⟩, [])

/-- The calls of a trace and their answers, with times in nanoseconds. -/
def RedisRateLimiter.log (rl : RedisRateLimiter) (trace : List TimedCall) :
    List (SlidingWindow.Call GoString Int) :=
  (rl.run trace).2

/-! ### Sequential traces -/

/-- The commands are executed in order, after the clock was read. -/
def TimedCall.InOrder (c : TimedCall) : Prop :=
  c.reading ≤ c.removeAt ∧ c.removeAt ≤ c.countAt ∧ c.countAt ≤ c.addAt ∧ c.addAt ≤ c.expireAt ∧
    c.expireAt ≤ c.takeBackAt

instance (c : TimedCall) : Decidable c.InOrder := inferInstanceAs (Decidable (_ ∧ _))

/-- Each call completes before the next starts, and the readings increase. -/
structure Sequential (trace : List TimedCall) : Prop where
  inOrder : ∀ c ∈ trace, c.InOrder
  completes : trace.Pairwise fun c c' => c.takeBackAt ≤ c'.reading
  increasing : trace.Pairwise fun c c' => c.reading < c'.reading

/-- Redis executes the pipeline while entries of the window before the reading live. -/
def RedisRateLimiter.Prompt (rl : RedisRateLimiter) (c : TimedCall) : Prop :=
  0 < rl.window → (c.expireAt - c.reading) * 1000 ≤ rl.ttl * second - rl.window

instance (rl : RedisRateLimiter) (c : TimedCall) : Decidable (rl.Prompt c) :=
  inferInstanceAs (Decidable (_ → _))

/-- The in-memory limiter with the same limit and window. -/
def RedisRateLimiter.inMemory (rl : RedisRateLimiter) : SimpleRateLimiter := ⟨rl.limit, rl.window⟩

/-- The events make the calls of the trace, with cleanup passes anywhere. -/
structure SameCalls (trace : List TimedCall) (events : List LimiterEvent) : Prop where
  calls : events.filterMap LimiterEvent.call = trace.map fun c => (c.key, c.reading * 1000)
  clock : (events.map LimiterEvent.time).Pairwise (· ≤ ·)

variable {rl : RedisRateLimiter} {z : SortedSet} {c : TimedCall} {clock : Int}

/-! ### A call on its own is a run of the step model -/

/-- What one call and Redis do, if the call is the `j`-th of its key. -/
def TimedCall.actions (c : TimedCall) (j : Nat) (admitted : Bool) : List Action :=
  [.advance c.reading, .call, .advance c.removeAt, .command j, .advance c.countAt, .command j,
      .advance c.addAt, .command j, .advance c.expireAt, .command j, .finish j] ++
    if admitted then [] else [.advance c.takeBackAt, .command j]

theorem at_at {t t' : Int} (h : t ≤ t') : (z.at t).at t' = z.at t' := by
  rcases hd : z.deadline with _ | d
  · simp [SortedSet.at, hd]
  · by_cases hle : d ≤ t
    · simp [SortedSet.at, hd, hle, hle.trans h]
    · simp [SortedSet.at, hd, hle]

theorem step_command_last (clock : Int) (z : SortedSet) (calls : List Call) (c : Call) :
    step rl ⟨clock, z, calls ++ [c]⟩ (.command calls.length) =
      (command rl clock z c).map fun next => ⟨clock, next.1, calls ++ [next.2]⟩ := by
  simp [step]

theorem step_finish_last (clock : Int) (z : SortedSet) (calls : List Call) (c : Call) :
    step rl ⟨clock, z, calls ++ [c]⟩ (.finish calls.length) =
      (finish rl c).map fun c => ⟨clock, z, calls ++ [c]⟩ := by
  simp [step, onCall]

theorem step_advance {t t' : Int} (z : SortedSet) (calls : List Call) (h : t ≤ t') :
    step rl ⟨t, z, calls⟩ (.advance t') = some ⟨t', z.at t', calls⟩ := by
  simp [step, h]

/-- The step model, with no other call in between, does what `allowOn` says. -/
theorem exec_actions {t : Int} (calls : List Call) (ht : t ≤ c.reading) (horder : c.InOrder) :
    exec (step rl) ⟨t, z, calls⟩ (c.actions calls.length (rl.allowOn z c).1) =
      some (if (rl.allowOn z c).1 then
          ⟨c.expireAt, (rl.allowOn z c).2, calls ++ [⟨c.reading, .admitted, false⟩]⟩
        else ⟨c.takeBackAt, (rl.allowOn z c).2, calls ++ [⟨c.reading, .refused, false⟩]⟩) := by
  obtain ⟨hremove, hcount, hadd, hexpire, htake⟩ := horder
  have hcall : ∀ clock (z : SortedSet), step rl ⟨clock, z, calls⟩ .call =
      some ⟨clock, z, calls ++ [⟨clock, .started, false⟩]⟩ := fun _ _ => rfl
  rw [TimedCall.actions, exec_append]
  simp only [exec_cons, exec_nil, step_advance, hcall, step_command_last, step_finish_last, at_at,
    ht, hremove, hcount, hadd, hexpire, command, finish, Option.bind_some, Option.map_some]
  unfold RedisRateLimiter.allowOn
  simp only [at_at hadd]
  split
  · simp only [Bool.false_eq_true, if_false, exec_cons, exec_nil, step_advance, htake,
      step_command_last, command, Option.bind_some, Option.map_some]
  · simp only [if_true, exec_nil]

/-! ### What the set of a key keeps -/

/-- The lifetime that Redis is given is longer than the window. -/
theorem window_lt_ttl (rl : RedisRateLimiter) : rl.window < rl.ttl * second := by
  unfold RedisRateLimiter.ttl second
  simp only
  split
  · omega
  · have hdiv := Int.mul_tdiv_add_tmod (rl.window + 1000000000) 1000000000
    have hmod := Int.tmod_lt_of_pos (rl.window + 1000000000) (b := 1000000000) (by decide)
    omega

theorem windowStart_lt_iff {r e : Int} :
    rl.windowStart r < e ↔ r * 1000 - rl.window < e * 1000 :=
  Int.ediv_lt_iff_lt_mul (by decide)

/-- The set of a key mirrors the readings of its admitted calls: from `clock` on it has
those of every window to come, and lives long enough to have them. -/
structure Mirrors (rl : RedisRateLimiter) (z : SortedSet) (admitted : List Int) (clock : Int) :
    Prop where
  known : ∀ e ∈ z.entries, e ∈ admitted
  kept : ∀ e ∈ admitted, clock * 1000 - rl.window < e * 1000 → e ∈ z.entries
  lives : ∀ d ∈ z.deadline, ∀ e ∈ z.entries, e + rl.ttl * 1000000 ≤ d

/-- The entries in the window before the reading. -/
def RedisRateLimiter.fresh (rl : RedisRateLimiter) (z : SortedSet) (reading : Int) : Finset Int :=
  z.entries.filter (rl.windowStart reading < ·)

/-- The set after the pipeline. -/
def RedisRateLimiter.renewed (rl : RedisRateLimiter) (entries : Finset Int) (c : TimedCall) :
    SortedSet :=
  if rl.ttl ≤ 0 then ⟨∅, none⟩
  else ⟨insert c.reading entries, some (c.expireAt + rl.ttl * 1000000)⟩

theorem at_of_lt {t : Int} (h : ∀ d ∈ z.deadline, t < d) : z.at t = z := by
  unfold SortedSet.at
  split
  · rename_i d hd
    rw [if_neg (Int.not_le.mpr (h d hd))]
  · rfl

/-- A set that does not live is empty. -/
theorem at_eq_or (z : SortedSet) (t : Int) :
    z.at t = z ∨ z.at t = ⟨∅, none⟩ ∧ ∃ d ∈ z.deadline, d ≤ t := by
  unfold SortedSet.at
  split
  · rename_i d hd
    split
    · exact Or.inr ⟨rfl, d, hd, by assumption⟩
    · exact Or.inl rfl
  · exact Or.inl rfl

/-- While entries of the window before a prompt call's reading are left, the key lives. -/
theorem Mirrors.alive {admitted : List Int} (h : Mirrors rl z admitted clock)
    (hpast : ∀ e ∈ admitted, e < c.reading) (hprompt : rl.Prompt c)
    (hfresh : (rl.fresh z c.reading).Nonempty) : ∀ d ∈ z.deadline, c.expireAt < d := by
  intro d hd
  obtain ⟨e, he⟩ := hfresh
  obtain ⟨hmem, hin⟩ := Finset.mem_filter.mp he
  have hlate := h.lives d hd e hmem
  have hbefore := hpast e (h.known e hmem)
  rw [windowStart_lt_iff] at hin
  have hdelay := hprompt (by omega)
  unfold second at hdelay
  omega

/-- The pipeline finds the entries of the window, counts them, and renews the key. -/
theorem allowOn_eq {admitted : List Int} (h : Mirrors rl z admitted clock)
    (hpast : ∀ e ∈ admitted, e < c.reading) (horder : c.InOrder) (hprompt : rl.Prompt c) :
    rl.allowOn z c =
      if ((rl.fresh z c.reading).card : Int) ≥ rl.limit then
        (false, ((rl.renewed (rl.fresh z c.reading) c).at c.takeBackAt).removeHighest)
      else (true, rl.renewed (rl.fresh z c.reading) c) := by
  obtain ⟨-, hcount, hadd, hexpire, -⟩ := horder
  -- what is left after the removal lives until the lifetime is set again
  have halive : ∀ d ∈ (z.put (rl.fresh z c.reading)).deadline, c.expireAt < d := by
    intro d hd
    by_cases hempty : rl.fresh z c.reading = ∅
    · simp [SortedSet.put, hempty] at hd
    · refine h.alive hpast hprompt (Finset.nonempty_iff_ne_empty.mpr hempty) d ?_
      simpa [SortedSet.put, hempty] using hd
  have hpruned : (z.at c.removeAt).removeRangeByScore (rl.windowStart c.reading) =
      z.put (rl.fresh z c.reading) := by
    rcases at_eq_or z c.removeAt with hat | ⟨hat, d, hd, hle⟩
    · rw [hat]
      rfl
    · have hempty : rl.fresh z c.reading = ∅ := by
        rw [← Finset.not_nonempty_iff_eq_empty]
        intro hfresh
        have := h.alive hpast hprompt hfresh d hd
        omega
      rw [hat, hempty]
      rfl
  have hcounted : (z.put (rl.fresh z c.reading)).at c.countAt = z.put (rl.fresh z c.reading) :=
    at_of_lt fun d hd => by have := halive d hd; omega
  have hadded : (z.put (rl.fresh z c.reading)).at c.addAt = z.put (rl.fresh z c.reading) :=
    at_of_lt fun d hd => by have := halive d hd; omega
  have hkeeps : ((z.put (rl.fresh z c.reading)).add c.reading).at c.expireAt =
      (z.put (rl.fresh z c.reading)).add c.reading := by
    refine at_of_lt ?_
    intro d hd
    refine halive d ?_
    simpa [SortedSet.add, SortedSet.put] using hd
  have hrenewed : ((z.put (rl.fresh z c.reading)).add c.reading).expire c.expireAt rl.ttl =
      rl.renewed (rl.fresh z c.reading) c := by
    simp [SortedSet.expire, RedisRateLimiter.renewed, SortedSet.add, SortedSet.put]
  unfold RedisRateLimiter.allowOn
  simp only [hpruned, hcounted, hadded, hkeeps, hrenewed]
  rfl

/-- After an admitted call the set has its entry too. -/
theorem Mirrors.admit {admitted : List Int} (h : Mirrors rl z admitted clock)
    (hclock : clock ≤ c.reading) (hpast : ∀ e ∈ admitted, e < c.reading) (horder : c.InOrder)
    {clock' : Int} (hclock' : c.reading ≤ clock') :
    Mirrors rl (rl.renewed (rl.fresh z c.reading) c) (admitted ++ [c.reading]) clock' := by
  have hle : c.reading ≤ c.expireAt := by
    obtain ⟨h1, h2, h3, h4, -⟩ := horder
    omega
  have hwindow := window_lt_ttl rl
  unfold second at hwindow
  have hpast' : ∀ e ∈ admitted ++ [c.reading], e ≤ c.reading := by
    intro e he
    rcases List.mem_append.mp he with he | he
    · exact (hpast e he).le
    · rw [List.mem_singleton.mp he]
  have hknown : ∀ e ∈ insert c.reading (rl.fresh z c.reading), e ∈ admitted ++ [c.reading] := by
    intro e he
    rcases Finset.mem_insert.mp he with rfl | he
    · exact List.mem_append_right _ (List.mem_singleton_self _)
    · exact List.mem_append_left _ (h.known e (Finset.mem_filter.mp he).1)
  unfold RedisRateLimiter.renewed
  split
  · -- the key is deleted; the window is negative
    refine ⟨nofun, ?_, nofun⟩
    intro e he hin
    have := hpast' e he
    omega
  · refine ⟨hknown, ?_, ?_⟩
    · intro e he hin
      rcases List.mem_append.mp he with he | he
      · refine Finset.mem_insert_of_mem (Finset.mem_filter.mpr ⟨h.kept e he ?_, ?_⟩)
        · omega
        · rw [windowStart_lt_iff]
          omega
      · rw [List.mem_singleton.mp he]
        exact Finset.mem_insert_self _ _
    · intro d hd e he
      obtain rfl := Option.some.inj hd
      have := hpast' e (hknown e he)
      omega

/-- A rejected call takes its own entry back: no other is as high. -/
theorem removeHighest_renewed {entries : Finset Int} (hpast : ∀ e ∈ entries, e < c.reading)
    (httl : 0 < rl.ttl) :
    (rl.renewed entries c).removeHighest =
      (⟨insert c.reading entries, some (c.expireAt + rl.ttl * 1000000)⟩ : SortedSet).put
          entries := by
  have hmax : (insert c.reading entries).max' (Finset.insert_nonempty _ _) = c.reading := by
    refine le_antisymm (Finset.max'_le _ _ _ ?_) (Finset.le_max' _ _ (Finset.mem_insert_self _ _))
    intro e he
    rcases Finset.mem_insert.mp he with rfl | he
    · exact le_refl _
    · exact (hpast e he).le
  have hnot : c.reading ∉ entries := fun hmem => lt_irrefl _ (hpast _ hmem)
  rw [RedisRateLimiter.renewed, if_neg (Int.not_le.mpr httl), SortedSet.removeHighest,
    dif_pos (Finset.insert_nonempty _ _), hmax, Finset.erase_insert hnot]

/-- After a rejected call the set has the entries it had. -/
theorem Mirrors.reject {admitted : List Int} (h : Mirrors rl z admitted clock)
    (hclock : clock ≤ c.reading) (hpast : ∀ e ∈ admitted, e < c.reading) (horder : c.InOrder)
    {clock' : Int} (hclock' : c.takeBackAt ≤ clock') :
    Mirrors rl ((rl.renewed (rl.fresh z c.reading) c).at c.takeBackAt).removeHighest admitted
      clock' := by
  have hle : c.reading ≤ c.expireAt ∧ c.expireAt ≤ c.takeBackAt := by
    obtain ⟨h1, h2, h3, h4, h5⟩ := horder
    omega
  have hwindow := window_lt_ttl rl
  unfold second at hwindow
  have hempty : (∀ e ∈ admitted, ¬clock' * 1000 - rl.window < e * 1000) →
      Mirrors rl (⟨∅, none⟩ : SortedSet).removeHighest admitted clock' := by
    intro hold
    exact ⟨nofun, fun e he hin => absurd hin (hold e he), nofun⟩
  rcases lt_or_ge 0 rl.ttl with httl | httl
  · rcases at_eq_or (rl.renewed (rl.fresh z c.reading) c) c.takeBackAt with
      hat | ⟨hat, d, hd, hlate⟩
    · have hfresh : ∀ e ∈ rl.fresh z c.reading, e < c.reading := fun e he =>
        hpast e (h.known e (Finset.mem_filter.mp he).1)
      rw [hat, removeHighest_renewed hfresh httl]
      refine ⟨fun e he => h.known e (Finset.mem_filter.mp he).1, ?_, ?_⟩
      · intro e he hin
        have := hpast e he
        refine Finset.mem_filter.mpr ⟨h.kept e he ?_, ?_⟩
        · omega
        · rw [windowStart_lt_iff]
          omega
      · intro d hd e he
        have hd' : c.expireAt + rl.ttl * 1000000 = d := by
          have hne : rl.fresh z c.reading ≠ ∅ := Finset.ne_empty_of_mem he
          simpa [SortedSet.put, hne] using hd
        have := hfresh e he
        omega
    · -- the key is gone, but so are all windows that its entries are in
      rw [hat]
      apply hempty
      intro e he
      have := hpast e he
      have hd' : c.expireAt + rl.ttl * 1000000 = d := by
        simpa [RedisRateLimiter.renewed, Int.not_le.mpr httl] using hd
      omega
  · have hgone : (rl.renewed (rl.fresh z c.reading) c).at c.takeBackAt = ⟨∅, none⟩ := by
      simp [RedisRateLimiter.renewed, httl, SortedSet.at]
    rw [hgone]
    apply hempty
    intro e he
    have := hpast e he
    omega

/-! ### Counting -/

/-- The entries of the window are as many as the admitted calls in it. -/
theorem Mirrors.card_fresh {admitted : List Int} (h : Mirrors rl z admitted clock)
    (hclock : clock ≤ c.reading) (hnodup : admitted.Nodup) {key : GoString}
    {log : List (SlidingWindow.Call GoString Int)}
    (hlog : admissions key log = admitted.map (· * 1000)) :
    (rl.fresh z c.reading).card = (recent rl.window key (c.reading * 1000) log).length := by
  have hset : rl.fresh z c.reading =
      (admitted.filter fun e => c.reading * 1000 - rl.window < e * 1000).toFinset := by
    ext e
    rw [RedisRateLimiter.fresh, Finset.mem_filter, List.mem_toFinset, List.mem_filter,
      windowStart_lt_iff, decide_eq_true_eq]
    constructor
    · rintro ⟨he, hin⟩
      exact ⟨h.known e he, hin⟩
    · rintro ⟨he, hin⟩
      exact ⟨h.kept e he (by omega), hin⟩
  rw [hset, List.toFinset_card_of_nodup (hnodup.filter _), recent, hlog, List.filter_map,
    List.length_map]
  rfl

/-- **`Allow` answers by its log**, and its set mirrors the log with its answer. -/
theorem allowOn_spec {admitted : List Int} (h : Mirrors rl z admitted clock)
    (hclock : clock ≤ c.reading) (hpast : ∀ e ∈ admitted, e < c.reading) (hnodup : admitted.Nodup)
    (horder : c.InOrder) (hprompt : rl.Prompt c) {log : List (SlidingWindow.Call GoString Int)}
    (hlog : admissions c.key log = admitted.map (· * 1000)) {clock' : Int}
    (hclock' : c.takeBackAt ≤ clock') :
    (rl.allowOn z c).1 = admits rl.limit rl.window log c.key (c.reading * 1000) ∧
      Mirrors rl (rl.allowOn z c).2
        (if (rl.allowOn z c).1 then admitted ++ [c.reading] else admitted) clock' := by
  have hle : c.reading ≤ c.takeBackAt := by
    obtain ⟨h1, h2, h3, h4, h5⟩ := horder
    omega
  rw [admits, ← h.card_fresh hclock hnodup hlog, allowOn_eq h hpast horder hprompt]
  by_cases hfull : ((rl.fresh z c.reading).card : Int) ≥ rl.limit
  · rw [if_pos hfull]
    refine ⟨?_, h.reject hclock hpast horder hclock'⟩
    rw [eq_comm, decide_eq_false_iff_not]
    exact Int.not_lt.mpr hfull
  · rw [if_neg hfull]
    refine ⟨?_, h.admit hclock hpast horder (hle.trans hclock')⟩
    rw [eq_comm, decide_eq_true_eq]
    exact Int.not_le.mp hfull

/-! ### Traces -/

variable {trace : List TimedCall}

theorem RedisRateLimiter.run_concat (rl : RedisRateLimiter) (trace : List TimedCall)
    (c : TimedCall) :
    rl.run (trace ++ [c]) =
      ((rl.allow (rl.run trace).1 c).2,
        rl.log trace ++ [⟨c.key, c.reading * 1000, (rl.allow (rl.run trace).1 c).1⟩]) := by
  simp [RedisRateLimiter.run, RedisRateLimiter.log]

/-- A trace but for its last call. -/
theorem Sequential.of_concat (h : Sequential (trace ++ [c])) :
    Sequential trace ∧ c.InOrder ∧ (∀ c' ∈ trace, c'.takeBackAt ≤ c.reading) ∧
      ∀ c' ∈ trace, c'.reading < c.reading := by
  obtain ⟨horder, hcompletes, hincreasing⟩ := h
  rw [List.pairwise_append] at hcompletes hincreasing
  refine ⟨⟨?_, hcompletes.1, hincreasing.1⟩, ?_, ?_, ?_⟩
  · intro c' hc'
    exact horder c' (List.mem_append_left _ hc')
  · exact horder c (List.mem_append_right _ (List.mem_singleton_self _))
  · intro c' hc'
    exact hcompletes.2.2 c' hc' c (List.mem_singleton_self _)
  · intro c' hc'
    exact hincreasing.2.2 c' hc' c (List.mem_singleton_self _)

/-- The readings of a key's admitted calls, and the set that mirrors them. -/
structure Tracks (rl : RedisRateLimiter) (trace : List TimedCall) (key : GoString)
    (admitted : List Int) (clock : Int) : Prop where
  log : admissions key (rl.log trace) = admitted.map (· * 1000)
  nodup : admitted.Nodup
  read : ∀ e ∈ admitted, ∃ c ∈ trace, c.reading = e
  mirrors : Mirrors rl ((rl.run trace).1 (rkey key)) admitted clock

/-- One more call: its key's set moves on, the others only see time pass. -/
theorem Tracks.concat {key : GoString} {admitted : List Int}
    (h : Tracks rl trace key admitted c.reading)
    (hpast : ∀ c' ∈ trace, c'.reading < c.reading) (horder : c.InOrder) (hprompt : rl.Prompt c)
    {clock' : Int} (hclock' : c.takeBackAt ≤ clock') :
    ∃ admitted, Tracks rl (trace ++ [c]) key admitted clock' := by
  have hle : c.reading ≤ clock' := by
    obtain ⟨h1, h2, h3, h4, h5⟩ := horder
    omega
  have hbefore : ∀ e ∈ admitted, e < c.reading := by
    intro e he
    obtain ⟨c', hc', rfl⟩ := h.read e he
    exact hpast c' hc'
  have hread : ∀ e ∈ admitted, ∃ c' ∈ trace ++ [c], c'.reading = e := by
    intro e he
    obtain ⟨c', hc', rfl⟩ := h.read e he
    exact ⟨c', List.mem_append_left _ hc', rfl⟩
  have hset : (rl.run (trace ++ [c])).1 = (rl.allow (rl.run trace).1 c).2 :=
    congrArg Prod.fst (rl.run_concat trace c)
  have hlog : rl.log (trace ++ [c]) =
      rl.log trace ++ [⟨c.key, c.reading * 1000, (rl.allow (rl.run trace).1 c).1⟩] :=
    congrArg Prod.snd (rl.run_concat trace c)
  by_cases hkey : c.key = key
  · subst hkey
    obtain ⟨-, hmirrors⟩ :=
      allowOn_spec h.mirrors le_rfl hbefore h.nodup horder hprompt h.log hclock'
    refine ⟨if (rl.allowOn ((rl.run trace).1 (rkey c.key)) c).1 then admitted ++ [c.reading]
      else admitted, ?_, ?_, ?_, ?_⟩
    · rw [hlog, admissions_append, h.log, admissions_singleton]
      simp only [RedisRateLimiter.allow, decide_true, Bool.and_true]
      split <;> simp
    · split
      · refine List.nodup_append.mpr ⟨h.nodup, List.nodup_singleton _, ?_⟩
        intro e he e' he'
        rw [List.mem_singleton.mp he']
        exact (hbefore e he).ne
      · exact h.nodup
    · intro e he
      split at he
      · rcases List.mem_append.mp he with he | he
        · exact hread e he
        · exact ⟨c, List.mem_append_right _ (List.mem_singleton_self _), (List.mem_singleton.mp he).symm⟩
      · exact hread e he
    · rw [hset]
      simpa [RedisRateLimiter.allow] using hmirrors
  · refine ⟨admitted, ?_, h.nodup, hread, ?_⟩
    · rw [hlog, admissions_append, h.log, admissions_singleton]
      simp [hkey]
    · have hother : (rl.run (trace ++ [c])).1 (rkey key) = (rl.run trace).1 (rkey key) := by
        rw [hset]
        exact Function.update_of_ne (rkey_injective.ne (Ne.symm hkey)) _ _
      rw [hother]
      refine ⟨h.mirrors.known, ?_, h.mirrors.lives⟩
      intro e he hin
      exact h.mirrors.kept e he (by omega)

/-- **The run lemma.**  The log of a sequential trace is exact, and every key's set
mirrors it. -/
theorem RedisRateLimiter.run_spec (hseq : Sequential trace) (hprompt : ∀ c ∈ trace, rl.Prompt c) :
    Exact rl.limit rl.window (rl.log trace) ∧
      ∀ clock, (∀ c ∈ trace, c.takeBackAt ≤ clock) →
        ∀ key, ∃ admitted, Tracks rl trace key admitted clock := by
  induction trace using List.reverseRecOn with
  | nil =>
    refine ⟨exact_nil, ?_⟩
    intro clock _ key
    exact ⟨[], rfl, List.nodup_nil, nofun, nofun, nofun, nofun⟩
  | append_singleton trace c ih =>
    obtain ⟨hbefore, horder, hdone, hpast⟩ := hseq.of_concat
    have hc := hprompt c (List.mem_append_right _ (List.mem_singleton_self _))
    obtain ⟨hexact, htracks⟩ := ih hbefore fun c' hc' => hprompt c' (List.mem_append_left _ hc')
    have hnow := htracks c.reading hdone
    refine ⟨?_, ?_⟩
    · obtain ⟨admitted, htrack⟩ := hnow c.key
      rw [RedisRateLimiter.log, run_concat]
      refine exact_concat.mpr ⟨hexact, ?_⟩
      refine (allowOn_spec htrack.mirrors le_rfl ?_ htrack.nodup horder hc htrack.log le_rfl).1
      intro e he
      obtain ⟨c', hc', rfl⟩ := htrack.read e he
      exact hpast c' hc'
    · intro clock hclock key
      obtain ⟨admitted, htrack⟩ := hnow key
      exact htrack.concat hpast horder hc
        (hclock c (List.mem_append_right _ (List.mem_singleton_self _)))

/-- The log has the calls of the trace. -/
theorem RedisRateLimiter.log_calls (rl : RedisRateLimiter) (trace : List TimedCall) :
    (rl.log trace).map (fun c => (c.key, c.time)) =
      trace.map fun c => (c.key, c.reading * 1000) := by
  induction trace using List.reverseRecOn with
  | nil => rfl
  | append_singleton trace c ih =>
    rw [RedisRateLimiter.log, run_concat, List.map_append, ih, List.map_append]
    rfl

/-- **The limiters agree** on every sequential trace whose pipelines are executed in time. -/
theorem log_eq_inMemory {events : List LimiterEvent} (hseq : Sequential trace)
    (hprompt : ∀ c ∈ trace, rl.Prompt c) (hsame : SameCalls trace events) :
    rl.log trace = rl.inMemory.log events := by
  refine Exact.unique (RedisRateLimiter.run_spec hseq hprompt).1 (run_spec hsame.clock).1 ?_
  rw [rl.log_calls, log_calls, hsame.calls]

/-- Two calls of a window of 1.999999 seconds and a limit of one, both executed a little
after they read the clock.  The key's lifetime is two seconds. -/
def lateCalls : List TimedCall :=
  [⟨lit "1", 0, 50, 50, 50, 50, 50⟩, ⟨lit "1", 1999990, 2000060, 2000060, 2000060, 2000060, 2000060⟩]

/-- The second call finds the key gone, though the first is in its window. -/
theorem not_log_eq_inMemory_lateCalls :
    let rl : RedisRateLimiter := ⟨1, 1999999000⟩
    let events : List LimiterEvent := [.allow (lit "1") 0, .allow (lit "1") 1999990000]
    1000 ∣ rl.window ∧ Sequential lateCalls ∧ SameCalls lateCalls events ∧
      rl.log lateCalls ≠ rl.inMemory.log events := by
  refine ⟨by decide, ⟨by decide, by decide, by decide⟩, ⟨by decide, by decide⟩, ?_⟩
  intro h
  exact absurd (congrArg (List.map SlidingWindow.Call.admitted) h) (by decide)

/-- A key of its own for another user, a call that is refused, and one that comes after
the key has expired. -/
theorem log_eq_inMemory_expired_key :
    let rl : RedisRateLimiter := ⟨1, 1000000000⟩
    let trace : List TimedCall :=
      [⟨lit "1", 0, 20, 30, 40, 50, 60⟩, ⟨lit "2", 100, 120, 130, 140, 150, 160⟩,
        ⟨lit "1", 999999, 1000010, 1000020, 1000030, 1000040, 1000050⟩,
        ⟨lit "1", 4000000, 4000010, 4000020, 4000030, 4000040, 4000050⟩]
    rl.log trace = rl.inMemory.log [.allow (lit "1") 0, .allow (lit "2") 100000,
      .allow (lit "1") 999999000, .cleanup 2000000000, .allow (lit "1") 4000000000] :=
  log_eq_inMemory ⟨by decide, by decide, by decide⟩ (by decide) ⟨by decide, by decide⟩

end UniLLM.Middleware
