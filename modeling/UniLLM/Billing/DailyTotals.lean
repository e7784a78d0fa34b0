import UniLLM.Billing.Conservation
import UniLLM.Go.Number

/-!
# Daily totals

What a user spent on a day is known twice.  `RecordUsage` adds the cost to a counter in
Redis, on the day it reads from the clock; the counter lives for 48 hours from its last
charge.  The rows of `usage_logs` are summed by the day of `created_at`.  An entry does
not carry its date, so `created_at` is left to the database: it is the time of the
insertion.

Calls, flushes and the clock interleave.  The totals of a day agree if no entry is on its
way to the table when the day changes.
-/

namespace UniLLM.Billing
open Go Transition

namespace Daily
open Flush (acceptedOf costOf)

/-- Seconds for which Redis keeps a counter after its last `Expire`. -/
def lifetime : Key → Int
  | .daily _ _ => 48 * 3600
  | .model _ _ => 25 * 3600
  -- it is never given one
  | .total _ => 0

structure State where
  flush : Flush.State
  /-- The clock, in seconds. -/
  now : Int
  /-- The `created_at` of the rows. -/
  created : List Int
  /-- The counters there are. -/
  present : Key → Bool
  /-- When their lifetimes end. -/
  deadline : Key → Option Int
  /-- The counters that Redis has dropped at the end of a lifetime, now or before. -/
  dropped : Key → Bool

inductive Action where
  | advance (now : Int)
  /-- A `RecordUsage` call reads the clock; `hour` is what it reads the second time. -/
  | call (record : UsageRecord) (hour : GoString)
  /-- Another step of the store. -/
  | store (a : Flush.Action)

/-- The lifetime of the counter is over. -/
def State.over (s : State) (now : Int) (key : Key) : Bool :=
  (s.deadline key).any fun deadline => decide (deadline ≤ now)

/-- The clock goes on, and Redis drops what is over. -/
def advance (s : State) (now : Int) : State :=
  { s with
    flush := { s.flush with
      redis := { s.flush.redis with
        counters := fun key => if s.over now key then 0 else s.flush.redis.counters key } }
    now := now
    present := fun key => s.present key && !s.over now key
    deadline := fun key => if s.over now key then none else s.deadline key
    dropped := fun key => s.dropped key || s.over now key }

/-- What a command does to the lifetimes. -/
def expire (s : State) : Command → State
  | .incrBy key _ => { s with present := Function.update s.present key true }
  | .expire key =>
    -- a counter that is not there gets no lifetime
    if s.present key then
      { s with deadline := Function.update s.deadline key (some (s.now + lifetime key)) }
    else s
  | .rPush _ => s

/-- The next command of call `j`. -/
def nextCommand (s : State) (j : Nat) : Option Command :=
  (s.flush.calls[j]?).bind fun c => c.commands[c.executed]?

/-- A step of the store: a new row is created now. -/
def store (s : State) (a : Flush.Action) (flush : Flush.State) : State :=
  let s := match a with
    | .command j => ((nextCommand s j).map (expire s)).getD s
    | _ => s
  { s with
    flush := flush
    created := s.created ++ List.replicate (flush.rows.length - s.flush.rows.length) s.now }

section Steps
variable (dayOf : Int → GoString)

/-- The steps; `dayOf` is the calendar day in the time zone of the server. -/
def step (s : State) : Action → Option State
  | .advance now => if s.now ≤ now then some (advance s now) else none
  | .call record hour =>
    (Flush.step s.flush (.call record (dayOf s.now) hour)).map fun flush => { s with flush := flush }
  | .store (.call ..) => none
  | .store a => (Flush.step s.flush a).map (store s a)

/-- Nothing recorded yet. -/
def start (now : Int) : State :=
  ⟨Flush.start, now, [], fun _ => false, fun _ => none, fun _ => false⟩

/-- The cost of the user's rows of a day, as `Daily` sums it. -/
def dailyCost (s : State) (userID : Int) (day : GoString) : Rat :=
  (((s.flush.rows.zip s.created).filter fun row =>
    row.1.userID == userID && dayOf row.2 == day).map (·.1.cost)).sum

/-- Every call has executed its pipeline, the queue is empty and no entry is in hand. -/
def State.Drained (s : State) : Prop :=
  s.flush.redis.queue = [] ∧ s.flush.Quiet ∧ ∀ c ∈ s.flush.calls, c.executed = c.commands.length

instance (s : State) : Decidable s.Drained := inferInstanceAs (Decidable (_ ∧ _ ∧ _))

/-- The two totals of every user and day, but for counters that Redis has dropped. -/
def TotalsAgree (s : State) : Prop :=
  ∀ (userID : Int) (day : GoString), s.dropped (.daily userID day) = false →
    s.flush.redis.counters (.daily userID day) = dailyCost dayOf s userID day

/-- No entry is lost, and none is on its way when the day changes. -/
def StoresSameDay (s : State) : Action → Prop
  | .advance now => dayOf now = dayOf s.now ∨ s.Drained
  | .call .. => True
  | .store a => Flush.KeepsEntries s.flush a

instance (s : State) (a : Action) : Decidable (StoresSameDay dayOf s a) := by
  unfold StoresSameDay
  split <;> infer_instance

/-! ### The invariant -/

/-- The calls that are dated on a day. -/
def callsOn (day : GoString) (calls : List Flush.Call) : List Flush.Call :=
  calls.filter fun c => c.day == day

/-- The records of the calls that have charged the counter of their day. -/
def countedOf (calls : List Flush.Call) : List UsageRecord :=
  (calls.filter fun c => decide (1 ≤ c.executed)).map (·.record)

/-- The records whose rows are created on a day. -/
def storedOn (stored : List UsageRecord) (created : List Int) (day : GoString) :
    List UsageRecord :=
  ((stored.zip created).filter fun row => dayOf row.2 == day).map (·.1)

/-- The records on their way, and those in the table. -/
structure Inv (s : State) (pending : Multiset UsageRecord) (stored : List UsageRecord) : Prop where
  outstanding_eq : (s.flush.outstanding : Multiset GoString) = pending.map logBytes
  rows_eq : s.flush.rows = stored.map UsageRecord.row
  length_eq : s.created.length = stored.length
  /-- Every accepted record is in the table on its day, or on its way and of today. -/
  days : ∀ day, (storedOn dayOf stored s.created day : Multiset UsageRecord) +
    (if day = dayOf s.now then pending else 0) = acceptedOf (callsOn day s.flush.calls)
  today : ∀ c ∈ s.flush.calls, c.executed ≠ c.commands.length → c.day = dayOf s.now
  counted : ∀ (userID : Int) (day : GoString), s.dropped (.daily userID day) = false →
    s.flush.redis.counters (.daily userID day) = costOf userID (countedOf (callsOn day s.flush.calls))

end Steps

variable {dayOf : Int → GoString} {s s' : State} {pending : Multiset UsageRecord}
  {stored : List UsageRecord}

theorem inv_start (now : Int) : Inv dayOf (start now) 0 [] where
  outstanding_eq := rfl
  rows_eq := rfl
  length_eq := rfl
  days := fun day => by
    rw [ite_self, add_zero]
    rfl
  today := fun _ h => by cases h
  counted := fun _ _ _ => rfl

/-- The cost of a day's rows is that of their records. -/
theorem dailyCost_eq (h : s.flush.rows = stored.map UsageRecord.row) (userID : Int)
    (day : GoString) :
    dailyCost dayOf s userID day = costOf userID (storedOn dayOf stored s.created day) := by
  unfold dailyCost costOf storedOn
  rw [h, List.zip_map_left, List.filter_map, List.map_map, List.filter_map, List.filter_filter,
    List.map_map]
  rfl

theorem Inv.pending_eq_zero (h : Inv dayOf s pending stored) (hdrained : s.Drained) :
    pending = 0 := by
  obtain ⟨hqueue, ⟨hworker, hfinal⟩, -⟩ := hdrained
  have hnone : pending.map logBytes = 0 := by
    rw [← h.outstanding_eq, Flush.State.outstanding, hqueue, hworker, hfinal]
    rfl
  exact Multiset.map_eq_zero.mp hnone

/-- **When everything is stored**, the totals agree. -/
theorem Inv.totalsAgree (h : Inv dayOf s pending stored) (hdrained : s.Drained) :
    TotalsAgree dayOf s := by
  intro userID day hkept
  have hpending := h.pending_eq_zero hdrained
  have hdone := hdrained.2.2
  have hall : countedOf (callsOn day s.flush.calls) = acceptedOf (callsOn day s.flush.calls) := by
    unfold countedOf acceptedOf
    congr 1
    refine List.filter_congr fun c hc => ?_
    rw [hdone c (List.mem_filter.mp hc).1]
    simp [Flush.Call.commands, recordCommands]
  have hperm := h.days day
  rw [hpending, ite_self, add_zero, Multiset.coe_eq_coe] at hperm
  rw [h.counted userID day hkept, hall, dailyCost_eq h.rows_eq, Flush.costOf_perm hperm]

/-! ### Calls of a day -/

theorem callsOn_append (day : GoString) (cs cs' : List Flush.Call) :
    callsOn day (cs ++ cs') = callsOn day cs ++ callsOn day cs' := List.filter_append ..

theorem countedOf_append (cs cs' : List Flush.Call) :
    countedOf (cs ++ cs') = countedOf cs ++ countedOf cs' := by
  simp [countedOf]

theorem acceptedOf_callsOn (day : GoString) (c : Flush.Call) :
    acceptedOf (callsOn day [c]) = if c.day = day then acceptedOf [c] else [] := by
  by_cases h : c.day = day <;> simp [callsOn, h, acceptedOf]

theorem countedOf_callsOn (day : GoString) (c : Flush.Call) :
    countedOf (callsOn day [c]) = if c.day = day then countedOf [c] else [] := by
  by_cases h : c.day = day <;> simp [callsOn, h, countedOf]

/-! ### One step -/

/-- The clock goes on: to another day only if everything is stored. -/
theorem inv_advance {now : Int} (h : Inv dayOf s pending stored)
    (hgood : StoresSameDay dayOf s (.advance now)) : Inv dayOf (advance s now) pending stored := by
  refine ⟨h.outstanding_eq, h.rows_eq, h.length_eq, fun day => ?_, fun c hc hrest => ?_,
    fun userID day hkept => ?_⟩
  · rcases hgood with hsame | hdrained
    · simp only [advance, hsame]
      exact h.days day
    · have hday := h.days day
      rw [h.pending_eq_zero hdrained, ite_self] at hday ⊢
      exact hday
  · rcases hgood with hsame | ⟨-, -, hdone⟩
    · exact (h.today c hc hrest).trans hsame.symm
    · exact absurd (hdone c hc) hrest
  · simp only [advance, Bool.or_eq_false_iff] at hkept
    simp only [advance, hkept.2]
    exact h.counted userID day hkept.1

/-- A new call is of today, and neither counted nor accepted. -/
theorem inv_call {record : UsageRecord} {hour : GoString} (h : Inv dayOf s pending stored) :
    Inv dayOf { s with flush := { s.flush with
      calls := s.flush.calls ++ [⟨record, dayOf s.now, hour, 0⟩] } } pending stored := by
  have haccepted : acceptedOf [⟨record, dayOf s.now, hour, 0⟩] = [] := rfl
  have hcounted : countedOf [⟨record, dayOf s.now, hour, 0⟩] = [] := rfl
  refine ⟨h.outstanding_eq, h.rows_eq, h.length_eq, fun day => ?_, fun c hc hrest => ?_,
    fun userID day hkept => ?_⟩
  · rw [callsOn_append, Flush.acceptedOf_append, acceptedOf_callsOn, haccepted, ite_self,
      List.append_nil]
    exact h.days day
  · rcases List.mem_append.mp hc with hold | hnew
    · exact h.today c hold hrest
    · rw [List.mem_singleton.mp hnew]
  · rw [callsOn_append, countedOf_append, countedOf_callsOn, hcounted, ite_self, List.append_nil]
    exact h.counted userID day hkept

/-- A command changes lifetimes, and what the store has. -/
theorem store_command {j : Nat} {c : Flush.Call} {cmd : Command} {flush : Flush.State}
    (hc : s.flush.calls[j]? = some c) (hcmd : c.commands[c.executed]? = some cmd)
    (hrows : flush.rows = s.flush.rows) :
    (store s (.command j) flush).now = s.now ∧ (store s (.command j) flush).created = s.created ∧
      (store s (.command j) flush).dropped = s.dropped := by
  have hexpire : (expire s cmd).flush = s.flush ∧ (expire s cmd).now = s.now ∧
      (expire s cmd).created = s.created ∧ (expire s cmd).dropped = s.dropped := by
    unfold expire
    split
    · exact ⟨rfl, rfl, rfl, rfl⟩
    · split <;> exact ⟨rfl, rfl, rfl, rfl⟩
    · exact ⟨rfl, rfl, rfl, rfl⟩
  obtain ⟨hflush, hnow, hcreated, hdropped⟩ := hexpire
  simp only [store, nextCommand, hc, hcmd, Option.bind_some, Option.map_some, Option.getD_some,
    hflush, hnow, hcreated, hdropped, hrows, Nat.sub_self, List.replicate_zero, List.append_nil,
    and_self]

/-- Call `j` after the next command. -/
def afterCommand (s : State) (j : Nat) (c : Flush.Call) (cmd : Command) : Flush.State :=
  { s.flush with
    redis := s.flush.redis.run cmd
    calls := s.flush.calls.set j { c with executed := c.executed + 1 } }

/-- A command of a call keeps the invariant if what it pushes is what the call then is
accepted for, and what it adds to the counter of its day is what it then is counted for. -/
theorem inv_of_command {c : Flush.Call} {cmd : Command} {j : Nat} (h : Inv dayOf s pending stored)
    (hc : s.flush.calls[j]? = some c) (hcmd : c.commands[c.executed]? = some cmd)
    (pushed charged : List UsageRecord)
    (haccepted : acceptedOf [{ c with executed := c.executed + 1 }] = acceptedOf [c] ++ pushed)
    (hcounted : countedOf [{ c with executed := c.executed + 1 }] = countedOf [c] ++ charged)
    (hqueue : (s.flush.redis.run cmd).queue = s.flush.redis.queue ++ pushed.map logBytes)
    (hcounters : ∀ userID day, (s.flush.redis.run cmd).counters (.daily userID day) =
      s.flush.redis.counters (.daily userID day) +
        costOf userID (if c.day = day then charged else [])) :
    Inv dayOf (store s (.command j) (afterCommand s j c cmd)) (pending + pushed) stored := by
  have hrows : (afterCommand s j c cmd).rows = s.flush.rows := rfl
  obtain ⟨hnow, hcreated, hdropped⟩ := store_command hc hcmd hrows
  have hflush : (store s (.command j) (afterCommand s j c cmd)).flush = afterCommand s j c cmd := rfl
  have hunder : c.executed ≠ c.commands.length :=
    Nat.ne_of_lt (List.getElem?_eq_some_iff.mp hcmd).1
  have htoday : c.day = dayOf s.now := h.today c (List.mem_of_getElem? hc) hunder
  obtain ⟨pre, post, hcalls, hset⟩ := split_at hc
  generalize store s (.command j) (afterCommand s j c cmd) = s' at hnow hcreated hdropped hflush ⊢
  refine ⟨?_, by rw [hflush]; exact h.rows_eq, by rw [hcreated]; exact h.length_eq, fun day => ?_,
    fun c₁ hc₁ hrest => ?_, fun userID day hkept => ?_⟩
  · have hold := h.outstanding_eq
    simp only [Flush.State.outstanding, ← Multiset.coe_add] at hold
    simp only [hflush, afterCommand, Flush.State.outstanding, hqueue, ← Multiset.coe_add,
      Multiset.map_add, ← hold, Multiset.map_coe]
    abel
  · have hold := h.days day
    rw [hcalls] at hold
    simp only [callsOn_append, Flush.acceptedOf_append, acceptedOf_callsOn, ← Multiset.coe_add] at hold
    simp only [hflush, afterCommand, hset, callsOn_append, Flush.acceptedOf_append,
      acceptedOf_callsOn, haccepted, hnow, hcreated, ← Multiset.coe_add]
    by_cases hd : day = dayOf s.now
    · -- the day of the call, and of what is on its way
      have hdc : c.day = day := htoday.trans hd.symm
      rw [if_pos hd, if_pos hdc] at hold ⊢
      rw [← Multiset.coe_add, ← add_assoc, hold]
      abel
    · have hdc : ¬ c.day = day := fun he => hd (he.symm.trans htoday)
      rw [if_neg hd, if_neg hdc] at hold ⊢
      exact hold
  · rw [hflush] at hc₁
    rw [hnow]
    rcases List.mem_or_eq_of_mem_set hc₁ with hold | rfl
    · exact h.today c₁ hold hrest
    · exact htoday
  · rw [hdropped] at hkept
    have hold := h.counted userID day hkept
    rw [hcalls] at hold
    simp only [callsOn_append, countedOf_append, countedOf_callsOn, Flush.costOf_append] at hold
    simp only [hflush, afterCommand, hset, callsOn_append, countedOf_append, countedOf_callsOn,
      hcounted, hcounters, Flush.costOf_append, hold]
    split
    · rw [Flush.costOf_append]
      ring
    · rw [Flush.costOf_nil]
      ring

/-- A command that counts nothing and pushes nothing. -/
theorem inv_of_aside {c : Flush.Call} {cmd : Command} {j : Nat} (h : Inv dayOf s pending stored)
    (hc : s.flush.calls[j]? = some c) (hcmd : c.commands[c.executed]? = some cmd)
    (haccepted : acceptedOf [{ c with executed := c.executed + 1 }] = acceptedOf [c])
    (hcounted : countedOf [{ c with executed := c.executed + 1 }] = countedOf [c])
    (hqueue : (s.flush.redis.run cmd).queue = s.flush.redis.queue)
    (hcounters : ∀ userID day, (s.flush.redis.run cmd).counters (.daily userID day) =
      s.flush.redis.counters (.daily userID day)) :
    Inv dayOf (store s (.command j) (afterCommand s j c cmd)) pending stored := by
  have hinv := inv_of_command h hc hcmd [] [] (by rw [haccepted, List.append_nil])
    (by rw [hcounted, List.append_nil]) (by rw [hqueue, List.map_nil, List.append_nil])
    (fun userID day => by rw [hcounters, ite_self, Flush.costOf_nil, add_zero])
  rwa [Multiset.coe_nil, add_zero] at hinv

/-- What a record adds to the counter of its day. -/
theorem counters_count (counters : Key → Rat) (r : UsageRecord) (day : GoString) (userID : Int)
    (day' : GoString) :
    Function.update counters (.daily r.userID.val day)
        (counters (.daily r.userID.val day) + r.cost.value) (.daily userID day') =
      counters (.daily userID day') + costOf userID (if day = day' then [r] else []) := by
  by_cases h : r.userID.val = userID ∧ day = day'
  · obtain ⟨rfl, rfl⟩ := h
    simp [costOf]
  · have hne : Key.daily userID day' ≠ Key.daily r.userID.val day := by
      intro he
      injection he with huser hday
      exact h ⟨huser.symm, hday.symm⟩
    rw [Function.update_of_ne hne]
    by_cases hday : day = day'
    · have huser : r.userID.val ≠ userID := fun he => h ⟨he, hday⟩
      simp [costOf, hday, huser]
    · simp [hday]

theorem inv_command {j : Nat} {flush : Flush.State} (h : Inv dayOf s pending stored)
    (hstep : Flush.step s.flush (.command j) = some flush) :
    ∃ pending, Inv dayOf (store s (.command j) flush) pending stored := by
  obtain ⟨c, cmd, hc, hcmd, hflush⟩ := Flush.command_cases hstep
  obtain rfl : flush = afterCommand s j c cmd := hflush
  obtain ⟨r, day, hour, executed⟩ := c
  -- the first command counts and the sixth pushes; the others are about other keys
  match executed, hcmd with
  | 0, hcmd =>
    obtain rfl := Option.some.inj hcmd
    exact ⟨_, inv_of_command h hc hcmd [] [r] rfl rfl (List.append_nil _).symm
      (counters_count s.flush.redis.counters r day)⟩
  | 1, hcmd =>
    obtain rfl := Option.some.inj hcmd
    exact ⟨_, inv_of_aside h hc hcmd rfl rfl rfl fun _ _ => rfl⟩
  | 2, hcmd =>
    obtain rfl := Option.some.inj hcmd
    exact ⟨_, inv_of_aside h hc hcmd rfl rfl rfl fun _ _ =>
      Redis.run_incrBy_of_ne fun he => by cases he⟩
  | 3, hcmd =>
    obtain rfl := Option.some.inj hcmd
    exact ⟨_, inv_of_aside h hc hcmd rfl rfl rfl fun _ _ =>
      Redis.run_incrBy_of_ne fun he => by cases he⟩
  | 4, hcmd =>
    obtain rfl := Option.some.inj hcmd
    exact ⟨_, inv_of_aside h hc hcmd rfl rfl rfl fun _ _ => rfl⟩
  | 5, hcmd =>
    obtain rfl := Option.some.inj hcmd
    refine ⟨_, inv_of_command h hc hcmd [r] [] rfl rfl rfl fun _ _ => ?_⟩
    rw [ite_self, Flush.costOf_nil, add_zero]
    rfl
  | k + 6, hcmd => cases hcmd

/-- Rows are created one after the other. -/
theorem storedOn_concat {created : List Int} (hlength : created.length = stored.length)
    (r : UsageRecord) (now : Int) (day : GoString) :
    storedOn dayOf (stored ++ [r]) (created ++ [now]) day =
      storedOn dayOf stored created day ++ if dayOf now = day then [r] else [] := by
  unfold storedOn
  rw [List.zip_append hlength.symm, List.filter_append, List.map_append]
  by_cases h : dayOf now = day <;> simp [h]

/-- A record of today goes from its way into the table. -/
theorem days_of_insertion [DecidableEq UsageRecord] {r : UsageRecord} (hr : r ∈ pending)
    {day today : GoString} {before accepted : Multiset UsageRecord}
    (h : before + (if day = today then pending else 0) = accepted) :
    before + ((if today = day then [r] else [] : List UsageRecord) : Multiset UsageRecord) +
      (if day = today then pending.erase r else 0) = accepted := by
  by_cases hd : day = today
  · subst hd
    rw [if_pos rfl] at h ⊢
    rw [if_pos rfl, add_assoc, Multiset.coe_singleton, Multiset.singleton_add, Multiset.cons_erase hr]
    exact h
  · rw [if_neg hd] at h ⊢
    rw [if_neg fun he => hd he.symm, Multiset.coe_nil, add_zero]
    exact h

theorem inv_flusher {a : Flush.Action} {flush : Flush.State} (h : Inv dayOf s pending stored)
    (ha : a.isFlusher = true) (hkeeps : Flush.KeepsEntries s.flush a)
    (hstep : Flush.step s.flush a = some flush) :
    ∃ pending stored, Inv dayOf (store s a flush) pending stored := by
  have hstore : store s a flush = { s with
      flush := flush
      created := s.created ++ List.replicate (flush.rows.length - s.flush.rows.length) s.now } := by
    cases a <;> first | rfl | cases ha
  obtain ⟨hcalls, hcounters, hentries⟩ := Flush.flusherStep ha hstep
  have hcounted : ∀ (userID : Int) (day : GoString), s.dropped (.daily userID day) = false →
      flush.redis.counters (.daily userID day) = costOf userID (countedOf (callsOn day flush.calls)) := by
    rw [hcalls, hcounters]
    exact h.counted
  have htoday : ∀ c ∈ flush.calls, c.executed ≠ c.commands.length → c.day = dayOf s.now := by
    rw [hcalls]
    exact h.today
  rw [hstore]
  classical
  rcases hentries with ⟨hrows, hperm⟩ | ⟨data, ul, hparse, hrows, hperm⟩ | ⟨data, hrows, hperm, hlost⟩
  · -- entries are moved about
    refine ⟨pending, stored, ?_, hrows.trans h.rows_eq, ?_, ?_, htoday, hcounted⟩
    · rw [← Multiset.coe_eq_coe.mpr hperm]
      exact h.outstanding_eq
    · simpa [hrows] using h.length_eq
    · simpa [hrows, hcalls] using h.days
  · -- a row is created
    have hout := h.outstanding_eq
    rw [Multiset.coe_eq_coe.mpr hperm, ← Multiset.cons_coe] at hout
    obtain ⟨r, hr, rfl, hrest⟩ := (Multiset.map_eq_cons _ _ _ _).mpr hout.symm
    obtain rfl := Option.some.inj (hparse.symm.trans (parseUsageLog_logBytes r))
    refine ⟨pending.erase r, stored ++ [r], hrest.symm, ?_, ?_, fun day => ?_, htoday, hcounted⟩
    · rw [hrows, h.rows_eq, List.map_append]
      rfl
    · simp [hrows, h.length_eq]
    · have hone : flush.rows.length - s.flush.rows.length = 1 := by simp [hrows]
      simp only [hone, List.replicate_one, hcalls, storedOn_concat h.length_eq, ← Multiset.coe_add]
      exact days_of_insertion hr (h.days day)
  · -- an entry is skipped: there is none that does not parse
    have hout := h.outstanding_eq
    rw [Multiset.coe_eq_coe.mpr hperm, ← Multiset.cons_coe] at hout
    obtain ⟨r, -, rfl, -⟩ := (Multiset.map_eq_cons _ _ _ _).mpr hout.symm
    exact absurd ((hlost hkeeps).symm.trans (parseUsageLog_logBytes r)) (by simp)

/-- **One step.** -/
theorem step_inv {a : Action} (h : ∃ pending stored, Inv dayOf s pending stored)
    (hgood : StoresSameDay dayOf s a) (hstep : step dayOf s a = some s') :
    ∃ pending stored, Inv dayOf s' pending stored := by
  obtain ⟨pending, stored, h⟩ := h
  cases a with
  | advance now =>
    simp only [step] at hstep
    split at hstep
    · obtain rfl := Option.some.inj hstep
      exact ⟨pending, stored, inv_advance h hgood⟩
    · cases hstep
  | call record hour =>
    simp only [step, Flush.step, Option.map_some] at hstep
    obtain rfl := Option.some.inj hstep
    exact ⟨pending, stored, inv_call h⟩
  | store a =>
    by_cases hflusher : a.isFlusher = true
    · have hsome : (Flush.step s.flush a).map (store s a) = some s' := by
        cases a <;> first | exact hstep | cases hflusher
      obtain ⟨flush, hflush, rfl⟩ := Option.map_eq_some_iff.mp hsome
      exact inv_flusher h hflusher hgood hflush
    · cases a with
      | call record day hour => cases hstep
      | command j =>
        obtain ⟨flush, hflush, rfl⟩ := Option.map_eq_some_iff.mp hstep
        obtain ⟨pending, h⟩ := inv_command h hflush
        exact ⟨pending, stored, h⟩
      | _ => exact absurd rfl hflusher

/-! ### Whole runs -/

/-- **The run lemma.** -/
theorem exec_inv {now : Int} {as : List Action}
    (hgood : Along (step dayOf) (StoresSameDay dayOf) (start now) as)
    (hexec : exec (step dayOf) (start now) as = some s) :
    ∃ pending stored, Inv dayOf s pending stored :=
  exec_invariant (fun _ _ _ h hgood hstep => step_inv h hgood hstep) ⟨0, [], inv_start now⟩ hgood hexec

/-- At least `width` digits. -/
def padded (width : Nat) (n : Int) : GoString :=
  List.replicate (width - (formatInt n).length) 48 ++ formatInt n

/-- `Format("2006-01-02")` of a time in UTC.  Years are counted from a first of March, so
that a leap day is the last day. -/
def formatDay (seconds : Int) : GoString :=
  let days := seconds / 86400 + 719468
  let dayOfEra := days % 146097
  let yearOfEra := (dayOfEra - dayOfEra / 1460 + dayOfEra / 36524 - dayOfEra / 146096) / 365
  let dayOfYear := dayOfEra - (365 * yearOfEra + yearOfEra / 4 - yearOfEra / 100)
  let month := (5 * dayOfYear + 2) / 153
  let day := dayOfYear - (153 * month + 2) / 5 + 1
  let year := days / 146097 * 400 + yearOfEra
  if month < 10 then padded 4 year ++ lit "-" ++ padded 2 (month + 3) ++ lit "-" ++ padded 2 day
  else padded 4 (year + 1) ++ lit "-" ++ padded 2 (month - 9) ++ lit "-" ++ padded 2 day

example : formatDay 1709164799 = lit "2024-02-28" ∧ formatDay 1709164800 = lit "2024-02-29" ∧
    formatDay 1709251200 = lit "2024-03-01" := by decide +kernel

/-- The last second of a day. -/
def beforeMidnight : Int := 1714607999

/-- A call that records a dollar. -/
def record (hour : GoString) (j : Nat) : List Action :=
  .call Flush.oneDollar hour :: List.replicate 6 (.store (.command j))

/-- A tick of the worker that stores one entry. -/
def flushOne : List Action :=
  [.store .tick, .store .workerPop, .store (.workerInsert true), .store .workerPop]

/-- The entry is flushed a second after it is recorded. -/
def overMidnight : List Action :=
  record (lit "2024-05-01-23") 0 ++ .advance (beforeMidnight + 1) :: flushOne

/-- The counter is of one day and the row of the next. -/
theorem not_totalsAgree_overMidnight :
    ∃ s, exec (step formatDay) (start beforeMidnight) overMidnight = some s ∧ s.Drained ∧
      ¬ TotalsAgree formatDay s := by
  have hwrong : (exec (step formatDay) (start beforeMidnight) overMidnight).any (fun s => decide (
      s.Drained ∧ s.dropped (.daily 1 (lit "2024-05-01")) = false ∧
        s.flush.redis.counters (.daily 1 (lit "2024-05-01")) ≠
          dailyCost formatDay s 1 (lit "2024-05-01"))) = true := by
    decide +kernel
  obtain ⟨s, hs, hwrong⟩ := (Option.any_eq_true _ _).mp hwrong
  obtain ⟨hdrained, hkept, hne⟩ := of_decide_eq_true hwrong
  exact ⟨s, hs, hdrained, fun h => hne (h 1 (lit "2024-05-01") hkept)⟩

/-- **The daily totals agree** when everything is stored, along every run that loses no
entry and has none on its way when the day changes. -/
theorem totalsAgree_of_storesSameDay {now : Int} {as : List Action}
    (hgood : Along (step dayOf) (StoresSameDay dayOf) (start now) as)
    (hexec : exec (step dayOf) (start now) as = some s) (hdrained : s.Drained) :
    TotalsAgree dayOf s := by
  obtain ⟨pending, stored, h⟩ := exec_inv hgood hexec
  exact h.totalsAgree hdrained

/-- A dollar on each of two days, and each is flushed before the day ends. -/
def twoDays : List Action :=
  record (lit "2024-05-01-23") 0 ++ flushOne ++ .advance (beforeMidnight + 1) ::
    record (lit "2024-05-02-00") 1 ++ flushOne

theorem totalsAgree_of_storesSameDay_twoDays :
    ∃ s, exec (step formatDay) (start beforeMidnight) twoDays = some s ∧
      TotalsAgree formatDay s := by
  have hruns : (exec (step formatDay) (start beforeMidnight) twoDays).any
      (fun s => decide s.Drained) = true := by
    decide +kernel
  have hgood : Along (step formatDay) (StoresSameDay formatDay) (start beforeMidnight) twoDays := by
    decide +kernel
  obtain ⟨s, hs, hdrained⟩ := (Option.any_eq_true _ _).mp hruns
  exact ⟨s, hs, totalsAgree_of_storesSameDay hgood hs (of_decide_eq_true hdrained)⟩

end Daily
end UniLLM.Billing
