import UniLLM.Billing.Store
import UniLLM.Lib.Transition
import Mathlib.Algebra.BigOperators.Group.List.Basic
import Mathlib.Algebra.Order.Group.Multiset
import Mathlib.Tactic.Abel
import Mathlib.Tactic.Linarith
import Mathlib.Tactic.Ring

/-!
# Where usage records are

Any number of `RecordUsage` calls put entries into the queue, command by command.
The flush worker takes them out again at its ticks, until its context is
cancelled; `FlushAll` drains the queue at shutdown with a context of its own.
Each takes an entry from the queue before it inserts the row, so in between the
entry is only in its hands.  Redis executes a command exactly once if its context
is live and not at all if it is cancelled; an insertion may fail at any time, and
fails under a cancelled context.

Two branches let go of an entry: `FlushAll` after a failed insertion, and the
worker's push back under a cancelled context.  Along runs that take neither, every
accepted record is in exactly one place.
-/

namespace UniLLM.Billing
open Go Transition

namespace Flush

/-- A `RecordUsage` call: its record, the clock's day and hour, and how many commands
of the pipeline have been executed. -/
structure Call where
  record : UsageRecord
  day : GoString
  hour : GoString
  executed : Nat := 0

def Call.commands (c : Call) : List Command := recordCommands c.record c.day c.hour

/-- Where the flush worker is. -/
inductive Worker where
  | idle
  /-- Before the `i`-th `LPop` of a `flushOnce`. -/
  | popping (i : Nat)
  /-- Before the entry is parsed and inserted. -/
  | holding (i : Nat) (data : GoString)
  /-- Before the push back. -/
  | failed (data : GoString)
  | stopped

/-- Where `FlushAll` is. -/
inductive Final where
  | off
  | popping
  | holding (data : GoString)

structure State where
  redis : Redis
  /-- The table `usage_logs`. -/
  rows : List UsageLog
  calls : List Call
  /-- The worker's context. -/
  cancelled : Bool
  worker : Worker
  final : Final

inductive Action where
  | call (record : UsageRecord) (day hour : GoString)
  /-- The next command of call `j`. -/
  | command (j : Nat)
  | cancel
  | tick
  | stop
  | workerPop
  | workerInsert (ok : Bool)
  | pushBack
  | flushAll
  | finalPop
  | finalInsert (ok : Bool)

/-- `LPop` of the worker, and the test of the loop before it. -/
def workerPop (s : State) (i : Nat) : State :=
  -- an empty queue and a cancelled context both end the loop with an error of `LPop`
  if i < 100 ∧ s.cancelled = false then
    match s.redis.queue with
    | [] => { s with worker := .idle }
    | data :: queue => { s with redis := { s.redis with queue := queue }, worker := .holding i data }
  else { s with worker := .idle }

/-- The worker parses the entry and inserts the row.  An entry that does not parse is
skipped. -/
def workerInsert (s : State) (i : Nat) (data : GoString) (ok : Bool) : State :=
  match parseUsageLog data with
  | none => { s with worker := .popping (i + 1) }
  | some ul =>
    if ok = true ∧ s.cancelled = false then
      { s with rows := s.rows ++ [ul], worker := .popping (i + 1) }
    else { s with worker := .failed data }

/-- The worker's `RPush` after a failed insertion. -/
def pushBack (s : State) (data : GoString) : State :=
  if s.cancelled then { s with worker := .idle }
  else { s with redis := s.redis.run (.rPush data), worker := .idle }

/-- `LPop` of `FlushAll`. -/
def finalPop (s : State) : State :=
  match s.redis.queue with
  | [] => { s with final := .off }
  | data :: queue => { s with redis := { s.redis with queue := queue }, final := .holding data }

/-- `FlushAll` parses the entry and inserts the row; a failure ends it. -/
def finalInsert (s : State) (data : GoString) (ok : Bool) : State :=
  match parseUsageLog data with
  | none => { s with final := .popping }
  | some ul =>
    -- unlike the worker, `FlushAll` does not put the entry back
    if ok then { s with rows := s.rows ++ [ul], final := .popping } else { s with final := .off }

/-- The next command of call `j`. -/
def command (s : State) (j : Nat) : Option State :=
  match s.calls[j]? with
  | none => none
  | some c =>
    (c.commands[c.executed]?).map fun cmd =>
      { s with redis := s.redis.run cmd, calls := s.calls.set j { c with executed := c.executed + 1 } }

def step (s : State) : Action → Option State
  | .call record day hour => some { s with calls := s.calls ++ [⟨record, day, hour, 0⟩] }
  | .command j => command s j
  | .cancel => some { s with cancelled := true }
  | .tick =>
    match s.worker with
    | .idle => some { s with worker := .popping 0 }
    | _ => none
  | .stop =>
    match s.worker, s.cancelled with
    | .idle, true => some { s with worker := .stopped }
    | _, _ => none
  | .workerPop =>
    match s.worker with
    | .popping i => some (workerPop s i)
    | _ => none
  | .workerInsert ok =>
    match s.worker with
    | .holding i data => some (workerInsert s i data ok)
    | _ => none
  | .pushBack =>
    match s.worker with
    | .failed data => some (pushBack s data)
    | _ => none
  | .flushAll =>
    match s.final with
    | .off => some { s with final := .popping }
    | _ => none
  | .finalPop =>
    match s.final with
    | .popping => some (finalPop s)
    | _ => none
  | .finalInsert ok =>
    match s.final with
    | .holding data => some (finalInsert s data ok)
    | _ => none

/-- Nothing recorded yet. -/
def start : State := ⟨⟨fun _ => 0, []⟩, [], [], false, .idle, .off⟩

/-! ### What is conserved -/

/-- The records of the calls that have executed their pipelines. -/
def acceptedOf (calls : List Call) : List UsageRecord :=
  (calls.filter fun c => c.executed == c.commands.length).map (·.record)

/-- The records of the calls that have charged `balance_used` and not yet pushed the
entry. -/
def midwayOf (calls : List Call) : List UsageRecord :=
  (calls.filter fun c => decide (3 ≤ c.executed ∧ c.executed < c.commands.length)).map (·.record)

/-- The entry in the worker's hand. -/
def Worker.hand : Worker → List GoString
  | .holding _ data => [data]
  | .failed data => [data]
  | _ => []

/-- The entry in the hand of `FlushAll`. -/
def Final.hand : Final → List GoString
  | .holding data => [data]
  | _ => []

/-- No flush step is in the middle of an entry. -/
def State.Quiet (s : State) : Prop := s.worker.hand = [] ∧ s.final.hand = []

instance (s : State) : Decidable s.Quiet := inferInstanceAs (Decidable (_ ∧ _))

/-- What a user's records cost. -/
def costOf (user : Int) (rs : List UsageRecord) : Rat :=
  ((rs.filter fun r => r.userID.val == user).map fun r => r.cost.value).sum

/-- Every accepted record is in one place: in the queue as its entry, or in the table as
its row; and these cost what `balance_used` says, but for calls that are between
the two commands. -/
def UsageConserved (s : State) : Prop :=
  ∃ queued stored : List UsageRecord,
    s.redis.queue = queued.map logBytes ∧ s.rows = stored.map UsageRecord.row ∧
      (queued ++ stored).Perm (acceptedOf s.calls) ∧
      ∀ user, s.redis.counters (.total user) =
        costOf user queued + costOf user stored + costOf user (midwayOf s.calls)

/-- A step that does not let go of an entry. -/
def KeepsEntries (s : State) : Action → Prop
  | .pushBack => s.cancelled = false
  | .finalInsert ok => ok = true
  | _ => True

instance (s : State) (a : Action) : Decidable (KeepsEntries s a) := by
  cases a <;> (unfold KeepsEntries; infer_instance)

/-! ### Costs -/

@[simp] theorem costOf_nil (user : Int) : costOf user [] = 0 := rfl

theorem costOf_append (user : Int) (rs rs' : List UsageRecord) :
    costOf user (rs ++ rs') = costOf user rs + costOf user rs' := by
  simp [costOf]

theorem costOf_perm {rs rs' : List UsageRecord} (h : rs.Perm rs') (user : Int) :
    costOf user rs = costOf user rs' :=
  ((h.filter _).map _).sum_eq

/-- What a record adds to `balance_used`. -/
theorem counters_charge (counters : Key → Rat) (r : UsageRecord) (user : Int) :
    Function.update counters (.total r.userID.val) (counters (.total r.userID.val) + r.cost.value)
        (.total user) = counters (.total user) + costOf user [r] := by
  by_cases h : r.userID.val = user
  · subst h
    simp [costOf]
  · have hne : Key.total user ≠ Key.total r.userID.val := fun he => h (Key.total.inj he).symm
    rw [Function.update_of_ne hne]
    simp [costOf, h]

/-! ### The invariant -/

/-- The records in the queue, in the two hands and in the table. -/
structure Holds (s : State) (queued worker final stored : List UsageRecord) : Prop where
  queue_eq : s.redis.queue = queued.map logBytes
  worker_eq : s.worker.hand = worker.map logBytes
  final_eq : s.final.hand = final.map logBytes
  rows_eq : s.rows = stored.map UsageRecord.row
  all : (queued + worker + final + stored : Multiset UsageRecord) = acceptedOf s.calls

/-- `balance_used` is what was charged. -/
def Balanced (s : State) : Prop :=
  ∀ user, s.redis.counters (.total user) =
    costOf user (acceptedOf s.calls) + costOf user (midwayOf s.calls)

/-- The invariant. -/
def Inv (s : State) : Prop :=
  (∃ queued worker final stored, Holds s queued worker final stored) ∧ Balanced s

theorem inv_start : Inv start :=
  ⟨⟨[], [], [], [], rfl, rfl, rfl, rfl, rfl⟩, fun _ => by simp [start, acceptedOf, midwayOf]⟩

variable {s s' : State}

/-- When nothing is in hand, the invariant is conservation. -/
theorem Inv.usageConserved (h : Inv s) (hquiet : s.Quiet) : UsageConserved s := by
  obtain ⟨⟨queued, worker, final, stored, hq, hw, hf, hr, hall⟩, hbalanced⟩ := h
  obtain rfl : worker = [] := List.map_eq_nil_iff.mp (hw.symm.trans hquiet.1)
  obtain rfl : final = [] := List.map_eq_nil_iff.mp (hf.symm.trans hquiet.2)
  have hperm : (queued ++ stored).Perm (acceptedOf s.calls) := by
    rw [← Multiset.coe_eq_coe, ← hall, ← Multiset.coe_add]
    simp
  refine ⟨queued, stored, hq, hr, hperm, fun user => ?_⟩
  rw [hbalanced user, ← costOf_perm hperm, costOf_append]

/-! ### The pipeline -/

theorem acceptedOf_append (cs cs' : List Call) :
    acceptedOf (cs ++ cs') = acceptedOf cs ++ acceptedOf cs' := by
  simp [acceptedOf]

theorem midwayOf_append (cs cs' : List Call) :
    midwayOf (cs ++ cs') = midwayOf cs ++ midwayOf cs' := by
  simp [midwayOf]

/-- A command of a call keeps the invariant if what it pushes is what the call then is
accepted for, and what it adds to `balance_used` is what the call then is charged
for. -/
theorem inv_of_advance {c c' : Call} {j : Nat} {redis : Redis} (h : Inv s)
    (hc : s.calls[j]? = some c)
    (pushed : List UsageRecord) (haccepted : acceptedOf [c'] = acceptedOf [c] ++ pushed)
    (hqueue : redis.queue = s.redis.queue ++ pushed.map logBytes)
    (hcounters : ∀ user, redis.counters (.total user) + costOf user (midwayOf [c]) =
      s.redis.counters (.total user) + costOf user pushed + costOf user (midwayOf [c'])) :
    Inv { s with redis := redis, calls := s.calls.set j c' } := by
  obtain ⟨⟨queued, worker, final, stored, hq, hw, hf, hr, hall⟩, hbalanced⟩ := h
  obtain ⟨pre, post, hcalls, hset⟩ := split_at hc
  refine ⟨⟨queued ++ pushed, worker, final, stored, ?_, hw, hf, hr, ?_⟩, fun user => ?_⟩
  · simp [hqueue, hq]
  · simp only [hset, acceptedOf_append, haccepted, ← Multiset.coe_add]
    rw [hcalls] at hall
    simp only [acceptedOf_append, ← Multiset.coe_add] at hall
    calc (queued + pushed + worker + final + stored : Multiset UsageRecord)
        = queued + worker + final + stored + pushed := by abel
      _ = acceptedOf pre + (acceptedOf [c] + acceptedOf post) + pushed := by rw [hall]
      _ = acceptedOf pre + (acceptedOf [c] + pushed + acceptedOf post) := by abel
  · have hold := hbalanced user
    have hnew := hcounters user
    simp only [hcalls, acceptedOf_append, midwayOf_append, costOf_append] at hold
    simp only [hset, acceptedOf_append, midwayOf_append, costOf_append, haccepted]
    linarith

/-- A command that leaves the queue and every `balance_used` alone keeps the invariant. -/
theorem inv_of_aside {c c' : Call} {j : Nat} {redis : Redis} (h : Inv s) (hc : s.calls[j]? = some c)
    (haccepted : acceptedOf [c'] = acceptedOf [c]) (hmidway : midwayOf [c'] = midwayOf [c])
    (hqueue : redis.queue = s.redis.queue)
    (hcounters : ∀ user, redis.counters (.total user) = s.redis.counters (.total user)) :
    Inv { s with redis := redis, calls := s.calls.set j c' } := by
  refine inv_of_advance h hc [] (by rw [haccepted, List.append_nil]) ?_ ?_
  · rw [hqueue, List.map_nil, List.append_nil]
  · intro user
    rw [hcounters, hmidway, costOf_nil, add_zero]

/-- What a call does: one command of its pipeline. -/
theorem command_cases {j : Nat} (hstep : command s j = some s') :
    ∃ c cmd, s.calls[j]? = some c ∧ c.commands[c.executed]? = some cmd ∧
      s' = { s with redis := s.redis.run cmd,
                    calls := s.calls.set j { c with executed := c.executed + 1 } } := by
  unfold command at hstep
  cases hc : s.calls[j]? with
  | none => simp [hc] at hstep
  | some c =>
    simp only [hc] at hstep
    obtain ⟨cmd, hcmd, rfl⟩ := Option.map_eq_some_iff.mp hstep
    exact ⟨c, cmd, rfl, hcmd, rfl⟩

/-- A command of the pipeline keeps the invariant. -/
theorem inv_command {j : Nat} (h : Inv s) (hstep : command s j = some s') : Inv s' := by
  obtain ⟨⟨r, day, hour, executed⟩, cmd, hc, hcmd, rfl⟩ := command_cases hstep
  -- the third command charges and the sixth pushes; the others are about other keys
  match executed, hcmd with
  | 0, hcmd =>
    obtain rfl := Option.some.inj hcmd
    exact inv_of_aside h hc rfl rfl rfl fun _ =>
      Redis.run_incrBy_of_ne fun he => by cases he
  | 1, hcmd =>
    obtain rfl := Option.some.inj hcmd
    exact inv_of_aside h hc rfl rfl rfl fun _ => rfl
  | 2, hcmd =>
    obtain rfl := Option.some.inj hcmd
    refine inv_of_advance h hc [] rfl (by simp [Redis.run]) fun user => ?_
    have hcharge :
        (s.redis.run (.incrBy (.total r.userID.val) r.cost.value)).counters (.total user) =
        s.redis.counters (.total user) + costOf user [r] := counters_charge _ r user
    have hbefore : midwayOf [⟨r, day, hour, 2⟩] = [] := rfl
    have hafter : midwayOf [⟨r, day, hour, 3⟩] = [r] := rfl
    rw [hcharge, hbefore, hafter]
    simp
  | 3, hcmd =>
    obtain rfl := Option.some.inj hcmd
    exact inv_of_aside h hc rfl rfl rfl fun _ =>
      Redis.run_incrBy_of_ne fun he => by cases he
  | 4, hcmd =>
    obtain rfl := Option.some.inj hcmd
    exact inv_of_aside h hc rfl rfl rfl fun _ => rfl
  | 5, hcmd =>
    obtain rfl := Option.some.inj hcmd
    refine inv_of_advance h hc [r] rfl rfl fun user => ?_
    have hbefore : midwayOf [⟨r, day, hour, 5⟩] = [r] := rfl
    have hafter : midwayOf [⟨r, day, hour, 6⟩] = [] := rfl
    rw [hbefore, hafter]
    simp [Redis.run]
  | k + 6, hcmd => cases hcmd

/-! ### The flushers -/

/-- Moving entries about keeps the invariant. -/
theorem Inv.move (h : Inv s) (hcalls : s'.calls = s.calls)
    (hcounters : s'.redis.counters = s.redis.counters)
    (hholds : ∃ queued worker final stored, Holds s' queued worker final stored) : Inv s' := by
  refine ⟨hholds, fun user => ?_⟩
  rw [hcounters, hcalls]
  exact h.2 user

/-- A flusher that has no entry before and after moves nothing. -/
theorem Inv.idle (h : Inv s) {worker' : Worker} {final' : Final} (hw : worker'.hand = s.worker.hand)
    (hf : final'.hand = s.final.hand) : Inv { s with worker := worker', final := final' } := by
  obtain ⟨queued, worker, final, stored, hqueue, hworker, hfinal, hrows, hall⟩ := h.1
  exact h.move rfl rfl
    ⟨queued, worker, final, stored, hqueue, hw.trans hworker, hf.trans hfinal, hrows, hall⟩

/-- The head of the queue as a part of its own. -/
theorem coe_cons_eq_add (r : UsageRecord) (rs : List UsageRecord) :
    ((r :: rs : List UsageRecord) : Multiset UsageRecord) = rs + ([r] : List UsageRecord) := by
  rw [Multiset.coe_add, Multiset.coe_eq_coe]
  exact (List.perm_append_singleton r rs).symm

theorem inv_workerPop {i : Nat} (h : Inv s) (hw : s.worker = .popping i) : Inv (workerPop s i) := by
  have hidle : Inv { s with worker := .idle } := h.idle (by rw [hw]; rfl) rfl
  unfold workerPop
  split
  · split
    · exact hidle
    · -- the head of the queue goes into the worker's hand
      rename_i data queue hqueue
      obtain ⟨queued, worker, final, stored, hq, hworker, hf, hr, hall⟩ := h.1
      obtain rfl : worker = [] := List.map_eq_nil_iff.mp (hworker.symm.trans (by rw [hw]; rfl))
      rw [hqueue] at hq
      obtain ⟨r, queued, rfl, rfl, rfl⟩ := List.map_eq_cons_iff.mp hq.symm
      refine h.move rfl rfl ⟨queued, [r], final, stored, rfl, rfl, hf, hr, ?_⟩
      rw [← hall, coe_cons_eq_add r queued, Multiset.coe_nil, add_zero]
  · exact hidle

/-- An entry in hand is that of a record, so it parses. -/
theorem hand_eq_singleton {data : GoString} {rs : List UsageRecord} (h : [data] = rs.map logBytes) :
    ∃ r, rs = [r] ∧ data = logBytes r ∧ parseUsageLog data = some r.row := by
  obtain ⟨r, rs', rfl, rfl, hnil⟩ := List.map_eq_cons_iff.mp h.symm
  obtain rfl := List.map_eq_nil_iff.mp hnil
  exact ⟨r, rfl, rfl, parseUsageLog_logBytes r⟩

theorem inv_workerInsert {i : Nat} {data : GoString} {ok : Bool} (h : Inv s)
    (hw : s.worker = .holding i data) : Inv (workerInsert s i data ok) := by
  obtain ⟨queued, worker, final, stored, hq, hworker, hf, hr, hall⟩ := h.1
  rw [hw] at hworker
  obtain ⟨r, rfl, -, hparse⟩ := hand_eq_singleton hworker
  unfold workerInsert
  rw [hparse]
  simp only
  split
  · refine h.move rfl rfl ⟨queued, [], final, stored ++ [r], hq, rfl, hf, by simp [hr], ?_⟩
    rw [← hall, ← Multiset.coe_add]
    simp only [Multiset.coe_nil]
    abel
  · -- the insertion failed, and the worker still has the entry
    exact h.idle (by rw [hw]; rfl) rfl

theorem inv_pushBack {data : GoString} (h : Inv s) (hw : s.worker = .failed data)
    (hlive : s.cancelled = false) : Inv (pushBack s data) := by
  obtain ⟨queued, worker, final, stored, hq, hworker, hf, hr, hall⟩ := h.1
  rw [hw] at hworker
  obtain ⟨r, rfl, rfl, -⟩ := hand_eq_singleton hworker
  unfold pushBack
  rw [hlive, if_neg (by decide)]
  refine h.move rfl rfl ⟨queued ++ [r], [], final, stored, by simp [Redis.run, hq], rfl, hf, hr, ?_⟩
  rw [← hall, ← Multiset.coe_add]
  simp only [Multiset.coe_nil]
  abel

theorem inv_finalPop (h : Inv s) (hf : s.final = .popping) : Inv (finalPop s) := by
  unfold finalPop
  split
  · exact h.idle rfl (by rw [hf]; rfl)
  · rename_i data queue hqueue
    obtain ⟨queued, worker, final, stored, hq, hw, hfinal, hr, hall⟩ := h.1
    obtain rfl : final = [] := List.map_eq_nil_iff.mp (hfinal.symm.trans (by rw [hf]; rfl))
    rw [hqueue] at hq
    obtain ⟨r, queued, rfl, rfl, rfl⟩ := List.map_eq_cons_iff.mp hq.symm
    refine h.move rfl rfl ⟨queued, worker, [r], stored, rfl, hw, rfl, hr, ?_⟩
    rw [← hall, coe_cons_eq_add r queued, Multiset.coe_nil]
    abel

theorem inv_finalInsert {data : GoString} (h : Inv s) (hf : s.final = .holding data) :
    Inv (finalInsert s data true) := by
  obtain ⟨queued, worker, final, stored, hq, hw, hfinal, hr, hall⟩ := h.1
  rw [hf] at hfinal
  obtain ⟨r, rfl, -, hparse⟩ := hand_eq_singleton hfinal
  unfold finalInsert
  rw [hparse]
  simp only [if_true]
  refine h.move rfl rfl ⟨queued, worker, [], stored ++ [r], hq, hw, rfl, by simp [hr], ?_⟩
  rw [← hall, ← Multiset.coe_add]
  simp only [Multiset.coe_nil]
  abel

/-- A new call is neither accepted nor midway. -/
theorem inv_call (h : Inv s) (record : UsageRecord) (day hour : GoString) :
    Inv { s with calls := s.calls ++ [⟨record, day, hour, 0⟩] } := by
  have haccepted : acceptedOf (s.calls ++ [⟨record, day, hour, 0⟩]) = acceptedOf s.calls := by
    rw [acceptedOf_append]
    exact List.append_nil _
  have hmidway : midwayOf (s.calls ++ [⟨record, day, hour, 0⟩]) = midwayOf s.calls := by
    rw [midwayOf_append]
    exact List.append_nil _
  obtain ⟨⟨queued, worker, final, stored, hq, hw, hf, hr, hall⟩, hbalanced⟩ := h
  refine ⟨⟨queued, worker, final, stored, hq, hw, hf, hr, ?_⟩, fun user => ?_⟩
  · simp only [haccepted]
    exact hall
  · simp only [haccepted, hmidway]
    exact hbalanced user

/-! ### What a flusher does -/

/-- The entries that are on their way to the table. -/
def State.outstanding (s : State) : List GoString :=
  s.redis.queue ++ s.worker.hand ++ s.final.hand

/-- The worker, or `FlushAll`. -/
def Action.isFlusher : Action → Bool
  | .call .. => false
  | .command _ => false
  | _ => true

/-- A flusher moves entries about, stores one, or lets go of one; it lets go of one it can
read only where an entry is lost. -/
structure FlusherStep (s s' : State) (a : Action) : Prop where
  calls_eq : s'.calls = s.calls
  counters_eq : s'.redis.counters = s.redis.counters
  entries : (s'.rows = s.rows ∧ s.outstanding.Perm s'.outstanding) ∨
    (∃ data ul, parseUsageLog data = some ul ∧ s'.rows = s.rows ++ [ul] ∧
      s.outstanding.Perm (data :: s'.outstanding)) ∨
    ∃ data, s'.rows = s.rows ∧ s.outstanding.Perm (data :: s'.outstanding) ∧
      (KeepsEntries s a → parseUsageLog data = none)

/-- Nothing is in the hands that change. -/
theorem FlusherStep.idle {a : Action} {worker' : Worker} {final' : Final} {cancelled' : Bool}
    (hw : worker'.hand = s.worker.hand) (hf : final'.hand = s.final.hand) :
    FlusherStep s { s with cancelled := cancelled', worker := worker', final := final' } a := by
  refine ⟨rfl, rfl, .inl ⟨rfl, ?_⟩⟩
  rw [State.outstanding, State.outstanding, hw, hf]

/-- The entry leaves the worker's hand. -/
theorem outstanding_worker {data : GoString} (hw : s.worker.hand = [data]) (final' : Final)
    (hf : final'.hand = s.final.hand) :
    s.outstanding.Perm (data :: (s.redis.queue ++ [] ++ final'.hand)) := by
  rw [State.outstanding, hw, hf]
  simp only [List.append_assoc, List.append_nil, List.singleton_append]
  exact List.perm_middle

/-- The entry leaves the hand of `FlushAll`. -/
theorem outstanding_final {data : GoString} (hf : s.final.hand = [data]) :
    s.outstanding.Perm (data :: (s.redis.queue ++ s.worker.hand ++ [])) := by
  rw [State.outstanding, hf, List.append_nil]
  exact List.perm_append_singleton _ _

theorem flusherStep_workerPop {a : Action} {i : Nat} (hw : s.worker = .popping i) :
    FlusherStep s (workerPop s i) a := by
  have hidle : FlusherStep s { s with worker := .idle } a := .idle (by rw [hw]; rfl) rfl
  unfold workerPop
  split
  · split
    · exact hidle
    · rename_i data queue hqueue
      refine ⟨rfl, rfl, .inl ⟨rfl, ?_⟩⟩
      simp only [State.outstanding, hqueue, hw, Worker.hand, List.append_nil, List.cons_append]
      rw [List.append_assoc, List.singleton_append]
      exact List.perm_middle.symm
  · exact hidle

theorem flusherStep_workerInsert {a : Action} {i : Nat} {data : GoString} {ok : Bool}
    (hw : s.worker = .holding i data) : FlusherStep s (workerInsert s i data ok) a := by
  have hhand : s.worker.hand = [data] := by rw [hw]; rfl
  unfold workerInsert
  split
  · rename_i hparse
    exact ⟨rfl, rfl, .inr (.inr ⟨data, rfl, outstanding_worker hhand _ rfl, fun _ => hparse⟩)⟩
  · rename_i ul hparse
    split
    · exact ⟨rfl, rfl, .inr (.inl ⟨data, ul, hparse, rfl, outstanding_worker hhand _ rfl⟩)⟩
    · exact .idle (by rw [hw]; rfl) rfl

theorem flusherStep_pushBack {data : GoString} (hw : s.worker = .failed data) :
    FlusherStep s (pushBack s data) .pushBack := by
  have hhand : s.worker.hand = [data] := by rw [hw]; rfl
  unfold pushBack
  split
  · rename_i hcancelled
    refine ⟨rfl, rfl, .inr (.inr ⟨data, rfl, outstanding_worker hhand _ rfl, fun hkeeps => ?_⟩)⟩
    exact absurd hcancelled (by rw [hkeeps]; decide)
  · refine ⟨rfl, rfl, .inl ⟨rfl, ?_⟩⟩
    simp only [State.outstanding, hw, Worker.hand, Redis.run, List.append_nil]
    exact List.Perm.refl _

theorem flusherStep_finalPop {a : Action} (hf : s.final = .popping) :
    FlusherStep s (finalPop s) a := by
  unfold finalPop
  split
  · exact .idle rfl (by rw [hf]; rfl)
  · rename_i data queue hqueue
    refine ⟨rfl, rfl, .inl ⟨rfl, ?_⟩⟩
    simp only [State.outstanding, hqueue, hf, Final.hand, List.append_nil, List.cons_append]
    exact (List.perm_append_singleton _ _).symm

theorem flusherStep_finalInsert {data : GoString} {ok : Bool} (hf : s.final = .holding data) :
    FlusherStep s (finalInsert s data ok) (.finalInsert ok) := by
  have hhand : s.final.hand = [data] := by rw [hf]; rfl
  unfold finalInsert
  split
  · rename_i hparse
    exact ⟨rfl, rfl, .inr (.inr ⟨data, rfl, outstanding_final hhand, fun _ => hparse⟩)⟩
  · rename_i ul hparse
    split
    · exact ⟨rfl, rfl, .inr (.inl ⟨data, ul, hparse, rfl, outstanding_final hhand⟩)⟩
    · rename_i hfails
      refine ⟨rfl, rfl, .inr (.inr ⟨data, rfl, outstanding_final hhand, fun hkeeps => ?_⟩)⟩
      exact absurd hkeeps hfails

theorem flusherStep {a : Action} (ha : a.isFlusher = true) (hstep : step s a = some s') :
    FlusherStep s s' a := by
  cases a with
  | call record day hour => cases ha
  | command j => cases ha
  | cancel =>
    obtain rfl := Option.some.inj hstep
    exact .idle rfl rfl
  | tick =>
    cases hw : s.worker <;> simp only [step, hw] at hstep <;> try cases hstep
    exact .idle (by rw [hw]; rfl) rfl
  | stop =>
    simp only [step] at hstep
    split at hstep
    · rename_i hw _
      obtain rfl := Option.some.inj hstep
      exact .idle (by rw [hw]; rfl) rfl
    · cases hstep
  | workerPop =>
    cases hw : s.worker <;> simp only [step, hw] at hstep <;> try cases hstep
    exact flusherStep_workerPop hw
  | workerInsert ok =>
    cases hw : s.worker <;> simp only [step, hw] at hstep <;> try cases hstep
    exact flusherStep_workerInsert hw
  | pushBack =>
    cases hw : s.worker <;> simp only [step, hw] at hstep <;> try cases hstep
    exact flusherStep_pushBack hw
  | flushAll =>
    cases hf : s.final <;> simp only [step, hf] at hstep <;> try cases hstep
    exact .idle rfl (by rw [hf]; rfl)
  | finalPop =>
    cases hf : s.final <;> simp only [step, hf] at hstep <;> try cases hstep
    exact flusherStep_finalPop hf
  | finalInsert ok =>
    cases hf : s.final <;> simp only [step, hf] at hstep <;> try cases hstep
    exact flusherStep_finalInsert hf

/-! ### Whole runs -/

/-- **One step.** -/
theorem step_inv {a : Action} (h : Inv s) (hgood : KeepsEntries s a) (hstep : step s a = some s') :
    Inv s' := by
  cases a with
  | call record day hour =>
    obtain rfl := Option.some.inj hstep
    exact inv_call h record day hour
  | command j => exact inv_command h hstep
  | cancel =>
    obtain rfl := Option.some.inj hstep
    obtain ⟨queued, worker, final, stored, hq, hw, hf, hr, hall⟩ := h.1
    exact h.move rfl rfl ⟨queued, worker, final, stored, hq, hw, hf, hr, hall⟩
  | tick =>
    cases hw : s.worker <;> simp only [step, hw] at hstep <;> try cases hstep
    exact h.idle (by rw [hw]; rfl) rfl
  | stop =>
    simp only [step] at hstep
    split at hstep
    · rename_i hw _
      obtain rfl := Option.some.inj hstep
      exact h.idle (by rw [hw]; rfl) rfl
    · cases hstep
  | workerPop =>
    cases hw : s.worker <;> simp only [step, hw] at hstep <;> try cases hstep
    exact inv_workerPop h hw
  | workerInsert ok =>
    cases hw : s.worker <;> simp only [step, hw] at hstep <;> try cases hstep
    exact inv_workerInsert h hw
  | pushBack =>
    cases hw : s.worker <;> simp only [step, hw] at hstep <;> try cases hstep
    exact inv_pushBack h hw hgood
  | flushAll =>
    cases hf : s.final <;> simp only [step, hf] at hstep <;> try cases hstep
    exact h.idle rfl (by rw [hf]; rfl)
  | finalPop =>
    cases hf : s.final <;> simp only [step, hf] at hstep <;> try cases hstep
    exact inv_finalPop h hf
  | finalInsert ok =>
    obtain rfl : ok = true := hgood
    cases hf : s.final <;> simp only [step, hf] at hstep <;> try cases hstep
    exact inv_finalInsert h hf

variable {as : List Action}

/-- **The run lemma.** -/
theorem exec_inv (hgood : Along step KeepsEntries start as) (hexec : exec step start as = some s) :
    Inv s :=
  exec_invariant (fun _ _ _ h hgood hstep => step_inv h hgood hstep) inv_start hgood hexec

/-- One record, for tests. -/
def oneDollar : UsageRecord where
  userID := ⟨1, by decide⟩
  apiKeyID := ⟨2, by decide⟩
  modelName := ⟨lit "m", by decide⟩
  providerName := ⟨lit "p", by decide⟩
  promptTokens := ⟨3, by decide⟩
  completionTokens := ⟨4, by decide⟩
  totalTokens := ⟨7, by decide⟩
  cost := ⟨1, by decide +kernel, by
    have hone : formatFloat 1 = formatInt 1 := by decide +kernel
    rw [hone]
    exact isNumberText_formatInt 1⟩
  latency := ⟨1, by decide +kernel, by
    have hone : formatFloat 1 = formatInt 1 := by decide +kernel
    rw [hone]
    exact isNumberText_formatInt 1⟩
  status := ⟨lit "ok", by decide⟩
  httpStatus := ⟨200, by decide⟩
  isStream := false

/-- A whole `RecordUsage` call. -/
def recorded : List Action :=
  .call oneDollar (lit "2024-05-01") (lit "2024-05-01-12") :: List.replicate 6 (.command 0)

/-- The insertion of `FlushAll` fails. -/
def lastInsertFails : List Action := recorded ++ [.flushAll, .finalPop, .finalInsert false]

/-- The accepted record is neither in the queue nor in the table. -/
theorem not_usageConserved_lastInsertFails :
    ∃ s, exec step start lastInsertFails = some s ∧ s.Quiet ∧ ¬ UsageConserved s := by
  have hlost : (exec step start lastInsertFails).any (fun s => decide (s.Quiet ∧
      s.redis.queue.length + s.rows.length ≠ (acceptedOf s.calls).length)) = true := by
    decide +kernel
  obtain ⟨s, hs, hlost⟩ := (Option.any_eq_true _ _).mp hlost
  obtain ⟨hquiet, hlength⟩ := of_decide_eq_true hlost
  refine ⟨s, hs, hquiet, fun ⟨queued, stored, hq, hr, hperm, _⟩ => hlength ?_⟩
  rw [hq, hr, ← hperm.length_eq]
  simp

/-- **Usage records are conserved** along every run in which no insertion of `FlushAll`
fails and the worker's context is live whenever it pushes an entry back. -/
theorem usageConserved_of_keepsEntries (hgood : Along step KeepsEntries start as)
    (hexec : exec step start as = some s) (hquiet : s.Quiet) : UsageConserved s :=
  (exec_inv hgood hexec).usageConserved hquiet

/-- The worker's insertion fails and the entry goes back, the context is cancelled, and
`FlushAll` stores it. -/
def storedAtShutdown : List Action :=
  recorded ++ [.tick, .workerPop, .workerInsert false, .pushBack, .cancel, .stop, .flushAll,
    .finalPop, .finalInsert true, .finalPop]

theorem usageConserved_of_keepsEntries_storedAtShutdown :
    ∃ s, exec step start storedAtShutdown = some s ∧ UsageConserved s := by
  have hruns : (exec step start storedAtShutdown).any (fun s => decide s.Quiet) = true := by
    decide +kernel
  have hgood : Along step KeepsEntries start storedAtShutdown := by decide +kernel
  obtain ⟨s, hs, hquiet⟩ := (Option.any_eq_true _ _).mp hruns
  exact ⟨s, hs, usageConserved_of_keepsEntries hgood hs (of_decide_eq_true hquiet)⟩

end Flush
end UniLLM.Billing
