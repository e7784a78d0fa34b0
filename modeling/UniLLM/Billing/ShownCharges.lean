import UniLLM.Billing.Dashboard
import UniLLM.Billing.PartialRecord

/-!
# What is shown is what is charged

The gate takes off what Redis has charged a user; the dashboard shows what the rows in the table
cost.  Between the two is the queue, and either store may fail: Redis refuses a command, or
executes it and its answer is lost, and an insertion fails.  So a record may be charged and never
entered into the queue, or entered and never charged, and an entry may be lost on its way.

The ledger follows a run and notes, step by step, what has become of each record.  The difference
between the two amounts is what it says (`checkBalance_shown`), in exact amounts.  An insertion
that fails leaves no row.
-/

namespace UniLLM.Billing
open Go Transition

namespace ShownCharges
open Dashboard (usageSummary)

/-! ### Failures of Redis -/

/-- A command of Redis fails.  Where it has been executed, only its answer is lost. -/
inductive Failure where
  /-- The next command of call `j`. -/
  | command (j : Nat)
  | workerPop (executed : Bool)
  | pushBack
  | finalPop (executed : Bool)

/-- The queue after an `LPop` whose answer is an error. -/
def popped (rdb : Redis) (executed : Bool) : Redis :=
  if executed then { rdb with queue := rdb.queue.tail } else rdb

/-- Both flushers end with an error of `LPop`; the result of the worker's `RPush` is not read. -/
def fail (f : Flush.State) : Failure → Option Flush.State
  | .command j =>
    (f.calls[j]?).bind fun c =>
      if c.executed < c.commands.length then
        some { f with calls := f.calls.set j { c with executed := c.executed + 1 } }
      else none
  | .workerPop executed =>
    match f.worker with
    | .popping i =>
      if i < 100 ∧ f.cancelled = false then
        some { f with redis := popped f.redis executed, worker := .idle }
      else none
    | _ => none
  | .pushBack =>
    match f.worker with
    | .failed _ => some { f with worker := .idle }
    | _ => none
  | .finalPop executed =>
    match f.final with
    | .popping => some { f with redis := popped f.redis executed, final := .off }
    | _ => none

inductive Action where
  | step (a : Dashboard.Action)
  | failure (e : Failure)

def step (s : Dashboard.State) : Action → Option Dashboard.State
  | .step a => Dashboard.step s a
  | .failure e => (fail s.store e).map fun store => { s with store := store }

/-- A command of a pipeline is refused. -/
def Action.refuses : Action → Bool
  | .failure (.command _) => true
  | _ => false

/-- A step that does not let go of an entry. -/
def KeepsEntries (s : Dashboard.State) : Action → Prop
  | .step (.store a) => Flush.KeepsEntries s.store a
  | .failure (.workerPop executed) | .failure (.finalPop executed) => executed = false
  | .failure .pushBack => False
  | _ => True

/-! ### The ledger -/

/-- What has become of a record. -/
structure Mark where
  record : UsageRecord
  /-- Its cost has been added to `balance_used`. -/
  charged : Bool := false
  /-- Its entry has been pushed. -/
  entered : Bool := false

/-- A command of the pipeline is executed. -/
def Mark.note (m : Mark) : Command → Mark
  | .incrBy (.total _) _ => { m with charged := true }
  | .rPush _ => { m with entered := true }
  | _ => m

/-- The marks of the calls, and the rows that got lost. -/
structure Ledger where
  marks : List Mark := []
  lost : List UsageLog := []

/-- The entries that a step of a flusher lets go of. -/
def letGo (f : Flush.State) : Flush.Action → List GoString
  | .pushBack => if f.cancelled then f.worker.hand else []
  | .finalInsert false => f.final.hand
  | _ => []

/-- The entries that a failure of Redis takes out of the queue or out of the worker's hand. -/
def letGoFailing (f : Flush.State) : Failure → List GoString
  | .workerPop true | .finalPop true => f.redis.queue.head?.toList
  | .pushBack => f.worker.hand
  | _ => []

/-- Entries are lost, as rows. -/
def Ledger.lose (l : Ledger) (entries : List GoString) : Ledger :=
  { l with lost := l.lost ++ entries.filterMap parseUsageLog }

/-- The command that call `j` executes next. -/
def nextCommand (f : Flush.State) (j : Nat) : Option Command :=
  (f.calls[j]?).bind fun c => c.commands[c.executed]?

def Ledger.next (l : Ledger) (s : Dashboard.State) : Action → Ledger
  | .step (.store (.call record _ _)) => { l with marks := l.marks ++ [⟨record, false, false⟩] }
  | .step (.store (.command j)) =>
    match nextCommand s.store j with
    | some cmd => { l with marks := l.marks.modify j fun m => m.note cmd }
    | none => l
  | .step (.store a) => l.lose (letGo s.store a)
  | .step _ => l
  | .failure e => l.lose (letGoFailing s.store e)

/-- The ledger after a run. -/
def ledger : Dashboard.State → Ledger → List Action → Ledger
  | _, l, [] => l
  | s, l, a :: as =>
    match step s a with
    | none => l
    | some s' => ledger s' (l.next s a) as

/-- The records whose marks are such. -/
def recordsOf (marks : List Mark) (p : Mark → Bool) : List UsageRecord :=
  (marks.filter p).map (·.record)

/-- The records that were entered into the queue. -/
def Ledger.entered (l : Ledger) : List UsageRecord := recordsOf l.marks (·.entered)

/-- The records that were charged, and not or not yet entered. -/
def Ledger.unlogged (l : Ledger) : List UsageRecord :=
  recordsOf l.marks fun m => m.charged && !m.entered

/-- The records that were entered and not charged. -/
def Ledger.unpaid (l : Ledger) : List UsageRecord :=
  recordsOf l.marks fun m => m.entered && !m.charged

/-! ### Rows and their costs -/

/-- The rows of the entries that are on their way to the table. -/
def arriving (f : Flush.State) : List UsageLog := f.outstanding.filterMap parseUsageLog

/-- What the rows of a user cost. -/
def totalCost (userID : Int) (rows : List UsageLog) : Rat := (usageSummary rows userID).totalCost

theorem totalCost_append (userID : Int) (rows rows' : List UsageLog) :
    totalCost userID (rows ++ rows') = totalCost userID rows + totalCost userID rows' := by
  simp [totalCost, usageSummary]

theorem totalCost_perm {rows rows' : List UsageLog} (h : rows.Perm rows') (userID : Int) :
    totalCost userID rows = totalCost userID rows' := by
  have hcosts := (h.filter fun ul => ul.userID == userID).map UsageLog.cost
  exact hcosts.sum_eq

theorem totalCost_row (records : List UsageRecord) (userID : Int) :
    totalCost userID (records.map UsageRecord.row) = Flush.costOf userID records := by
  simp only [totalCost, usageSummary, Flush.costOf, List.filter_map, List.map_map]
  rfl

theorem recordsOf_append (marks marks' : List Mark) (p : Mark → Bool) :
    recordsOf (marks ++ marks') p = recordsOf marks p ++ recordsOf marks' p := by
  simp [recordsOf]

/-- Charges and entries differ by the records that are only one of the two. -/
theorem costOf_charged (userID : Int) (marks : List Mark) :
    Flush.costOf userID (recordsOf marks (·.charged)) =
      Flush.costOf userID (recordsOf marks (·.entered)) +
        Flush.costOf userID (recordsOf marks fun m => m.charged && !m.entered) -
        Flush.costOf userID (recordsOf marks fun m => m.entered && !m.charged) := by
  induction marks with
  | nil => simp [recordsOf]
  | cons m marks ih =>
    have hcons : ∀ p : Mark → Bool, Flush.costOf userID (recordsOf (m :: marks) p) =
        Flush.costOf userID (recordsOf [m] p) + Flush.costOf userID (recordsOf marks p) :=
      fun p => by rw [← List.singleton_append, recordsOf_append, Flush.costOf_append]
    have hone : ∀ p : Mark → Bool, recordsOf [m] p = if p m then [m.record] else [] := fun p => by
      cases hp : p m <;> simp [recordsOf, hp]
    rw [hcons, hcons, hcons, hcons, hone, hone, hone, hone, ih]
    cases m.charged <;> cases m.entered <;> simp <;> ring

/-! ### The invariant -/

/-- A mark agrees with how far its call has got; if no command was refused (`exact`), it says
so. -/
structure Marked (exact : Prop) (c : Flush.Call) (m : Mark) : Prop where
  record : m.record = c.record
  charged : m.charged = true → 3 ≤ c.executed
  entered : m.entered = true → 6 ≤ c.executed
  all_charged : exact → 3 ≤ c.executed → m.charged = true
  all_entered : exact → 6 ≤ c.executed → m.entered = true

/-- The ledger is right about the stores. -/
structure Accounted (exact : Prop) (f : Flush.State) (l : Ledger) : Prop where
  marked : List.Forall₂ (Marked exact) f.calls l.marks
  /-- `balance_used` is what was charged. -/
  used : ∀ userID, f.redis.counters (.total userID) =
    Flush.costOf userID (recordsOf l.marks (·.charged))
  /-- Every entry is in the table, on its way, or lost. -/
  rows : (f.rows ++ arriving f ++ l.lost).Perm (l.entered.map UsageRecord.row)

variable {exact : Prop} {f f' : Flush.State} {l : Ledger} {as : List Action} {s s' : Dashboard.State}
  {a : Action}

/-- A command of a pipeline is the charge, the entry, or about neither. -/
theorem command_kinds {c : Flush.Call} {cmd : Command} (h : c.commands[c.executed]? = some cmd) :
    (c.executed = 2 ∧ cmd = .incrBy (.total c.record.userID.val) c.record.cost.value) ∨
      (c.executed = 5 ∧ cmd = .rPush (logBytes c.record)) ∨
      (c.executed ≠ 2 ∧ c.executed ≠ 5 ∧ (∀ m : Mark, m.note cmd = m) ∧
        (∀ userID, cmd.adds (.total userID) = 0) ∧ cmd.pushes = []) := by
  obtain ⟨r, day, hour, executed⟩ := c
  match executed, h with
  | 0, h =>
    obtain rfl := Option.some.inj h
    exact .inr (.inr ⟨by simp, by simp, fun _ => rfl, fun _ => by simp [Command.adds], rfl⟩)
  | 1, h =>
    obtain rfl := Option.some.inj h
    exact .inr (.inr ⟨by simp, by simp, fun _ => rfl, fun _ => rfl, rfl⟩)
  | 2, h =>
    obtain rfl := Option.some.inj h
    exact .inl ⟨rfl, rfl⟩
  | 3, h =>
    obtain rfl := Option.some.inj h
    exact .inr (.inr ⟨by simp, by simp, fun _ => rfl, fun _ => by simp [Command.adds], rfl⟩)
  | 4, h =>
    obtain rfl := Option.some.inj h
    exact .inr (.inr ⟨by simp, by simp, fun _ => rfl, fun _ => rfl, rfl⟩)
  | 5, h =>
    obtain rfl := Option.some.inj h
    exact .inr (.inl ⟨rfl, rfl⟩)
  | k + 6, h => cases h

/-- What a command adds and pushes is what its call is marked with. -/
structure Noted (m m' : Mark) (cmd : Command) : Prop where
  charged : ∀ userID, Flush.costOf userID (recordsOf [m'] (·.charged)) =
    Flush.costOf userID (recordsOf [m] (·.charged)) + cmd.adds (.total userID)
  entered : (recordsOf [m'] (·.entered)).map UsageRecord.row =
    (recordsOf [m] (·.entered)).map UsageRecord.row ++ cmd.pushes.filterMap parseUsageLog

theorem Marked.note {c : Flush.Call} {m : Mark} {cmd : Command} (h : Marked exact c m)
    (hcmd : c.commands[c.executed]? = some cmd) :
    Marked exact { c with executed := c.executed + 1 } (m.note cmd) ∧ Noted m (m.note cmd) cmd := by
  rcases command_kinds hcmd with ⟨hexecuted, rfl⟩ | ⟨hexecuted, rfl⟩ | ⟨htwo, hfive, hnote, hadds, hpushes⟩
  · have hbefore : m.charged = false := Bool.eq_false_iff.mpr fun hm => by
      have hle := h.charged hm
      omega
    refine ⟨⟨h.record, fun _ => ?_, fun hm => ?_, fun _ _ => rfl, fun he hk => ?_⟩, fun userID => ?_, ?_⟩
    · simp [hexecuted]
    · exact Nat.le_succ_of_le (h.entered hm)
    · simp [hexecuted] at hk
    · by_cases hown : c.record.userID.val = userID
      · simp [recordsOf, Mark.note, hbefore, Flush.costOf, Command.adds, h.record, hown]
      · simp [recordsOf, Mark.note, hbefore, Flush.costOf, Command.adds, h.record, hown]
    · cases hm : m.entered <;> simp [recordsOf, Mark.note, Command.pushes, hm]
  · have hbefore : m.entered = false := Bool.eq_false_iff.mpr fun hm => by
      have hle := h.entered hm
      omega
    refine ⟨⟨h.record, fun hm => ?_, fun _ => ?_, fun he _ => ?_, fun _ _ => rfl⟩, fun userID => ?_, ?_⟩
    · exact Nat.le_succ_of_le (h.charged hm)
    · simp [hexecuted]
    · exact h.all_charged he (by omega)
    · cases hm : m.charged <;> simp [recordsOf, Mark.note, Command.adds, hm]
    · simp [recordsOf, Mark.note, hbefore, Command.pushes, parseUsageLog_logBytes, h.record]
  · rw [hnote]
    refine ⟨⟨h.record, fun hm => ?_, fun hm => ?_, fun he hk => ?_, fun he hk => ?_⟩, fun userID => ?_, ?_⟩
    · exact Nat.le_succ_of_le (h.charged hm)
    · exact Nat.le_succ_of_le (h.entered hm)
    · exact h.all_charged he (by simp only at hk; omega)
    · exact h.all_entered he (by simp only at hk; omega)
    · rw [hadds, add_zero]
    · rw [hpushes, List.filterMap_nil, List.append_nil]

/-! ### One step -/

/-- A call that begins has no mark yet. -/
theorem Accounted.call (h : Accounted exact f l) (record : UsageRecord) (day hour : GoString) :
    Accounted exact { f with calls := f.calls ++ [⟨record, day, hour, 0⟩] }
      { l with marks := l.marks ++ [⟨record, false, false⟩] } := by
  have hnone : ∀ p : Mark → Bool, p ⟨record, false, false⟩ = false →
      recordsOf (l.marks ++ [⟨record, false, false⟩]) p = recordsOf l.marks p := fun p hp => by
    rw [recordsOf_append]
    simp [recordsOf, hp]
  refine ⟨?_, fun userID => ?_, ?_⟩
  · refine List.rel_append h.marked (.cons ⟨rfl, ?_, ?_, ?_, ?_⟩ .nil) <;> simp
  · simp only [hnone (·.charged) rfl]
    exact h.used userID
  · simp only [Ledger.entered, hnone (·.entered) rfl]
    exact h.rows

/-- A command that is executed. -/
theorem Accounted.command {j : Nat} (h : Accounted exact f l)
    (hstep : Flush.command f j = some f') :
    ∃ cmd, nextCommand f j = some cmd ∧
      Accounted exact f' { l with marks := l.marks.modify j fun m => m.note cmd } := by
  obtain ⟨c, cmd, hc, hcmd, rfl⟩ := Flush.command_cases hstep
  obtain ⟨pre, post, pre', m, post', hcalls, hset, hmarks, hmodify, hmarked, hall⟩ :=
    split_beside h.marked hc
  obtain ⟨hmarked', hnoted⟩ := hmarked.note hcmd
  refine ⟨cmd, by rw [nextCommand, hc]; exact hcmd, ?_, fun userID => ?_, ?_⟩
  · simp only [hset, hmodify]
    exact hall _ _ hmarked'
  · have hbefore := h.used userID
    have hadded := hnoted.charged userID
    rw [hmarks] at hbefore
    simp only [hmodify, counters_run, recordsOf_append, Flush.costOf_append] at hbefore ⊢
    linarith
  · have hbefore := h.rows
    have hentered := hnoted.entered
    rw [Ledger.entered, hmarks] at hbefore
    simp only [Ledger.entered, hmodify, recordsOf_append, List.map_append] at hbefore ⊢
    rw [hentered]
    simp only [arriving, Flush.State.outstanding, queue_run, List.filterMap_append] at hbefore ⊢
    rw [← Multiset.coe_eq_coe] at hbefore ⊢
    simp only [← Multiset.coe_add] at hbefore ⊢
    have hpushed := congrArg
      (fun x => x + (cmd.pushes.filterMap parseUsageLog : Multiset UsageLog)) hbefore
    refine Eq.trans ?_ (hpushed.trans ?_)
    · abel
    · abel

/-- A command that is refused. -/
theorem Accounted.refused {j : Nat} {c : Flush.Call} (h : Accounted exact f l) (hexact : ¬ exact)
    (hc : f.calls[j]? = some c) :
    Accounted exact { f with calls := f.calls.set j { c with executed := c.executed + 1 } } l := by
  obtain ⟨pre, post, pre', m, post', -, hset, hmarks, -, hmarked, hall⟩ := split_beside h.marked hc
  refine ⟨?_, h.used, h.rows⟩
  simp only [hset, hmarks]
  exact hall _ _ ⟨hmarked.record, fun hm => Nat.le_succ_of_le (hmarked.charged hm),
    fun hm => Nat.le_succ_of_le (hmarked.entered hm), fun he => absurd he hexact,
    fun he => absurd he hexact⟩

/-- Entries that leave the stores are in the ledger as lost. -/
theorem Accounted.moved {entries : List GoString} (h : Accounted exact f l)
    (hcalls : f'.calls = f.calls) (hcounters : f'.redis.counters = f.redis.counters)
    (hrows : (f'.rows ++ arriving f' ++ entries.filterMap parseUsageLog).Perm (f.rows ++ arriving f)) :
    Accounted exact f' (l.lose entries) := by
  refine ⟨?_, fun userID => ?_, ?_⟩
  · rw [hcalls]
    exact h.marked
  · rw [hcounters]
    exact h.used userID
  · refine List.Perm.trans ?_ h.rows
    refine List.Perm.trans ?_ (hrows.append_right l.lost)
    simp only [Ledger.lose, List.append_assoc]
    exact (List.perm_append_comm.append_left _).append_left _

/-- A flusher that keeps its entries moves or stores them. -/
theorem arriving_of_keeps {a : Flush.Action} (h : Flush.FlusherStep f f' a)
    (hkeeps : Flush.KeepsEntries f a) : (f'.rows ++ arriving f').Perm (f.rows ++ arriving f) := by
  obtain ⟨-, -, hentries⟩ := h
  rcases hentries with ⟨hrows, hperm⟩ | ⟨data, ul, hparse, hrows, hperm⟩ | ⟨data, hrows, hperm, hlost⟩
  · rw [hrows]
    exact (hperm.symm.filterMap parseUsageLog).append_left _
  · -- the row is in the table now
    have hparsed := hperm.filterMap parseUsageLog
    rw [List.filterMap_cons_some hparse] at hparsed
    rw [hrows, List.append_assoc]
    exact hparsed.symm.append_left _
  · have hparsed := hperm.filterMap parseUsageLog
    rw [List.filterMap_cons_none (hlost hkeeps)] at hparsed
    rw [hrows]
    exact hparsed.symm.append_left _

/-- Entries leave the queue and the hands, and nothing else happens. -/
theorem arriving_of_perm {entries : List GoString} (hrows : f'.rows = f.rows)
    (hperm : f.outstanding.Perm (entries ++ f'.outstanding)) :
    (f'.rows ++ arriving f' ++ entries.filterMap parseUsageLog).Perm (f.rows ++ arriving f) := by
  have hparsed := hperm.filterMap parseUsageLog
  rw [List.filterMap_append] at hparsed
  rw [hrows, List.append_assoc]
  exact (List.perm_append_comm.trans hparsed.symm).append_left _

/-- **A step of a flusher**: what it lets go of is what is missing. -/
theorem arriving_flusher {a : Flush.Action} (ha : a.isFlusher = true)
    (hstep : Flush.step f a = some f') :
    (f'.rows ++ arriving f' ++ (letGo f a).filterMap parseUsageLog).Perm (f.rows ++ arriving f) := by
  have hflusher := Flush.flusherStep ha hstep
  have hkept : Flush.KeepsEntries f a → letGo f a = [] →
      (f'.rows ++ arriving f' ++ (letGo f a).filterMap parseUsageLog).Perm (f.rows ++ arriving f) := by
    intro hkeeps hnone
    rw [hnone, List.filterMap_nil, List.append_nil]
    exact arriving_of_keeps hflusher hkeeps
  cases a with
  | pushBack =>
    cases hcancelled : f.cancelled with
    | false => exact hkept hcancelled (by simp [letGo, hcancelled])
    | true =>
      cases hw : f.worker <;> simp only [Flush.step, hw] at hstep <;> try cases hstep
      rename_i data
      rw [Flush.pushBack, if_pos hcancelled, letGo, if_pos hcancelled, hw]
      exact arriving_of_perm rfl (Flush.outstanding_worker (by rw [hw]; rfl) _ rfl)
  | finalInsert ok =>
    cases ok with
    | true => exact hkept rfl rfl
    | false =>
      cases hf : f.final <;> simp only [Flush.step, hf] at hstep <;> try cases hstep
      rename_i data
      rw [letGo, hf]
      have hhand : f.final.hand = [data] := by rw [hf]; rfl
      refine arriving_of_perm ?_ ?_
      · unfold Flush.finalInsert
        split <;> rfl
      · unfold Flush.finalInsert
        split
        · exact Flush.outstanding_final hhand
        · exact Flush.outstanding_final hhand
  | call record day hour => cases ha
  | command j => cases ha
  | _ => exact hkept trivial rfl

/-- Of an entry that an `LPop` takes out of the queue. -/
theorem outstanding_popped (rdb : Redis) (hands : List GoString) (executed : Bool) :
    (rdb.queue ++ hands).Perm ((if executed then rdb.queue.head?.toList else []) ++
      ((popped rdb executed).queue ++ hands)) := by
  cases executed with
  | false => exact List.Perm.refl _
  | true =>
    simp only [popped, if_true]
    cases rdb.queue <;> exact List.Perm.refl _

/-- **A failure of Redis.** -/
theorem Accounted.failure {e : Failure} (h : Accounted exact f l)
    (hexact : exact → (Action.failure e).refuses = false) (hstep : fail f e = some f') :
    Accounted exact f' (l.lose (letGoFailing f e)) := by
  cases e with
  | command j =>
    obtain ⟨c, hc, hstep⟩ := Option.bind_eq_some_iff.mp hstep
    obtain ⟨-, hstep⟩ := Option.ite_none_right_eq_some.mp hstep
    obtain rfl := Option.some.inj hstep
    have hsame : l.lose (letGoFailing f (.command j)) = l := by simp [Ledger.lose, letGoFailing]
    rw [hsame]
    exact h.refused (fun he => Bool.noConfusion (hexact he)) hc
  | workerPop executed =>
    cases hw : f.worker <;> simp only [fail, hw] at hstep <;> try cases hstep
    obtain ⟨-, hstep⟩ := Option.ite_none_right_eq_some.mp hstep
    obtain rfl := Option.some.inj hstep
    refine h.moved rfl (by cases executed <;> rfl) (arriving_of_perm rfl ?_)
    have hpopped := outstanding_popped f.redis (f.worker.hand ++ f.final.hand) executed
    simp only [Flush.State.outstanding, hw, Flush.Worker.hand, List.append_nil, List.nil_append]
      at hpopped ⊢
    cases executed <;> exact hpopped
  | pushBack =>
    cases hw : f.worker <;> simp only [fail, hw] at hstep <;> try cases hstep
    refine h.moved rfl rfl (arriving_of_perm rfl ?_)
    rw [letGoFailing, hw]
    exact Flush.outstanding_worker (by rw [hw]; rfl) _ rfl
  | finalPop executed =>
    cases hf : f.final <;> simp only [fail, hf] at hstep <;> try cases hstep
    refine h.moved rfl (by cases executed <;> rfl) (arriving_of_perm rfl ?_)
    have hpopped := outstanding_popped f.redis (f.worker.hand ++ f.final.hand) executed
    simp only [Flush.State.outstanding, hf, Flush.Final.hand, List.append_nil] at hpopped ⊢
    cases executed <;> exact hpopped

/-- **One step of the usage store.** -/
theorem Accounted.store {a : Flush.Action} (h : Accounted exact s.store l)
    (hstep : Flush.step s.store a = some f') :
    Accounted exact f' (l.next s (.step (.store a))) := by
  cases hflusher : a.isFlusher with
  | true =>
    have hmoved := Flush.flusherStep hflusher hstep
    have hlost := h.moved hmoved.calls_eq hmoved.counters_eq (arriving_flusher hflusher hstep)
    cases a <;> first | exact hlost | cases hflusher
  | false =>
    cases a with
    | call record day hour =>
      obtain rfl := Option.some.inj hstep
      exact h.call record day hour
    | command j =>
      obtain ⟨cmd, hcmd, hnext⟩ := h.command hstep
      rw [Ledger.next, hcmd]
      exact hnext
    | _ => cases hflusher

/-- **One step.** -/
theorem Accounted.next (h : Accounted exact s.store l) (hexact : exact → a.refuses = false)
    (hstep : step s a = some s') : Accounted exact s'.store (l.next s a) := by
  cases a with
  | failure e =>
    obtain ⟨store, hfail, rfl⟩ := Option.map_eq_some_iff.mp hstep
    exact h.failure hexact hfail
  | step a =>
    cases a with
    | register email name inserted =>
      simp only [step, Dashboard.step] at hstep
      split at hstep
      · obtain rfl := Option.some.inj hstep
        unfold Dashboard.register
        split <;> exact h
      · cases hstep
    | updateUserBalance userID delta ok =>
      obtain rfl := Option.some.inj hstep
      unfold Dashboard.updateUserBalance
      split <;> exact h
    | store a =>
      obtain ⟨store, hstore, rfl⟩ := Option.map_eq_some_iff.mp hstep
      exact h.store hstore

/-! ### Whole runs -/

/-- The run lemma. -/
theorem Accounted.run (h : Accounted exact s.store l) (hexact : exact → ∀ a ∈ as, a.refuses = false)
    (hexec : exec step s as = some s') : Accounted exact s'.store (ledger s l as) := by
  induction as generalizing s l with
  | nil =>
    obtain rfl := Option.some.inj hexec
    exact h
  | cons a as ih =>
    obtain ⟨t, hstep, hrest⟩ := exec_cons_eq_some.mp hexec
    simp only [ledger, hstep]
    exact ih (h.next (fun he => hexact he a List.mem_cons_self) hstep)
      (fun he b hb => hexact he b (List.mem_cons_of_mem _ hb)) hrest

theorem accounted_start : Accounted exact Dashboard.start.store {} :=
  ⟨.nil, fun _ => rfl, List.Perm.refl _⟩

/-- A step that keeps its entries loses nothing. -/
theorem lost_next (l : Ledger) (h : KeepsEntries s a) : (l.next s a).lost = l.lost := by
  cases a with
  | failure e =>
    cases e with
    | command j => simp [Ledger.next, Ledger.lose, letGoFailing]
    | workerPop executed =>
      obtain rfl : executed = false := h
      simp [Ledger.next, Ledger.lose, letGoFailing]
    | pushBack => exact absurd h id
    | finalPop executed =>
      obtain rfl : executed = false := h
      simp [Ledger.next, Ledger.lose, letGoFailing]
  | step a =>
    cases a with
    | register | updateUserBalance => rfl
    | store a =>
      cases a with
      | pushBack =>
        have hlive : s.store.cancelled = false := h
        simp [Ledger.next, Ledger.lose, letGo, hlive]
      | finalInsert ok =>
        obtain rfl : ok = true := h
        simp [Ledger.next, Ledger.lose, letGo]
      | command j =>
        rw [Ledger.next]
        split <;> rfl
      | _ => simp [Ledger.next, Ledger.lose, letGo]

theorem lost_of_along (hgood : Along step KeepsEntries s as) : (ledger s l as).lost = l.lost := by
  induction as generalizing s l with
  | nil => rfl
  | cons a as ih =>
    rw [ledger]
    cases hstep : step s a with
    | none => rfl
    | some t =>
      simp only
      rw [ih (hgood.2 t hstep), lost_next l hgood.1]

/-- If no command is refused, what is only charged is midway, and nothing is only entered. -/
theorem unlogged_of_exact {calls : List Flush.Call} {marks : List Mark} (hexact : exact)
    (h : List.Forall₂ (Marked exact) calls marks) :
    (recordsOf marks fun m => m.charged && !m.entered) = Flush.midwayOf calls ∧
      (recordsOf marks fun m => m.entered && !m.charged) = [] := by
  induction h with
  | nil => exact ⟨rfl, rfl⟩
  | @cons c m calls marks hm hrest ih =>
    have hcharged : m.charged = decide (3 ≤ c.executed) := Bool.eq_iff_iff.mpr <| by
      rw [decide_eq_true_iff]
      exact ⟨hm.charged, hm.all_charged hexact⟩
    have hentered : m.entered = decide (6 ≤ c.executed) := Bool.eq_iff_iff.mpr <| by
      rw [decide_eq_true_iff]
      exact ⟨hm.entered, hm.all_entered hexact⟩
    obtain ⟨hmidway, hnone⟩ := ih
    have hmark : ∀ p : Mark → Bool, recordsOf (m :: marks) p = recordsOf [m] p ++ recordsOf marks p :=
      fun p => recordsOf_append [m] marks p
    have hcalls : Flush.midwayOf (c :: calls) = Flush.midwayOf [c] ++ Flush.midwayOf calls :=
      Flush.midwayOf_append [c] calls
    rw [hmark, hmark, hcalls, hmidway, hnone, List.append_nil]
    constructor
    · congr 1
      have hlength : c.commands.length = 6 := rfl
      have hsame : (m.charged && !m.entered) =
          decide (3 ≤ c.executed ∧ c.executed < c.commands.length) := by
        rw [hcharged, hentered, hlength, Bool.eq_iff_iff]
        simp
      simp only [recordsOf, Flush.midwayOf, List.filter_cons, List.filter_nil, hsame]
      split
      · rw [List.map_singleton, List.map_singleton, hm.record]
      · rfl
    · have hnot : (m.entered && !m.charged) = false := by
        rw [hcharged, hentered]
        simp only [Bool.and_eq_false_iff, decide_eq_false_iff_not, Bool.not_eq_false_eq_eq_true,
          decide_eq_true_iff]
        omega
      simp [recordsOf, hnot]

/-- The ledger has the records of the calls. -/
theorem records_of_marked {calls : List Flush.Call} {marks : List Mark}
    (h : List.Forall₂ (Marked exact) calls marks) :
    marks.map Mark.record = calls.map Flush.Call.record := by
  induction h with
  | nil => rfl
  | cons hm _ ih => rw [List.map_cons, List.map_cons, hm.record, ih]

/-- **The gate takes off what the dashboard shows.**  In every run, whatever command of Redis and
whatever insertion fails, what the gate takes off a user's balance is the total cost the dashboard
shows, the cost of the rows still on their way and of those that the run lost, and the difference
between what was charged without an entry and what was entered without a charge.  If no command of
a pipeline is refused, that difference is the calls between their commands. -/
theorem checkBalance_shown (hexec : exec step Dashboard.start as = some s) :
    let l := ledger Dashboard.start {} as
    l.marks.map Mark.record = s.store.calls.map Flush.Call.record ∧
      (s.store.rows ++ arriving s.store ++ l.lost).Perm (l.entered.map UsageRecord.row) ∧
      (∀ userID today estimatedCost, s.checkBalance userID estimatedCost =
        (s.getUserBalance userID).map fun balance => checkBalance balance
          ((s.summary userID today).stats.totalCost + totalCost userID (arriving s.store) +
            totalCost userID l.lost + Flush.costOf userID l.unlogged -
            Flush.costOf userID l.unpaid) estimatedCost) ∧
      ((∀ a ∈ as, a.refuses = false) →
        l.unlogged = Flush.midwayOf s.store.calls ∧ l.unpaid = []) ∧
      (Along step KeepsEntries Dashboard.start as → l.lost = []) := by
  have h : Accounted (∀ a ∈ as, a.refuses = false) s.store (ledger Dashboard.start {} as) :=
    accounted_start.run id hexec
  refine ⟨records_of_marked h.marked, h.rows, fun userID today estimatedCost => ?_,
    fun hexact => unlogged_of_exact hexact h.marked, lost_of_along⟩
  have hused : s.getUsedAmount userID = (s.summary userID today).stats.totalCost +
      totalCost userID (arriving s.store) + totalCost userID (ledger Dashboard.start {} as).lost +
      Flush.costOf userID (ledger Dashboard.start {} as).unlogged -
      Flush.costOf userID (ledger Dashboard.start {} as).unpaid := by
    rw [Dashboard.State.getUsedAmount, h.used userID, costOf_charged]
    have hrows := totalCost_perm h.rows userID
    rw [totalCost_row, totalCost_append, totalCost_append] at hrows
    rw [← Ledger.entered, ← hrows]
    rfl
  rw [Dashboard.State.checkBalance, hused]

/-- Call `j` with the record for tests: commands that are executed, or refused. -/
def callOf (j : Nat) (fates : List Bool) : List Action :=
  .step (.store (.call Flush.oneDollar (lit "2024-05-01") (lit "2024-05-01-12"))) ::
    fates.map fun executed => if executed then .step (.store (.command j)) else .failure (.command j)

/-- Of three calls the first is not charged and the second not entered; the row of the first is
stored, and the entry of the third gets lost. -/
def disturbed : List Action :=
  [.step (.register (lit "a@b.c") (lit "A") (some (1, 0)))] ++
    callOf 0 [true, true, false, true, true, true] ++
    callOf 1 [true, true, true, true, true, false] ++
    callOf 2 [true, true, true, true, true, true] ++
    [.step (.store .tick), .step (.store .workerPop), .step (.store (.workerInsert true)),
      .failure (.workerPop true)]

/-- The gate has taken off 2: what is shown, what is lost, and what is only charged, but for what is
only entered. -/
theorem checkBalance_shown_disturbed :
    let l := ledger Dashboard.start {} disturbed
    l.lost.length = 1 ∧ l.unlogged.length = 1 ∧ l.unpaid.length = 1 ∧
      ∃ s, exec step Dashboard.start disturbed = some s ∧ s.getUsedAmount 1 = 2 ∧
        (s.store.rows ++ arriving s.store ++ l.lost).Perm (l.entered.map UsageRecord.row) ∧
        ∀ today estimatedCost, s.checkBalance 1 estimatedCost =
          (s.getUserBalance 1).map fun balance => checkBalance balance
            ((s.summary 1 today).stats.totalCost + totalCost 1 (arriving s.store) +
              totalCost 1 l.lost + Flush.costOf 1 l.unlogged - Flush.costOf 1 l.unpaid)
            estimatedCost := by
  intro l
  have hledger : l.lost.length = 1 ∧ l.unlogged.length = 1 ∧ l.unpaid.length = 1 := by
    decide +kernel
  have hruns : (exec step Dashboard.start disturbed).any (fun s =>
      decide (s.getUsedAmount 1 = 2)) = true := by
    decide +kernel
  obtain ⟨s, hs, hused⟩ := (Option.any_eq_true _ _).mp hruns
  obtain ⟨-, hrows, hgate, -, -⟩ := checkBalance_shown hs
  exact ⟨hledger.1, hledger.2.1, hledger.2.2, s, hs, of_decide_eq_true hused, hrows, hgate 1⟩

end ShownCharges
end UniLLM.Billing
