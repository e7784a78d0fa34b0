import UniLLM.Billing.Conservation

/-!
# A usage record that is recorded in part

`RecordUsage` sends its commands in a pipeline.  That is not a transaction: Redis executes
one command after the other, may refuse any of them, and the connection may break at any
point, also after a command has been executed and before its answer is read.  The error of
the call does not say which.

Each counter and the queue have what their own commands did, and nothing else.  So a call
that fails may have charged the user without an entry in the log, or the other way round.
-/

namespace UniLLM.Billing
open Go

/-! ### The pipeline -/

/-- What becomes of a command of a pipeline. -/
inductive Fate where
  | answered
  /-- Refused with an error, or never received. -/
  | refused
  /-- Executed, and its answer is lost. -/
  | unanswered
  deriving DecidableEq

def Fate.executed : Fate → Bool
  | .refused => false
  | _ => true

/-- The fates of the commands of `RecordUsage`. -/
structure Fates where
  daily : Fate := .answered
  dailyExpire : Fate := .answered
  total : Fate := .answered
  model : Fate := .answered
  modelExpire : Fate := .answered
  queue : Fate := .answered

def Fates.toList (f : Fates) : List Fate :=
  [f.daily, f.dailyExpire, f.total, f.model, f.modelExpire, f.queue]

/-- `Exec`: the commands that are executed, one after the other. -/
def execPipeline (rdb : Redis) (cmds : List (Command × Fate)) : Redis :=
  cmds.foldl (fun rdb cmd => if cmd.2.executed then rdb.run cmd.1 else rdb) rdb

/-- The record of a call.  One whose cost or latency is infinite or not a number has no
JSON, and of it nothing else matters. -/
inductive Recorded where
  | finite (r : UsageRecord)
  | nonFinite

/-- `RecordUsage`: whether it returns an error, and what is in Redis then. -/
def recordUsage (rdb : Redis) (day hour : GoString) (f : Fates) : Recorded → Bool × Redis
  | .nonFinite => (true, rdb)
  | .finite r =>
    let cmds := (recordCommands r day hour).zip f.toList
    (cmds.any fun cmd => cmd.2 ≠ .answered, execPipeline rdb cmds)

/-! ### All or nothing -/

/-- The two counters of the user, the model's and the queue have the record. -/
structure AllChanged (rdb rdb' : Redis) (r : UsageRecord) (day hour : GoString) : Prop where
  daily : rdb'.counters (.daily r.userID.val day) =
    rdb.counters (.daily r.userID.val day) + r.cost.value
  total : rdb'.counters (.total r.userID.val) = rdb.counters (.total r.userID.val) + r.cost.value
  model : rdb'.counters (.model r.modelName.val hour) =
    rdb.counters (.model r.modelName.val hour) + 1
  queue : rdb'.queue = rdb.queue ++ [logBytes r]

/-- After an error nothing has changed, and otherwise everything has. -/
def AllOrNothing (rdb : Redis) (day hour : GoString) (f : Fates) (record : Recorded) : Prop :=
  ((recordUsage rdb day hour f record).1 = true → (recordUsage rdb day hour f record).2 = rdb) ∧
    ((recordUsage rdb day hour f record).1 = false →
      ∃ r, record = .finite r ∧ AllChanged rdb (recordUsage rdb day hour f record).2 r day hour)

/-- No command fails. -/
def Fates.AllAnswered (f : Fates) : Prop := ∀ fate ∈ f.toList, fate = .answered

/-- No command is executed that changes anything. -/
def Fates.ChangesNothing (f : Fates) (r : UsageRecord) : Prop :=
  (r.cost.value = 0 ∨ (f.daily.executed = false ∧ f.total.executed = false)) ∧
    f.model.executed = false ∧ f.queue.executed = false

/-- What an increment adds if it is executed. -/
def Fate.added (fate : Fate) (amount : Rat) : Rat := if fate.executed then amount else 0

/-- Every counter and the queue after the call. -/
structure Effect (rdb rdb' : Redis) (day hour : GoString) (f : Fates) (r : UsageRecord) : Prop where
  daily : rdb'.counters (.daily r.userID.val day) =
    rdb.counters (.daily r.userID.val day) + f.daily.added r.cost.value
  total : rdb'.counters (.total r.userID.val) =
    rdb.counters (.total r.userID.val) + f.total.added r.cost.value
  model : rdb'.counters (.model r.modelName.val hour) =
    rdb.counters (.model r.modelName.val hour) + f.model.added 1
  others : ∀ key, key ≠ .daily r.userID.val day → key ≠ .total r.userID.val →
    key ≠ .model r.modelName.val hour → rdb'.counters key = rdb.counters key
  queue : rdb'.queue = rdb.queue ++ if f.queue.executed then [logBytes r] else []

/-! ### What a pipeline changes -/

/-- What a command adds to a counter. -/
def Command.adds (key : Key) : Command → Rat
  | .incrBy key' amount => if key' = key then amount else 0
  | _ => 0

/-- What a command puts into the queue. -/
def Command.pushes : Command → List GoString
  | .rPush data => [data]
  | _ => []

theorem counters_run (rdb : Redis) (cmd : Command) (key : Key) :
    (rdb.run cmd).counters key = rdb.counters key + cmd.adds key := by
  cases cmd with
  | incrBy key' amount =>
    by_cases h : key' = key
    · subst h
      simp [Redis.run, Command.adds]
    · rw [Redis.run_incrBy_of_ne (Ne.symm h), Command.adds, if_neg h, add_zero]
  | expire key' => exact (add_zero _).symm
  | rPush data => exact (add_zero _).symm

theorem queue_run (rdb : Redis) (cmd : Command) : (rdb.run cmd).queue = rdb.queue ++ cmd.pushes := by
  cases cmd with
  | incrBy key amount => exact (List.append_nil _).symm
  | expire key => exact (List.append_nil _).symm
  | rPush data => rfl

theorem counters_execPipeline (rdb : Redis) (cmds : List (Command × Fate)) (key : Key) :
    (execPipeline rdb cmds).counters key =
      rdb.counters key + (cmds.map fun cmd => cmd.2.added (cmd.1.adds key)).sum := by
  induction cmds generalizing rdb with
  | nil => exact (add_zero _).symm
  | cons cmd cmds ih =>
    show (execPipeline (if cmd.2.executed then rdb.run cmd.1 else rdb) cmds).counters key = _
    rw [ih, List.map_cons, List.sum_cons, ← add_assoc]
    congr 1
    unfold Fate.added
    split
    · exact counters_run rdb cmd.1 key
    · exact (add_zero _).symm

theorem queue_execPipeline (rdb : Redis) (cmds : List (Command × Fate)) :
    (execPipeline rdb cmds).queue =
      rdb.queue ++ cmds.flatMap fun cmd => if cmd.2.executed then cmd.1.pushes else [] := by
  induction cmds generalizing rdb with
  | nil => exact (List.append_nil _).symm
  | cons cmd cmds ih =>
    show (execPipeline (if cmd.2.executed then rdb.run cmd.1 else rdb) cmds).queue = _
    rw [ih, List.flatMap_cons, ← List.append_assoc]
    congr 1
    split
    · exact queue_run rdb cmd.1
    · exact (List.append_nil _).symm

/-! ### What a call changes -/

variable (rdb : Redis) (day hour : GoString) (f : Fates)

/-- **Each part of the record has its own fate.** -/
theorem recordUsage_effect (r : UsageRecord) :
    Effect rdb (recordUsage rdb day hour f (.finite r)).2 day hour f r := by
  have hcounters := counters_execPipeline rdb ((recordCommands r day hour).zip f.toList)
  have hqueue := queue_execPipeline rdb ((recordCommands r day hour).zip f.toList)
  have hadded : ∀ fate : Fate, fate.added 0 = 0 := fun fate => ite_self 0
  constructor
  · rw [recordUsage, hcounters]
    simp [recordCommands, Fates.toList, Command.adds, hadded]
  · rw [recordUsage, hcounters]
    simp [recordCommands, Fates.toList, Command.adds, hadded]
  · rw [recordUsage, hcounters]
    simp [recordCommands, Fates.toList, Command.adds, hadded]
  · intro key hdaily htotal hmodel
    rw [recordUsage, hcounters]
    simp [recordCommands, Fates.toList, Command.adds, hadded, hdaily.symm, htotal.symm, hmodel.symm]
  · rw [recordUsage, hqueue]
    simp [recordCommands, Fates.toList, Command.pushes]

/-- The call returns nil when no command fails. -/
theorem recordUsage_failed_iff (r : UsageRecord) :
    (recordUsage rdb day hour f (.finite r)).1 = false ↔ f.AllAnswered := by
  rw [recordUsage, Fates.AllAnswered, List.any_eq_false]
  simp [recordCommands, Fates.toList]

theorem Fate.added_eq_zero_iff {fate : Fate} {amount : Rat} :
    fate.added amount = 0 ↔ amount = 0 ∨ fate.executed = false := by
  unfold Fate.added
  split
  · rename_i h
    simp [h]
  · rename_i h
    simp [h]

variable {rdb day hour f} in
theorem Effect.eq_iff {rdb' : Redis} {r : UsageRecord} (h : Effect rdb rdb' day hour f r) :
    rdb' = rdb ↔ f.ChangesNothing r := by
  have hcost : f.daily.added r.cost.value = 0 ∧ f.total.added r.cost.value = 0 ↔
      r.cost.value = 0 ∨ (f.daily.executed = false ∧ f.total.executed = false) := by
    rw [Fate.added_eq_zero_iff, Fate.added_eq_zero_iff, or_and_left]
  have hone : f.model.added 1 = 0 ↔ f.model.executed = false := by
    rw [Fate.added_eq_zero_iff, or_iff_right one_ne_zero]
  unfold Fates.ChangesNothing
  rw [← hcost, ← hone]
  constructor
  · rintro rfl
    have hqueue := h.queue
    refine ⟨⟨?_, ?_⟩, ?_, ?_⟩
    · exact add_eq_left.mp h.daily.symm
    · exact add_eq_left.mp h.total.symm
    · exact add_eq_left.mp h.model.symm
    · cases hexecuted : f.queue.executed with
      | false => rfl
      | true =>
        rw [hexecuted, if_pos rfl] at hqueue
        exact absurd (List.append_right_eq_self.mp hqueue.symm) (List.cons_ne_nil _ _)
  · rintro ⟨⟨hdaily, htotal⟩, hmodel, hqueue⟩
    have hcounters : rdb'.counters = rdb.counters := by
      funext key
      by_cases hkey : key = .daily r.userID.val day
      · rw [hkey, h.daily, hdaily, add_zero]
      · by_cases hkey' : key = .total r.userID.val
        · rw [hkey', h.total, htotal, add_zero]
        · by_cases hkey'' : key = .model r.modelName.val hour
          · rw [hkey'', h.model, hmodel, add_zero]
          · exact h.others key hkey hkey' hkey''
    have hentries : rdb'.queue = rdb.queue := by
      rw [h.queue, hqueue, if_neg Bool.false_ne_true, List.append_nil]
    show (⟨rdb'.counters, rdb'.queue⟩ : Redis) = ⟨rdb.counters, rdb.queue⟩
    rw [hcounters, hentries]

variable {rdb day hour f} in
theorem Effect.allChanged {rdb' : Redis} {r : UsageRecord} (h : Effect rdb rdb' day hour f r)
    (hf : f.AllAnswered) : AllChanged rdb rdb' r day hour := by
  simp only [Fates.AllAnswered, Fates.toList, List.forall_mem_cons] at hf
  obtain ⟨hdaily, -, htotal, hmodel, -, hqueue, -⟩ := hf
  refine ⟨?_, ?_, ?_, ?_⟩
  · rw [h.daily, hdaily]
    rfl
  · rw [h.total, htotal]
    rfl
  · rw [h.model, hmodel]
    rfl
  · rw [h.queue, hqueue]
    rfl

/-- When a call is all or nothing. -/
theorem allOrNothing_iff (record : Recorded) :
    AllOrNothing rdb day hour f record ↔
      ∀ r, record = .finite r → f.AllAnswered ∨ f.ChangesNothing r := by
  cases record with
  | nonFinite =>
    refine iff_of_true ⟨fun _ => rfl, fun h => ?_⟩ (fun r h => ?_)
    · cases h
    · cases h
  | finite r =>
    have heffect := recordUsage_effect rdb day hour f r
    constructor
    · rintro ⟨hfailed, -⟩ r' hr
      obtain rfl := Recorded.finite.inj hr
      by_cases hf : f.AllAnswered
      · exact Or.inl hf
      · rw [← recordUsage_failed_iff rdb day hour f r, Bool.not_eq_false] at hf
        exact Or.inr ((heffect.eq_iff).mp (hfailed hf))
    · intro h
      refine ⟨fun hfailed => ?_, fun hok => ?_⟩
      · rcases h r rfl with hf | hnothing
        · rw [(recordUsage_failed_iff rdb day hour f r).mpr hf] at hfailed
          cases hfailed
        · exact heffect.eq_iff.mpr hnothing
      · exact ⟨r, rfl, heffect.allChanged ((recordUsage_failed_iff rdb day hour f r).mp hok)⟩

/-- The connection breaks after the user has been charged. -/
def brokenConnection : Fates :=
  { model := .refused, modelExpire := .refused, queue := .refused }

/-- The user is charged a dollar, and the call returns an error. -/
theorem not_allOrNothing_brokenConnection :
    ¬ AllOrNothing ⟨fun _ => 0, []⟩ (lit "2024-05-01") (lit "2024-05-01-12") brokenConnection
      (.finite Flush.oneDollar) := by
  rw [allOrNothing_iff]
  intro h
  rcases h Flush.oneDollar rfl with hanswered | ⟨hcost | hnone, -⟩
  · exact absurd (hanswered .refused (by decide)) (by decide)
  · exact absurd hcost (by decide)
  · exact absurd hnone.1 (by decide)

/-- **What a call has recorded**: all of the record if it returns nil, and nothing if the
record has no JSON.  Otherwise each counter and the queue have changed if their own command
was executed, which is all or nothing only if no command failed, or none that changes anything
was executed. -/
theorem recordUsage_changes (record : Recorded) :
    (∀ r, record = .finite r →
      Effect rdb (recordUsage rdb day hour f record).2 day hour f r ∧
        ((recordUsage rdb day hour f record).1 = false →
          AllChanged rdb (recordUsage rdb day hour f record).2 r day hour)) ∧
      (record = .nonFinite → recordUsage rdb day hour f record = (true, rdb)) ∧
      (AllOrNothing rdb day hour f record ↔
        ∀ r, record = .finite r → f.AllAnswered ∨ f.ChangesNothing r) := by
  refine ⟨?_, ?_, allOrNothing_iff rdb day hour f record⟩
  · rintro r rfl
    have heffect := recordUsage_effect rdb day hour f r
    exact ⟨heffect, fun hok =>
      heffect.allChanged ((recordUsage_failed_iff rdb day hour f r).mp hok)⟩
  · rintro rfl
    rfl

end UniLLM.Billing
