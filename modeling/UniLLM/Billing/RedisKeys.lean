import UniLLM.Go.Calendar
import UniLLM.Billing.PartialRecord
import UniLLM.Middleware.LimiterAgreement

/-!
# The names of keys in Redis

Counters, the queue and the limiter's sets share one keyspace.  A name is a word followed by
its arguments, with nothing escaped: a model may be called anything, so its name may hold the
colons that separate arguments.  Names are still different for different things, since the
hour after a model's name holds no colon, nor does the number before a day.

The models of the store and of the limiter have a counter or a set for each thing, not for
each name.  Here the commands run on names, and the other models are what this comes to.
-/

namespace UniLLM.RedisKeys
open Go Billing Middleware

/-! ### Names -/

/-- What is in Redis. -/
inductive RedisKey where
  | daily (userID : Int) (day : Date)
  | balanceUsed (userID : Int)
  | modelReqs (modelName : GoString) (hour : Hour)
  /-- With the key that the limiter is asked about. -/
  | rateLimit (key : GoString)
  | usageLogQueue

def RedisKey.text : RedisKey → GoString
  | .daily userID day => lit "usage:" ++ formatInt userID ++ lit ":" ++ day.format
  | .balanceUsed userID => lit "balance_used:" ++ formatInt userID
  | .modelReqs modelName hour => lit "model_reqs:" ++ modelName ++ lit ":" ++ hour.format
  | .rateLimit key => rkey key
  | .usageLogQueue => lit "usage_log_queue"

/-- What it is that has the name: its first byte, but `usage:` and `usage_log_queue` differ
after five more. -/
def kindOf (name : GoString) : Option UInt8 :=
  if name.head? = some 0x75 then name[5]? else name.head?

def RedisKey.kind : RedisKey → UInt8
  | .daily _ _ => 0x3A
  | .balanceUsed _ => 0x62
  | .modelReqs _ _ => 0x6D
  | .rateLimit _ => 0x72
  | .usageLogQueue => 0x5F

theorem kindOf_text (key : RedisKey) : kindOf key.text = some key.kind := by
  cases key <;> rfl

/-- What is before the first separator. -/
theorem eq_of_append_sep {sep : UInt8} {x x' z z' : GoString} (hx : sep ∉ x) (hx' : sep ∉ x')
    (h : x ++ sep :: z = x' ++ sep :: z') : x = x' ∧ z = z' := by
  induction x generalizing x' with
  | nil =>
    cases x' with
    | nil => exact ⟨rfl, (List.cons.inj h).2⟩
    | cons b x' =>
      refine absurd ?_ hx'
      rw [← (List.cons.inj h).1]
      exact List.mem_cons_self
  | cons b x ih =>
    cases x' with
    | nil =>
      refine absurd ?_ hx
      rw [(List.cons.inj h).1]
      exact List.mem_cons_self
    | cons b' x' =>
      obtain ⟨hb, hrest⟩ := List.cons.inj h
      have htails := ih (fun hmem => hx (List.mem_cons_of_mem b hmem))
        (fun hmem => hx' (List.mem_cons_of_mem b' hmem)) hrest
      exact ⟨by rw [hb, htails.1], htails.2⟩

/-- What is behind the last separator. -/
theorem eq_of_sep_append {sep : UInt8} {x x' z z' : GoString} (hz : sep ∉ z) (hz' : sep ∉ z')
    (h : x ++ sep :: z = x' ++ sep :: z') : x = x' ∧ z = z' := by
  have hreverse := congrArg List.reverse h
  simp only [List.reverse_append, List.reverse_cons, List.append_assoc, List.cons_append,
    List.nil_append] at hreverse
  obtain ⟨hback, hfront⟩ := eq_of_append_sep (by simpa using hz) (by simpa using hz') hreverse
  exact ⟨List.reverse_injective hfront, List.reverse_injective hback⟩

theorem colon_notMem_formatInt (i : Int) : (0x3A : UInt8) ∉ formatInt i := by
  intro h
  unfold formatInt at h
  split at h
  · rcases List.mem_cons.mp h with hminus | h
    · exact absurd hminus (by decide)
    · exact absurd (formatNat_isDigit _ _ h) (by decide)
  · exact absurd (formatNat_isDigit _ _ h) (by decide)

theorem colon_notMem_hour (hour : Hour) : (0x3A : UInt8) ∉ hour.format := by
  intro h
  exact absurd (hour.format_bytes _ h) (by decide)

/-- **A name says what has it.** -/
theorem text_injective : Function.Injective RedisKey.text := by
  intro key key' h
  have hkind : key.kind = key'.kind := by
    have hboth := congrArg kindOf h
    rw [kindOf_text, kindOf_text] at hboth
    exact Option.some.inj hboth
  cases key with
  | daily userID day =>
    cases key' with
    | daily userID' day' =>
      simp only [RedisKey.text, List.append_assoc, List.append_cancel_left_eq] at h
      obtain ⟨hid, hday⟩ :=
        eq_of_append_sep (colon_notMem_formatInt userID) (colon_notMem_formatInt userID') h
      rw [formatInt_injective hid, Date.format_injective hday]
    | _ => simp [RedisKey.kind] at hkind
  | balanceUsed userID =>
    cases key' with
    | balanceUsed userID' => rw [formatInt_injective (List.append_cancel_left h)]
    | _ => simp [RedisKey.kind] at hkind
  | modelReqs modelName hour =>
    cases key' with
    | modelReqs modelName' hour' =>
      simp only [RedisKey.text, List.append_assoc, List.append_cancel_left_eq] at h
      obtain ⟨hname, hhour⟩ := eq_of_sep_append (colon_notMem_hour hour) (colon_notMem_hour hour') h
      rw [hname, Hour.format_injective hhour]
    | _ => simp [RedisKey.kind] at hkind
  | rateLimit limiterKey =>
    cases key' with
    | rateLimit limiterKey' => rw [rkey_injective h]
    | _ => simp [RedisKey.kind] at hkind
  | usageLogQueue =>
    cases key' with
    | usageLogQueue => rfl
    | _ => simp [RedisKey.kind] at hkind

/-! ### The keyspace -/

inductive Value where
  /-- A string that is a number. -/
  | number (amount : Rat)
  | list (data : List GoString)
  | zset (entries : Finset Int)

structure Entry where
  value : Value
  deadline : Option Int := none

abbrev Keyspace := GoString → Option Entry

/-- What is left of an entry at a time. -/
def Entry.at (e : Entry) (clock : Int) : Option Entry :=
  match e.deadline with
  | some deadline => if deadline ≤ clock then none else some e
  | none => some e

inductive Op where
  | incrByFloat (amount : Rat)
  | incr
  | expire (seconds : Int)
  | rPush (data : GoString)
  | zRemRangeByScore (max : Int)
  | zCard
  | zAdd (member : Int)
  /-- From -1 to -1. -/
  | zRemRangeByRank

structure RedisCommand where
  key : GoString
  op : Op

/-- A key without entries is not there. -/
def ofSet (z : SortedSet) : Option Entry :=
  if z.entries = ∅ then none else some ⟨.zset z.entries, z.deadline⟩

/-- A command on a sorted set.  On something else it is refused. -/
def onSet (f : SortedSet → SortedSet) : Option Entry → Option Entry
  | none => ofSet (f ⟨∅, none⟩)
  | some ⟨.zset entries, deadline⟩ => ofSet (f ⟨entries, deadline⟩)
  | some e => some e

/-- What a command makes of the entry that has its key. -/
def Op.run (clock : Int) (e : Option Entry) : Op → Option Entry
  | .incrByFloat amount =>
    match e with
    | none => some { value := .number amount }
    | some ⟨.number x, deadline⟩ => some ⟨.number (x + amount), deadline⟩
    | some e => some e
  | .incr =>
    match e with
    | none => some { value := .number 1 }
    -- the string must be an integer
    | some ⟨.number x, deadline⟩ => some ⟨.number (if x.den = 1 then x + 1 else x), deadline⟩
    | some e => some e
  | .expire seconds =>
    if seconds ≤ 0 then none
    else e.map fun e => { e with deadline := some (clock + seconds * 1000000) }
  | .rPush data =>
    match e with
    | none => some { value := .list [data] }
    | some ⟨.list l, deadline⟩ => some ⟨.list (l ++ [data]), deadline⟩
    | some e => some e
  | .zRemRangeByScore max => onSet (·.removeRangeByScore max) e
  | .zCard => e
  | .zAdd member => onSet (·.add member) e
  | .zRemRangeByRank => onSet SortedSet.removeHighest e

/-- Redis executes a command at a time on its clock. -/
def Keyspace.run (ks : Keyspace) (clock : Int) (cmd : RedisCommand) : Keyspace :=
  Function.update ks cmd.key (cmd.op.run clock ((ks cmd.key).bind (·.at clock)))

/-- Commands, each with the time it is executed at. -/
def Keyspace.runAll (ks : Keyspace) (cmds : List (Int × RedisCommand)) : Keyspace :=
  cmds.foldl (fun ks cmd => ks.run cmd.1 cmd.2) ks

/-! ### The commands of a call -/

/-- What `RecordUsage` puts into its pipeline, on the given day in the given hour. -/
def recordUsageCommands (r : UsageRecord) (day : Date) (hour : Hour) : List RedisCommand :=
  let dayKey := (RedisKey.daily r.userID.val day).text
  let totalKey := (RedisKey.balanceUsed r.userID.val).text
  let modelKey := (RedisKey.modelReqs r.modelName.val hour).text
  [⟨dayKey, .incrByFloat r.cost.value⟩,
   ⟨dayKey, .expire (48 * 60 * 60)⟩,
   ⟨totalKey, .incrByFloat r.cost.value⟩,
   ⟨modelKey, .incr⟩,
   ⟨modelKey, .expire (25 * 60 * 60)⟩,
   ⟨RedisKey.usageLogQueue.text, .rPush (logBytes r)⟩]

/-- The pipeline of `Allow`, and the command that takes the entry of a call back. -/
def allowCommands (rl : RedisRateLimiter) (key : GoString) (reading : Int) : List RedisCommand :=
  let name := (RedisKey.rateLimit key).text
  [⟨name, .zRemRangeByScore (rl.windowStart reading)⟩,
   ⟨name, .zCard⟩,
   ⟨name, .zAdd reading⟩,
   ⟨name, .expire rl.ttl⟩,
   ⟨name, .zRemRangeByRank⟩]

inductive Request where
  | recordUsage (r : UsageRecord) (day : Date) (hour : Hour)
  | allow (rl : RedisRateLimiter) (key : GoString) (reading : Int)

def Request.commands : Request → List RedisCommand
  | .recordUsage r day hour => recordUsageCommands r day hour
  | .allow rl key reading => allowCommands rl key reading

/-- The limiter is asked about a user by the decimal id. -/
def Request.For (userID : Int) : Request → Prop
  | .recordUsage r _ _ => r.userID.val = userID
  | .allow _ key _ => key = formatInt userID

/-- A counter, the balance or the limiter's set of a user. -/
def RedisKey.Of (userID : Int) : RedisKey → Prop
  | .daily id _ | .balanceUsed id => id = userID
  | .rateLimit key => key = formatInt userID
  | _ => False

variable {ks : Keyspace} {clock : Int} {cmd : RedisCommand}

/-- A command changes its key only. -/
theorem Keyspace.run_of_ne {name : GoString} (h : name ≠ cmd.key) : ks.run clock cmd name = ks name :=
  Function.update_of_ne h _ _

theorem Keyspace.runAll_of_ne {cmds : List (Int × RedisCommand)} {name : GoString}
    (h : ∀ cmd ∈ cmds, name ≠ cmd.2.key) : ks.runAll cmds name = ks name := by
  induction cmds generalizing ks with
  | nil => rfl
  | cons cmd cmds ih =>
    have hrest : (ks.run cmd.1 cmd.2).runAll cmds name = ks.run cmd.1 cmd.2 name :=
      ih fun c hc => h c (List.mem_cons_of_mem cmd hc)
    exact hrest.trans (Keyspace.run_of_ne (h cmd List.mem_cons_self))

/-- The keys of a request are the user's own, a model's, or the queue. -/
theorem key_of_mem_commands {request : Request} {userID : Int} (h : request.For userID)
    (hmem : cmd ∈ request.commands) :
    ∃ key : RedisKey, cmd.key = key.text ∧
      (key.Of userID ∨ (∃ modelName hour, key = .modelReqs modelName hour) ∨
        key = .usageLogQueue) := by
  cases request with
  | recordUsage r day hour =>
    simp only [Request.commands, recordUsageCommands, List.mem_cons, List.not_mem_nil,
      or_false] at hmem
    rcases hmem with rfl | rfl | rfl | rfl | rfl | rfl
    · exact ⟨.daily r.userID.val day, rfl, .inl h⟩
    · exact ⟨.daily r.userID.val day, rfl, .inl h⟩
    · exact ⟨.balanceUsed r.userID.val, rfl, .inl h⟩
    · exact ⟨_, rfl, .inr (.inl ⟨_, _, rfl⟩)⟩
    · exact ⟨_, rfl, .inr (.inl ⟨_, _, rfl⟩)⟩
    · exact ⟨_, rfl, .inr (.inr rfl)⟩
  | allow rl key reading =>
    refine ⟨.rateLimit key, ?_, .inl h⟩
    simp only [Request.commands, allowCommands, List.mem_cons, List.not_mem_nil, or_false] at hmem
    rcases hmem with rfl | rfl | rfl | rfl | rfl <;> rfl

/-- What is a user's is no other's. -/
theorem RedisKey.Of.unique {key : RedisKey} {userID other : Int} (h : key.Of userID)
    (h' : key.Of other) : userID = other := by
  cases key with
  | daily id day => exact h.symm.trans h'
  | balanceUsed id => exact h.symm.trans h'
  | rateLimit key => exact formatInt_injective (h.symm.trans h')
  | modelReqs modelName hour => cases h
  | usageLogQueue => cases h

/-- **Keys never collide.**  Names are equal only for the same thing, so whatever commands of
a user's requests Redis executes, in whatever order, nothing of another user changes. -/
theorem redis_keys_disjoint :
    Function.Injective RedisKey.text ∧
      ∀ (userID other : Int), userID ≠ other → ∀ (cmds : List (Int × RedisCommand)),
        (∀ cmd ∈ cmds, ∃ request : Request, request.For userID ∧ cmd.2 ∈ request.commands) →
        ∀ (ks : Keyspace) (key : RedisKey), key.Of other → ks.runAll cmds key.text = ks key.text := by
  refine ⟨text_injective, ?_⟩
  intro userID other hne cmds hcmds ks key hkey
  apply Keyspace.runAll_of_ne
  intro cmd hcmd htext
  obtain ⟨request, hfor, hmem⟩ := hcmds cmd hcmd
  obtain ⟨key', hname, hown⟩ := key_of_mem_commands hfor hmem
  obtain rfl := text_injective (htext.trans hname)
  rcases hown with hown | ⟨modelName, hour, rfl⟩ | rfl
  · exact hne (hown.unique hkey)
  · exact hkey
  · exact hkey

def newYear : Date := ⟨2024, 1, 1, by decide, by decide, by decide, by decide⟩

def midnight : Hour := ⟨newYear, 0, by decide⟩

/-- A user is let in and charged, and the limiter takes an entry back. -/
def oneUser : List (Int × RedisCommand) :=
  (allowCommands ⟨60, 60 * 1000000⟩ (formatInt 1) 100 ++
    recordUsageCommands Flush.oneDollar newYear midnight).map fun cmd => (100, cmd)

/-- Another user has used three dollars. -/
def threeUsed : Keyspace :=
  Function.update (fun _ => none) (RedisKey.balanceUsed 2).text (some ⟨.number 3, none⟩)

theorem redis_keys_disjoint_oneUser :
    (threeUsed.runAll oneUser (RedisKey.balanceUsed 1).text).isSome = true ∧
      threeUsed.runAll oneUser (RedisKey.balanceUsed 2).text = some ⟨.number 3, none⟩ := by
  refine ⟨by decide +kernel, ?_⟩
  have hcmds : ∀ cmd ∈ oneUser, ∃ request : Request, request.For 1 ∧ cmd.2 ∈ request.commands := by
    intro cmd hcmd
    obtain ⟨c, hc, rfl⟩ := List.mem_map.mp hcmd
    rcases List.mem_append.mp hc with hc | hc
    · exact ⟨.allow _ _ _, rfl, hc⟩
    · exact ⟨.recordUsage Flush.oneDollar newYear midnight, rfl, hc⟩
  rw [redis_keys_disjoint.2 1 2 (by decide) oneUser hcmds threeUsed (.balanceUsed 2) rfl, threeUsed,
    Function.update_self]

/-! ### The limiter's sets -/

/-- A set without entries has no lifetime. -/
def Stored (z : SortedSet) : Prop := z.entries = ∅ → z.deadline = none

theorem stored_put (z : SortedSet) (entries : Finset Int) : Stored (z.put entries) := by
  intro h
  rw [SortedSet.put] at h ⊢
  exact if_pos h

theorem Stored.at {z : SortedSet} (h : Stored z) (clock : Int) : Stored (z.at clock) := by
  unfold SortedSet.at
  split
  · split
    · exact fun _ => rfl
    · exact h
  · exact h

theorem Stored.expire {z : SortedSet} (h : Stored z) (clock seconds : Int) :
    Stored (z.expire clock seconds) := by
  unfold SortedSet.expire
  split
  · exact fun _ => rfl
  · split
    · exact h
    · rename_i hne
      exact fun hempty => absurd hempty hne

theorem onSet_ofSet {z : SortedSet} (h : Stored z) (f : SortedSet → SortedSet) :
    onSet f (ofSet z) = ofSet (f z) := by
  by_cases hempty : z.entries = ∅
  · have hz : z = ⟨∅, none⟩ := by
      rw [← hempty, ← h hempty]
    rw [hz]
    rfl
  · rw [ofSet, if_neg hempty]
    rfl

theorem at_ofSet (z : SortedSet) (clock : Int) : (ofSet z).bind (·.at clock) = ofSet (z.at clock) := by
  by_cases hempty : z.entries = ∅
  · have hat : (z.at clock).entries = ∅ := by
      unfold SortedSet.at
      split
      · split
        · rfl
        · exact hempty
      · exact hempty
    rw [ofSet, ofSet, if_pos hempty, if_pos hat]
    rfl
  · rw [ofSet, if_neg hempty]
    cases hdeadline : z.deadline with
    | none => simp [Entry.at, SortedSet.at, ofSet, hdeadline, hempty]
    | some deadline =>
      by_cases hle : deadline ≤ clock
      · simp [Entry.at, SortedSet.at, ofSet, hdeadline, hle]
      · simp [Entry.at, SortedSet.at, ofSet, hdeadline, hle, hempty]

theorem expire_ofSet (z : SortedSet) (clock seconds : Int) :
    Op.run clock (ofSet z) (.expire seconds) = ofSet (z.expire clock seconds) := by
  by_cases hseconds : seconds ≤ 0
  · simp [Op.run, SortedSet.expire, ofSet, hseconds]
  · by_cases hempty : z.entries = ∅
    · simp [Op.run, SortedSet.expire, ofSet, hseconds, hempty]
    · simp [Op.run, SortedSet.expire, ofSet, hseconds, hempty]

theorem run_self (ks : Keyspace) (clock : Int) (cmd : RedisCommand) :
    ks.run clock cmd cmd.key = cmd.op.run clock ((ks cmd.key).bind (·.at clock)) :=
  Function.update_self ..

theorem run_ofSet {name : GoString} {z : SortedSet} (h : ks name = ofSet z) (clock : Int) (op : Op) :
    ks.run clock ⟨name, op⟩ name = op.run clock (ofSet (z.at clock)) := by
  rw [← at_ofSet, ← h]
  exact run_self ks clock ⟨name, op⟩

/-- **The limiter's commands on names** make of the set what its model says. -/
theorem runAll_allow (rl : RedisRateLimiter) (c : TimedCall) {z : SortedSet} (hz : Stored z)
    (h : ks (rkey c.key) = ofSet z) :
    ks.runAll ([c.removeAt, c.countAt, c.addAt, c.expireAt].zip (allowCommands rl c.key c.reading) ++
        if (rl.allowOn z c).1 then [] else [(c.takeBackAt, ⟨rkey c.key, .zRemRangeByRank⟩)])
      (rkey c.key) = ofSet (rl.allowOn z c).2 := by
  have hprune := (run_ofSet h c.removeAt (.zRemRangeByScore (rl.windowStart c.reading))).trans
    (onSet_ofSet (hz.at _) (·.removeRangeByScore (rl.windowStart c.reading)))
  have hpruned : Stored ((z.at c.removeAt).removeRangeByScore (rl.windowStart c.reading)) :=
    stored_put _ _
  have hcount := run_ofSet hprune c.countAt .zCard
  have hadd := (run_ofSet hcount c.addAt (.zAdd c.reading)).trans
    (onSet_ofSet ((hpruned.at _).at _) (·.add c.reading))
  have hadded : Stored (((((z.at c.removeAt).removeRangeByScore (rl.windowStart c.reading)).at
      c.countAt).at c.addAt).add c.reading) := stored_put _ _
  have hexpire := (run_ofSet hadd c.expireAt (.expire rl.ttl)).trans (expire_ofSet _ _ _)
  have htake := (run_ofSet hexpire c.takeBackAt .zRemRangeByRank).trans
    (onSet_ofSet (((hadded.at _).expire _ _).at _) SortedSet.removeHighest)
  unfold RedisRateLimiter.allowOn
  simp only
  split
  · exact htake
  · exact hexpire

/-! ### The store's counters -/

/-- The counter with the name. -/
def RedisKey.counter : RedisKey → Option Key
  | .daily userID day => some (.daily userID day.format)
  | .balanceUsed userID => some (.total userID)
  | .modelReqs modelName hour => some (.model modelName hour.format)
  | _ => none

/-- A counter that is not there is zero. -/
def numberOf : Option Entry → Option Rat
  | none => some 0
  | some ⟨.number amount, _⟩ => some amount
  | _ => none

def listOf : Option Entry → Option (List GoString)
  | none => some []
  | some ⟨.list data, _⟩ => some data
  | _ => none

/-- The counters and the queue are those under the names, and no lifetime has ended. -/
structure Represents (clock : Int) (ks : Keyspace) (rdb : Redis) : Prop where
  counters : ∀ (key : RedisKey) counter, key.counter = some counter →
    numberOf (ks key.text) = some (rdb.counters counter)
  queue : listOf (ks RedisKey.usageLogQueue.text) = some rdb.queue
  whole : ∀ modelName (hour : Hour), (rdb.counters (.model modelName hour.format)).den = 1
  live : ∀ name, (ks name).bind (·.at clock) = ks name

/-- The commands on names, and what they are to the counters. -/
inductive Same : RedisCommand → Command → Prop
  | incrByFloat {key : RedisKey} {counter : Key} (amount : Rat) (h : key.counter = some counter)
      (hmodel : ∀ modelName hour, key ≠ .modelReqs modelName hour) :
      Same ⟨key.text, .incrByFloat amount⟩ (.incrBy counter amount)
  | incr (modelName : GoString) (hour : Hour) :
      Same ⟨(RedisKey.modelReqs modelName hour).text, .incr⟩ (.incrBy (.model modelName hour.format) 1)
  | expire {key : RedisKey} {counter : Key} {seconds : Int} (h : key.counter = some counter)
      (hseconds : 0 < seconds) : Same ⟨key.text, .expire seconds⟩ (.expire counter)
  | rPush (data : GoString) : Same ⟨RedisKey.usageLogQueue.text, .rPush data⟩ (.rPush data)

theorem counter_injective {key key' : RedisKey} {counter : Key} (h : key.counter = some counter)
    (h' : key'.counter = some counter) : key = key' := by
  have hsame : key.counter = key'.counter := h.trans h'.symm
  cases key with
  | daily userID day =>
    cases key' with
    | daily userID' day' =>
      obtain ⟨rfl, hday⟩ : userID = userID' ∧ day.format = day'.format := by
        simpa [RedisKey.counter] using hsame
      rw [Date.format_injective hday]
    | _ => simp [RedisKey.counter] at hsame
  | balanceUsed userID =>
    cases key' with
    | balanceUsed userID' =>
      obtain rfl : userID = userID' := by simpa [RedisKey.counter] using hsame
      rfl
    | _ => simp [RedisKey.counter] at hsame
  | modelReqs modelName hour =>
    cases key' with
    | modelReqs modelName' hour' =>
      obtain ⟨rfl, hhour⟩ : modelName = modelName' ∧ hour.format = hour'.format := by
        simpa [RedisKey.counter] using hsame
      rw [Hour.format_injective hhour]
    | _ => simp [RedisKey.counter] at hsame
  | rateLimit limiterKey => cases h
  | usageLogQueue => cases h

/-- What an increment does to the entry of its counter. -/
theorem numberOf_incrByFloat {e : Option Entry} {x : Rat} (h : numberOf e = some x) (clock : Int)
    (amount : Rat) : numberOf (Op.run clock e (.incrByFloat amount)) = some (x + amount) := by
  unfold numberOf at h
  split at h
  · obtain rfl := Option.some.inj h
    simp [Op.run, numberOf]
  · obtain rfl := Option.some.inj h
    rfl
  · cases h

theorem numberOf_incr {e : Option Entry} {x : Rat} (h : numberOf e = some x) (hx : x.den = 1)
    (clock : Int) : numberOf (Op.run clock e .incr) = some (x + 1) := by
  unfold numberOf at h
  split at h
  · obtain rfl := Option.some.inj h
    simp [Op.run, numberOf]
  · obtain rfl := Option.some.inj h
    simp [Op.run, numberOf, hx]
  · cases h

theorem numberOf_expire (e : Option Entry) (clock : Int) {seconds : Int} (h : 0 < seconds) :
    numberOf (Op.run clock e (.expire seconds)) = numberOf e := by
  rw [Op.run, if_neg (by omega)]
  rcases e with _ | ⟨amount | data | entries, deadline⟩ <;> rfl

theorem listOf_rPush {e : Option Entry} {l : List GoString} (h : listOf e = some l) (clock : Int)
    (data : GoString) : listOf (Op.run clock e (.rPush data)) = some (l ++ [data]) := by
  unfold listOf at h
  split at h
  · obtain rfl := Option.some.inj h
    rfl
  · obtain rfl := Option.some.inj h
    rfl
  · cases h

/-- Whether an entry is left depends on its deadline alone. -/
theorem Entry.at_value {v : Value} {deadline : Option Int}
    (h : (⟨v, deadline⟩ : Entry).at clock = some ⟨v, deadline⟩) (v' : Value) :
    (⟨v', deadline⟩ : Entry).at clock = some ⟨v', deadline⟩ := by
  cases deadline with
  | none => rfl
  | some t =>
    by_cases ht : t ≤ clock
    · simp [Entry.at, ht] at h
    · simp [Entry.at, ht]

/-- A command that changes the value only. -/
theorem at_run_of_keeps {e : Option Entry} (h : e.bind (·.at clock) = e) {op : Op}
    (hnew : ∃ v, op.run clock none = some { value := v })
    (hold : ∀ v deadline, ∃ v', op.run clock (some ⟨v, deadline⟩) = some ⟨v', deadline⟩) :
    (op.run clock e).bind (·.at clock) = op.run clock e := by
  cases e with
  | none =>
    obtain ⟨v, hv⟩ := hnew
    rw [hv]
    rfl
  | some e =>
    obtain ⟨v, deadline⟩ := e
    obtain ⟨v', hv'⟩ := hold v deadline
    rw [hv']
    exact Entry.at_value h v'

/-- A command does not end the lifetime of what it has written. -/
theorem at_run {e : Option Entry} (h : e.bind (·.at clock) = e) {cmd' : Command} {key : GoString}
    {op : Op} (hsame : Same ⟨key, op⟩ cmd') :
    (op.run clock e).bind (·.at clock) = op.run clock e := by
  cases hsame with
  | incrByFloat amount =>
    exact at_run_of_keeps h ⟨_, rfl⟩ fun v deadline => by cases v <;> exact ⟨_, rfl⟩
  | incr =>
    exact at_run_of_keeps h ⟨_, rfl⟩ fun v deadline => by cases v <;> exact ⟨_, rfl⟩
  | expire hcounter hseconds =>
    rw [Op.run, if_neg (by omega)]
    cases e with
    | none => rfl
    | some e => simp [Entry.at]; omega
  | rPush data =>
    exact at_run_of_keeps h ⟨_, rfl⟩ fun v deadline => by cases v <;> exact ⟨_, rfl⟩

variable {rdb : Redis}

/-- Writing one counter under its name. -/
theorem numberOf_update {key : RedisKey} {counter : Key} {e : Option Entry} {x : Rat}
    (hkey : key.counter = some counter) (hx : numberOf e = some x)
    (h : Represents clock ks rdb) (key' : RedisKey) (counter' : Key)
    (hkey' : key'.counter = some counter') :
    numberOf (Function.update ks key.text e key'.text) =
      some (Function.update rdb.counters counter x counter') := by
  by_cases heq : key' = key
  · subst heq
    obtain rfl := Option.some.inj (hkey.symm.trans hkey')
    rw [Function.update_self, Function.update_self, hx]
  · have hcounter : counter' ≠ counter := by
      rintro rfl
      exact heq (counter_injective hkey' hkey)
    rw [Function.update_of_ne (text_injective.ne heq), Function.update_of_ne hcounter]
    exact h.counters key' counter' hkey'

theorem counter_ne_queue {key : RedisKey} {counter : Key} (h : key.counter = some counter) :
    RedisKey.usageLogQueue.text ≠ key.text := by
  refine text_injective.ne ?_
  rintro rfl
  cases h

/-- **One command** on a name does what it does to the counter or the queue. -/
theorem Represents.run (h : Represents clock ks rdb) {cmd' : Command} (hsame : Same cmd cmd') :
    Represents clock (ks.run clock cmd) (rdb.run cmd') := by
  have hlive : ∀ name, (ks.run clock cmd name).bind (·.at clock) = ks.run clock cmd name := by
    intro name
    by_cases hname : name = cmd.key
    · subst hname
      rw [run_self, h.live]
      exact at_run (h.live cmd.key) hsame
    · rw [Keyspace.run_of_ne hname, h.live]
  have hwritten : ks.run clock cmd =
      Function.update ks cmd.key (cmd.op.run clock (ks cmd.key)) := by
    rw [Keyspace.run, h.live]
  rw [hwritten] at hlive ⊢
  cases hsame with
  | @incrByFloat key counter amount hcounter hmodel =>
    have hx := numberOf_incrByFloat (h.counters _ _ hcounter) clock amount
    refine ⟨numberOf_update hcounter hx h, ?_, ?_, hlive⟩
    · rw [Function.update_of_ne (counter_ne_queue hcounter)]
      exact h.queue
    · intro modelName hour
      rw [Redis.run_incrBy_of_ne]
      · exact h.whole modelName hour
      · rintro rfl
        exact hmodel modelName hour
          (counter_injective hcounter (rfl : (RedisKey.modelReqs modelName hour).counter = _))
  | incr modelName hour =>
    have hcounter : (RedisKey.modelReqs modelName hour).counter =
        some (.model modelName hour.format) := rfl
    have hx := numberOf_incr (h.counters _ _ hcounter) (h.whole modelName hour) clock
    refine ⟨numberOf_update hcounter hx h, ?_, ?_, hlive⟩
    · rw [Function.update_of_ne (counter_ne_queue hcounter)]
      exact h.queue
    · intro modelName' hour'
      by_cases heq : Key.model modelName' hour'.format = .model modelName hour.format
      · have hcount : (rdb.run (.incrBy (.model modelName hour.format) 1)).counters
            (.model modelName hour.format) = rdb.counters (.model modelName hour.format) + 1 :=
          Function.update_self ..
        have hnum := Rat.coe_int_num_of_den_eq_one (h.whole modelName hour)
        rw [heq, hcount, ← hnum, ← Int.cast_one, ← Int.cast_add]
        exact Rat.den_intCast _
      · rw [Redis.run_incrBy_of_ne heq]
        exact h.whole modelName' hour'
  | @expire key counter seconds hcounter hseconds =>
    have hx := (numberOf_expire (ks key.text) clock hseconds).trans (h.counters _ _ hcounter)
    have hcounters := numberOf_update hcounter hx h
    rw [Function.update_eq_self] at hcounters
    refine ⟨hcounters, ?_, h.whole, hlive⟩
    rw [Function.update_of_ne (counter_ne_queue hcounter)]
    exact h.queue
  | rPush data =>
    refine ⟨?_, ?_, h.whole, hlive⟩
    · intro key counter hcounter
      rw [Function.update_of_ne (counter_ne_queue hcounter).symm]
      exact h.counters key counter hcounter
    · rw [Function.update_self]
      exact listOf_rPush h.queue clock data

theorem same_recordUsage (r : UsageRecord) (day : Date) (hour : Hour) :
    List.Forall₂ Same (recordUsageCommands r day hour)
      (recordCommands r day.format hour.format) := by
  refine .cons (.incrByFloat _ rfl ?_) (.cons (.expire rfl (by decide)) (.cons (.incrByFloat _ rfl ?_)
    (.cons (.incr _ _) (.cons (.expire ?_ (by decide)) (.cons (.rPush _) .nil)))))
  · intro modelName hour' heq
    cases heq
  · intro modelName hour' heq
    cases heq
  · rfl

/-- **`RecordUsage` on names** is `RecordUsage` on the counters, whichever of its commands are
executed. -/
theorem represents_recordUsage (h : Represents clock ks rdb) (r : UsageRecord) (day : Date)
    (hour : Hour) (fates : List Fate) :
    Represents clock
      (((recordUsageCommands r day hour).zip fates).foldl
        (fun ks cmd => if cmd.2.executed then ks.run clock cmd.1 else ks) ks)
      (execPipeline rdb ((recordCommands r day.format hour.format).zip fates)) := by
  have hsame := same_recordUsage r day hour
  generalize recordUsageCommands r day hour = cmds at hsame ⊢
  generalize recordCommands r day.format hour.format = cmds' at hsame ⊢
  induction hsame generalizing fates ks rdb with
  | nil => exact h
  | @cons cmd cmd' cmds cmds' hcmd hcmds ih =>
    cases fates with
    | nil => exact h
    | cons fate fates =>
      apply ih
      show Represents clock (if fate.executed then ks.run clock cmd else ks)
        (if fate.executed then rdb.run cmd' else rdb)
      split
      · exact h.run hcmd
      · exact h

end UniLLM.RedisKeys
