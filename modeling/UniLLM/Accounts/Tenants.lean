import UniLLM.Accounts.Isolation
import UniLLM.Billing.RedisKeys

/-!
# Users do not see each other

The gateway serves many users from the same tables, the same Redis and the same side of the
providers: circuit breakers, rotating keys, hosts.  A request to the models passes its gates, is
handled and is recorded command by command, and the commands of all requests interleave.  The
users meet in the queue of usage logs too, from which nothing here is read.

What a user is answered depends on the others through the side of the providers only: whoever
meets it as it was is answered as if the others had not sent a request since they registered.
-/

namespace UniLLM.Accounts
open Go Transition Middleware RedisKeys
open Middleware.Gates (ErrorReply Context)
open Inference (EmbeddingService)

namespace Tenants

/-- The services behind the routes. -/
structure Server (W : Type) where
  auth : AuthService
  limiter : RedisRateLimiter
  models : EmbeddingService W
  /-- How Redis prints a number. -/
  number : Rat → GoString

/-- A request that its key has let in. -/
structure Guest where
  context : Context
  userID : Int
  known : context.userID = some userID

/-- What is recorded for a user, with the day and the hour. -/
structure Records where
  userID : Int
  records : List (Billing.UsageRecord × Date × Hour)
  own : ∀ r ∈ records, r.1.userID.val = userID

/-- Where a request to the models is. -/
inductive Phase where
  /-- So many commands of the limiter's pipeline are executed; the second has counted. -/
  | limiting (g : Guest) (reading : Int) (executed : Nat) (count : Int)
  | checking (g : Guest)
  | inside (g : Guest)
  /-- So many commands of the records are executed. -/
  | recording (rs : Records) (executed : Nat)

def Phase.userID : Phase → Int
  | .limiting g _ _ _ | .checking g | .inside g => g.userID
  | .recording rs _ => rs.userID

structure State (W : Type) where
  accounts : Accounts.State
  redis : Keyspace
  requests : Nat → Option Phase
  /-- The side of the providers, which all handlers use and change. -/
  providers : W

inductive Action (W : Type) where
  | account (a : Accounts.Action)
  /-- The summary of the dashboard, at a time of a day. -/
  | usage (authorization : GoString) (now clock : Int) (day : Date) (redis db : Db)
  /-- A request to the models arrives under a number of its own. -/
  | enter (n : Nat) (authorization : GoString) (db : Db) (reading : Int)
  /-- Redis executes the next command of the request. -/
  | command (n : Nat) (clock : Int)
  /-- The limiter has its replies or an error; over the limit, the entry may be taken back. -/
  | decide (n : Nat) (error : Option GoString) (takenBack : Option Int)
  | check (n : Nat) (clock : Int) (db redis : Db)
  /-- The handler; what it records is handed to billing. -/
  | handle (n : Nat) (endpoint : Gates.Endpoint) (latency : Rat)
    (records : List (Billing.UsageRecord × Date × Hour))
  /-- The side of the providers changes by itself: a host answers otherwise, time passes, the
  admin reloads. -/
  | providers (w : W)
  /-- The recording ends, with or without an error. -/
  | finish (n : Nat)

inductive Answer where
  | account (o : Accounts.Answer)
  | usage (reply : Except Refusal (Rat × Rat))
  | waiting
  | reply (reply : Except ErrorReply Unit)
  | background

/-! ### Commands -/

variable {W : Type} (srv : Server W)

/-- The commands of a phase that are still to be executed. -/
def Phase.commands : Phase → List RedisCommand
  | .limiting g reading executed _ =>
    ((allowCommands srv.limiter (formatInt g.userID) reading).take 4).drop executed
  | .recording rs executed =>
    (rs.records.flatMap fun r => recordUsageCommands r.1 r.2.1 r.2.2).drop executed
  | _ => []

/-- One more command is executed. -/
def Phase.advance (reply : Int) : Phase → Phase
  | .limiting g reading executed count =>
    .limiting g reading (executed + 1) (if executed = 1 then reply else count)
  | .recording rs executed => .recording rs (executed + 1)
  | p => p

/-- The reply to `ZCard`. -/
def card : Option Entry → Int
  | some ⟨.zset entries, _⟩ => entries.card
  | _ => 0

/-- The request is in another phase, or gone. -/
def State.set (s : State W) (n : Nat) (p : Option Phase) : State W :=
  { s with requests := Function.update s.requests n p }

def command (s : State W) (n : Nat) (clock : Int) : Option (State W × Answer) :=
  match s.requests n with
  | none => none
  | some p =>
    match p.commands srv with
    | [] => none
    | cmd :: _ =>
      let redis := s.redis.run clock cmd
      some ({ s with redis := redis }.set n (some (p.advance (card (redis cmd.key)))), .background)

/-! ### The gates -/

def enter (s : State W) (n : Nat) (authorization : GoString) (db : Db) (reading : Int) :
    Option (State W × Answer) :=
  match s.accounts.apiKeyAuth srv.auth authorization db with
  | .error e => some (s, .reply (.error e))
  | .ok c =>
    match h : c.userID with
    | none => none
    | some id => some (s.set n (some (.limiting ⟨c, id, h⟩ reading 0 0)), .waiting)

/-- A number in Redis, as it is printed. -/
def State.get (s : State W) (clock : Int) (key : RedisKey) : Option GoString :=
  match (s.redis key.text).bind (·.at clock) with
  | some ⟨.number x, _⟩ => some (srv.number x)
  | _ => none

/-- What the queries of the two gates find. -/
def State.stores (s : State W) (count : Except GoString Int) (clock : Int) (db redis : Db) :
    Gates.Stores :=
  { apiKeys := .ok []
    count := fun _ => count
    balance := fun id => db.bind fun _ =>
      match findByID s.accounts.users id with
      | none => .error (lit "record not found")
      | some u => .ok u.balance
    used := fun id => redis.map fun _ => s.get srv clock (.balanceUsed id) }

/-- Over the limit, the entry of the request is taken back. -/
def decideLimit (s : State W) (n : Nat) (g : Guest) (reply : Except GoString Int)
    (takenBack : Option Int) : State W × Answer :=
  match Gates.redisRateLimit (s.stores srv reply 0 (.ok ()) (.ok ())) srv.limiter g.context with
  | .ok _ => (s.set n (some (.checking g)), .waiting)
  | .error e =>
    let cmds := (takenBack.map fun clock => (clock,
      (⟨(RedisKey.rateLimit (formatInt g.userID)).text, .zRemRangeByRank⟩ : RedisCommand))).toList
    ({ s with redis := s.redis.runAll cmds }.set n none, .reply (.error e))

def checkBalance (s : State W) (n : Nat) (g : Guest) (clock : Int) (db redis : Db) :
    State W × Answer :=
  match Gates.balanceCheck (s.stores srv (.ok 0) clock db redis) g.context with
  | .ok _ => (s.set n (some (.inside g)), .waiting)
  | .error e => (s.set n none, .reply (.error e))

/-! ### The handlers -/

/-- The record of the service that is handed to billing. -/
def ofBilling (r : Billing.UsageRecord) : Inference.UsageRecord :=
  { userID := r.userID.val
    apiKeyID := r.apiKeyID.val
    modelName := r.modelName.val
    providerName := r.providerName.val
    promptTokens := r.promptTokens.val
    completionTokens := r.completionTokens.val
    totalTokens := r.totalTokens.val
    cost := r.cost.value
    latency := r.latency.value
    status := r.status.val
    httpStatus := r.httpStatus.val
    isStream := r.isStream }

deriving instance DecidableEq for Inference.UsageRecord

theorem handler_attributed {models : EmbeddingService W} {endpoint : Gates.Endpoint} {latency : Rat}
    {c : Context} {w : W} :
    ∀ record ∈ (Gates.handler models endpoint latency c w).1.records,
      record.userID = Gates.getInt64 c.userID := by
  unfold Gates.handler
  cases Gates.bind endpoint with
  | error reply => exact fun _ hrecord => by cases hrecord
  | ok req => exact fun record hrecord => (Gates.attributed record hrecord).1

/-- The records of a request are those of its user. -/
theorem own_of_handler {models : EmbeddingService W} {endpoint : Gates.Endpoint} {latency : Rat}
    {g : Guest} {w : W} {records : List (Billing.UsageRecord × Date × Hour)}
    (h : (records.map fun r => ofBilling r.1) =
      (Gates.handler models endpoint latency g.context w).1.records) :
    ∀ r ∈ records, r.1.userID.val = g.userID := by
  intro r hr
  have hmem : ofBilling r.1 ∈ (Gates.handler models endpoint latency g.context w).1.records := by
    rw [← h]
    exact List.mem_map_of_mem hr
  have hid := handler_attributed _ hmem
  rw [g.known] at hid
  exact hid

def handle (s : State W) (n : Nat) (g : Guest) (endpoint : Gates.Endpoint) (latency : Rat)
    (records : List (Billing.UsageRecord × Date × Hour)) : Option (State W × Answer) :=
  if h : (records.map fun r => ofBilling r.1) =
      (Gates.handler srv.models endpoint latency g.context s.providers).1.records then
    let (served, providers) := Gates.handler srv.models endpoint latency g.context s.providers
    some ({ s with providers := providers }.set n
        (some (.recording ⟨g.userID, records, own_of_handler h⟩ 0)),
      .reply served.reply)
  else none

/-- Today's cost and the balance; an error of either store is a zero. -/
def usage (s : State W) (userID clock : Int) (day : Date) (redis db : Db) : Rat × Rat :=
  (match redis, s.get srv clock (.daily userID day) with
    | .ok _, some text => (parseFloat text).getD 0
    | _, _ => 0,
  match db, findByID s.accounts.users userID with
    | .ok _, some u => u.balance
    | _, _ => 0)

/-- One step, and what is answered. -/
def serve (s : State W) : Action W → Option (State W × Answer)
  | .account a =>
    (Accounts.serve srv.auth s.accounts a).map fun r => ({ s with accounts := r.1 }, .account r.2)
  | .usage authorization now clock day redis db =>
    match jwtAuth srv.auth.issuer authorization now with
    | .error refusal => some (s, .usage (.error refusal))
    | .ok claims => some (s, .usage (.ok (usage srv s claims.userID clock day redis db)))
  | .enter n authorization db reading =>
    if (s.requests n).isNone then enter srv s n authorization db reading else none
  | .command n clock => command srv s n clock
  | .decide n error takenBack =>
    match s.requests n with
    | some (.limiting g _ executed count) =>
      match error with
      | some e => some (decideLimit srv s n g (.error e) takenBack)
      | none =>
        if executed = 4 then some (decideLimit srv s n g (.ok count) takenBack) else none
    | _ => none
  | .check n clock db redis =>
    match s.requests n with
    | some (.checking g) => some (checkBalance srv s n g clock db redis)
    | _ => none
  | .handle n endpoint latency records =>
    match s.requests n with
    | some (.inside g) => handle srv s n g endpoint latency records
    | _ => none
  | .providers w => some ({ s with providers := w }, .background)
  | .finish n =>
    match s.requests n with
    | some (.recording _ _) => some (s.set n none, .background)
    | _ => none

/-- Nothing in Redis, and nobody there but the users that were put into the table by hand. -/
def start (seeds : List Account) (providers : W) : State W :=
  ⟨Accounts.start seeds, fun _ => none, fun _ => none, providers⟩

/-- One step that meets the side of the providers as it is told. -/
def serveGiven (s : State W) (a : W × Action W) : Option (State W × Answer) :=
  (serve srv s (.providers a.1)).bind fun r => serve srv r.1 a.2

/-- A request with the side of the providers that it meets. -/
def meets (s : State W) (a : Action W) : W × Action W := (s.providers, a)

/-! ### Whose request it is -/

/-- The user who makes the request, if it is known. -/
def owner (s : State W) : Action W → Option Int
  | .account a => Accounts.owner srv.auth s.accounts a
  | .usage authorization now _ _ _ _ =>
    (jwtAuth srv.auth.issuer authorization now).toOption.map fun claims => claims.userID
  | .enter _ authorization _ _ => (s.accounts.keyOf srv.auth authorization).map fun k => k.userID
  | .command n _ | .decide n _ _ | .check n _ _ _ | .handle n _ _ _ | .finish n =>
    (s.requests n).map Phase.userID
  | .providers _ => none

/-- It is the user's own, or nobody's. -/
def keep (userID : Int) (s : State W) (a : Action W) : Bool := concerns userID (owner srv s a)

/-- The same but for the side of the providers. -/
structure SameFor (userID : Int) (s t : State W) : Prop where
  accounts : Accounts.SameFor userID s.accounts t.accounts
  redis : ∀ key : RedisKey, key.Of userID → t.redis key.text = s.redis key.text
  requests : ∀ n, t.requests n = (s.requests n).filter fun p => p.userID == userID

theorem sameFor_start (userID : Int) (seeds : List Account) (providers : W) :
    SameFor userID (start seeds providers) (start seeds providers) :=
  ⟨Accounts.sameFor_start seeds, fun _ _ => rfl, fun _ => rfl⟩

variable {srv} {userID : Int} {s s' t : State W} {n : Nat} {o : Answer}

theorem SameFor.meets (h : SameFor userID s t) (w w' : W) :
    SameFor userID { s with providers := w } { t with providers := w' } :=
  ⟨h.accounts, h.redis, h.requests⟩

theorem SameFor.request (h : SameFor userID s t) {p : Phase} (hp : s.requests n = some p)
    (hown : p.userID = userID) : t.requests n = some p := by
  rw [h.requests, hp]
  exact if_pos (beq_iff_eq.mpr hown)

/-- The owner of a request that is kept. -/
theorem own_of_keep {p : Phase} (hp : s.requests n = some p)
    (hkeep : concerns userID ((s.requests n).map Phase.userID) = true) : p.userID = userID := by
  rw [hp] at hkeep
  exact beq_iff_eq.mp hkeep

/-- A request of the user is in another phase. -/
theorem SameFor.set (h : SameFor userID s t) (n : Nat) {p : Option Phase}
    (hp : ∀ q ∈ p, q.userID = userID) : SameFor userID (s.set n p) (t.set n p) := by
  refine ⟨h.accounts, h.redis, fun m => ?_⟩
  simp only [State.set, Function.update_apply]
  by_cases hm : m = n
  · rw [if_pos hm, if_pos hm]
    cases p with
    | none => rfl
    | some q => exact (if_pos (beq_iff_eq.mpr (hp q rfl))).symm
  · rw [if_neg hm, if_neg hm]
    exact h.requests m

/-- A request of another user is in another phase. -/
theorem SameFor.set_other (h : SameFor userID s t) (hn : t.requests n = none) {p : Option Phase}
    (hp : ∀ q ∈ p, q.userID ≠ userID) : SameFor userID (s.set n p) t := by
  refine ⟨h.accounts, h.redis, fun m => ?_⟩
  simp only [State.set, Function.update_apply]
  by_cases hm : m = n
  · rw [if_pos hm, hm, hn]
    cases p with
    | none => rfl
    | some q => exact (if_neg fun hq => hp q rfl (beq_iff_eq.mp hq)).symm
  · rw [if_neg hm]
    exact h.requests m

theorem SameFor.set_some (h : SameFor userID s t) (n : Nat) {p : Phase} (hown : p.userID = userID) :
    SameFor userID (s.set n (some p)) (t.set n (some p)) :=
  h.set n fun q hq => by
    obtain rfl := Option.some.inj hq
    exact hown

theorem SameFor.set_none (h : SameFor userID s t) (n : Nat) :
    SameFor userID (s.set n none) (t.set n none) :=
  h.set n fun q hq => by cases hq

theorem SameFor.set_some_other (h : SameFor userID s t) (hn : t.requests n = none) {p : Phase}
    (hne : p.userID ≠ userID) : SameFor userID (s.set n (some p)) t :=
  h.set_other hn fun q hq => by
    obtain rfl := Option.some.inj hq
    exact hne

theorem SameFor.set_none_other (h : SameFor userID s t) (hn : t.requests n = none) :
    SameFor userID (s.set n none) t :=
  h.set_other hn fun q hq => by cases hq

theorem SameFor.other (h : SameFor userID s t) {p : Phase} (hp : s.requests n = some p)
    (hne : p.userID ≠ userID) : t.requests n = none := by
  rw [h.requests, hp]
  exact if_neg fun hq => hne (beq_iff_eq.mp hq)

/-! ### Redis -/

/-- What a command does to a name depends on what the name has. -/
theorem run_congr {ks ks' : Keyspace} {name : GoString} (h : ks' name = ks name) (clock : Int)
    (cmd : RedisCommand) : ks'.run clock cmd name = ks.run clock cmd name := by
  unfold Keyspace.run
  by_cases hname : name = cmd.key
  · subst hname
    rw [Function.update_self, Function.update_self, h]
  · rw [Function.update_of_ne hname, Function.update_of_ne hname, h]

theorem SameFor.run (h : SameFor userID s t) (clock : Int) (cmd : RedisCommand) :
    SameFor userID { s with redis := s.redis.run clock cmd }
      { t with redis := t.redis.run clock cmd } :=
  ⟨h.accounts, fun key hkey => run_congr (h.redis key hkey) clock cmd, h.requests⟩

/-- A command of another user. -/
theorem SameFor.run_other (h : SameFor userID s t) {other : Int} (hne : other ≠ userID)
    {request : RedisKeys.Request} (hrequest : request.For other) {cmd : RedisCommand}
    (hcmd : cmd ∈ request.commands) (clock : Int) :
    SameFor userID { s with redis := s.redis.run clock cmd } t := by
  refine ⟨h.accounts, fun key hkey => ?_, h.requests⟩
  have hname : key.text ≠ cmd.key := by
    intro hname
    obtain ⟨key', hname', hown⟩ := key_of_mem_commands hrequest hcmd
    obtain rfl := text_injective (hname.trans hname')
    rcases hown with hown | ⟨modelName, hour, rfl⟩ | rfl
    · exact hne (hown.unique hkey)
    · exact hkey
    · exact hkey
  exact (h.redis key hkey).trans (Keyspace.run_of_ne hname).symm

/-- The commands of a phase are those of a request of its user. -/
theorem request_of_mem_commands {p : Phase} {cmd : RedisCommand} (h : cmd ∈ p.commands srv) :
    ∃ request : RedisKeys.Request, request.For p.userID ∧ cmd ∈ request.commands := by
  cases p with
  | limiting g reading executed count =>
    exact ⟨.allow srv.limiter (formatInt g.userID) reading, rfl,
      List.mem_of_mem_take (List.mem_of_mem_drop h)⟩
  | recording rs executed =>
    obtain ⟨r, hr, hcmd⟩ := List.mem_flatMap.mp (List.mem_of_mem_drop h)
    exact ⟨.recordUsage r.1 r.2.1 r.2.2, rs.own r hr, hcmd⟩
  | checking g => cases h
  | inside g => cases h

@[simp] theorem advance_userID (reply : Int) (p : Phase) : (p.advance reply).userID = p.userID := by
  cases p <;> rfl

/-- Only the limiter looks at a reply, and it counts the user's own set. -/
theorem SameFor.advance (h : SameFor userID s t) {p : Phase} (hown : p.userID = userID)
    {cmd : RedisCommand} (hcmd : cmd ∈ p.commands srv) (clock : Int) :
    p.advance (card (t.redis.run clock cmd cmd.key)) =
      p.advance (card (s.redis.run clock cmd cmd.key)) := by
  cases p with
  | limiting g reading executed count =>
    have hkey : cmd.key = (RedisKey.rateLimit (formatInt g.userID)).text := by
      have hmem := List.mem_of_mem_take (List.mem_of_mem_drop hcmd)
      simp only [allowCommands, List.mem_cons, List.not_mem_nil, or_false] at hmem
      rcases hmem with rfl | rfl | rfl | rfl | rfl <;> rfl
    have hof : (RedisKey.rateLimit (formatInt g.userID)).Of userID := congrArg formatInt hown
    rw [hkey, run_congr (h.redis _ hof)]
  | _ => rfl

/-! ### A request of the user -/

theorem SameFor.command (h : SameFor userID s t)
    (hkeep : concerns userID ((s.requests n).map Phase.userID) = true) {clock : Int}
    (hserve : command srv s n clock = some (s', o)) :
    ∃ t', command srv t n clock = some (t', o) ∧ SameFor userID s' t' := by
  unfold Tenants.command at hserve ⊢
  cases hp : s.requests n with
  | none =>
    rw [hp] at hserve
    cases hserve
  | some p =>
    have hown := own_of_keep hp hkeep
    rw [h.request hp hown]
    rw [hp] at hserve
    simp only at hserve ⊢
    split at hserve
    · cases hserve
    · rename_i cmd rest hcmds
      have hcmd : cmd ∈ p.commands srv := hcmds ▸ List.mem_cons_self
      cases hserve
      rw [h.advance hown hcmd]
      exact ⟨_, rfl, (h.run clock cmd).set_some n ((advance_userID _ p).trans hown)⟩

/-- What a request to the models meets first. -/
theorem enter_eq_some {authorization : GoString} {db : Db} {reading : Int} {r : State W × Answer} :
    enter srv s n authorization db reading = some r ↔
      (∃ e, s.accounts.apiKeyAuth srv.auth authorization db = .error e ∧
        r = (s, .reply (.error e))) ∨
      ∃ g : Guest, s.accounts.apiKeyAuth srv.auth authorization db = .ok g.context ∧
        r = (s.set n (some (.limiting g reading 0 0)), .waiting) := by
  unfold enter
  cases hauth : s.accounts.apiKeyAuth srv.auth authorization db with
  | error e =>
    constructor
    · intro h
      exact .inl ⟨e, rfl, (Option.some.inj h).symm⟩
    · rintro (⟨e', he, rfl⟩ | ⟨g, hg, -⟩)
      · rw [Except.error.inj he]
      · cases hg
  | ok c =>
    simp only
    split
    · rename_i hnone
      constructor
      · intro h
        cases h
      · rintro (⟨e, he, -⟩ | ⟨g, hg, -⟩)
        · cases he
        · have hknown := g.known
          rw [← Except.ok.inj hg, hnone] at hknown
          cases hknown
    · rename_i id hid
      constructor
      · intro h
        exact .inr ⟨⟨c, id, hid⟩, rfl, (Option.some.inj h).symm⟩
      · rintro (⟨e, he, -⟩ | ⟨⟨c', id', hid'⟩, hg, rfl⟩)
        · cases he
        · obtain rfl := Except.ok.inj hg
          obtain rfl := Option.some.inj (hid.symm.trans hid')
          rfl

/-- A key lets in as the user of its row. -/
theorem keyOf_of_apiKeyAuth {svc : AuthService} {accounts : Accounts.State}
    {authorization : GoString} {db : Db} {g : Guest}
    (h : accounts.apiKeyAuth svc authorization db = .ok g.context) :
    (accounts.keyOf svc authorization).map (fun k => k.userID) = some g.userID := by
  cases db with
  | error e =>
    exfalso
    unfold Accounts.State.apiKeyAuth Gates.apiKeyAuth Gates.resolveAPIKey Gates.findByHash at h
    split at h <;> cases h
  | ok _ =>
    rw [apiKeyAuth_eq] at h
    split at h
    · cases h
    · cases hkey : accounts.keyOf svc authorization with
      | none =>
        rw [hkey] at h
        cases h
      | some k =>
        rw [hkey] at h
        have hknown := g.known
        rw [← Except.ok.inj h] at hknown
        exact hknown

theorem SameFor.apiKeyAuth (h : SameFor userID s t) {authorization : GoString} {db : Db}
    (hkeep : concerns userID ((s.accounts.keyOf srv.auth authorization).map fun k => k.userID) = true) :
    t.accounts.apiKeyAuth srv.auth authorization db =
      s.accounts.apiKeyAuth srv.auth authorization db := by
  cases db with
  | error e => rfl
  | ok _ => rw [apiKeyAuth_eq, apiKeyAuth_eq, h.accounts.keyOf hkeep]

theorem SameFor.enter (h : SameFor userID s t) {authorization : GoString} {db : Db} {reading : Int}
    (hkeep : concerns userID ((s.accounts.keyOf srv.auth authorization).map fun k => k.userID) = true)
    (hserve : enter srv s n authorization db reading = some (s', o)) :
    ∃ t', enter srv t n authorization db reading = some (t', o) ∧ SameFor userID s' t' := by
  have hsame : t.accounts.apiKeyAuth srv.auth authorization db =
      s.accounts.apiKeyAuth srv.auth authorization db := h.apiKeyAuth hkeep
  rcases enter_eq_some.mp hserve with ⟨e, hauth, hr⟩ | ⟨g, hauth, hr⟩
  · cases hr
    exact ⟨t, enter_eq_some.mpr (.inl ⟨e, hsame.trans hauth, rfl⟩), h⟩
  · cases hr
    have hown : g.userID = userID := by
      rw [keyOf_of_apiKeyAuth hauth] at hkeep
      exact beq_iff_eq.mp hkeep
    exact ⟨_, enter_eq_some.mpr (.inr ⟨g, hsame.trans hauth, rfl⟩), h.set_some n hown⟩

variable (srv n) in
theorem SameFor.decideLimit (h : SameFor userID s t) {g : Guest} (hown : g.userID = userID)
    (reply : Except GoString Int) (takenBack : Option Int) :
    (decideLimit srv t n g reply takenBack).2 = (decideLimit srv s n g reply takenBack).2 ∧
      SameFor userID (decideLimit srv s n g reply takenBack).1
        (decideLimit srv t n g reply takenBack).1 := by
  -- the limiter looks at its reply only
  have hsame : Gates.redisRateLimit (t.stores srv reply 0 (.ok ()) (.ok ())) srv.limiter g.context =
      Gates.redisRateLimit (s.stores srv reply 0 (.ok ()) (.ok ())) srv.limiter g.context := rfl
  unfold Tenants.decideLimit
  rw [hsame]
  cases Gates.redisRateLimit (s.stores srv reply 0 (.ok ()) (.ok ())) srv.limiter g.context with
  | ok _ => exact ⟨rfl, h.set_some n hown⟩
  | error e =>
    refine ⟨rfl, SameFor.set_none ?_ n⟩
    cases takenBack with
    | none => exact h
    | some clock => exact h.run clock _

theorem SameFor.get (h : SameFor userID s t) (clock : Int) (key : RedisKey) (hkey : key.Of userID) :
    t.get srv clock key = s.get srv clock key := by
  unfold State.get
  rw [h.redis key hkey]

theorem SameFor.balanceCheck (h : SameFor userID s t) {g : Guest} (hown : g.userID = userID)
    (clock : Int) (db redis : Db) :
    Gates.balanceCheck (t.stores srv (.ok 0) clock db redis) g.context =
      Gates.balanceCheck (s.stores srv (.ok 0) clock db redis) g.context := by
  have hid : Gates.getInt64 g.context.userID = userID := by
    rw [g.known]
    exact hown
  have hbalance : (t.stores srv (.ok 0) clock db redis).balance userID =
      (s.stores srv (.ok 0) clock db redis).balance userID := by
    simp only [State.stores, h.accounts.findByID_own]
  have hused : (t.stores srv (.ok 0) clock db redis).used userID =
      (s.stores srv (.ok 0) clock db redis).used userID := by
    simp only [State.stores, h.get clock (.balanceUsed userID) rfl]
  simp only [Gates.balanceCheck, Gates.checkBalance, Gates.getUsedAmount, hid, hbalance, hused]

variable (srv n) in
theorem SameFor.checkBalance (h : SameFor userID s t) {g : Guest} (hown : g.userID = userID)
    (clock : Int) (db redis : Db) :
    (checkBalance srv t n g clock db redis).2 = (checkBalance srv s n g clock db redis).2 ∧
      SameFor userID (checkBalance srv s n g clock db redis).1
        (checkBalance srv t n g clock db redis).1 := by
  unfold Tenants.checkBalance
  rw [h.balanceCheck hown]
  cases Gates.balanceCheck (s.stores srv (.ok 0) clock db redis) g.context with
  | ok _ => exact ⟨rfl, h.set_some n hown⟩
  | error e => exact ⟨rfl, h.set_none n⟩

theorem SameFor.handle (h : SameFor userID s t) (hmet : t.providers = s.providers) {g : Guest}
    (hown : g.userID = userID) {endpoint : Gates.Endpoint} {latency : Rat}
    {records : List (Billing.UsageRecord × Date × Hour)}
    (hserve : handle srv s n g endpoint latency records = some (s', o)) :
    ∃ t', handle srv t n g endpoint latency records = some (t', o) ∧ SameFor userID s' t' := by
  obtain ⟨accounts, redis, requests, providers⟩ := t
  obtain rfl : providers = s.providers := hmet
  unfold Tenants.handle at hserve ⊢
  split at hserve
  · rename_i hrecords
    rw [dif_pos hrecords]
    cases hserve
    exact ⟨_, rfl, (h.meets _ _).set_some n hown⟩
  · cases hserve

theorem SameFor.usage (h : SameFor userID s t) (clock : Int) (day : Date) (redis db : Db) :
    usage srv t userID clock day redis db = usage srv s userID clock day redis db := by
  unfold Tenants.usage
  rw [h.get clock (.daily userID day) rfl, h.accounts.findByID_own]

/-- **A request that is kept**, and meets the same side of the providers. -/
theorem SameFor.keeps (h : SameFor userID s t) (hmet : t.providers = s.providers) {a : Action W}
    (hkeep : keep srv userID s a = true) (hserve : serve srv s a = some (s', o)) :
    ∃ t', serve srv t a = some (t', o) ∧ SameFor userID s' t' := by
  cases a with
  | account a =>
    obtain ⟨⟨accounts, o⟩, hacc, hr⟩ := Option.map_eq_some_iff.mp hserve
    cases hr
    obtain ⟨accounts', hacc', hsame⟩ := h.accounts.keeps hkeep hacc
    exact ⟨{ t with accounts := accounts' }, Option.map_eq_some_iff.mpr ⟨_, hacc', rfl⟩, hsame,
      h.redis, h.requests⟩
  | usage authorization now clock day redis db =>
    simp only [serve] at hserve ⊢
    cases htoken : jwtAuth srv.auth.issuer authorization now with
    | error refusal =>
      rw [htoken] at hserve
      cases hserve
      exact ⟨t, rfl, h⟩
    | ok claims =>
      rw [htoken] at hserve
      have hid : claims.userID = userID := by
        rw [keep, owner, htoken] at hkeep
        exact beq_iff_eq.mp hkeep
      cases hserve
      simp only [hid]
      rw [h.usage]
      exact ⟨t, rfl, h⟩
  | enter n authorization db reading =>
    simp only [serve] at hserve ⊢
    split at hserve
    · rename_i hfree
      have hfree' : (t.requests n).isNone = true := by
        rw [h.requests, Option.isNone_iff_eq_none.mp hfree]
        rfl
      rw [if_pos hfree']
      exact h.enter hkeep hserve
    · cases hserve
  | command n clock => exact h.command hkeep hserve
  | decide n error takenBack =>
    simp only [serve] at hserve ⊢
    split at hserve
    · rename_i g reading executed count hp
      have hown : g.userID = userID := own_of_keep hp hkeep
      rw [h.request hp hown]
      cases error with
      | some e =>
        obtain ⟨hanswer, hsame⟩ := h.decideLimit srv n hown (.error e) takenBack
        simp only [Option.some.injEq] at hserve ⊢
        rw [hserve] at hanswer hsame
        exact ⟨_, Prod.ext rfl hanswer, hsame⟩
      | none =>
        simp only at hserve ⊢
        split at hserve
        · rename_i hall
          obtain ⟨hanswer, hsame⟩ := h.decideLimit srv n hown (.ok count) takenBack
          rw [if_pos hall]
          rw [Option.some.inj hserve] at hanswer hsame
          exact ⟨_, congrArg some (Prod.ext rfl hanswer), hsame⟩
        · cases hserve
    · cases hserve
  | check n clock db redis =>
    simp only [serve] at hserve ⊢
    split at hserve
    · rename_i g hp
      have hown : g.userID = userID := own_of_keep hp hkeep
      rw [h.request hp hown]
      obtain ⟨hanswer, hsame⟩ := h.checkBalance srv n hown clock db redis
      rw [Option.some.inj hserve] at hanswer hsame
      exact ⟨_, congrArg some (Prod.ext rfl hanswer), hsame⟩
    · cases hserve
  | handle n endpoint latency records =>
    simp only [serve] at hserve ⊢
    split at hserve
    · rename_i g hp
      have hown : g.userID = userID := own_of_keep hp hkeep
      rw [h.request hp hown]
      exact h.handle hmet hown hserve
    · cases hserve
  | providers w =>
    cases hserve
    exact ⟨_, rfl, h.meets w w⟩
  | finish n =>
    simp only [serve] at hserve ⊢
    split at hserve
    · rename_i rs executed hp
      have hown : rs.userID = userID := own_of_keep hp hkeep
      have hp' := h.request hp hown
      rw [hp']
      cases hserve
      exact ⟨_, rfl, h.set_none n⟩
    · cases hserve

/-! ### A request of another user -/

theorem ne_of_not_keep {p : Phase} (hp : s.requests n = some p)
    (hother : concerns userID ((s.requests n).map Phase.userID) = false) : p.userID ≠ userID := by
  rw [hp] at hother
  exact beq_eq_false_iff_ne.mp hother

variable (srv) in
theorem SameFor.decideLimit_other (h : SameFor userID s t) {g : Guest} (hne : g.userID ≠ userID)
    (hn : t.requests n = none) (reply : Except GoString Int) (takenBack : Option Int) :
    SameFor userID (Tenants.decideLimit srv s n g reply takenBack).1 t := by
  unfold Tenants.decideLimit
  split
  · exact h.set_some_other hn hne
  · refine SameFor.set_none_other ?_ hn
    cases takenBack with
    | none => exact h
    | some clock =>
      have hfor : (RedisKeys.Request.allow srv.limiter (formatInt g.userID) 0).For g.userID := rfl
      exact h.run_other hne hfor (by simp [RedisKeys.Request.commands, allowCommands]) clock

theorem SameFor.drops (h : SameFor userID s t) {a : Action W} (hother : keep srv userID s a = false)
    (hserve : serve srv s a = some (s', o)) : SameFor userID s' t := by
  cases a with
  | account a =>
    obtain ⟨⟨accounts, o⟩, hacc, hr⟩ := Option.map_eq_some_iff.mp hserve
    cases hr
    exact ⟨h.accounts.drops hother hacc, h.redis, h.requests⟩
  | usage authorization now clock day redis db =>
    simp only [serve] at hserve
    split at hserve <;> (cases hserve; exact h)
  | enter n authorization db reading =>
    simp only [serve] at hserve
    split at hserve
    · rename_i hfree
      rcases enter_eq_some.mp hserve with ⟨e, hauth, hr⟩ | ⟨g, hauth, hr⟩
      · cases hr
        exact h
      · cases hr
        have hne : g.userID ≠ userID := by
          rw [keep, owner, keyOf_of_apiKeyAuth hauth] at hother
          exact beq_eq_false_iff_ne.mp hother
        have hn : t.requests n = none := by
          rw [h.requests, Option.isNone_iff_eq_none.mp hfree]
          rfl
        exact h.set_some_other hn hne
    · cases hserve
  | command n clock =>
    simp only [serve, Tenants.command] at hserve
    split at hserve
    · cases hserve
    · rename_i p hp
      have hne := ne_of_not_keep hp hother
      split at hserve
      · cases hserve
      · rename_i cmd rest hcmds
        have hmem : cmd ∈ p.commands srv := hcmds ▸ List.mem_cons_self
        obtain ⟨request, hfor, hcmd⟩ := request_of_mem_commands hmem
        cases hserve
        refine (h.run_other hne hfor hcmd clock).set_some_other (h.other hp hne) ?_
        rwa [advance_userID]
  | decide n error takenBack =>
    simp only [serve] at hserve
    split at hserve
    · rename_i g reading executed count hp
      have hne : g.userID ≠ userID := ne_of_not_keep hp hother
      have hn := h.other hp hne
      split at hserve
      · rename_i e
        have hdecide := h.decideLimit_other srv hne hn (.error e) takenBack
        rwa [Option.some.inj hserve] at hdecide
      · split at hserve
        · have hdecide := h.decideLimit_other srv hne hn (.ok count) takenBack
          rwa [Option.some.inj hserve] at hdecide
        · cases hserve
    · cases hserve
  | check n clock db redis =>
    simp only [serve] at hserve
    split at hserve
    · rename_i g hp
      have hne : g.userID ≠ userID := ne_of_not_keep hp hother
      have hn := h.other hp hne
      unfold Tenants.checkBalance at hserve
      split at hserve
      · cases hserve
        exact h.set_some_other hn hne
      · cases hserve
        exact h.set_none_other hn
    · cases hserve
  | providers w => cases hother
  | handle n endpoint latency records =>
    simp only [serve] at hserve
    split at hserve
    · rename_i g hp
      have hne : g.userID ≠ userID := ne_of_not_keep hp hother
      unfold Tenants.handle at hserve
      split at hserve
      · cases hserve
        exact (h.meets _ t.providers).set_some_other (h.other hp hne) hne
      · cases hserve
    · cases hserve
  | finish n =>
    simp only [serve] at hserve
    split at hserve
    · rename_i rs executed hp
      have hne : rs.userID ≠ userID := ne_of_not_keep hp hother
      cases hserve
      exact h.set_none_other (h.other hp hne)
    · cases hserve

/-! ### Whole runs -/

theorem unwinding (userID : Int) :
    Unwinding (serve srv) (keep srv userID) meets (serveGiven srv) (SameFor userID) where
  keeps := fun s _ _ _ _ h hkeep hserve => (h.meets s.providers s.providers).keeps rfl hkeep hserve
  drops := fun _ _ _ _ _ h hother hserve => h.drops hother hserve

/-- **Users see each other through the providers only.**  Leave out of any run the requests that
another user has made with a token, a key or a password, and let every other request meet the side
of the providers as it met it: the rest is a run, and is answered as before. -/
theorem answered_alike {seeds : List Account} {providers : W} {as : List (Action W)}
    (hexec : exec (stepOf (serve srv)) (start seeds providers) as = some s) (userID : Int) :
    let rest := kept (serve srv) (keep srv userID) meets (start seeds providers) as
    ∃ t, exec (stepOf (serveGiven srv)) (start seeds providers) (rest.map Prod.fst) = some t ∧
      log (serveGiven srv) (start seeds providers) (rest.map Prod.fst) = rest ∧
      SameFor userID s t :=
  (unwinding userID).exec_kept (sameFor_start userID seeds providers) hexec

/-- A model of a host that answers its first request with 503, and no later one. -/
def weakHost : EmbeddingService Nat where
  resolveModel := fun _ _ => .ok ⟨lit "embed", lit "embed", lit "host", lit "http://host", 0, 0⟩
  nextKey := fun _ w => (.error (lit "no keys"), w)
  registry := fun _ => none
  firstKey := fun _ _ => .ok (lit "sk")
  forward := fun _ _ _ w =>
    (if w = 0 then .ok ⟨503, none, fun h => absurd h (by decide)⟩ else .error (lit "no host"), w + 1)

/-- A server with this host, and with room for one request a minute. -/
def smallServer : Server Nat where
  auth := smallService
  limiter := ⟨1, 60 * second⟩
  models := weakHost
  number := formatFloat

/-- The random bytes of a key. -/
def randomBytes (b : UInt8) : GoString := List.replicate 32 b

def embedHello : Gates.Endpoint := .embeddings (.ok { model := lit "embed", input := .null })

/-- The one user's second request in a minute is refused, and the first is answered by the host;
then the other's is not. -/
def oneMinute : List (Action Nat) :=
  [.account (.dashboard annToken 5 (.createKey (.ok ⟨lit "a", []⟩) (randomBytes 1) (.ok (10, 5)))),
    .account (.dashboard bobToken 5 (.createKey (.ok ⟨lit "b", []⟩) (randomBytes 2) (.ok (11, 5)))),
    .account (.admin annToken 5 (.updateUserBalance (.ok ⟨1, 5, []⟩) (.ok ()) (.ok ()))),
    .account (.admin annToken 5 (.updateUserBalance (.ok ⟨2, 5, []⟩) (.ok ()) (.ok ()))),
    .enter 0 (bearer (generateAPIKey (randomBytes 2))) (.ok ()) 100,
    .command 0 100, .command 0 101, .command 0 102,
    .enter 1 (bearer (generateAPIKey (randomBytes 1))) (.ok ()) 103,
    .command 1 103, .command 0 103, .decide 0 none none, .command 1 104,
    .enter 2 (bearer (generateAPIKey (randomBytes 2))) (.ok ()) 105,
    .command 2 105, .command 2 105, .command 2 105, .command 2 105, .decide 2 none (some 106),
    .command 1 107, .command 1 107, .decide 1 none none,
    .check 0 108 (.ok ()) (.ok ()), .check 1 108 (.ok ()) (.ok ()),
    .handle 0 embedHello 0 [], .handle 1 embedHello 0 [], .finish 0, .finish 1]

/-- The other user's requests are answered as in the whole run, the last one by no host. -/
theorem answered_alike_oneMinute :
    let rest := kept (serve smallServer) (keep smallServer 1) meets (start twoUsers 0) oneMinute
    rest.length = 12 ∧ ∃ s t, exec (stepOf (serve smallServer)) (start twoUsers 0) oneMinute = some s ∧
      exec (stepOf (serveGiven smallServer)) (start twoUsers 0) (rest.map Prod.fst) = some t ∧
      log (serveGiven smallServer) (start twoUsers 0) (rest.map Prod.fst) = rest ∧
      SameFor 1 s t := by
  have hruns : (exec (stepOf (serve smallServer)) (start twoUsers 0) oneMinute).isSome = true := by
    decide +kernel
  obtain ⟨s, hs⟩ := Option.isSome_iff_exists.mp hruns
  obtain ⟨t, ht, hlog, hsame⟩ := answered_alike hs 1
  exact ⟨by decide +kernel, s, t, hs, ht, hlog, hsame⟩

end Tenants
end UniLLM.Accounts
