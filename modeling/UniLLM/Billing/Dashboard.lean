import UniLLM.Billing.Admission
import UniLLM.Billing.Conservation

/-!
# The balance on the dashboard

A user's money is in two places: what was granted is `users.balance` in the database, what
is used up is `balance_used` in Redis.  `CheckBalance` admits a request by their
difference.  The dashboard's summary and `/api/me` show `users.balance`.

Users register, are topped up by an admin, and use models; the records go through the
usage store.  The amount shown and the gate agree until a charge, a registration or a
change of the balance leaves a user with a balance that is used up.
-/

namespace UniLLM.Billing
open Go Transition

namespace Dashboard

/-- A row of `users`, as far as it is shown. -/
structure User where
  id : Int
  email : GoString
  name : GoString
  role : GoString
  balance : Rat
  createdAt : Int

structure State where
  users : List User
  store : Flush.State

inductive Action where
  /-- `inserted` is the id and the time of the new row, if the password is hashed and the
  row is created. -/
  | register (email name : GoString) (inserted : Option (Int × Int))
  /-- `UpdateUserBalance`; `ok` says whether the database is up. -/
  | updateUserBalance (userID : Int) (delta : Rat) (ok : Bool)
  /-- A step of the usage store. -/
  | store (a : Flush.Action)

/-! ### Registration and top-ups -/

def State.findByEmail (s : State) (email : GoString) : Option User :=
  s.users.find? fun u => u.email == email

def register (s : State) (email name : GoString) (inserted : Option (Int × Int)) : State :=
  match s.findByEmail email, inserted with
  | none, some (id, createdAt) =>
    { s with users := s.users ++ [⟨id, email, name, lit "user", 1, createdAt⟩] }
  | _, _ => s

/-- `UpdateBalance` of the repository: no row is no error. -/
def updateBalance (users : List User) (id : Int) (delta : Rat) : List User :=
  users.map fun u => if u.id = id then { u with balance := u.balance + delta } else u

/-- Both fields are required, and a zero is as good as none. -/
def updateUserBalance (s : State) (userID : Int) (delta : Rat) (ok : Bool) : State :=
  if userID ≠ 0 ∧ delta ≠ 0 ∧ ok then { s with users := updateBalance s.users userID delta }
  else s

def step (s : State) : Action → Option State
  | .register email name inserted =>
    -- the id of a new row is new
    if ∀ row ∈ inserted, ∀ u ∈ s.users, u.id ≠ row.1 then some (register s email name inserted)
    else none
  | .updateUserBalance userID delta ok => some (updateUserBalance s userID delta ok)
  | .store a => (Flush.step s.store a).map fun store => { s with store := store }

/-- Nobody has registered. -/
def start : State := ⟨[], Flush.start⟩

/-! ### What is read -/

/-- `First` by the id; without a row it fails. -/
def State.first (s : State) (id : Int) : Option User := s.users.find? fun u => u.id == id

/-- The billing store's query. -/
def State.getUserBalance (s : State) (userID : Int) : Option Rat :=
  (s.first userID).map (·.balance)

/-- No counter is nothing used. -/
def State.getUsedAmount (s : State) (userID : Int) : Rat := s.store.redis.counters (.total userID)

/-- `CheckBalance` of the service; `none` is its error. -/
def State.checkBalance (s : State) (userID : Int) (estimatedCost : Rat) : Option Bool :=
  (s.getUserBalance userID).map fun balance =>
    Billing.checkBalance balance (s.getUsedAmount userID) estimatedCost

/-- The repository's query: zero with its error. -/
def State.getBalance (s : State) (id : Int) : Rat := ((s.first id).map (·.balance)).getD 0

/-- The answer of `/api/me`; without a row it is 404. -/
def State.me (s : State) (userID : Int) : Option User := s.first userID

structure UsageSummary where
  totalRequests : Nat
  totalTokens : Int
  totalCost : Rat
  avgLatency : Rat
  successRate : Rat

/-- The repository's query; an average of no rows is zero. -/
def usageSummary (rows : List UsageLog) (userID : Int) : UsageSummary :=
  let own := rows.filter fun ul => ul.userID == userID
  let okCount := (own.filter fun ul => ul.status == lit "ok").length
  { totalRequests := own.length
    totalTokens := (own.map (·.totalTokens)).sum
    totalCost := (own.map (·.cost)).sum
    avgLatency := (own.map (·.latency)).sum / own.length
    successRate := if own.length > 0 then (okCount : Rat) / own.length * 100 else 0 }

/-- The answer of the dashboard's summary. -/
structure Summary where
  stats : UsageSummary
  todayCost : Rat
  balance : Rat

/-- `today` is the clock's day; an error of either store in the last two is a zero. -/
def State.summary (s : State) (userID : Int) (today : GoString) : Summary :=
  { stats := usageSummary s.store.rows userID
    todayCost := s.store.redis.counters (.daily userID today)
    balance := s.getBalance userID }

/-! ### What the amount says -/

/-- The balances shown are positive exactly if the next request is admitted. -/
def ShowsTheGate (s : State) : Prop :=
  ∀ userID : Int,
    (∀ today, 0 < (s.summary userID today).balance ↔ s.checkBalance userID 0 = some true) ∧
      ((∃ u, s.me userID = some u ∧ 0 < u.balance) ↔ s.checkBalance userID 0 = some true)

/-- `x` is above one of the two, and not above the other. -/
def Between (x a b : Rat) : Prop := a < x ∧ x ≤ b ∨ b < x ∧ x ≤ a

instance (x a b : Rat) : Decidable (Between x a b) :=
  inferInstanceAs (Decidable (a < x ∧ x ≤ b ∨ b < x ∧ x ≤ a))

/-- Whom the command charges, and what. -/
def charge : Command → Option (Int × Rat)
  | .incrBy (.total userID) amount => some (userID, amount)
  | _ => none

/-- What the gate has left of a balance. -/
def State.left (s : State) (userID : Int) (balance : Rat) : Rat := balance - s.getUsedAmount userID

/-- A step that uses up no balance, by the amounts before it: a charge does not take the rest of
what is left, a change of a balance does not lift only one of the balance and what is left of it
above zero, and under the id of a new user less than the grant has been used. -/
def UsesUpNothing (s : State) : Action → Prop
  | .register email _ (some (id, _)) => s.findByEmail email = none → s.getUsedAmount id < 1
  | .register _ _ none => True
  | .updateUserBalance userID delta ok => userID ≠ 0 → delta ≠ 0 → ok = true →
    ∀ balance ∈ s.getUserBalance userID, ¬ Between delta (-s.left userID balance) (-balance)
  | .store (.command j) =>
    ∀ c ∈ s.store.calls[j]?, ∀ cmd ∈ c.commands[c.executed]?, ∀ charged ∈ charge cmd,
      ∀ balance ∈ s.getUserBalance charged.1,
        ¬ Between (s.left charged.1 balance) 0 charged.2
  | .store _ => True

instance (s : State) (a : Action) : Decidable (UsesUpNothing s a) := by
  unfold UsesUpNothing
  split <;> infer_instance

/-! ### One state -/

variable {s s' : State}

theorem checkBalance_eq_true {balance used : Rat} :
    Billing.checkBalance balance used 0 = true ↔ used < balance := by
  refine ⟨lt_of_checkBalance, fun h => ?_⟩
  unfold Billing.checkBalance
  simp only
  rw [if_neg (by linarith), decide_eq_true_iff]
  linarith

/-- Of a positive balance something is left, and of another nothing. -/
def Lasts (balance used : Rat) : Prop := if 0 < balance then used < balance else balance ≤ used

theorem lasts_iff {balance used : Rat} : Lasts balance used ↔ (0 < balance ↔ used < balance) := by
  unfold Lasts
  split
  · rename_i h
    simp [h]
  · rename_i h
    simp [h]

/-- A change of the balance is right unless it lifts one of the two amounts only. -/
theorem lasts_add_iff {balance used delta : Rat} :
    Lasts (balance + delta) used ↔ ¬ Between delta (-(balance - used)) (-balance) := by
  have hshown : 0 < balance + delta ↔ -balance < delta := by
    constructor <;> intro h <;> linarith
  have hgate : used < balance + delta ↔ -(balance - used) < delta := by
    constructor <;> intro h <;> linarith
  rw [lasts_iff, hshown, hgate, Between, ← not_lt, ← not_lt]
  tauto

/-- A charge is right unless it takes the rest. -/
theorem lasts_charge_iff {balance used amount : Rat} (h : Lasts balance used) :
    Lasts balance (used + amount) ↔ ¬ Between (balance - used) 0 amount := by
  have hbefore : 0 < balance - used ↔ used < balance := sub_pos
  have hafter : amount < balance - used ↔ used + amount < balance := lt_sub_iff_add_lt'
  rw [lasts_iff] at h ⊢
  rw [Between, ← not_lt, ← not_lt, hbefore, hafter, h]
  tauto

/-- Whatever is granted to the user lasts. -/
def LastsFor (s : State) (userID : Int) : Prop :=
  ∀ balance ∈ s.getUserBalance userID, Lasts balance (s.getUsedAmount userID)

/-- **One state.**  The amounts shown are right if every balance lasts. -/
theorem showsTheGate_iff : ShowsTheGate s ↔ ∀ userID, LastsFor s userID := by
  refine forall_congr' fun userID => ?_
  unfold LastsFor State.summary State.getBalance State.me State.checkBalance State.getUserBalance
  cases s.first userID with
  | none => simp
  | some u =>
    simp only [Option.map_some, Option.getD_some, Option.some.injEq, exists_eq_left',
      checkBalance_eq_true, Option.mem_some_iff, forall_eq', lasts_iff]
    exact ⟨fun h => h.2, fun h => ⟨fun _ => h, h⟩⟩

/-! ### One step -/

theorem getUserBalance_updateBalance (id : Int) (delta : Rat) (userID : Int) :
    State.getUserBalance { s with users := updateBalance s.users id delta } userID =
      if userID = id then (s.getUserBalance userID).map (· + delta) else s.getUserBalance userID := by
  have hsame : (fun u : User => u.id == userID) ∘
      (fun u : User => if u.id = id then { u with balance := u.balance + delta } else u) =
      fun u => u.id == userID := by
    funext u
    simp only [Function.comp_apply]
    split <;> rfl
  unfold State.getUserBalance State.first updateBalance
  rw [List.find?_map, hsame]
  cases hfind : s.users.find? (fun u => u.id == userID) with
  | none => simp
  | some u =>
    have hid : u.id = userID := by simpa using List.find?_some hfind
    by_cases h : userID = id
    · simp [hid, h]
    · simp [hid, h]

/-- Nobody has the id, so the new row has. -/
theorem getUserBalance_append {u : User} (hnew : ∀ u' ∈ s.users, u'.id ≠ u.id) (userID : Int) :
    State.getUserBalance { s with users := s.users ++ [u] } userID =
      if userID = u.id then some u.balance else s.getUserBalance userID := by
  unfold State.getUserBalance State.first
  rw [List.find?_append]
  by_cases h : userID = u.id
  · subst h
    have hnone : s.users.find? (fun u' => u'.id == u.id) = none :=
      List.find?_eq_none.mpr fun u' hu' => by simpa using hnew u' hu'
    simp [hnone]
  · have hne : (u.id == userID) = false := by simpa using fun he => h he.symm
    simp [hne, h]

/-- A command that charges nobody leaves the used amounts as they are. -/
theorem counters_of_charge_none {cmd : Command} (h : charge cmd = none) (rdb : Redis)
    (userID : Int) : (rdb.run cmd).counters (.total userID) = rdb.counters (.total userID) := by
  cases cmd with
  | incrBy key amount =>
    cases key with
    | total id => cases h
    | daily id day => exact Redis.run_incrBy_of_ne fun he => by cases he
    | model name hour => exact Redis.run_incrBy_of_ne fun he => by cases he
  | expire key => rfl
  | rPush data => rfl

/-- A command that charges a user adds to the used amount. -/
theorem counters_of_charge {cmd : Command} {id : Int} {amount : Rat}
    (h : charge cmd = some (id, amount)) (rdb : Redis) (userID : Int) :
    (rdb.run cmd).counters (.total userID) =
      if userID = id then rdb.counters (.total id) + amount else rdb.counters (.total userID) := by
  obtain rfl : cmd = .incrBy (.total id) amount := by
    unfold charge at h
    split at h
    · cases h
      rfl
    · cases h
  simp only [Redis.run, Function.update_apply, Key.total.injEq]

/-- What changes for one user only is decided there. -/
theorem forall_iff_of_frame {P Q : Int → Prop} (id : Int) (hP : ∀ i, P i)
    (hQ : ∀ i, i ≠ id → (Q i ↔ P i)) : (∀ i, Q i) ↔ Q id := by
  refine ⟨fun h => h id, fun h i => ?_⟩
  by_cases hi : i = id
  · exact hi ▸ h
  · exact (hQ i hi).mpr (hP i)

theorem register_iff {email name : GoString} {inserted : Option (Int × Int)}
    (hnew : ∀ row ∈ inserted, ∀ u ∈ s.users, u.id ≠ row.1) (h : ∀ userID, LastsFor s userID) :
    (∀ userID, LastsFor (register s email name inserted) userID) ↔
      UsesUpNothing s (.register email name inserted) := by
  cases hfind : s.findByEmail email with
  | some u =>
    simp only [register, hfind]
    cases inserted <;> simp [UsesUpNothing, hfind, h]
  | none =>
    cases inserted with
    | none => simpa [register, hfind, UsesUpNothing] using h
    | some row =>
      obtain ⟨id, createdAt⟩ := row
      have hget := getUserBalance_append (s := s) (u := ⟨id, email, name, lit "user", 1, createdAt⟩)
        (hnew _ rfl)
      simp only [register, hfind]
      refine (forall_iff_of_frame id h fun i hi => ?_).trans ?_
      · unfold LastsFor
        rw [hget, if_neg hi]
        rfl
      · have hone : ∀ used : Rat, Lasts 1 used ↔ used < 1 := fun used => by
          rw [Lasts, if_pos zero_lt_one]
        simp only [LastsFor, hget, if_true, Option.mem_some_iff, forall_eq', hone, UsesUpNothing,
          hfind, forall_const]
        rfl

theorem updateUserBalance_iff {userID : Int} {delta : Rat} {ok : Bool}
    (h : ∀ userID, LastsFor s userID) :
    (∀ i, LastsFor (updateUserBalance s userID delta ok) i) ↔
      UsesUpNothing s (.updateUserBalance userID delta ok) := by
  unfold updateUserBalance UsesUpNothing
  by_cases hcond : userID ≠ 0 ∧ delta ≠ 0 ∧ ok = true
  · rw [if_pos hcond]
    obtain ⟨huser, hdelta, hok⟩ := hcond
    have hget := getUserBalance_updateBalance (s := s) userID delta
    refine (forall_iff_of_frame userID h fun i hi => ?_).trans ?_
    · unfold LastsFor
      rw [hget, if_neg hi]
      rfl
    · simp only [LastsFor, hget, if_true, ne_eq, huser, hdelta, hok, not_false_eq_true, forall_const,
        Option.mem_map, forall_exists_index, and_imp, forall_apply_eq_imp_iff₂]
      exact forall₂_congr fun balance _ => lasts_add_iff
  · rw [if_neg hcond]
    exact ⟨fun _ huser hdelta hok => absurd ⟨huser, hdelta, hok⟩ hcond, fun _ => h⟩

theorem store_iff {a : Flush.Action} {store : Flush.State}
    (hstep : Flush.step s.store a = some store) (h : ∀ userID, LastsFor s userID) :
    (∀ i, LastsFor { s with store := store } i) ↔ UsesUpNothing s (.store a) := by
  -- the balances are the same; and so are the used amounts, but for a charge
  have hsame : (∀ userID : Int, store.redis.counters (.total userID) =
        s.store.redis.counters (.total userID)) →
      ∀ i, LastsFor { s with store := store } i := by
    intro hcounters i balance hbalance
    have hused : State.getUsedAmount { s with store := store } i = s.getUsedAmount i := hcounters i
    rw [hused]
    exact h i balance hbalance
  by_cases hflusher : a.isFlusher = true
  · refine iff_of_true (hsame fun userID => ?_) ?_
    · rw [(Flush.flusherStep hflusher hstep).counters_eq]
    · cases a <;> trivial
  · cases a with
    | call record day hour =>
      obtain rfl := Option.some.inj hstep
      exact iff_of_true (hsame fun _ => rfl) trivial
    | command j =>
      obtain ⟨c, cmd, hc, hcmd, rfl⟩ := Flush.command_cases hstep
      simp only [UsesUpNothing, hc, hcmd, Option.mem_some_iff, forall_eq']
      rcases hcharge : charge cmd with - | ⟨id, amount⟩
      · refine iff_of_true (hsame (counters_of_charge_none hcharge s.store.redis)) fun _ h => ?_
        cases h
      · have hused := counters_of_charge hcharge s.store.redis
        refine (forall_iff_of_frame id h fun i hi => ?_).trans ?_
        · unfold LastsFor State.getUsedAmount
          simp only [hused, if_neg hi]
          rfl
        · simp only [LastsFor, State.getUsedAmount, hused, if_true, Option.mem_some_iff, forall_eq']
          exact forall₂_congr fun balance hbalance => lasts_charge_iff (h id balance hbalance)
    | _ => exact absurd rfl hflusher

/-- **One step.**  It keeps the amounts right exactly if it uses up nothing. -/
theorem step_iff {a : Action} (h : ShowsTheGate s) (hstep : step s a = some s') :
    ShowsTheGate s' ↔ UsesUpNothing s a := by
  rw [showsTheGate_iff] at h ⊢
  cases a with
  | register email name inserted =>
    simp only [step] at hstep
    split at hstep
    · rename_i hnew
      obtain rfl := Option.some.inj hstep
      exact register_iff hnew h
    · cases hstep
  | updateUserBalance userID delta ok =>
    obtain rfl := Option.some.inj hstep
    exact updateUserBalance_iff h
  | store a =>
    obtain ⟨store, hstore, rfl⟩ := Option.map_eq_some_iff.mp hstep
    exact store_iff hstore h

theorem showsTheGate_start : ShowsTheGate start :=
  showsTheGate_iff.mpr fun _ _ h => by cases h

/-! ### Whole runs -/

/-- A user registers, and uses up what was granted. -/
def grantUsedUp : List Action :=
  .register (lit "a@b.c") (lit "A") (some (1, 0)) :: Flush.recorded.map .store

/-- The user is shown the grant, and the next request is refused. -/
theorem not_showsTheGate_grantUsedUp :
    ∃ s, exec step start grantUsedUp = some s ∧ ¬ ShowsTheGate s := by
  have hwrong : (exec step start grantUsedUp).any (fun s => decide (
      0 < (s.summary 1 []).balance ∧ s.checkBalance 1 0 ≠ some true)) = true := by
    decide +kernel
  obtain ⟨s, hs, hwrong⟩ := (Option.any_eq_true _ _).mp hwrong
  obtain ⟨hshown, hrefused⟩ := of_decide_eq_true hwrong
  exact ⟨s, hs, fun h => hrefused (((h 1).1 []).mp hshown)⟩

/-- **When the balance shown is the one that gates.**  In a run, the two agree in every
state exactly if no step uses up a balance. -/
theorem showsTheGate_iff_usesUpNothing {as : List Action} (hexec : exec step start as = some s) :
    (∀ pre s', pre <+: as → exec step start pre = some s' → ShowsTheGate s') ↔
      Along step UsesUpNothing start as :=
  forall_prefix_iff_along (fun _ _ _ h hstep => step_iff h hstep) showsTheGate_start hexec

/-- A user registers, is topped up, and uses a part. -/
def grantLasts : List Action :=
  .register (lit "a@b.c") (lit "A") (some (1, 0)) :: .updateUserBalance 1 5 true ::
    Flush.recorded.map .store

theorem showsTheGate_iff_usesUpNothing_grantLasts :
    ∃ s, exec step start grantLasts = some s ∧ ShowsTheGate s := by
  have hruns : (exec step start grantLasts).isSome = true := by decide +kernel
  obtain ⟨s, hs⟩ := Option.isSome_iff_exists.mp hruns
  have hgood : Along step UsesUpNothing start grantLasts := by decide +kernel
  exact ⟨s, hs, (showsTheGate_iff_usesUpNothing hs).mpr hgood _ _ (List.prefix_refl _) hs⟩

end Dashboard
end UniLLM.Billing
