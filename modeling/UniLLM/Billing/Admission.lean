import UniLLM.Lib.Transition
import Mathlib.Algebra.BigOperators.Group.Finset.Basic
import Mathlib.Data.Rat.Defs
import Mathlib.Tactic.Linarith
import Mathlib.Tactic.Ring

/-!
# Admission by balance

A chat, streaming or embedding request passes `BalanceCheck`, which reads the
balance from the database and then `balance_used` from Redis, waits for its
upstream, and is charged later by a goroutine of its own.  The check estimates no
cost, and nothing is reserved between the check and the charge.  A run interleaves
these steps for any number of requests of any users; nobody tops up a balance.

At an admission the user has something left.  So what is charged beyond the
balance was in flight at the user's last admission.
-/

namespace UniLLM.Billing
open Transition

/-- `CheckBalance` on what it has read. -/
def checkBalance (balance used estimatedCost : Rat) : Bool :=
  let remaining := balance - used
  -- nothing left is refused whatever the estimate
  if remaining ≤ 0 then false else decide (estimatedCost ≤ remaining)

/-- Where a request is. -/
inductive Phase where
  | arrived
  /-- The balance is read, the used amount is not. -/
  | balanceRead (balance : Rat)
  /-- 401, 402 or 500. -/
  | refused
  /-- Waiting for the upstream. -/
  | admitted
  /-- Answered without a usage record. -/
  | done
  /-- Answered; the goroutine with the record has yet to run. -/
  | charged (cost : Rat)
  | recorded (cost : Rat)
  /-- The goroutine failed before it changed `balance_used`. -/
  | unrecorded
  deriving DecidableEq

structure Request where
  user : Int
  phase : Phase
  deriving DecidableEq

/-- The balances, the counters `balance_used`, and the requests. -/
structure State where
  balance : Int → Rat
  used : Int → Rat
  requests : List Request

/-- What happens to one request. -/
inductive Event where
  | readBalance (ok : Bool)
  | readUsed (ok : Bool)
  /-- The upstream call is over; `charge` is the cost of the record, if there is one. -/
  | finish (charge : Option Rat)
  | record (ok : Bool)

inductive Action where
  | arrive (user : Int)
  | move (i : Nat) (event : Event)

/-- The used amount and the phase after an event. -/
def advance (balance used : Rat) : Phase → Event → Option (Rat × Phase)
  -- the database is read first, Redis second: other steps come between
  | .arrived, .readBalance true => some (used, .balanceRead balance)
  | .arrived, .readBalance false => some (used, .refused)
  | .balanceRead b, .readUsed true =>
    some (used, if checkBalance b used 0 then .admitted else .refused)
  | .balanceRead _, .readUsed false => some (used, .refused)
  -- the answer goes out before the amount is known to Redis
  | .admitted, .finish (some cost) => some (used, .charged cost)
  | .admitted, .finish none => some (used, .done)
  | .charged cost, .record true => some (used + cost, .recorded cost)
  | .charged _, .record false => some (used, .unrecorded)
  | _, _ => none

def step (s : State) : Action → Option State
  | .arrive user =>
    -- without a user the middleware refuses at once
    let phase := if user = 0 then .refused else .arrived
    some { s with requests := s.requests ++ [⟨user, phase⟩] }
  | .move i event =>
    match s.requests[i]? with
    | none => none
    | some r =>
      (advance (s.balance r.user) (s.used r.user) r.phase event).map fun next =>
        { s with
          used := Function.update s.used r.user next.1
          requests := s.requests.set i { r with phase := next.2 } }

/-- Admitted and not yet charged. -/
def Phase.inFlight : Phase → Bool
  | .admitted => true
  | .charged _ => true
  | _ => false

/-- What a request in this phase has added to `balance_used`. -/
def Phase.cost : Phase → Rat
  | .recorded cost => cost
  | _ => 0

/-- What request `j` has added to `balance_used`. -/
def recordedCost (s : State) (j : Nat) : Rat := ((s.requests[j]?).map (·.phase.cost)).getD 0

/-- The requests of a user that are in flight. -/
def inFlight (s : State) (user : Int) : Finset Nat :=
  (Finset.range s.requests.length).filter fun j =>
    (s.requests[j]?).any fun r => r.user == user && r.phase.inFlight

/-- The action is the check that admits a request of the user. -/
def Admits (s : State) (user : Int) : Action → Prop
  | .move i (.readUsed true) =>
    ∃ b, s.requests[i]? = some ⟨user, .balanceRead b⟩ ∧ checkBalance b (s.used user) 0 = true
  | _ => False

/-- The user is over the balance by no more than the cost of a single request. -/
def WithinOneRequest (s : State) (user : Int) : Prop :=
  s.used user ≤ s.balance user ∨
    ∃ r ∈ s.requests, r.user = user ∧ s.used user ≤ s.balance user + r.phase.cost

instance (s : State) (user : Int) : Decidable (WithinOneRequest s user) :=
  inferInstanceAs (Decidable (_ ∨ _))

/-! ### One step -/

/-- A check that passes leaves something. -/
theorem lt_of_checkBalance {balance used : Rat} (h : checkBalance balance used 0 = true) :
    used < balance := by
  unfold checkBalance at h
  simp only at h
  split at h
  · cases h
  · linarith

/-- What an event does: it charges a request, or it changes no amount, and then a
request gets in flight only by a check that passes. -/
theorem advance_cases {balance used : Rat} {phase : Phase} {event : Event} {next : Rat × Phase}
    (h : advance balance used phase event = some next) :
    (∃ cost, phase = .charged cost ∧ next = (used + cost, .recorded cost)) ∨
      (next.1 = used ∧ next.2.cost = 0 ∧ phase.cost = 0 ∧
        (next.2.inFlight = true → phase.inFlight = true ∨
          ∃ b, phase = .balanceRead b ∧ event = .readUsed true ∧ checkBalance b used 0 = true) ∧
        ∀ b, next.2 = .balanceRead b → b = balance) := by
  unfold advance at h
  -- the branches of `advance` in order; the last is the one that is not enabled
  split at h
  · obtain rfl := Option.some.inj h
    exact .inr ⟨rfl, rfl, rfl, nofun, fun b hb => (Phase.balanceRead.inj hb).symm⟩
  · obtain rfl := Option.some.inj h
    exact .inr ⟨rfl, rfl, rfl, nofun, nofun⟩
  · rename_i b
    obtain rfl := Option.some.inj h
    cases hcheck : checkBalance b used 0 with
    | true => exact .inr ⟨rfl, rfl, rfl, fun _ => .inr ⟨b, rfl, rfl, hcheck⟩, nofun⟩
    | false => exact .inr ⟨rfl, rfl, rfl, nofun, nofun⟩
  · obtain rfl := Option.some.inj h
    exact .inr ⟨rfl, rfl, rfl, nofun, nofun⟩
  · obtain rfl := Option.some.inj h
    exact .inr ⟨rfl, rfl, rfl, fun _ => .inl rfl, nofun⟩
  · obtain rfl := Option.some.inj h
    exact .inr ⟨rfl, rfl, rfl, nofun, nofun⟩
  · rename_i cost
    obtain rfl := Option.some.inj h
    exact .inl ⟨cost, rfl, rfl⟩
  · obtain rfl := Option.some.inj h
    exact .inr ⟨rfl, rfl, rfl, nofun, nofun⟩
  · cases h

/-- What a step does: a request arrives, or one request advances. -/
theorem step_cases {s s' : State} {a : Action} (h : step s a = some s') :
    (∃ user phase, (phase = .refused ∨ phase = .arrived) ∧ a = .arrive user ∧
        s' = { s with requests := s.requests ++ [⟨user, phase⟩] }) ∨
      ∃ i event r next, a = .move i event ∧ s.requests[i]? = some r ∧
        advance (s.balance r.user) (s.used r.user) r.phase event = some next ∧
        s' = { s with used := Function.update s.used r.user next.1,
                      requests := s.requests.set i { r with phase := next.2 } } := by
  cases a with
  | arrive user =>
    refine .inl ⟨user, if user = 0 then .refused else .arrived, ?_, rfl, (Option.some.inj h).symm⟩
    split
    · exact .inl rfl
    · exact .inr rfl
  | move i event =>
    right
    cases hr : s.requests[i]? with
    | none => simp [step, hr] at h
    | some r =>
      simp only [step, hr] at h
      obtain ⟨next, hnext, rfl⟩ := Option.map_eq_some_iff.mp h
      exact ⟨i, event, r, next, rfl, hr, hnext, rfl⟩

theorem step_balance {s s' : State} {a : Action} (h : step s a = some s') :
    s'.balance = s.balance := by
  rcases step_cases h with ⟨_, _, -, -, rfl⟩ | ⟨_, _, _, _, -, -, -, rfl⟩
  · rfl
  · rfl

/-- The balance a request has read is the balance. -/
def ReadsTrue (s : State) : Prop :=
  ∀ r ∈ s.requests, ∀ b, r.phase = .balanceRead b → b = s.balance r.user

theorem step_readsTrue {s s' : State} {a : Action} (hinv : ReadsTrue s) (h : step s a = some s') :
    ReadsTrue s' := by
  rcases step_cases h with ⟨user, phase, hphase, rfl, rfl⟩ | ⟨i, event, r, next, rfl, hr, hnext, rfl⟩
  · intro r' hr' b hb
    rcases List.mem_append.mp hr' with hold | hnew
    · exact hinv r' hold b hb
    · rw [List.mem_singleton.mp hnew] at hb
      rcases hphase with rfl | rfl <;> cases hb
  · intro r' hr' b hb
    rcases List.mem_or_eq_of_mem_set hr' with hold | rfl
    · exact hinv r' hold b hb
    · rcases advance_cases hnext with ⟨cost, -, rfl⟩ | ⟨-, -, -, -, hread⟩
      · cases hb
      · exact hread b hb

/-! ### Charges since an admission -/

/-- Of a user's amount, everything beyond `amount` was charged by requests in `F`, and
what is in flight is in `F`. -/
structure ChargedBy (F : Finset Nat) (amount : Rat) (user : Int) (s : State) : Prop where
  used_eq : s.used user = amount + ∑ j ∈ F, recordedCost s j
  mem : ∀ j r, s.requests[j]? = some r → r.user = user → r.phase.inFlight = true → j ∈ F
  own : ∀ j ∈ F, ∃ r, s.requests[j]? = some r ∧ r.user = user

theorem recordedCost_of_get {s : State} {j : Nat} {r : Request} (h : s.requests[j]? = some r) :
    recordedCost s j = r.phase.cost := by
  rw [recordedCost, h]
  rfl

/-- When request `i` of the set advances, the sum changes by the change of its cost. -/
theorem sum_recordedCost_set {F : Finset Nat} {s : State} {i : Nat} {r r' : Request}
    (used : Int → Rat) (hr : s.requests[i]? = some r) (hi : i ∈ F) :
    ∑ j ∈ F, recordedCost ⟨s.balance, used, s.requests.set i r'⟩ j =
      ∑ j ∈ F, recordedCost s j + (r'.phase.cost - r.phase.cost) := by
  have hlt : i < s.requests.length := (List.getElem?_eq_some_iff.mp hr).1
  have hself : recordedCost ⟨s.balance, used, s.requests.set i r'⟩ i = r'.phase.cost :=
    recordedCost_of_get (List.getElem?_set_self hlt)
  have hrest : ∑ j ∈ F.erase i, recordedCost ⟨s.balance, used, s.requests.set i r'⟩ j =
      ∑ j ∈ F.erase i, recordedCost s j := by
    refine Finset.sum_congr rfl fun j hj => ?_
    have hne : i ≠ j := fun he => (Finset.mem_erase.mp hj).1 he.symm
    simp only [recordedCost, List.getElem?_set_ne hne]
  rw [← Finset.add_sum_erase F _ hi, ← Finset.add_sum_erase F _ hi, hself, hrest,
    recordedCost_of_get hr]
  ring

/-- When a request outside the set advances, the sum stays. -/
theorem sum_recordedCost_set_of_not_mem {F : Finset Nat} {s : State} {i : Nat} {r' : Request}
    (used : Int → Rat) (hi : i ∉ F) :
    ∑ j ∈ F, recordedCost ⟨s.balance, used, s.requests.set i r'⟩ j = ∑ j ∈ F, recordedCost s j := by
  refine Finset.sum_congr rfl fun j hj => ?_
  have hne : i ≠ j := fun he => hi (he ▸ hj)
  simp only [recordedCost, List.getElem?_set_ne hne]

variable {F : Finset Nat} {amount : Rat} {user : Int} {s s' : State} {a : Action}

/-- **A step that admits no request of the user** charges only what was in flight. -/
theorem step_chargedBy (hinv : ChargedBy F amount user s) (hno : ¬ Admits s user a)
    (h : step s a = some s') : ChargedBy F amount user s' := by
  rcases step_cases h with ⟨who, phase, hphase, rfl, rfl⟩ | ⟨i, event, r, next, rfl, hr, hnext, rfl⟩
  · -- a request that arrives is not in the set and not in flight
    have hget : ∀ j ∈ F, (s.requests ++ [⟨who, phase⟩])[j]? = s.requests[j]? := by
      intro j hj
      obtain ⟨r, hr, -⟩ := hinv.own j hj
      exact List.getElem?_append_left (List.getElem?_eq_some_iff.mp hr).1
    refine ⟨?_, ?_, ?_⟩
    · simp only
      rw [hinv.used_eq]
      refine congrArg (amount + ·) (Finset.sum_congr rfl fun j hj => ?_)
      simp only [recordedCost, hget j hj]
    · intro j r hr huser hflight
      rcases List.mem_append.mp (List.mem_of_getElem? hr) with hold | hnew
      · by_cases hlt : j < s.requests.length
        · rw [List.getElem?_append_left hlt] at hr
          exact hinv.mem j r hr huser hflight
        · rw [List.getElem?_append_right (Nat.not_lt.mp hlt)] at hr
          rw [List.mem_singleton.mp (List.mem_of_getElem? hr)] at hflight
          rcases hphase with rfl | rfl <;> cases hflight
      · rw [List.mem_singleton.mp hnew] at hflight
        rcases hphase with rfl | rfl <;> cases hflight
    · intro j hj
      rw [hget j hj]
      exact hinv.own j hj
  · have hlt : i < s.requests.length := (List.getElem?_eq_some_iff.mp hr).1
    -- a request of the user gets in flight only from inside the set
    have hmem : ∀ j r', (s.requests.set i { r with phase := next.2 })[j]? = some r' →
        r'.user = user → r'.phase.inFlight = true → j ∈ F := by
      intro j r' hr' huser hflight
      by_cases hij : i = j
      · subst hij
        obtain rfl := Option.some.inj ((List.getElem?_set_self hlt).symm.trans hr')
        rcases advance_cases hnext with ⟨cost, -, rfl⟩ | ⟨-, -, -, hin, -⟩
        · cases hflight
        · rcases hin hflight with hwas | ⟨b, hphase, rfl, hcheck⟩
          · exact hinv.mem i r hr huser hwas
          · obtain ⟨who, phase⟩ := r
            subst hphase
            subst huser
            exact absurd ⟨b, hr, hcheck⟩ hno
      · rw [List.getElem?_set_ne hij] at hr'
        exact hinv.mem j r' hr' huser hflight
    have hown : ∀ j ∈ F, ∃ r', (s.requests.set i { r with phase := next.2 })[j]? = some r' ∧
        r'.user = user := by
      intro j hj
      obtain ⟨r', hr', huser⟩ := hinv.own j hj
      by_cases hij : i = j
      · subst hij
        obtain rfl := Option.some.inj (hr.symm.trans hr')
        exact ⟨_, List.getElem?_set_self hlt, huser⟩
      · exact ⟨r', by rw [List.getElem?_set_ne hij, hr'], huser⟩
    refine ⟨?_, hmem, hown⟩
    simp only
    by_cases huser : r.user = user
    · subst huser
      rw [Function.update_self]
      rcases advance_cases hnext with ⟨cost, hphase, rfl⟩ | ⟨hused, hcost, hwas, -, -⟩
      · -- the charge of a request that was in flight, so it is in the sum
        have hi : i ∈ F := hinv.mem i r hr rfl (by rw [hphase]; rfl)
        have hzero : r.phase.cost = 0 := by rw [hphase]; rfl
        rw [sum_recordedCost_set _ hr hi, hinv.used_eq, hzero]
        simp only [Phase.cost]
        ring
      · rw [hused, hinv.used_eq]
        by_cases hi : i ∈ F
        · rw [sum_recordedCost_set _ hr hi, hwas]
          simp [hcost]
        · rw [sum_recordedCost_set_of_not_mem _ hi]
    · -- somebody else's request changes neither the amount nor the sum
      have hi : i ∉ F := by
        intro hi
        obtain ⟨r', hr', hr'user⟩ := hinv.own i hi
        obtain rfl := Option.some.inj (hr.symm.trans hr')
        exact huser hr'user
      rw [Function.update_of_ne (Ne.symm huser), sum_recordedCost_set_of_not_mem _ hi, hinv.used_eq]

/-- Right after an admission of the user nothing has been charged by what is in
flight, and something is left. -/
theorem chargedBy_of_admits (hinv : ReadsTrue s) (ha : Admits s user a) (h : step s a = some s') :
    ChargedBy (inFlight s' user) (s'.used user) user s' ∧ s'.used user < s'.balance user := by
  have hinFlight : ∀ j, j ∈ inFlight s' user ↔
      ∃ r, s'.requests[j]? = some r ∧ r.user = user ∧ r.phase.inFlight = true := by
    intro j
    rw [inFlight, Finset.mem_filter, Finset.mem_range]
    constructor
    · rintro ⟨hlt, hj⟩
      rw [List.getElem?_eq_getElem hlt] at hj
      simp only [Option.any_some, Bool.and_eq_true, beq_iff_eq] at hj
      exact ⟨_, List.getElem?_eq_getElem hlt, hj⟩
    · rintro ⟨r, hr, huser, hflight⟩
      exact ⟨(List.getElem?_eq_some_iff.mp hr).1, by simp [hr, huser, hflight]⟩
  refine ⟨⟨?_, ?_, ?_⟩, ?_⟩
  · rw [Finset.sum_eq_zero, add_zero]
    intro j hj
    obtain ⟨r, hr, -, hflight⟩ := (hinFlight j).mp hj
    rw [recordedCost_of_get hr]
    cases hphase : r.phase with
    | recorded cost => rw [hphase] at hflight; cases hflight
    | _ => rfl
  · exact fun j r hr huser hflight => (hinFlight j).mpr ⟨r, hr, huser, hflight⟩
  · intro j hj
    obtain ⟨r, hr, huser, -⟩ := (hinFlight j).mp hj
    exact ⟨r, hr, huser⟩
  · -- only the check of the used amount admits, and it has compared with the balance
    rcases step_cases h with ⟨_, _, -, rfl, -⟩ | ⟨i, event, r, next, rfl, hr, hnext, rfl⟩
    · exact absurd ha (by simp [Admits])
    · cases event with
      | readUsed ok =>
        cases ok with
        | false => exact absurd ha (by simp [Admits])
        | true =>
          obtain ⟨b, hget, hcheck⟩ := ha
          obtain rfl := Option.some.inj (hr.symm.trans hget)
          obtain rfl := Option.some.inj hnext
          have hb : b = s.balance user := hinv _ (List.mem_of_getElem? hr) b rfl
          simp only [Function.update_self]
          rw [← hb]
          exact lt_of_checkBalance hcheck
      | readBalance ok => exact absurd ha (by simp [Admits])
      | finish charge => exact absurd ha (by simp [Admits])
      | record ok => exact absurd ha (by simp [Admits])

/-! ### Whole runs -/

variable {s₀ : State} {as : List Action}

/-- `s₁` is the state right after an admission of the user in the run. -/
def AdmittedAt (s₀ : State) (as : List Action) (user : Int) (s₁ : State) : Prop :=
  ∃ pre a post s, as = pre ++ a :: post ∧ exec step s₀ pre = some s ∧ Admits s user a ∧
    step s a = some s₁

/-- In every state the balances are those of the start, and that is what is read. -/
theorem reachable_readsTrue (hstart : s₀.requests = []) (h : Reachable step s₀ s) :
    s.balance = s₀.balance ∧ ReadsTrue s := by
  have hstep : ∀ s a s', s.balance = s₀.balance ∧ ReadsTrue s → step s a = some s' →
      s'.balance = s₀.balance ∧ ReadsTrue s' := by
    intro s a s' ⟨hbalance, hreads⟩ h
    exact ⟨(step_balance h).trans hbalance, step_readsTrue hreads h⟩
  have hreads : ReadsTrue s₀ := by
    intro r hr
    rw [hstart] at hr
    cases hr
  exact Reachable.invariant hstep ⟨rfl, hreads⟩ h

/-- **The run lemma.**  What a run has charged a user is what was charged before any
admission, or was charged by what was in flight after one. -/
theorem exec_chargedBy (hstart : s₀.requests = []) (hexec : exec step s₀ as = some s) (user : Int) :
    ChargedBy ∅ (s₀.used user) user s ∨
      ∃ s₁, AdmittedAt s₀ as user s₁ ∧ ChargedBy (inFlight s₁ user) (s₁.used user) user s ∧
        s₁.used user < s₀.balance user := by
  -- from the end of the run: the last admission is the one that counts
  induction as using List.reverseRecOn generalizing s with
  | nil =>
    obtain rfl := Option.some.inj hexec
    refine .inl ⟨by simp, ?_, by simp⟩
    intro j r hr
    rw [hstart] at hr
    cases hr
  | append_singleton as a ih =>
    obtain ⟨s', hexec', hstep⟩ := exec_concat_eq_some.mp hexec
    obtain ⟨hbalance, hreads⟩ := reachable_readsTrue hstart ⟨as, hexec'⟩
    by_cases hadmits : Admits s' user a
    · obtain ⟨hnew, hlt⟩ := chargedBy_of_admits hreads hadmits hstep
      rw [step_balance hstep, hbalance] at hlt
      exact .inr ⟨s, ⟨as, a, [], s', rfl, hexec', hadmits, hstep⟩, hnew, hlt⟩
    · rcases ih hexec' with hnone | ⟨s₁, ⟨pre, b, post, t, rfl, hpre, hb, hstepb⟩, hsome, hlt⟩
      · exact .inl (step_chargedBy hnone hadmits hstep)
      · exact .inr ⟨s₁, ⟨pre, b, post ++ [a], t, by simp, hpre, hb, hstepb⟩,
          step_chargedBy hsome hadmits hstep, hlt⟩

/-- When at most one request of the user is in flight after each admission, the user is
over the balance by no more than the cost of a single request. -/
theorem withinOneRequest_of_one_at_a_time (hstart : s₀.requests = [])
    (hused : s₀.used user ≤ s₀.balance user) (hexec : exec step s₀ as = some s)
    (hone : ∀ s₁, AdmittedAt s₀ as user s₁ → (inFlight s₁ user).card ≤ 1) :
    WithinOneRequest s user := by
  obtain ⟨hbalance, -⟩ := reachable_readsTrue hstart ⟨as, hexec⟩
  rcases exec_chargedBy hstart hexec user with hnone | ⟨s₁, hat, hsome, hlt⟩
  · left
    rw [hnone.used_eq, hbalance]
    simpa using hused
  · rcases Finset.card_le_one_iff_subset_singleton.mp (hone s₁ hat) with ⟨j, hj⟩
    rw [← hbalance] at hlt
    rcases Finset.subset_singleton_iff.mp hj with hempty | hsingle
    · left
      rw [hsome.used_eq, hempty]
      simpa using hlt.le
    · right
      obtain ⟨r, hr, huser⟩ := hsome.own j (by rw [hsingle]; exact Finset.mem_singleton_self j)
      refine ⟨r, List.mem_of_getElem? hr, huser, ?_⟩
      rw [hsome.used_eq, hsingle, Finset.sum_singleton, recordedCost_of_get hr]
      linarith

/-- A user with a balance of 1, and nobody's requests yet. -/
def funded : State := ⟨fun _ => 1, fun _ => 0, []⟩

/-- Two requests are admitted before either is charged its cost of 2. -/
def twoAtOnce : List Action :=
  [.arrive 1, .arrive 1, .move 0 (.readBalance true), .move 1 (.readBalance true),
    .move 0 (.readUsed true), .move 1 (.readUsed true), .move 0 (.finish (some 2)),
    .move 1 (.finish (some 2)), .move 0 (.record true), .move 1 (.record true)]

theorem not_withinOneRequest_two_at_once :
    ∃ s, exec step funded twoAtOnce = some s ∧ ¬ WithinOneRequest s 1 := by
  have hover : (exec step funded twoAtOnce).any
      (fun s => !decide (WithinOneRequest s 1)) = true := by
    decide +kernel
  obtain ⟨s, hs, hnot⟩ := (Option.any_eq_true _ _).mp hover
  exact ⟨s, hs, by simpa using hnot⟩

/-- **How far a user gets over the balance**: by less than what the requests that were
in flight right after one of the user's admissions were charged; before the first
admission nothing is charged. -/
theorem overdraft_lt_inFlight (hstart : s₀.requests = []) (hexec : exec step s₀ as = some s)
    (user : Int) :
    s.used user = s₀.used user ∨
      ∃ s₁, AdmittedAt s₀ as user s₁ ∧
        s.used user < s.balance user + ∑ j ∈ inFlight s₁ user, recordedCost s j := by
  obtain ⟨hbalance, -⟩ := reachable_readsTrue hstart ⟨as, hexec⟩
  rcases exec_chargedBy hstart hexec user with hnone | ⟨s₁, hat, hsome, hlt⟩
  · left
    simpa using hnone.used_eq
  · right
    refine ⟨s₁, hat, ?_⟩
    rw [hsome.used_eq, hbalance]
    linarith

theorem overdraft_lt_inFlight_two_at_once :
    ∃ s, exec step funded twoAtOnce = some s ∧
      (s.used 1 = funded.used 1 ∨
        ∃ s₁, AdmittedAt funded twoAtOnce 1 s₁ ∧
          s.used 1 < s.balance 1 + ∑ j ∈ inFlight s₁ 1, recordedCost s j) := by
  have hruns : (exec step funded twoAtOnce).isSome = true := by decide +kernel
  obtain ⟨s, hs⟩ := Option.isSome_iff_exists.mp hruns
  exact ⟨s, hs, overdraft_lt_inFlight rfl hs 1⟩

end UniLLM.Billing
