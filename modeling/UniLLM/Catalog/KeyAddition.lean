import UniLLM.Catalog.Service
import UniLLM.Lib.Transition

/-!
# Adding keys concurrently

`AddProviderKey` inserts a row and reloads the pool; the reload lists the active
providers, then the keys of one provider after the other, and installs what it has
collected.  Only the installation is under the mutex, so the steps of several
requests interleave.  A run is the list of which request moves when.

A reload that read early may install late, over what a later reload installed.
That is the only way to lose a key: when no installation drops an active key the
pool holds, the pool has every active key once all requests have returned.
-/

namespace UniLLM.Catalog
open Go Transition

/-- The input of `AddProviderKey`.  The handler answers 400 to anything else. -/
structure KeyInput where
  providerID : Int
  keyValue : GoString
  providerID_ne : providerID ≠ 0
  keyValue_ne : keyValue ≠ []

/-- Where a request is. -/
inductive Request where
  /-- Before the insertion, with the random bytes the encryption will draw. -/
  | start (input : KeyInput) (random : GoString)
  /-- Before the providers are listed. -/
  | inserted
  /-- Before the keys of the first of `todo` are listed, or the installation. -/
  | listing (todo : List Provider) (keys : GoString → List GoString)
  | returned

/-- The database, the pool and the requests. -/
structure State where
  db : Database
  pool : Pool
  requests : List Request

variable (protector : KeyProtector)

/-- The next step of a request. -/
def advance (db : Database) (pool : Pool) : Request → Option (Database × Pool × Request)
  | .start input random =>
    match protector.encrypt random input.keyValue with
    -- the handler answers 500, and nothing is inserted
    | none => some (db, pool, .returned)
    | some stored =>
      some ({ db with keys := db.keys ++ [⟨input.providerID, stored, true⟩] }, pool, .inserted)
  | .inserted => some (db, pool, .listing (listActiveProviders db) fun _ => [])
  | .listing [] keys => some (db, install keys, .returned)
  | .listing (p :: todo) keys =>
    some (db, pool, .listing todo (collectKeys keys p (listActiveKeys protector db p.id)))
  | .returned => none

/-- Request `i` takes its next step. -/
def step (s : State) (i : Nat) : Option State :=
  match s.requests[i]? with
  | none => none
  | some r =>
    (advance protector s.db s.pool r).map fun next =>
      ⟨next.1, next.2.1, s.requests.set i next.2.2⟩

/-- An active key of an active provider. -/
def ActiveKey (p : ProviderRow) (k : ProviderKey) : Prop :=
  p.isActive = true ∧ k.isActive = true ∧ k.providerID = p.id

instance (p : ProviderRow) (k : ProviderKey) : Decidable (ActiveKey p k) :=
  inferInstanceAs (Decidable (_ ∧ _))

/-- The pool has every active key of every active provider in the database. -/
def PoolComplete (s : State) : Prop :=
  ∀ p ∈ s.db.providers, ∀ k ∈ s.db.keys, ActiveKey p k →
    protector.decrypt k.keyValue ∈ s.pool.providerKeys p.name

instance (s : State) : Decidable (PoolComplete protector s) :=
  inferInstanceAs (Decidable (∀ p ∈ s.db.providers, _))

/-- A request that has answered. -/
def Request.isReturned : Request → Bool
  | .returned => true
  | _ => false

/-- A step that does not lose keys: what an installation brings has every active key
that the pool holds. -/
def KeepsKeys (s : State) (i : Nat) : Prop :=
  match s.requests[i]? with
  | some (.listing [] keys) =>
    ∀ p ∈ s.db.providers, ∀ k ∈ s.db.keys, ActiveKey p k →
      protector.decrypt k.keyValue ∈ s.pool.providerKeys p.name →
      protector.decrypt k.keyValue ∈ keys p.name
  | _ => True

instance (s : State) (i : Nat) : Decidable (KeepsKeys protector s i) := by
  unfold KeepsKeys
  split <;> infer_instance

/-! ### One step -/

variable {protector}

/-- What a step does: one request advances. -/
theorem step_eq_some {s s' : State} {i : Nat} :
    step protector s i = some s' ↔
      ∃ r next, s.requests[i]? = some r ∧ advance protector s.db s.pool r = some next ∧
        s' = ⟨next.1, next.2.1, s.requests.set i next.2.2⟩ := by
  unfold step
  cases s.requests[i]? with
  | none => simp
  | some r =>
    constructor
    · intro h
      obtain ⟨next, hnext, rfl⟩ := Option.map_eq_some_iff.mp h
      exact ⟨r, next, rfl, hnext, rfl⟩
    · rintro ⟨r', next, hr, hnext, rfl⟩
      obtain rfl := Option.some.inj hr
      exact Option.map_eq_some_iff.mpr ⟨next, hnext, rfl⟩

/-- A request that will still bring the key `k` of `p` to the pool: it has yet to list
the keys of `p`, or has listed `k`. -/
def Brings (protector : KeyProtector) (p : ProviderRow) (k : ProviderKey) : Request → Prop
  | .start input random => (protector.encrypt random input.keyValue).isSome
  | .inserted => True
  | .listing todo keys => p.toProvider ∈ todo ∨ protector.decrypt k.keyValue ∈ keys p.name
  | .returned => False

/-- The invariant: an active key is in the pool or on its way. -/
def KeyOnItsWay (protector : KeyProtector) (s : State) : Prop :=
  ∀ p ∈ s.db.providers, ∀ k ∈ s.db.keys, ActiveKey p k →
    protector.decrypt k.keyValue ∈ s.pool.providerKeys p.name ∨
      ∃ r ∈ s.requests, Brings protector p k r

theorem ActiveKey.mem_listActiveProviders {db : Database} {p : ProviderRow} {k : ProviderKey}
    (h : ActiveKey p k) (hp : p ∈ db.providers) : p.toProvider ∈ listActiveProviders db :=
  List.mem_map_of_mem (List.mem_filter.mpr ⟨hp, h.1⟩)

theorem ActiveKey.mem_listActiveKeys {db : Database} {p : ProviderRow} {k : ProviderKey}
    (h : ActiveKey p k) (hk : k ∈ db.keys) :
    protector.decrypt k.keyValue ∈ listActiveKeys protector db p.id := by
  obtain ⟨-, hactive, hid⟩ := h
  exact List.mem_map_of_mem (List.mem_filter.mpr ⟨hk, by simp [hid, hactive]⟩)

/-- What the next step of a request can be. -/
theorem advance_cases {db : Database} {pool : Pool} {r : Request} {next : Database × Pool × Request}
    (h : advance protector db pool r = some next) :
    (∃ input random, r = .start input random ∧ protector.encrypt random input.keyValue = none ∧
        next = (db, pool, .returned)) ∨
      (∃ input random stored, r = .start input random ∧
        protector.encrypt random input.keyValue = some stored ∧
        next = ({ db with keys := db.keys ++ [⟨input.providerID, stored, true⟩] }, pool, .inserted)) ∨
      (r = .inserted ∧ next = (db, pool, .listing (listActiveProviders db) fun _ => [])) ∨
      (∃ keys, r = .listing [] keys ∧ next = (db, install keys, .returned)) ∨
      ∃ q todo keys, r = .listing (q :: todo) keys ∧
        next = (db, pool, .listing todo (collectKeys keys q (listActiveKeys protector db q.id))) := by
  cases r with
  | start input random =>
    cases henc : protector.encrypt random input.keyValue with
    | none => exact .inl ⟨input, random, rfl, henc, by simpa [advance, henc] using h.symm⟩
    | some stored =>
      exact .inr (.inl ⟨input, random, stored, rfl, henc, by simpa [advance, henc] using h.symm⟩)
  | inserted => exact .inr (.inr (.inl ⟨rfl, (Option.some.inj h).symm⟩))
  | listing todo keys =>
    cases todo with
    | nil => exact .inr (.inr (.inr (.inl ⟨keys, rfl, (Option.some.inj h).symm⟩)))
    | cons q todo => exact .inr (.inr (.inr (.inr ⟨q, todo, keys, rfl, (Option.some.inj h).symm⟩)))
  | returned => cases h

/-- A request that brings a key still brings it after its step, or has put it into the
pool. -/
theorem advance_brings {db : Database} {pool : Pool} {r : Request}
    {next : Database × Pool × Request}
    (h : advance protector db pool r = some next) {p : ProviderRow} {k : ProviderKey}
    (hp : p ∈ db.providers) (hk : k ∈ db.keys) (hactive : ActiveKey p k)
    (hr : Brings protector p k r) :
    Brings protector p k next.2.2 ∨
      protector.decrypt k.keyValue ∈ next.2.1.providerKeys p.name := by
  rcases advance_cases h with ⟨input, random, rfl, henc, rfl⟩ | ⟨input, random, stored, rfl, -, rfl⟩ |
    ⟨rfl, rfl⟩ | ⟨keys, rfl, rfl⟩ | ⟨q, todo, keys, rfl, rfl⟩
  · -- this request inserts nothing, and it brought nothing before
    simp [Brings, henc] at hr
  · exact .inl trivial
  · exact .inl (.inl (hactive.mem_listActiveProviders hp))
  · rcases hr with hmem | hmem
    · cases hmem
    · exact .inr hmem
  · -- the keys of `q` are read now: if `q` is `p`, then `k` is among them
    left
    rcases hr with hmem | hmem
    · rcases List.mem_cons.mp hmem with rfl | hmem
      · exact .inr (mem_collectKeys.mpr (.inr ⟨rfl, hactive.mem_listActiveKeys hk⟩))
      · exact .inl hmem
    · exact .inr (mem_collectKeys.mpr (.inl hmem))

/-- A step that adds a row leads to a request that brings every key; no other step
touches the tables. -/
theorem advance_db {db : Database} {pool : Pool} {r : Request} {next : Database × Pool × Request}
    (h : advance protector db pool r = some next) : next.1 = db ∨ next.2.2 = .inserted := by
  rcases advance_cases h with ⟨_, _, -, -, rfl⟩ | ⟨_, _, _, -, -, rfl⟩ | ⟨-, rfl⟩ | ⟨_, -, rfl⟩ |
    ⟨_, _, _, -, rfl⟩
  · exact .inl rfl
  · exact .inr rfl
  · exact .inl rfl
  · exact .inl rfl
  · exact .inl rfl

/-- A step changes the pool only by an installation. -/
theorem advance_pool {db : Database} {pool : Pool} {r : Request} {next : Database × Pool × Request}
    (h : advance protector db pool r = some next) :
    next.2.1 = pool ∨ ∃ keys, r = .listing [] keys ∧ next.2.1 = install keys := by
  rcases advance_cases h with ⟨_, _, -, -, rfl⟩ | ⟨_, _, _, -, -, rfl⟩ | ⟨-, rfl⟩ | ⟨keys, rfl, rfl⟩ |
    ⟨_, _, _, -, rfl⟩
  · exact .inl rfl
  · exact .inl rfl
  · exact .inl rfl
  · exact .inr ⟨keys, rfl, rfl⟩
  · exact .inl rfl

/-- **One step.**  A step that does not lose keys keeps every active key in the pool or
on its way. -/
theorem step_keyOnItsWay {s s' : State} {i : Nat} (hinv : KeyOnItsWay protector s)
    (hgood : KeepsKeys protector s i) (hstep : step protector s i = some s') :
    KeyOnItsWay protector s' := by
  obtain ⟨r, next, hr, hnext, rfl⟩ := step_eq_some.mp hstep
  have hlt : i < s.requests.length := (List.getElem?_eq_some_iff.mp hr).1
  have hmoved : next.2.2 ∈ s.requests.set i next.2.2 := List.mem_set hlt next.2.2
  intro p hp k hk hactive
  rcases advance_db hnext with hdb | hinserted
  · simp only [hdb] at hp hk
    rcases hinv p hp k hk hactive with hpool | ⟨r', hr', hbrings⟩
    · left
      rcases advance_pool hnext with hsame | ⟨keys, rfl, hinstall⟩
      · simpa only [hsame] using hpool
      · rw [KeepsKeys, hr] at hgood
        rw [hinstall]
        exact hgood p hp k hk hactive hpool
    · obtain ⟨j, hj⟩ := List.mem_iff_getElem?.mp hr'
      by_cases hij : i = j
      · -- the request that brings the key is the one that moves
        subst hij
        obtain rfl : r = r' := Option.some.inj (hr.symm.trans hj)
        rcases advance_brings hnext hp hk hactive hbrings with hstill | hpool
        · exact .inr ⟨next.2.2, hmoved, hstill⟩
        · exact .inl hpool
      · refine .inr ⟨r', List.mem_iff_getElem?.mpr ⟨j, ?_⟩, hbrings⟩
        rw [List.getElem?_set_ne hij, hj]
  · exact .inr ⟨next.2.2, hmoved, by rw [hinserted]; trivial⟩

/-! ### A reload by itself -/

variable {s : State} {i : Nat}

/-- A step of a request that is known. -/
theorem step_of_advance {r : Request} {next : Database × Pool × Request}
    (hr : s.requests[i]? = some r)
    (hnext : advance protector s.db s.pool r = some next) :
    step protector s i = some ⟨next.1, next.2.1, s.requests.set i next.2.2⟩ :=
  step_eq_some.mpr ⟨r, next, hr, hnext, rfl⟩

/-- A request that goes on undisturbed lists the keys of what it has left to do, and
installs them. -/
theorem exec_listing {todo : List Provider} {keys : GoString → List GoString}
    (hr : s.requests[i]? = some (.listing todo keys)) :
    exec (step protector) s (List.replicate (todo.length + 1) i) =
      some ⟨s.db, install (todo.foldl
        (fun keys p => collectKeys keys p (listActiveKeys protector s.db p.id)) keys),
        s.requests.set i .returned⟩ := by
  induction todo generalizing s keys with
  | nil =>
    rw [List.length_nil, List.replicate_succ, exec_cons, step_of_advance hr rfl]
    rfl
  | cons p todo ih =>
    have hlt : i < s.requests.length := (List.getElem?_eq_some_iff.mp hr).1
    rw [List.length_cons, List.replicate_succ, exec_cons, step_of_advance hr rfl, Option.bind_some,
      ih (List.getElem?_set_self hlt), List.set_set]
    rfl

/-- **The steps of a request are those of `reload`**: taken without interruption, they
leave the pool that `reload` makes of the tables. -/
theorem exec_reload (hr : s.requests[i]? = some .inserted) :
    exec (step protector) s (List.replicate ((listActiveProviders s.db).length + 2) i) =
      some ⟨s.db, reload protector s.db, s.requests.set i .returned⟩ := by
  have hlt : i < s.requests.length := (List.getElem?_eq_some_iff.mp hr).1
  rw [List.replicate_succ, exec_cons, step_of_advance hr rfl, Option.bind_some,
    exec_listing (List.getElem?_set_self hlt), List.set_set]
  rfl

/-! ### Whole runs -/

/-- **The run lemma.**  Along steps that lose no keys, every active key is in the pool
or on its way. -/
theorem exec_keyOnItsWay {s s' : State} {is : List Nat} (hinv : KeyOnItsWay protector s)
    (hgood : Along (step protector) (KeepsKeys protector) s is)
    (hexec : exec (step protector) s is = some s') : KeyOnItsWay protector s' :=
  exec_invariant (fun _ _ _ => step_keyOnItsWay) hinv hgood hexec

/-- When nothing is on its way, everything is in the pool. -/
theorem KeyOnItsWay.poolComplete {s : State} (h : KeyOnItsWay protector s)
    (hret : ∀ r ∈ s.requests, r.isReturned = true) : PoolComplete protector s := by
  intro p hp k hk hactive
  rcases h p hp k hk hactive with hpool | ⟨r, hr, hbrings⟩
  · exact hpool
  · have hreturned := hret r hr
    cases r with
    | returned => cases hbrings
    | start input random => cases hreturned
    | inserted => cases hreturned
    | listing todo keys => cases hreturned

/-- A request before its first step, whose key can be encrypted. -/
def Starts (protector : KeyProtector) (r : Request) : Prop :=
  ∃ input random, r = .start input random ∧ (protector.encrypt random input.keyValue).isSome = true

/-- A request that has not begun brings every key. -/
theorem keyOnItsWay_of_starts {s : State} (h : ∃ r ∈ s.requests, Starts protector r) :
    KeyOnItsWay protector s := by
  obtain ⟨r, hr, input, random, rfl, henc⟩ := h
  exact fun _ _ _ _ _ => .inr ⟨_, hr, henc⟩

/-! ### Two additions -/

/-- Keys stored as they are. -/
def plaintext : KeyProtector := ⟨fun _ key => some key, id⟩

/-- Two requests, for two keys of one provider. -/
def twoAdditions : State :=
  { db := ⟨[⟨1, lit "openai", [], true⟩], [], []⟩
    pool := newService
    requests :=
      [.start ⟨1, lit "sk-1", by decide, by decide⟩ [], .start ⟨1, lit "sk-2", by decide, by decide⟩ []] }

/-- The first request reads before the second inserts, and installs after it. -/
theorem poolComplete_fails_stale_install :
    ∃ s, exec (step plaintext) twoAdditions [0, 0, 0, 1, 1, 1, 1, 0] = some s ∧
      (∀ r ∈ s.requests, r.isReturned = true) ∧ ¬ PoolComplete plaintext s :=
  ⟨_, rfl, by decide, by decide⟩

/-- **No key is lost by additions whose installations keep what the pool holds**: once
all requests have returned, the pool is complete. -/
theorem poolComplete_of_keepsKeys {s s' : State} {is : List Nat}
    (hstart : ∃ r ∈ s.requests, Starts protector r)
    (hgood : Along (step protector) (KeepsKeys protector) s is)
    (hexec : exec (step protector) s is = some s') (hret : ∀ r ∈ s'.requests, r.isReturned = true) :
    PoolComplete protector s' :=
  (exec_keyOnItsWay (keyOnItsWay_of_starts hstart) hgood hexec).poolComplete hret

theorem poolComplete_of_keepsKeys_overlapping :
    ∃ s, exec (step plaintext) twoAdditions [0, 0, 1, 1, 0, 1, 0, 1] = some s ∧
      PoolComplete plaintext s := by
  have hgood : Along (step plaintext) (KeepsKeys plaintext) twoAdditions
      [0, 0, 1, 1, 0, 1, 0, 1] := by
    decide
  exact ⟨_, rfl, poolComplete_of_keepsKeys ⟨_, List.mem_cons_self .., _, _, rfl, rfl⟩ hgood rfl
    (by decide)⟩

end UniLLM.Catalog
