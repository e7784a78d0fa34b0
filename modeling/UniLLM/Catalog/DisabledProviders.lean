import UniLLM.Catalog.KeyAddition
import UniLLM.Provider.Register
import Mathlib.Data.List.Nodup

/-!
# Disabled providers

`ToggleProvider` writes the active flag and nothing else.  A lookup by id does not read
the flag, and the keys in memory and the registry are from before: the pool forgets a
provider with the next reload, which only `AddProviderKey` and a restart bring.

A run interleaves the admin operations, the steps of reloads, the steps of requests and
restarts.  Two things are kept for the record only: which providers were inactive when
a request began, and which ones a reload has listed.
-/

namespace UniLLM.Catalog
open Go Transition

/-! ### Requests -/

/-- How far a request has resolved its route. -/
inductive Lookup where
  | begun (publicName : GoString)
  | model (cfg : ModelConfig)
  | routed (route : ModelRoute)
  /-- It has a route and a key. -/
  | obtained (route : ModelRoute) (key : GoString)
  | failed

structure Inquiry where
  isEmbedding : Bool
  /-- The providers that were inactive when the request began. -/
  barred : List Int
  stage : Lookup

/-- A request of `AddProviderKey`, with the providers its reload has listed. -/
structure Addition where
  request : Request
  listed : List Provider

structure System where
  db : Database
  pool : Pool
  registry : UniLLM.Provider.Registry
  /-- The providers that the reload in force has listed. -/
  loaded : List Provider
  additions : List Addition
  requests : List Inquiry

/-- The next step of a request: it reads the model, then the provider, then takes a key. -/
def Inquiry.next (s : System) (r : Inquiry) : Option (Pool × Lookup) :=
  match r.stage with
  | .begun publicName =>
    match findModelByPublicName s.db publicName with
    | none => some (s.pool, .failed)
    | some cfg => some (s.pool, .model cfg)
  | .model cfg =>
    -- the flag is not read
    match findProviderByID s.db cfg.providerID with
    | none => some (s.pool, .failed)
    | some provider => some (s.pool, .routed ⟨cfg, provider⟩)
  | .routed route =>
    if r.isEmbedding then
      match s.pool.firstKey route.provider.name with
      | .error _ => some (s.pool, .failed)
      | .ok key => some (s.pool, .obtained route key)
    else if (s.registry route.provider.name).isNone then some (s.pool, .failed)
    else
      match s.pool.nextKey route.provider.name with
      | (.error _, pool) => some (pool, .failed)
      | (.ok key, pool) => some (pool, .obtained route key)
  | _ => none

/-! ### Steps -/

inductive AdminAction where
  /-- With the id that the database draws. -/
  | createProvider (id : Int) (name baseURL : GoString)
  | toggleProvider (id : Int) (isActive : Bool)
  | createModel (row : ModelRow)
  | updateModel (id : Int) (inputPricePer1M outputPricePer1M : Option Rat) (isActive : Option Bool)
  | addProviderKey (input : KeyInput) (random : GoString)
  /-- Request `i` of `AddProviderKey` takes its next step. -/
  | advance (i : Nat)
  /-- A chat, streaming or embedding request begins. -/
  | begin (isEmbedding : Bool) (publicName : GoString)
  /-- Inference request `j` takes its next step. -/
  | proceed (j : Nat)
  | restart

variable (protector : KeyProtector) (chainSpec : GoString)

/-- A process that has started on this database. -/
def boot (db : Database) : System :=
  { db := db
    pool := reload protector db
    registry := UniLLM.Provider.registerAll db chainSpec
    loaded := listActiveProviders db
    additions := []
    requests := [] }

def Database.inactive (db : Database) : List Int :=
  (db.providers.filter (!·.isActive)).map ProviderRow.id

/-- `SetActive`. -/
def Database.setActive (db : Database) (id : Int) (isActive : Bool) : Database :=
  { db with providers := db.providers.map fun p =>
    if p.id = id then { p with isActive := isActive } else p }

/-- `UpdateModel`: the fields that are given. -/
def Database.updateModel (db : Database) (id : Int) (inputPricePer1M outputPricePer1M : Option Rat)
    (isActive : Option Bool) : Database :=
  { db with
    models := db.models.map fun m =>
      if m.id = id then
        { m with
          inputPricePer1M := inputPricePer1M.getD m.inputPricePer1M
          outputPricePer1M := outputPricePer1M.getD m.outputPricePer1M
          isActive := isActive.getD m.isActive }
      else m }

/-- A step.  A request that the handlers refuse changes nothing and is no step. -/
def System.step (s : System) : AdminAction → Option System
  | .createProvider id name baseURL =>
    if name = [] ∨ baseURL = [] ∨
      (s.db.providers.any fun p => p.id = id ∨ p.name = name) = true then
      none
    else
      some { s with
        db := { s.db with providers := s.db.providers ++ [⟨id, name, baseURL, true⟩] } }
  | .toggleProvider id isActive =>
    if id = 0 then none else some { s with db := s.db.setActive id isActive }
  | .createModel row =>
    if (s.db.models.any fun m => m.id = row.id ∨ m.publicName = row.publicName) = true then none
    else some { s with db := { s.db with models := s.db.models ++ [{ row with isActive := true }] } }
  | .updateModel id input output isActive =>
    if id = 0 ∨ (input.isNone ∧ output.isNone ∧ isActive.isNone) then none
    else some { s with db := s.db.updateModel id input output isActive }
  | .addProviderKey input random =>
    some { s with additions := s.additions ++ [⟨.start input random, []⟩] }
  | .advance i =>
    (s.additions[i]?).bind fun a => (advance protector s.db s.pool a.request).map fun next =>
      { s with
        db := next.1
        pool := next.2.1
        loaded := match a.request with
          | .listing [] _ => a.listed
          | _ => s.loaded
        additions := s.additions.set i ⟨next.2.2, match a.request with
          | .inserted => listActiveProviders s.db
          | _ => a.listed⟩ }
  | .begin isEmbedding publicName =>
    some { s with requests := s.requests ++ [⟨isEmbedding, s.db.inactive, .begun publicName⟩] }
  | .proceed j =>
    (s.requests[j]?).bind fun r => (r.next s).map fun next =>
      { s with pool := next.1, requests := s.requests.set j { r with stage := next.2 } }
  | .restart => some (boot protector chainSpec s.db)

/-! ### What is to hold -/

/-- The API keys of a provider. -/
def keysOf (db : Database) (id : Int) : List GoString :=
  (db.keys.filter fun k => k.providerID = id).map fun k => protector.decrypt k.keyValue

/-- No request has a route to a provider that was inactive when it began, together with one
of its keys. -/
def NoTraffic (s : System) : Prop :=
  ∀ r ∈ s.requests, ∀ route key, r.stage = .obtained route key → route.provider.id ∈ r.barred →
    key ∉ keysOf protector s.db route.provider.id

/-- The step does not take a key for a provider that was inactive when the request began
from a pool whose reload has listed that provider. -/
def FreshPool (s : System) : AdminAction → Prop
  | .proceed j => ∀ r ∈ s.requests[j]?,
    match r.stage with
    | .routed route => route.provider.id ∈ r.barred → ∀ q ∈ s.loaded, q.id ≠ route.provider.id
    | _ => True
  | _ => True

instance (s : System) (a : AdminAction) : Decidable (FreshPool s a) := by
  cases a with
  | proceed j =>
    have hstage : ∀ r : Inquiry, Decidable (match r.stage with
        | .routed route => route.provider.id ∈ r.barred → ∀ q ∈ s.loaded, q.id ≠ route.provider.id
        | _ => True) := by
      intro r
      split <;> infer_instance
    unfold FreshPool
    infer_instance
  | _ => exact isTrue trivial

/-! ### Where keys and routes come from -/

variable {protector chainSpec} {s s' : System} {db db' : Database}

/-- The providers, without the flag.  `ToggleProvider` does not change them. -/
def Database.known (db : Database) : List Provider := db.providers.map ProviderRow.toProvider

/-- The schema's unique columns. -/
structure Database.Unique (db : Database) : Prop where
  ids : (db.known.map Provider.id).Nodup
  names : (db.known.map Provider.name).Nodup

/-- The keys are those of listed providers. -/
def Brought (listed : List Provider) (keys : GoString → List GoString) : Prop :=
  ∀ name, keys name ≠ [] → ∃ q ∈ listed, q.name = name

structure Addition.Sound (db : Database) (a : Addition) : Prop where
  known : ∀ q ∈ a.listed, q ∈ db.known
  progress : match a.request with
    | .listing todo keys => (∀ q ∈ todo, q ∈ a.listed) ∧ Brought a.listed keys
    | _ => True

/-- A request's route leads to a provider, and a key is not one of a provider that was
inactive when it began. -/
def Inquiry.Sound (db : Database) (r : Inquiry) : Prop :=
  match r.stage with
  | .routed route => route.provider ∈ db.known
  | .obtained route _ => route.provider.id ∉ r.barred
  | _ => True

/-- The invariant. -/
structure System.Inv (s : System) : Prop where
  unique : s.db.Unique
  known : ∀ q ∈ s.loaded, q ∈ s.db.known
  pool : Brought s.loaded s.pool.providerKeys
  additions : ∀ a ∈ s.additions, a.Sound s.db
  requests : ∀ r ∈ s.requests, r.Sound s.db

theorem brought_nil (listed : List Provider) : Brought listed fun _ => [] := by
  intro name h
  exact absurd rfl h

theorem Brought.collectKeys {listed : List Provider}
    {keys : GoString → List GoString} {p : Provider}
    (h : Brought listed keys) (hp : p ∈ listed) (providerKeys : List GoString) :
    Brought listed (collectKeys keys p providerKeys) := by
  intro name hne
  obtain ⟨key, hkey⟩ := List.exists_mem_of_ne_nil _ hne
  rcases mem_collectKeys.mp hkey with hkey | ⟨rfl, -⟩
  · exact h name (List.ne_nil_of_mem hkey)
  · exact ⟨p, hp, rfl⟩

/-- What a reload brings. -/
theorem brought_foldl {listed todo : List Provider} {keys : GoString → List GoString}
    (h : Brought listed keys) (htodo : ∀ q ∈ todo, q ∈ listed) :
    Brought listed
      (todo.foldl (fun keys p => collectKeys keys p (listActiveKeys protector db p.id)) keys) := by
  induction todo generalizing keys with
  | nil => exact h
  | cons p todo ih =>
    exact ih (h.collectKeys (htodo p List.mem_cons_self) _) fun q hq =>
      htodo q (List.mem_cons_of_mem p hq)

theorem mem_known_of_active {q : Provider} (h : q ∈ listActiveProviders db) : q ∈ db.known := by
  obtain ⟨p, hp, rfl⟩ := List.mem_map.mp h
  exact List.mem_map_of_mem (List.mem_filter.mp hp).1

theorem findProviderByID_mem {id : Int} {q : Provider} (h : findProviderByID db id = some q) :
    q ∈ db.known := by
  obtain ⟨p, hp, rfl⟩ := Option.map_eq_some_iff.mp h
  exact List.mem_map_of_mem (List.mem_of_find?_eq_some hp)

theorem nextKey_providerKeys (pool : Pool) (name : GoString) :
    (pool.nextKey name).2.providerKeys = pool.providerKeys := by
  unfold Pool.nextKey
  simp only
  split <;> rfl

theorem firstKey_ne_nil {pool : Pool} {name key : GoString} (hkey : pool.firstKey name = .ok key) :
    pool.providerKeys name ≠ [] := by
  intro hnil
  rw [Pool.firstKey, hnil] at hkey
  cases hkey

/-- One provider has the name. -/
theorem Database.Unique.eq_of_name {p q : Provider} (h : db.Unique) (hp : p ∈ db.known)
    (hq : q ∈ db.known) (hname : p.name = q.name) : p = q :=
  List.inj_on_of_nodup_map h.names hp hq hname

theorem Addition.Sound.mono {a : Addition} (h : a.Sound db) (hsub : ∀ q ∈ db.known, q ∈ db'.known) :
    a.Sound db' :=
  ⟨fun q hq => hsub q (h.known q hq), h.progress⟩

theorem Inquiry.Sound.mono {r : Inquiry} (h : r.Sound db) (hsub : ∀ q ∈ db.known, q ∈ db'.known) :
    r.Sound db' := by
  unfold Inquiry.Sound at h ⊢
  split
  · rename_i route hstage
    rw [hstage] at h
    exact hsub _ h
  · rename_i route key hstage
    rw [hstage] at h
    exact h
  · trivial

/-! ### Steps -/

theorem known_setActive (db : Database) (id : Int) (isActive : Bool) :
    (db.setActive id isActive).known = db.known := by
  rw [Database.known, Database.setActive, List.map_map]
  refine List.map_congr_left ?_
  intro p _
  show (if p.id = id then { p with isActive := isActive } else p).toProvider = p.toProvider
  split <;> rfl

/-- A step of an addition changes no provider. -/
theorem known_advance {pool : Pool} {r : Request} {next : Database × Pool × Request}
    (h : advance protector db pool r = some next) : next.1.known = db.known := by
  rcases advance_cases h with ⟨_, _, -, -, rfl⟩ | ⟨_, _, _, -, -, rfl⟩ | ⟨-, rfl⟩ | ⟨_, -, rfl⟩ |
    ⟨_, _, _, -, rfl⟩ <;> rfl

theorem unique_append {id : Int} {name baseURL : GoString} (h : db.Unique)
    (hnew : ¬ (db.providers.any fun p => p.id = id ∨ p.name = name) = true) :
    ({ db with providers := db.providers ++ [⟨id, name, baseURL, true⟩] } : Database).Unique := by
  have hfresh : ∀ q ∈ db.known, q.id ≠ id ∧ q.name ≠ name := by
    intro q hq
    obtain ⟨p, hp, rfl⟩ := List.mem_map.mp hq
    have hp' : ¬ (p.id = id ∨ p.name = name) := fun hsame =>
      hnew (List.any_eq_true.mpr ⟨p, hp, decide_eq_true hsame⟩)
    exact ⟨fun hid => hp' (Or.inl hid), fun hname => hp' (Or.inr hname)⟩
  have hknown : ({ db with providers := db.providers ++ [⟨id, name, baseURL, true⟩] } : Database).known =
      db.known ++ [⟨id, name, baseURL⟩] := by
    simp [Database.known, ProviderRow.toProvider]
  refine ⟨?_, ?_⟩
  · rw [hknown, List.map_append, List.nodup_append]
    refine ⟨h.ids, List.nodup_singleton _, ?_⟩
    intro a ha b hb
    obtain ⟨q, hq, rfl⟩ := List.mem_map.mp ha
    rw [List.mem_singleton.mp hb]
    exact (hfresh q hq).1
  · rw [hknown, List.map_append, List.nodup_append]
    refine ⟨h.names, List.nodup_singleton _, ?_⟩
    intro a ha b hb
    obtain ⟨q, hq, rfl⟩ := List.mem_map.mp ha
    rw [List.mem_singleton.mp hb]
    exact (hfresh q hq).2

/-- A step on the tables that keeps all providers. -/
theorem System.Inv.on_tables (h : s.Inv) (hunique : db'.Unique)
    (hsub : ∀ q ∈ s.db.known, q ∈ db'.known) :
    ({ s with db := db' } : System).Inv :=
  ⟨hunique, fun q hq => hsub q (h.known q hq), h.pool, fun a ha => (h.additions a ha).mono hsub,
    fun r hr => (h.requests r hr).mono hsub⟩

theorem unique_of_known_eq (hunique : db.Unique) (h : db'.known = db.known) : db'.Unique := by
  refine ⟨?_, ?_⟩
  · rw [h]
    exact hunique.ids
  · rw [h]
    exact hunique.names

theorem inv_boot (hunique : db.Unique) : (boot protector chainSpec db).Inv := by
  refine ⟨hunique, fun q hq => mem_known_of_active hq, ?_, nofun, nofun⟩
  exact brought_foldl (brought_nil _) fun q hq => hq

/-- The step of an addition: what it lists and collects is known, and what it installs is
what it has listed. -/
theorem System.Inv.advance (h : s.Inv) {i : Nat} {a : Addition} {next : Database × Pool × Request}
    (ha : s.additions[i]? = some a)
    (hnext : Catalog.advance protector s.db s.pool a.request = some next) :
    ({ s with
      db := next.1
      pool := next.2.1
      loaded := match a.request with
        | .listing [] _ => a.listed
        | _ => s.loaded
      additions := s.additions.set i ⟨next.2.2, match a.request with
        | .inserted => listActiveProviders s.db
        | _ => a.listed⟩ } : System).Inv := by
  have hknown := known_advance hnext
  have hsub : ∀ q ∈ s.db.known, q ∈ next.1.known := fun q hq => hknown ▸ hq
  obtain ⟨hlisted, hprogress⟩ := h.additions a (List.mem_of_getElem? ha)
  have hothers : ∀ b : Addition, b.Sound next.1 → ∀ a' ∈ s.additions.set i b, a'.Sound next.1 := by
    intro b hb a' ha'
    rcases List.mem_or_eq_of_mem_set ha' with hmem | rfl
    · exact (h.additions a' hmem).mono hsub
    · exact hb
  have hunique := unique_of_known_eq h.unique hknown
  have hrequests : ∀ r ∈ s.requests, r.Sound next.1 := fun r hr => (h.requests r hr).mono hsub
  rcases advance_cases hnext with ⟨input, random, hr, -, rfl⟩ | ⟨input, random, stored, hr, -, rfl⟩ |
    ⟨hr, rfl⟩ | ⟨keys, hr, rfl⟩ | ⟨q, todo, keys, hr, rfl⟩
  · rw [hr]
    exact ⟨hunique, fun q hq => hsub q (h.known q hq), h.pool, hothers _ ⟨hlisted, trivial⟩, hrequests⟩
  · rw [hr]
    exact ⟨hunique, fun q hq => hsub q (h.known q hq), h.pool, hothers _ ⟨hlisted, trivial⟩, hrequests⟩
  · rw [hr]
    refine ⟨hunique, h.known, h.pool, hothers _ ⟨fun q hq => mem_known_of_active hq, ?_⟩, hrequests⟩
    exact ⟨fun q hq => hq, brought_nil _⟩
  · rw [hr] at hprogress ⊢
    -- the installation
    exact ⟨hunique, hlisted, hprogress.2, hothers _ ⟨hlisted, trivial⟩, hrequests⟩
  · rw [hr] at hprogress ⊢
    obtain ⟨htodo, hbrought⟩ := hprogress
    refine ⟨hunique, h.known, h.pool, hothers _ ⟨hlisted, ?_⟩, hrequests⟩
    exact ⟨fun p hp => htodo p (List.mem_cons_of_mem q hp),
      hbrought.collectKeys (htodo q List.mem_cons_self) _⟩

/-- What the step of a request can bring. -/
theorem Inquiry.next_cases {r : Inquiry} {next : Pool × Lookup} (h : r.next s = some next) :
    next.1.providerKeys = s.pool.providerKeys ∧
      (next.2 = .failed ∨ (∃ cfg, next.2 = .model cfg) ∨
        (∃ cfg provider, next.2 = .routed ⟨cfg, provider⟩ ∧ provider ∈ s.db.known) ∨
        ∃ route key, r.stage = .routed route ∧ next.2 = .obtained route key ∧
          s.pool.providerKeys route.provider.name ≠ []) := by
  unfold Inquiry.next at h
  split at h
  · split at h
    · obtain rfl := Option.some.inj h
      exact ⟨rfl, Or.inl rfl⟩
    · obtain rfl := Option.some.inj h
      exact ⟨rfl, Or.inr (Or.inl ⟨_, rfl⟩)⟩
  · split at h
    · obtain rfl := Option.some.inj h
      exact ⟨rfl, Or.inl rfl⟩
    · rename_i provider hprovider
      obtain rfl := Option.some.inj h
      exact ⟨rfl, Or.inr (Or.inr (Or.inl ⟨_, provider, rfl, findProviderByID_mem hprovider⟩))⟩
  · rename_i route hstage
    split at h
    · split at h
      · obtain rfl := Option.some.inj h
        exact ⟨rfl, Or.inl rfl⟩
      · rename_i key hkey
        obtain rfl := Option.some.inj h
        exact ⟨rfl, Or.inr (Or.inr (Or.inr ⟨route, key, hstage, rfl, firstKey_ne_nil hkey⟩))⟩
    · split at h
      · obtain rfl := Option.some.inj h
        exact ⟨rfl, Or.inl rfl⟩
      · have hsame := nextKey_providerKeys s.pool route.provider.name
        split at h
        · rename_i pool hkey
          obtain rfl := Option.some.inj h
          rw [hkey] at hsame
          exact ⟨hsame, Or.inl rfl⟩
        · rename_i key pool hkey
          obtain rfl := Option.some.inj h
          rw [hkey] at hsame
          exact ⟨hsame, Or.inr (Or.inr (Or.inr ⟨route, key, hstage, rfl,
            List.ne_nil_of_mem (Pool.nextKey_mem hkey).1⟩))⟩
  · cases h

/-- The step of a request. -/
theorem System.Inv.proceed (h : s.Inv) {j : Nat} {r : Inquiry} {next : Pool × Lookup}
    (hr : s.requests[j]? = some r) (hnext : r.next s = some next)
    (hgood : match r.stage with
      | .routed route => route.provider.id ∈ r.barred → ∀ q ∈ s.loaded, q.id ≠ route.provider.id
      | _ => True) :
    System.Inv
      { s with pool := next.1, requests := s.requests.set j { r with stage := next.2 } } := by
  have hsound := h.requests r (List.mem_of_getElem? hr)
  obtain ⟨hpool, hstage⟩ := Inquiry.next_cases hnext
  have hmoved : ({ r with stage := next.2 } : Inquiry).Sound s.db := by
    rcases hstage with hstage | ⟨cfg, hstage⟩ | ⟨cfg, provider, hstage, hmem⟩ |
      ⟨route, key, hrouted, hstage, hne⟩
    · rw [hstage]
      trivial
    · rw [hstage]
      trivial
    · rw [hstage]
      exact hmem
    · rw [hstage]
      intro hbarred
      rw [Inquiry.Sound, hrouted] at hsound
      rw [hrouted] at hgood
      -- the key comes from a listed provider of the name, and only one has it
      obtain ⟨q, hq, hname⟩ := h.pool route.provider.name hne
      obtain rfl := h.unique.eq_of_name (h.known q hq) hsound hname
      exact hgood hbarred _ hq rfl
  refine ⟨h.unique, h.known, ?_, h.additions, ?_⟩
  · intro name hne
    refine h.pool name ?_
    rw [← hpool]
    exact hne
  · intro r' hr'
    rcases List.mem_or_eq_of_mem_set hr' with hmem | rfl
    · exact h.requests r' hmem
    · exact hmoved

theorem step_proceed {j : Nat} {r : Inquiry} {next : Pool × Lookup} (hr : s.requests[j]? = some r)
    (hnext : r.next s = some next) :
    System.step protector chainSpec s (.proceed j) =
      some { s with pool := next.1, requests := s.requests.set j { r with stage := next.2 } } := by
  rw [System.step, hr, Option.bind_some, hnext, Option.map_some]

/-- **Two steps of a request are `ResolveModel`**, if nothing comes in between. -/
theorem exec_resolveModel {j : Nat} {r : Inquiry} {publicName : GoString} {route : ModelRoute}
    (hr : s.requests[j]? = some r) (hstage : r.stage = .begun publicName)
    (hroute : resolveModel s.db publicName = .ok route) :
    exec (System.step protector chainSpec) s [.proceed j, .proceed j] =
      some { s with requests := s.requests.set j { r with stage := .routed route } } := by
  have hlt : j < s.requests.length := (List.getElem?_eq_some_iff.mp hr).1
  unfold resolveModel at hroute
  split at hroute
  · cases hroute
  · rename_i cfg hmodel
    split at hroute
    · cases hroute
    · rename_i provider hprovider
      obtain rfl := Except.ok.inj hroute
      have hfirst : r.next s = some (s.pool, .model cfg) := by
        simp only [Inquiry.next, hstage, hmodel]
      have hsecond : ∀ requests, Inquiry.next { s with requests := requests }
          { r with stage := .model cfg } = some (s.pool, .routed ⟨cfg, provider⟩) := by
        intro requests
        simp only [Inquiry.next, hprovider]
      rw [exec_cons, step_proceed hr hfirst, Option.bind_some, exec_cons,
        step_proceed (List.getElem?_set_self hlt) (hsecond _), Option.bind_some, exec_nil,
        List.set_set]

/-- The step lemma. -/
theorem System.Inv.step (h : s.Inv) {a : AdminAction} (hgood : FreshPool s a)
    (hstep : s.step protector chainSpec a = some s') : s'.Inv := by
  cases a with
  | createProvider id name baseURL =>
    rw [System.step] at hstep
    split at hstep
    · cases hstep
    · rename_i hvalid
      obtain rfl := Option.some.inj hstep
      have hfresh : ¬ (s.db.providers.any fun p => p.id = id ∨ p.name = name) = true := fun hany =>
        hvalid (Or.inr (Or.inr hany))
      refine h.on_tables (unique_append h.unique hfresh) ?_
      intro q hq
      obtain ⟨p, hp, rfl⟩ := List.mem_map.mp hq
      exact List.mem_map_of_mem (List.mem_append_left _ hp)
  | toggleProvider id isActive =>
    rw [System.step] at hstep
    split at hstep
    · cases hstep
    · obtain rfl := Option.some.inj hstep
      have hknown := known_setActive s.db id isActive
      exact h.on_tables (unique_of_known_eq h.unique hknown) fun q hq => hknown ▸ hq
  | createModel row =>
    rw [System.step] at hstep
    split at hstep
    · cases hstep
    · obtain rfl := Option.some.inj hstep
      exact h.on_tables (unique_of_known_eq h.unique rfl) fun q hq => hq
  | updateModel id input output isActive =>
    rw [System.step] at hstep
    split at hstep
    · cases hstep
    · obtain rfl := Option.some.inj hstep
      exact h.on_tables (unique_of_known_eq h.unique rfl) fun q hq => hq
  | addProviderKey input random =>
    obtain rfl := Option.some.inj hstep
    refine ⟨h.unique, h.known, h.pool, ?_, h.requests⟩
    intro a ha
    rcases List.mem_append.mp ha with ha | ha
    · exact h.additions a ha
    · rw [List.mem_singleton.mp ha]
      exact ⟨nofun, trivial⟩
  | advance i =>
    obtain ⟨a, ha, hstep⟩ := Option.bind_eq_some_iff.mp hstep
    obtain ⟨next, hnext, rfl⟩ := Option.map_eq_some_iff.mp hstep
    exact h.advance ha hnext
  | begin isEmbedding publicName =>
    obtain rfl := Option.some.inj hstep
    refine ⟨h.unique, h.known, h.pool, h.additions, ?_⟩
    intro r hr
    rcases List.mem_append.mp hr with hr | hr
    · exact h.requests r hr
    · rw [List.mem_singleton.mp hr]
      trivial
  | proceed j =>
    obtain ⟨r, hr, hstep⟩ := Option.bind_eq_some_iff.mp hstep
    obtain ⟨next, hnext, rfl⟩ := Option.map_eq_some_iff.mp hstep
    exact h.proceed hr hnext (hgood r hr)
  | restart =>
    obtain rfl := Option.some.inj hstep
    exact inv_boot h.unique

theorem System.Inv.noTraffic (h : s.Inv) : NoTraffic protector s := by
  intro r hr route key hstage hbarred
  have hsound := h.requests r hr
  rw [Inquiry.Sound, hstage] at hsound
  exact absurd hbarred hsound

/-- **Disabled providers get no traffic** in every run in which a request for one never
takes its key from a pool whose reload has still listed the provider. -/
theorem noTraffic_of_freshPool {db : Database} (hunique : db.Unique) {as : List AdminAction}
    (hgood : Along (System.step protector chainSpec) FreshPool (boot protector chainSpec db) as)
    (hexec : exec (System.step protector chainSpec) (boot protector chainSpec db) as = some s) :
    NoTraffic protector s :=
  (exec_invariant (fun _ _ _ h hgood hstep => h.step hgood hstep) (inv_boot hunique) hgood
    hexec).noTraffic

/-! ### One provider -/

/-- A provider with a key and a model. -/
def oneProvider : Database :=
  { providers := [⟨1, lit "openai", lit "https://api.openai.com/v1", true⟩]
    keys := [⟨1, lit "sk-1", true⟩]
    models := [⟨1, lit "gpt-4o", 1, lit "gpt-4o", 0, 0, true⟩] }

/-- The provider is disabled, and after that a request comes. -/
theorem not_noTraffic_toggled :
    ∃ s, exec (System.step plaintext []) (boot plaintext [] oneProvider)
        [.toggleProvider 1 false, .begin false (lit "gpt-4o"), .proceed 0, .proceed 0,
        .proceed 0] = some s ∧
      ¬ NoTraffic plaintext s := by
  refine ⟨_, rfl, ?_⟩
  intro h
  exact h _ List.mem_cons_self _ _ rfl (by decide) (by decide)

/-- Once a key has been added for another provider, it gets none. -/
theorem noTraffic_of_freshPool_keyAdded :
    ∃ s, exec (System.step plaintext []) (boot plaintext [] oneProvider)
        [.toggleProvider 1 false, .addProviderKey ⟨2, lit "sk-2", by decide, by decide⟩ [], .advance 0,
          .advance 0, .advance 0, .begin true (lit "gpt-4o"), .proceed 0, .proceed 0,
            .proceed 0] = some s ∧
      NoTraffic plaintext s := by
  have hrun : (exec (System.step plaintext []) (boot plaintext [] oneProvider)
        [.toggleProvider 1 false, .addProviderKey ⟨2, lit "sk-2", by decide, by decide⟩ [], .advance 0,
          .advance 0, .advance 0, .begin true (lit "gpt-4o"), .proceed 0, .proceed 0,
          .proceed 0]).isSome = true := by decide
  obtain ⟨s, hexec⟩ := Option.isSome_iff_exists.mp hrun
  exact ⟨s, hexec, noTraffic_of_freshPool ⟨by decide, by decide⟩ (by decide) hexec⟩

end UniLLM.Catalog
