import UniLLM.Status.History
import UniLLM.Catalog.DisabledProviders

/-!
# Health checks

`checkAll` lists the active providers and probes those the registry has, one after the other.
A probe writes the provider's entry in the health cache, which `Status` reports.  Nothing takes
an entry out: a provider that is disabled stays on the status page as its last probe left it,
until the process restarts.

A run interleaves the checks with what admins and requests do, in any way; how a probe ends is
not determined.  One thing is kept for the record only: whether the latest probe of each
provider succeeded.
-/

namespace UniLLM.Status
open Go Catalog Transition

/-! ### Probes -/

/-- What is outside of a probe: the breaker of the provider, which of the queries succeed, the
latency and the error of the call, and the clock. -/
structure Probe where
  circuit : UniLLM.Provider.CircuitState := .closed
  modelsListed : Bool := true
  resolved : GoString → Bool := fun _ => true
  answer : (apiKey : GoString) → OpenAI.ChatCompletionRequest → Rat × Option GoString
  checkedAt : Int := 0
  timestamp : Int := 0

def listActiveModels (db : Database) : List ModelConfig :=
  (db.models.filter (·.isActive)).map toModelConfig

/-- The loop over the models: the first one that is routed to the provider. -/
def probeModel (db : Database) (providerName : GoString) (x : Probe) : GoString :=
  let models := if x.modelsListed then listActiveModels db else []
  (models.findSome? fun m =>
    if x.resolved m.publicName then
      match resolveModel db m.publicName with
      | .error _ => none
      | .ok route =>
        if route.provider.name = providerName then some route.model.upstreamModel else none
    else none).getD (lit "claude-haiku-4.5")

def probeRequest (probeModel : GoString) : OpenAI.ChatCompletionRequest :=
  { model := probeModel
    messages := [{ role := lit "user", content := .str (lit "hi") }]
    maxTokens := 1 }

/-- The latency and the error, and the pool afterwards. -/
def activeProbe (db : Database) (pool : Pool) (providerName : GoString) (x : Probe) :
    (Rat × Option GoString) × Pool :=
  match pool.nextKey providerName with
  | (.error err, pool) => ((0, some err), pool)
  | (.ok apiKey, pool) => (x.answer apiKey (probeRequest (probeModel db providerName x)), pool)

/-- The state of the breaker, if there is one. -/
def circuitText (prov : UniLLM.Provider.Registered) (state : UniLLM.Provider.CircuitState) :
    GoString :=
  match prov with
  | .fallback _ => lit "none"
  | .resilient _ =>
    match state with
    | .open => lit "open"
    | .halfOpen => lit "half-open"
    | .closed => lit "closed"

/-- The health of a provider after its probe. -/
def probeHealth (providerName : GoString) (prov : UniLLM.Provider.Registered) (x : Probe)
    (latency : Rat) (probeErr : Option GoString) : ProviderHealth :=
  let circuit := circuitText prov x.circuit
  { name := providerName
    checkedAt := x.checkedAt
    circuit := circuit
    latency := latency
    status :=
      match probeErr with
      | none => lit "up"
      | some _ => if circuit = lit "open" then lit "down" else lit "degraded"
    message := probeErr.getD [] }

/-- What is written after a probe. -/
def StatusHandler.write (h : StatusHandler) (health : ProviderHealth) (timestamp : Int) :
    StatusHandler :=
  { h with healthCache := h.healthCache.insert health.name health }.appendHistory
    { timestamp := timestamp
      provider := health.name
      status := health.status
      latencyMs := health.latency }

/-! ### The status page -/

def StatusHandler.statuses (h : StatusHandler) : Multiset ProviderHealth :=
  h.healthCache.entries.map (·.2)

/-- The overall status. -/
def StatusHandler.overall (h : StatusHandler) : GoString :=
  if h.statuses = 0 then lit "unknown"
  else if ∀ s ∈ h.statuses, s.status = lit "up" then lit "operational"
  else lit "degraded"

/-! ### Runs -/

inductive Phase where
  /-- Nothing has been listed, or the last check could not. -/
  | idle
  /-- The providers that the check has listed, those to come, and which names the cache had at
  the beginning.  When none is to come the check has returned. -/
  | checking (listed todo : List Provider) (before : Finset GoString)

structure State where
  sys : System
  handler : StatusHandler
  phase : Phase
  /-- Whether the latest probe of the provider succeeded. -/
  outcomes : GoString → Option Bool

inductive Action where
  /-- A step of an admin operation or of a request, or a restart. -/
  | admin (a : AdminAction)
  /-- `checkAll` begins; whether it can list the providers. -/
  | check (lists : Bool)
  /-- It comes to the next provider. -/
  | probe (x : Probe)

variable (protector : KeyProtector) (chainSpec : GoString)

/-- A process that has started on this database. -/
def start (db : Database) : State :=
  { sys := boot protector chainSpec db
    handler := {}
    phase := .idle
    outcomes := fun _ => none }

/-- The turn of the loop for one provider. -/
def probeOne (s : State) (p : Provider) (phase : Phase) (x : Probe) : State :=
  match s.sys.registry p.name with
  | none => { s with phase := phase }
  | some prov =>
    let ((latency, probeErr), pool) := activeProbe s.sys.db s.sys.pool p.name x
    { sys := { s.sys with pool := pool }
      handler := s.handler.write (probeHealth p.name prov x latency probeErr) x.timestamp
      phase := phase
      outcomes := Function.update s.outcomes p.name (some probeErr.isNone) }

def beginCheck (s : State) (lists : Bool) : State :=
  if lists then
    { s with
      phase := .checking (listActiveProviders s.sys.db) (listActiveProviders s.sys.db)
        s.handler.healthCache.keys }
  else { s with phase := .idle }

def step (s : State) : Action → Option State
  | .admin .restart => some (start protector chainSpec s.sys.db)
  | .admin a => (s.sys.step protector chainSpec a).map fun sys => { s with sys := sys }
  | .check lists =>
    match s.phase with
    -- checks do not overlap
    | .checking _ (_ :: _) _ => none
    | _ => some (beginCheck s lists)
  | .probe x =>
    match s.phase with
    | .checking listed (p :: todo) before => some (probeOne s p (.checking listed todo before) x)
    | _ => none

/-! ### What is to hold -/

/-- The check has listed a provider of the name, and the registry has it. -/
def Monitored (s : State) (listed : List Provider) (name : GoString) : Prop :=
  (∃ p ∈ listed, p.name = name) ∧ (s.sys.registry name).isSome = true

/-- Right after a check the cache has the providers that were active and are registered, and
the overall status is that of their latest probes. -/
def Reports (s : State) : Prop :=
  ∀ listed before, s.phase = .checking listed [] before →
    (∀ name, name ∈ s.handler.healthCache ↔ Monitored s listed name) ∧
      (s.handler.overall = lit "operational" ↔ (∃ name, Monitored s listed name) ∧
        ∀ name, Monitored s listed name → s.outcomes name = some true)

/-- A check that lists the providers finds every provider of the health cache active. -/
def CacheActive (s : State) : Action → Prop
  | .check true => ∀ name ∈ s.handler.healthCache.keys,
    ∃ p ∈ listActiveProviders s.sys.db, p.name = name
  | _ => True

instance (s : State) (a : Action) : Decidable (CacheActive s a) := by
  cases a with
  | check lists =>
    cases lists with
    | true =>
      unfold CacheActive
      infer_instance
    | false => exact isTrue trivial
  | admin a => exact isTrue trivial
  | probe x => exact isTrue trivial

/-- The names are those that were listed. -/
def AllListed (listed : List Provider) (before : Finset GoString) : Prop :=
  ∀ name ∈ before, ∃ p ∈ listed, p.name = name

variable {protector chainSpec} {s s' : State}

/-! ### The cache and the latest probes -/

/-- What the entry of a provider says of its latest probe. -/
def upOf (h : StatusHandler) (name : GoString) : Option Bool :=
  (h.healthCache.lookup name).map fun health => decide (health.status = lit "up")

structure Inv (s : State) : Prop where
  registered : ∀ name ∈ s.handler.healthCache, (s.sys.registry name).isSome = true
  latest : ∀ name, upOf s.handler name = s.outcomes name
  /-- What a check has written so far. -/
  written : ∀ listed todo before, s.phase = .checking listed todo before →
    (∀ p ∈ todo, p ∈ listed) ∧
    (∀ name ∈ before, name ∈ s.handler.healthCache) ∧
    (∀ name ∈ s.handler.healthCache, name ∈ before ∨ ∃ p ∈ listed, p.name = name) ∧
    ∀ p ∈ listed, p ∈ todo ∨
      ((s.sys.registry p.name).isSome = true → p.name ∈ s.handler.healthCache)

theorem inv_start (db : Database) : Inv (start protector chainSpec db) where
  registered := fun _ hname => absurd hname Finmap.notMem_empty
  latest := fun _ => rfl
  written := fun _ _ _ hphase => Phase.noConfusion hphase

theorem mem_healthCache_write {h : StatusHandler} {health : ProviderHealth} {timestamp : Int}
    {name : GoString} :
    name ∈ (h.write health timestamp).healthCache ↔ name = health.name ∨ name ∈ h.healthCache :=
  Finmap.mem_insert

theorem upOf_write (h : StatusHandler) (health : ProviderHealth) (timestamp : Int) (name : GoString) :
    upOf (h.write health timestamp) name =
      if name = health.name then some (decide (health.status = lit "up")) else upOf h name := by
  have hcache : (h.write health timestamp).healthCache = h.healthCache.insert health.name health :=
    rfl
  unfold upOf
  rw [hcache]
  by_cases hname : name = health.name
  · rw [hname, Finmap.lookup_insert, if_pos rfl, Option.map_some]
  · rw [Finmap.lookup_insert_of_ne _ hname, if_neg hname]

theorem upOf_probeHealth (name : GoString) (prov : UniLLM.Provider.Registered) (x : Probe)
    (latency : Rat) (probeErr : Option GoString) :
    decide ((probeHealth name prov x latency probeErr).status = lit "up") = probeErr.isNone := by
  have hdown : lit "down" ≠ lit "up" := by decide
  have hdegraded : lit "degraded" ≠ lit "up" := by decide
  unfold probeHealth
  cases probeErr with
  | none => simp
  | some err =>
    simp only [Option.isNone_some, decide_eq_false_iff_not]
    split
    · exact hdown
    · exact hdegraded

/-- A step of an admin or a request leaves the registry as it is. -/
theorem registry_step {sys sys' : System} {a : AdminAction} (hrestart : a ≠ .restart)
    (h : sys.step protector chainSpec a = some sys') : sys'.registry = sys.registry := by
  cases a with
  | createProvider id name baseURL =>
    rw [System.step] at h
    split at h
    · cases h
    · rw [← Option.some.inj h]
  | toggleProvider id isActive =>
    rw [System.step] at h
    split at h
    · cases h
    · rw [← Option.some.inj h]
  | createModel row =>
    rw [System.step] at h
    split at h
    · cases h
    · rw [← Option.some.inj h]
  | updateModel id input output isActive =>
    rw [System.step] at h
    split at h
    · cases h
    · rw [← Option.some.inj h]
  | addProviderKey input random => rw [← Option.some.inj h]
  | advance i =>
    obtain ⟨a, -, h⟩ := Option.bind_eq_some_iff.mp h
    obtain ⟨next, -, rfl⟩ := Option.map_eq_some_iff.mp h
    rfl
  | begin isEmbedding publicName => rw [← Option.some.inj h]
  | proceed j =>
    obtain ⟨r, -, h⟩ := Option.bind_eq_some_iff.mp h
    obtain ⟨next, -, rfl⟩ := Option.map_eq_some_iff.mp h
    rfl
  | restart => exact absurd rfl hrestart

/-- What a step can do. -/
theorem step_cases {a : Action} (h : step protector chainSpec s a = some s') :
    (s' = start protector chainSpec s.sys.db) ∨
    (∃ sys, sys.registry = s.sys.registry ∧ s' = { s with sys := sys }) ∨
    (∃ lists, a = .check lists ∧ s' = beginCheck s lists) ∨
    (∃ listed p todo before x, s.phase = .checking listed (p :: todo) before ∧
      s' = probeOne s p (.checking listed todo before) x) := by
  cases a with
  | admin a =>
    by_cases hrestart : a = .restart
    · subst hrestart
      exact .inl (Option.some.inj h).symm
    · have hstep : (s.sys.step protector chainSpec a).map (fun sys => { s with sys := sys }) =
          some s' := by
        cases a with
        | restart => exact absurd rfl hrestart
        | _ => exact h
      obtain ⟨sys, hsys, rfl⟩ := Option.map_eq_some_iff.mp hstep
      exact .inr (.inl ⟨sys, registry_step hrestart hsys, rfl⟩)
  | check lists =>
    refine .inr (.inr (.inl ⟨lists, rfl, ?_⟩))
    rw [step] at h
    split at h
    · cases h
    · exact (Option.some.inj h).symm
  | probe x =>
    rw [step] at h
    split at h
    · rename_i listed p todo before hphase
      exact .inr (.inr (.inr ⟨listed, p, todo, before, x, hphase, (Option.some.inj h).symm⟩))
    · cases h

/-- One provider of a check. -/
theorem Inv.probeOne (h : Inv s) {listed todo : List Provider} {p : Provider}
    {before : Finset GoString} (hphase : s.phase = .checking listed (p :: todo) before) (x : Probe) :
    Inv (probeOne s p (.checking listed todo before) x) := by
  obtain ⟨htodo, hbefore, hsource, hdone⟩ := h.written _ _ _ hphase
  have hp : p ∈ listed := htodo p List.mem_cons_self
  unfold Status.probeOne
  cases hprov : s.sys.registry p.name with
  | none =>
    refine ⟨h.registered, h.latest, ?_⟩
    intro listed' todo' before' heq
    cases heq
    refine ⟨fun q hq => htodo q (List.mem_cons_of_mem p hq), hbefore, hsource, fun q hq => ?_⟩
    rcases hdone q hq with hmem | hcached
    · rcases List.mem_cons.mp hmem with rfl | hmem
      · -- it is skipped, as it is not registered
        right
        intro hsome
        rw [hprov] at hsome
        cases hsome
      · exact .inl hmem
    · exact .inr hcached
  | some prov =>
    simp only
    generalize activeProbe s.sys.db s.sys.pool p.name x = result
    obtain ⟨⟨latency, probeErr⟩, pool⟩ := result
    have hname : (probeHealth p.name prov x latency probeErr).name = p.name := rfl
    refine ⟨?_, ?_, ?_⟩
    · intro name hmem
      rcases mem_healthCache_write.mp hmem with rfl | hmem
      · show (s.sys.registry p.name).isSome = true
        rw [hprov]
        rfl
      · exact h.registered name hmem
    · intro name
      simp only [upOf_write, hname, upOf_probeHealth]
      by_cases hp' : name = p.name
      · rw [if_pos hp', hp', Function.update_self]
      · rw [if_neg hp', Function.update_of_ne hp']
        exact h.latest name
    · intro listed' todo' before' heq
      cases heq
      refine ⟨fun q hq => htodo q (List.mem_cons_of_mem p hq),
        fun name hold => mem_healthCache_write.mpr (.inr (hbefore name hold)), ?_, fun q hq => ?_⟩
      · intro name hmem
        rcases mem_healthCache_write.mp hmem with rfl | hmem
        · exact .inr ⟨p, hp, rfl⟩
        · exact hsource name hmem
      · rcases hdone q hq with hq | hcached
        · rcases List.mem_cons.mp hq with rfl | hq
          · exact .inr fun _ => mem_healthCache_write.mpr (.inl rfl)
          · exact .inl hq
        · exact .inr fun hsome => mem_healthCache_write.mpr (.inr (hcached hsome))

/-- **One step.** -/
theorem Inv.step (h : Inv s) {a : Action} (hstep : step protector chainSpec s a = some s') :
    Inv s' := by
  rcases step_cases hstep with rfl | ⟨sys, hregistry, rfl⟩ | ⟨lists, -, rfl⟩ |
    ⟨listed, p, todo, before, x, hphase, rfl⟩
  · exact inv_start s.sys.db
  · exact ⟨by rw [hregistry]; exact h.registered, h.latest, by rw [hregistry]; exact h.written⟩
  · unfold beginCheck
    split
    · refine ⟨h.registered, h.latest, ?_⟩
      intro listed todo before heq
      cases heq
      exact ⟨fun p hp => hp, fun name hname => Finmap.mem_keys.mp hname,
        fun name hname => .inl (Finmap.mem_keys.mpr hname), fun p hp => .inl hp⟩
    · exact ⟨h.registered, h.latest, fun _ _ _ hphase => Phase.noConfusion hphase⟩
  · exact h.probeOne hphase x

/-! ### Right after a check -/

/-- **What the cache has when a check returns**: what it had, and what was probed. -/
theorem Inv.cache_iff (h : Inv s) {listed : List Provider} {before : Finset GoString}
    (hphase : s.phase = .checking listed [] before) (name : GoString) :
    name ∈ s.handler.healthCache ↔ name ∈ before ∨ Monitored s listed name := by
  obtain ⟨-, hbefore, hsource, hdone⟩ := h.written _ _ _ hphase
  constructor
  · intro hname
    rcases hsource name hname with hold | hlisted
    · exact .inl hold
    · exact .inr ⟨hlisted, h.registered name hname⟩
  · rintro (hold | ⟨⟨p, hp, rfl⟩, hsome⟩)
    · exact hbefore name hold
    · exact (hdone p hp).resolve_left List.not_mem_nil hsome

/-- The overall status of what is in the cache. -/
theorem overall_iff (h : StatusHandler) :
    h.overall = lit "operational" ↔
      (∃ name, name ∈ h.healthCache) ∧ ∀ name ∈ h.healthCache, upOf h name = some true := by
  have hentry : ∀ {name health}, h.healthCache.lookup name = some health ↔
      (⟨name, health⟩ : Sigma fun _ : GoString => ProviderHealth) ∈ h.healthCache.entries :=
    Finmap.lookup_eq_some_iff
  have hempty : h.statuses = 0 ↔ ¬ ∃ name, name ∈ h.healthCache := by
    rw [StatusHandler.statuses, Multiset.map_eq_zero]
    constructor
    · rintro hzero ⟨name, hname⟩
      obtain ⟨health, hhealth⟩ := Finmap.mem_iff.mp hname
      rw [hentry, hzero] at hhealth
      exact Multiset.notMem_zero _ hhealth
    · intro hnone
      refine Multiset.eq_zero_of_forall_notMem ?_
      rintro ⟨name, health⟩ hmem
      exact hnone ⟨name, Finmap.mem_of_lookup_eq_some (hentry.mpr hmem)⟩
  have hall : (∀ s ∈ h.statuses, s.status = lit "up") ↔
      ∀ name ∈ h.healthCache, upOf h name = some true := by
    constructor
    · intro hup name hname
      obtain ⟨health, hhealth⟩ := Finmap.mem_iff.mp hname
      have hstatus := hup health (Multiset.mem_map.mpr ⟨_, hentry.mp hhealth, rfl⟩)
      rw [upOf, hhealth, Option.map_some, decide_eq_true hstatus]
    · intro hup health hmem
      obtain ⟨⟨name, health'⟩, hentries, rfl⟩ := Multiset.mem_map.mp hmem
      have hlookup := hentry.mpr hentries
      have hname := hup name (Finmap.mem_of_lookup_eq_some hlookup)
      rw [upOf, hlookup, Option.map_some] at hname
      exact of_decide_eq_true (Option.some.inj hname)
  have hdegraded : lit "degraded" ≠ lit "operational" := by decide
  have hunknown : lit "unknown" ≠ lit "operational" := by decide
  unfold StatusHandler.overall
  split
  · rename_i hzero
    exact iff_of_false hunknown fun hboth => hempty.mp hzero hboth.1
  · rename_i hne
    rw [← not_not (a := ∃ name, name ∈ h.healthCache), ← hempty, ← hall]
    split
    · rename_i hup
      exact iff_of_true rfl ⟨hne, hup⟩
    · rename_i hup
      exact iff_of_false hdegraded fun hboth => hup hboth.2

/-- **The page is right after a check exactly when** all that was in the cache was listed, or
is monitored for another reason. -/
theorem Inv.reports_iff (h : Inv s) {listed : List Provider} {before : Finset GoString}
    (hphase : s.phase = .checking listed [] before) : Reports s ↔ AllListed listed before := by
  constructor
  · intro hreports name hname
    have hcached := (h.cache_iff hphase name).mpr (.inl hname)
    exact (((hreports listed before hphase).1 name).mp hcached).1
  · intro hlisted listed' before' hphase'
    obtain ⟨rfl, -, rfl⟩ := Phase.checking.inj (hphase.symm.trans hphase')
    have hcache : ∀ name, name ∈ s.handler.healthCache ↔ Monitored s listed name := by
      intro name
      rw [h.cache_iff hphase name]
      refine or_iff_right_of_imp fun hname => ?_
      have hcached := (h.cache_iff hphase name).mpr (.inl hname)
      exact ⟨hlisted name hname, h.registered name hcached⟩
    refine ⟨hcache, ?_⟩
    simp only [overall_iff, hcache, h.latest]

/-- No check has listed the providers without those that the cache had. -/
def Fresh (s : State) : Prop :=
  ∀ listed todo before, s.phase = .checking listed todo before → AllListed listed before

theorem Fresh.step (h : Fresh s) {a : Action} (hgood : CacheActive s a)
    (hstep : step protector chainSpec s a = some s') : Fresh s' := by
  rcases step_cases hstep with rfl | ⟨sys, -, rfl⟩ | ⟨lists, rfl, rfl⟩ |
    ⟨listed, p, todo, before, x, hphase, rfl⟩
  · exact fun _ _ _ hphase => Phase.noConfusion hphase
  · exact h
  · cases lists with
    | false => exact fun _ _ _ hphase => Phase.noConfusion hphase
    | true =>
      intro listed todo before heq
      cases heq
      exact hgood
  · intro listed' todo' before' heq
    have hnext : (probeOne s p (.checking listed todo before) x).phase =
        .checking listed todo before := by
      unfold probeOne
      cases s.sys.registry p.name <;> rfl
    obtain ⟨rfl, -, rfl⟩ := Phase.checking.inj (hnext.symm.trans heq)
    exact h _ _ _ hphase

/-- The provider answers. -/
def answers : Probe := { answer := fun _ _ => (12, none) }

/-- A provider is probed, disabled, and not listed any more. -/
def disabledRun : List Action :=
  [.check true, .probe answers, .admin (.toggleProvider 1 false), .check true]

/-- The check has returned, and has not listed all that was in the cache. -/
def Phase.stale : Phase → Bool
  | .checking listed [] before => decide (∃ name ∈ before, ∀ p ∈ listed, p.name ≠ name)
  | _ => false

theorem Phase.stale_eq_true {phase : Phase} (h : phase.stale = true) :
    ∃ listed before, phase = .checking listed [] before ∧ ¬ AllListed listed before := by
  unfold Phase.stale at h
  split at h
  · rename_i listed before
    obtain ⟨name, hname, hnone⟩ := of_decide_eq_true h
    refine ⟨listed, before, rfl, fun hlisted => ?_⟩
    obtain ⟨p, hp, heq⟩ := hlisted name hname
    exact hnone p hp heq
  · cases h

/-- The disabled provider is still on the page. -/
theorem not_reports_disabled :
    ∃ s, exec (step plaintext []) (start plaintext [] oneProvider) disabledRun = some s ∧
      ¬ Reports s := by
  have hrun : (exec (step plaintext []) (start plaintext [] oneProvider) disabledRun).any
      (fun s => s.phase.stale) = true := by decide +kernel
  obtain ⟨s, hs, hstale⟩ := (Option.any_eq_true _ _).mp hrun
  obtain ⟨listed, before, hphase, hnot⟩ := Phase.stale_eq_true hstale
  have hinv : Inv s := Reachable.invariant (fun _ _ _ h hstep => Inv.step h hstep)
    (inv_start oneProvider) ⟨disabledRun, hs⟩
  exact ⟨s, hs, fun hreports => hnot ((hinv.reports_iff hphase).mp hreports)⟩

/-- **The status page reports the current providers** after every check of a run in which a
check that lists the providers finds all of the health cache active. -/
theorem reports_of_cacheActive (db : Database) {as : List Action}
    (hgood : Along (step protector chainSpec) CacheActive (start protector chainSpec db) as)
    (hexec : exec (step protector chainSpec) (start protector chainSpec db) as = some s) :
    Reports s := by
  have hstep : ∀ s a s', Inv s ∧ Fresh s → CacheActive s a →
      step protector chainSpec s a = some s' → Inv s' ∧ Fresh s' :=
    fun _ _ _ h hgood hstep => ⟨h.1.step hstep, h.2.step hgood hstep⟩
  have hboth := exec_invariant hstep
    ⟨inv_start db, fun _ _ _ hphase => Phase.noConfusion hphase⟩ hgood hexec
  intro listed before hphase
  exact (hboth.1.reports_iff hphase).mpr (hboth.2 _ _ _ hphase) listed before hphase

/-- It is probed twice. -/
theorem reports_of_cacheActive_twice :
    ∃ s, exec (step plaintext []) (start plaintext [] oneProvider)
        [.check true, .probe answers, .check true, .probe answers] = some s ∧ Reports s := by
  have hrun : (exec (step plaintext []) (start plaintext [] oneProvider)
      [.check true, .probe answers, .check true, .probe answers]).isSome = true := by decide +kernel
  obtain ⟨s, hexec⟩ := Option.isSome_iff_exists.mp hrun
  exact ⟨s, hexec, reports_of_cacheActive oneProvider (by decide +kernel) hexec⟩

end UniLLM.Status
