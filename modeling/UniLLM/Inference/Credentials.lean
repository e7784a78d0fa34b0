import UniLLM.Inference.Service
import UniLLM.Provider.Register
import UniLLM.Provider.UpstreamCalls

/-!
# Which key and which model go where

The server's inference service: routes and keys come from the catalog, providers from
the registry that `RegisterAll` built.  The key is taken for the name in the route;
whoever is registered under that name gets it.

That is the provider itself, unless a group is registered there.  The group has no keys
of its own, so it hands the key on to its providers, with the route's model.
-/

namespace UniLLM.Inference
open Go OpenAI Provider

/-! ### The server -/

/-- The state around the service: the providers' and the keys in memory. -/
structure Running where
  wire : Wire
  pool : Catalog.Pool

/-- `CatalogRoutes.ResolveModel`. -/
def resolveCatalog (db : Catalog.Database) (publicName : GoString) : Except GoString ModelRoute :=
  (Catalog.resolveModel db publicName).map fun route =>
    { publicName := route.model.publicName
      upstreamModel := route.model.upstreamModel
      providerName := route.provider.name
      providerBaseURL := route.provider.baseURL
      inputPricePer1M := route.model.inputPricePer1M
      outputPricePer1M := route.model.outputPricePer1M }

/-- A step of a provider. -/
def onWire {α : Type} (f : Wire → α × Wire) (s : Running) : α × Running :=
  let (result, wire) := f s.wire
  (result, { s with wire := wire })

/-- A registered provider as the service sees it. -/
def chatProvider (http : Http) (env : Environment) : Registered → ChatProvider Running
  | .resilient p =>
    { name := p.name
      chatCompletion := fun apiKey req => onWire (p.chatCompletion http env apiKey req)
      chatCompletionStream := fun apiKey req =>
        onWire (p.chatCompletionStream http env apiKey req) }
  | .fallback f =>
    { name := f.name
      chatCompletion := fun apiKey req => onWire (f.chatCompletion http env apiKey req)
      chatCompletionStream := fun apiKey req =>
        onWire (f.chatCompletionStream http env apiKey req) }

/-- The service of a server that was started with this database and `FALLBACK_CHAIN`. -/
def server (db : Catalog.Database) (chainSpec : GoString) (http : Http) (env : Environment) :
    Service Running :=
  { resolveModel := fun publicName _ => resolveCatalog db publicName
    nextKey := fun providerName s =>
      let (key, pool) := s.pool.nextKey providerName
      (key, { s with pool := pool })
    registry := fun name => (registerAll db chainSpec name).map (chatProvider http env) }

/-! ### What is to hold -/

/-- Some model configuration assigns the model to the provider. -/
def Assigned (db : Catalog.Database) (provider model : GoString) : Prop :=
  ∃ m ∈ db.models, m.upstreamModel = model ∧
    ∃ p ∈ db.providers, p.id = m.providerID ∧ p.name = provider

/-- The call has a key and a model of the provider that receives it. -/
def Rightful (db : Catalog.Database) (keys : GoString → List GoString) (c : UpstreamCall) : Prop :=
  c.apiKey ∈ keys c.provider ∧ Assigned db c.provider c.model

/-- Whatever happens, all calls that the request causes are rightful. -/
def KeysStay (db : Catalog.Database) (chainSpec : GoString) (http : Http) (pool : Catalog.Pool)
    (req : ChatCompletionRequest) : Prop :=
  ∀ (env : Environment) (breakers : GoString → CircuitBreaker) (call : CallContext) (latency : Rat)
    (writer : List WriterReply),
    (∀ c ∈ ((server db chainSpec http env).chatCompletion call req latency
        ⟨⟨0, breakers, []⟩, pool⟩).2.wire.log, Rightful db pool.providerKeys c) ∧
    ∀ c ∈ ((server db chainSpec http env).chatCompletionStream call req writer latency
        ⟨⟨0, breakers, []⟩, pool⟩).2.wire.log, Rightful db pool.providerKeys c

/-- If the request is routed to a group, the key that is handed out for the group's name
belongs to each provider of the group that can send the request, and the route's model is
assigned to each of them. -/
def GroupFits (db : Catalog.Database) (chainSpec : GoString) (http : Http) (pool : Catalog.Pool)
    (req : ChatCompletionRequest) : Prop :=
  ∀ route f apiKey pool', resolveCatalog db req.model = .ok route →
    registerAll db chainSpec route.providerName = some (.fallback f) →
    pool.nextKey route.providerName = (.ok apiKey, pool') →
    ∀ p ∈ f.providers, p.inner.CanSend http apiKey (prepareChatRequest req.model req route) →
      apiKey ∈ pool.providerKeys p.name ∧ Assigned db p.name route.upstreamModel

variable {db : Catalog.Database} {chainSpec : GoString} {http : Http} {env : Environment}
  {pool : Catalog.Pool} {req : ChatCompletionRequest}

/-! ### What a request causes -/

/-- A call that the registered provider makes with this key and request. -/
def registeredOwn (http : Http) (r : Registered) (stream : Bool) (apiKey : GoString)
    (req : ChatCompletionRequest) (c : UpstreamCall) : Prop :=
  match r with
  | .resilient p => p.inner.Own http stream apiKey req c
  | .fallback f => f.Own http stream apiKey req c

/-- A call that goes out because of the request, streamed or not. -/
def Caused (db : Catalog.Database) (chainSpec : GoString) (http : Http) (pool : Catalog.Pool)
    (stream : Bool) (req : ChatCompletionRequest) (c : UpstreamCall) : Prop :=
  ∃ route r apiKey pool', resolveCatalog db req.model = .ok route ∧
    registerAll db chainSpec route.providerName = some r ∧
    pool.nextKey route.providerName = (.ok apiKey, pool') ∧
    registeredOwn http r stream apiKey (prepareChatRequest req.model req route) c

theorem chatProvider_sends (r : Registered) (apiKey : GoString) (req : ChatCompletionRequest)
    (s : Running) :
    Sends (registeredOwn http r false apiKey req) s.wire
      ((chatProvider http env r).chatCompletion apiKey req s).2.wire := by
  cases r with
  | resilient p => exact p.chatCompletion_sends s.wire
  | fallback f => exact f.chatCompletion_sends s.wire

theorem chatProvider_stream_sends (r : Registered) (apiKey : GoString) (req : ChatCompletionRequest)
    (s : Running) :
    Sends (registeredOwn http r true apiKey req) s.wire
      ((chatProvider http env r).chatCompletionStream apiKey req s).2.wire := by
  cases r with
  | resilient p => exact p.chatCompletionStream_sends s.wire
  | fallback f => exact f.chatCompletionStream_sends s.wire

/-- What both methods do to the state: they ask the provider that is registered under the
route's name, with the key for that name. -/
def Service.dispatch {W α : Type} (s : Service W)
    (method : ChatProvider W → GoString → ChatCompletionRequest → W → α × W)
    (req : ChatCompletionRequest) (w : W) : W :=
  match s.resolveModel req.model w with
  | .error _ => w
  | .ok route =>
    match s.registry route.providerName with
    | none => w
    | some p =>
      match s.nextKey route.providerName w with
      | (.error _, w) => w
      | (.ok apiKey, w) => (method p apiKey (prepareChatRequest req.model req route) w).2

theorem chatCompletion_state {W : Type} (s : Service W) (call : CallContext)
    (latency : Rat) (w : W) :
    (s.chatCompletion call req latency w).2 = s.dispatch ChatProvider.chatCompletion req w := by
  unfold Service.chatCompletion Service.dispatch Service.resolveRoute Service.getProvider
  cases s.resolveModel req.model w with
  | error e => rfl
  | ok route =>
    simp only
    cases s.registry route.providerName with
    | none => rfl
    | some p =>
      simp only
      cases s.nextKey route.providerName w with
      | mk key w' =>
        cases key with
        | error e => rfl
        | ok apiKey =>
          simp only
          split <;> rename_i heq <;> rw [heq]

theorem chatCompletionStream_state {W : Type} (s : Service W) (call : CallContext)
    (writer : List WriterReply) (latency : Rat) (w : W) :
    (s.chatCompletionStream call req writer latency w).2 =
      s.dispatch ChatProvider.chatCompletionStream req w := by
  unfold Service.chatCompletionStream Service.dispatch Service.resolveRoute Service.getProvider
  cases s.resolveModel req.model w with
  | error e => rfl
  | ok route =>
    simp only
    cases s.registry route.providerName with
    | none => rfl
    | some p =>
      simp only
      cases s.nextKey route.providerName w with
      | mk key w' =>
        cases key with
        | error e => rfl
        | ok apiKey =>
          simp only
          split <;> rename_i heq <;> rw [heq]

/-- **What a request causes.** -/
theorem dispatch_sends {α : Type} {stream : Bool}
    {method : ChatProvider Running → GoString → ChatCompletionRequest → Running → α × Running}
    (hmethod : ∀ r apiKey req s, Sends (registeredOwn http r stream apiKey req) s.wire
      (method (chatProvider http env r) apiKey req s).2.wire) (s : Running) :
    Sends (Caused db chainSpec http s.pool stream req) s.wire
      ((server db chainSpec http env).dispatch method req s).wire := by
  unfold Service.dispatch
  simp only [server]
  cases hroute : resolveCatalog db req.model with
  | error e => exact .of_log_eq rfl
  | ok route =>
    simp only
    cases hr : registerAll db chainSpec route.providerName with
    | none => exact .of_log_eq rfl
    | some r =>
      simp only [Option.map_some]
      cases hkey : s.pool.nextKey route.providerName with
      | mk key pool' =>
        cases key with
        | error e => exact .of_log_eq rfl
        | ok apiKey =>
          exact (hmethod r apiKey (prepareChatRequest req.model req route) { s with pool := pool' }).mono
            fun c hc => ⟨route, r, apiKey, pool', hroute, hr, hkey, hc⟩

/-- A route's model is assigned to its provider. -/
theorem assigned_of_resolve {route : ModelRoute} {publicName : GoString}
    (h : resolveCatalog db publicName = .ok route) :
    Assigned db route.providerName route.upstreamModel := by
  unfold resolveCatalog Catalog.resolveModel at h
  cases hmodel : Catalog.findModelByPublicName db publicName with
  | none => simp [hmodel, Except.map] at h
  | some model =>
    simp only [hmodel] at h
    cases hprovider : Catalog.findProviderByID db model.providerID with
    | none => simp [hprovider, Except.map] at h
    | some provider =>
      simp only [hprovider, Except.map] at h
      obtain rfl := Except.ok.inj h
      obtain ⟨m, hm, rfl⟩ := Option.map_eq_some_iff.mp hmodel
      obtain ⟨p, hp, rfl⟩ := Option.map_eq_some_iff.mp hprovider
      have hid := List.find?_some hp
      exact ⟨m, List.mem_of_find?_eq_some hm, rfl, p, List.mem_of_find?_eq_some hp,
        eq_of_beq hid, rfl⟩

theorem prepareChatRequest_model (publicModel : GoString) (req : ChatCompletionRequest)
    (route : ModelRoute) : (prepareChatRequest publicModel req route).model =
    route.upstreamModel := by
  rw [prepareChatRequest, apply_ite ChatCompletionRequest.model, ite_self]
  rw [apply_ite ChatCompletionRequest.model, ite_self]

/-- A group of the registry hands the key on. -/
theorem key_of_registered {name : GoString} {f : Fallback}
    (h : registerAll db chainSpec name = some (.fallback f)) (apiKey : GoString) (p : Resilient) :
    f.key apiKey p = apiKey := by
  rw [Fallback.key, (registerAll_fits h).1]
  rfl

theorem rightful_of_caused (hfits : GroupFits db chainSpec http pool req) {stream : Bool}
    {c : UpstreamCall} (hc : Caused db chainSpec http pool stream req c) : Rightful db pool.providerKeys c := by
  obtain ⟨route, r, apiKey, pool', hroute, hr, hkey, hown⟩ := hc
  cases r with
  | resilient p =>
    -- The name the key was taken for is the name of the provider that receives it.
    obtain ⟨-, rfl⟩ := hown
    have hname : p.inner.name = route.providerName := registerAll_fits hr
    rw [Rightful, Direct.callFor]
    simp only [hname, prepareChatRequest_model]
    exact ⟨(Catalog.Pool.nextKey_mem hkey).1, assigned_of_resolve hroute⟩
  | fallback f =>
    obtain ⟨p, hp, hcan, rfl⟩ := hown
    rw [key_of_registered hr] at hcan ⊢
    rw [Rightful, Direct.callFor]
    simp only [prepareChatRequest_model]
    exact hfits route f apiKey pool' hroute hr hkey p hp hcan

/-- When the network is down, a request that is routed to a group makes each provider of
the group that can send receive the key. -/
theorem chatCompletion_networkDown {route : ModelRoute} {f : Fallback} {apiKey : GoString}
    {pool' : Catalog.Pool} (hroute : resolveCatalog db req.model = .ok route)
    (hr : registerAll db chainSpec route.providerName = some (.fallback f))
    (hkey : pool.nextKey route.providerName = (.ok apiKey, pool'))
    (call : CallContext) (latency : Rat)
    {p : Resilient} (hp : p ∈ f.providers)
    (hcan : p.inner.CanSend http apiKey (prepareChatRequest req.model req route)) :
    p.inner.callFor false apiKey (prepareChatRequest req.model req route) ∈
      ((server db chainSpec http networkDown).chatCompletion call req latency
        ⟨⟨0, fun _ => newProviderBreaker, []⟩, pool⟩).2.wire.log := by
  have hsame := key_of_registered hr apiKey p
  have hsent := Fallback.chatCompletion_networkDown (registerAll_fits hr).2
    (w := ⟨0, fun _ => newProviderBreaker, []⟩) (fun _ => rfl) hp (hsame.symm ▸ hcan)
  rw [hsame] at hsent
  rw [chatCompletion_state, Service.dispatch]
  simp only [server, hroute, hr, hkey, Option.map_some]
  exact hsent

/-- Nothing is refused before it is sent. -/
def openNetwork : Http := ⟨fun _ => none, fun _ _ => none, fun _ => []⟩

/-- Two providers, and a model of the first. -/
def twoProviders : Catalog.Database :=
  { providers :=
      [⟨1, lit "openai", lit "https://api.openai.com/v1", true⟩,
       ⟨2, lit "anthropic", lit "https://api.anthropic.com/v1", true⟩]
    keys := []
    models := [⟨1, lit "gpt-4o", 1, lit "gpt-4o", 0, 0, true⟩] }

/-- A key for each. -/
def twoKeys : Catalog.Pool :=
  { providerKeys := fun name =>
      if name = lit "openai" then [lit "sk-openai"]
      else if name = lit "anthropic" then [lit "sk-ant"]
      else []
    keyIndex := fun _ => 0 }

/-- A request for that model. -/
def ask : ChatCompletionRequest :=
  { model := lit "gpt-4o", messages := [{ role := lit "user", content := .str (lit "Hello") }] }

/-- With the chain of the comment in the source, Anthropic receives OpenAI's key. -/
theorem not_keysStay_documented_chain :
    ¬ KeysStay twoProviders (lit "openai:anthropic,google") openNetwork twoKeys ask := by
  intro h
  have hleak : ((server twoProviders (lit "openai:anthropic,google") openNetwork
      networkDown).chatCompletion ⟨0, 0⟩ ask 0
        ⟨⟨0, fun _ => newProviderBreaker, []⟩, twoKeys⟩).2.wire.log.any
      (fun c => decide (c.apiKey ∉ twoKeys.providerKeys c.provider)) = true := by
    decide +kernel
  obtain ⟨c, hc, hforeign⟩ := List.any_eq_true.mp hleak
  have hright := (h networkDown (fun _ => newProviderBreaker) ⟨0, 0⟩ 0 []).1 c hc
  exact of_decide_eq_true hforeign hright.1

/-- **When keys and model names stay with their provider**: exactly for the requests that
are not routed to a group it does not fit. -/
theorem keysStay_iff : KeysStay db chainSpec http pool req ↔
    GroupFits db chainSpec http pool req := by
  constructor
  · intro h route f apiKey pool' hroute hr hkey p hp hcan
    have hsent := chatCompletion_networkDown hroute hr hkey ⟨0, 0⟩ 0 hp hcan
    have hright := (h networkDown (fun _ => newProviderBreaker) ⟨0, 0⟩ 0 []).1 _ hsent
    rw [Rightful, Direct.callFor] at hright
    simp only [prepareChatRequest_model] at hright
    exact hright
  · intro hfits env breakers call latency writer
    have hall : ∀ (stream : Bool) (w : Wire),
        Sends (Caused db chainSpec http pool stream req) ⟨0, breakers, []⟩ w →
          ∀ c ∈ w.log, Rightful db pool.providerKeys c := by
      rintro stream w ⟨sent, hlog, hsent⟩ c hc
      rw [hlog] at hc
      exact rightful_of_caused hfits (hsent c hc)
    rw [chatCompletion_state, chatCompletionStream_state]
    exact ⟨hall false _ (dispatch_sends chatProvider_sends ⟨⟨0, breakers, []⟩, pool⟩),
      hall true _ (dispatch_sends chatProvider_stream_sends ⟨⟨0, breakers, []⟩, pool⟩)⟩

end UniLLM.Inference
