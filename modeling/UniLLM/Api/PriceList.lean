import UniLLM.Inference.Refunds
import Mathlib.Data.List.Induction

/-!
# The price list

The catalogue page lists the active models with their prices, and the calculator page makes of
them what a request will cost.  A request reads its model in one step of its own; `UpdateModel`
can change the prices right after, and the request keeps those it has read.  So what it is billed
at is what the pages showed at that step (`billed_as_shown`), and what a user has used up is the
sum of what they showed for the user's calls (`used_as_shown`).

The calculator divides before it multiplies and the server the other way round; in exact numbers
that is the same.
-/

namespace UniLLM.Api
open Go Transition Inference
open Catalog (AdminAction Database Inquiry KeyProtector Lookup ModelConfig ModelRow Pool System boot
  findModelByPublicName oneProvider plaintext toModelConfig)

/-! ### The lists -/

/-- The columns of a model that only the lists show. -/
structure Capabilities where
  maxTokens : Int
  supportsStream : Bool
  supportsTools : Bool
  supportsVision : Bool

/-- `catalogItem`. -/
structure CatalogItem extends Capabilities where
  id : GoString
  vendor : GoString
  inputPricePer1M : Rat
  outputPricePer1M : Rat

/-- `strings.ToLower`, as far as ASCII: of the runes outside it the sign for Kelvin and the dotted
capital I have a lower case in ASCII. -/
def toLower (s : GoString) : GoString :=
  (runes s).flatMap fun r =>
    let rune := r.getD runeError
    if rune = [0xE2, 0x84, 0xAA] then lit "k"
    else if rune = [0xC4, 0xB0] then lit "i"
    else rune.map lowerByte

def inferVendor (modelName : GoString) : GoString :=
  let name := toLower modelName
  if hasPrefix name (lit "claude") then lit "Anthropic"
  else if hasPrefix name (lit "gemini") then lit "Google"
  else if hasPrefix name (lit "gpt") || hasPrefix name (lit "o1") || hasPrefix name (lit "o3") ||
      hasPrefix name (lit "o4") then lit "OpenAI"
  else if contains name (lit "deepseek") then lit "DeepSeek"
  else if contains name (lit "qwen") then lit "Alibaba"
  else if contains name (lit "llama") || contains name (lit "meta") then lit "Meta"
  else if contains name (lit "mistral") || contains name (lit "mixtral") then lit "Mistral"
  else lit "Other"

/-- `ListActiveModels`. -/
def activeModels (db : Database) : List ModelRow := db.models.filter (·.isActive)

/-- `ListModels`: the ids. -/
def listModels (db : Database) : List GoString := (activeModels db).map (·.publicName)

section Lists
variable (capabilities : Int → Capabilities)

def catalogItem (m : ModelRow) : CatalogItem :=
  { capabilities m.id with
    id := m.publicName
    vendor := inferVendor m.publicName
    inputPricePer1M := m.inputPricePer1M
    outputPricePer1M := m.outputPricePer1M }

/-- `ModelCatalog`. -/
def modelCatalog (db : Database) : List CatalogItem :=
  (activeModels db).map (catalogItem capabilities)

end Lists

/-! ### The calculator page -/

def calcCostPerRequest (model : CatalogItem) (inputTokens outputTokens : Int) : Rat :=
  (inputTokens / 1000000) * model.inputPricePer1M + (outputTokens / 1000000) * model.outputPricePer1M

def selectedModel (models : List CatalogItem) (selectedModelId : GoString) : Option CatalogItem :=
  models.find? (·.id == selectedModelId)

def costPerRequest (models : List CatalogItem) (selectedModelId : GoString)
    (inputTokens outputTokens : Int) : Rat :=
  match selectedModel models selectedModelId with
  | some model => calcCostPerRequest model inputTokens outputTokens
  | none => 0

/-! ### What is to hold -/

/-- The lists show the name once, and the calculator says of any call what it is billed. -/
structure Shows (capabilities : Int → Capabilities) (db : Database) (name : GoString)
    (cfg : ModelConfig) : Prop where
  ids : (listModels db).count name = 1
  items : ((modelCatalog capabilities db).map (·.id)).count name = 1
  cost : ∀ promptTok completionTok,
    costPerRequest (modelCatalog capabilities db) name promptTok completionTok =
      calculateTokenCost cfg.inputPricePer1M cfg.outputPricePer1M promptTok completionTok

/-- The model that a request has read. -/
def configRead : Lookup → Option ModelConfig
  | .model cfg => some cfg
  | .routed route => some route.model
  | .obtained route _ => some route.model
  | _ => none

/-- The schema's unique columns. -/
structure UniqueModels (models : List ModelRow) : Prop where
  ids : (models.map ModelRow.id).Nodup
  publicNames : (models.map ModelRow.publicName).Nodup

/-! ### One state -/

section State
variable {capabilities : Int → Capabilities} {db : Database} {name : GoString} {cfg : ModelConfig}

theorem nodup_listModels (h : UniqueModels db.models) : (listModels db).Nodup :=
  h.publicNames.sublist (List.filter_sublist.map _)

theorem ids_modelCatalog : (modelCatalog capabilities db).map (·.id) = listModels db := by
  rw [modelCatalog, List.map_map]
  rfl

/-- A lookup finds the first active row of the name. -/
theorem exists_of_find (h : findModelByPublicName db name = some cfg) :
    ∃ m, (activeModels db).find? (·.publicName == name) = some m ∧ cfg = toModelConfig m := by
  obtain ⟨m, hm, hcfg⟩ := Option.map_eq_some_iff.mp h
  refine ⟨m, ?_, hcfg.symm⟩
  rw [activeModels, List.find?_filter, ← hm]
  refine congrArg (fun p => List.find? p db.models) (funext fun m => Bool.eq_iff_iff.mpr ?_)
  simp [and_comm]

theorem shows_of_find (hunique : UniqueModels db.models)
    (h : findModelByPublicName db name = some cfg) : Shows capabilities db name cfg := by
  obtain ⟨m, hm, rfl⟩ := exists_of_find h
  have hname : m.publicName = name := by simpa using List.find?_some hm
  have hmem : name ∈ listModels db := hname ▸ List.mem_map_of_mem (List.mem_of_find?_eq_some hm)
  have hcount : (listModels db).count name = 1 :=
    List.count_eq_one_of_mem (nodup_listModels hunique) hmem
  refine ⟨hcount, ids_modelCatalog ▸ hcount, fun promptTok completionTok => ?_⟩
  have hselected : selectedModel (modelCatalog capabilities db) name =
      some (catalogItem capabilities m) := by
    rw [selectedModel, modelCatalog, List.find?_map]
    exact congrArg _ hm
  rw [costPerRequest, hselected]
  simp only [calcCostPerRequest, catalogItem, calculateTokenCost, toModelConfig]
  ring

end State

/-! ### Unique names -/

variable {protector : KeyProtector} {chainSpec : GoString} {s s' : System} {db : Database}

/-- A row that is written keeps its unique columns. -/
theorem uniqueModels_updateModel (h : UniqueModels db.models) (id : Int)
    (input output : Option Rat) (isActive : Option Bool) :
    UniqueModels (db.updateModel id input output isActive).models := by
  have hids : (db.updateModel id input output isActive).models.map ModelRow.id =
      db.models.map ModelRow.id := by
    rw [Database.updateModel, List.map_map]
    refine List.map_congr_left fun m _ => ?_
    simp only [Function.comp_apply]
    split <;> rfl
  have hnames : (db.updateModel id input output isActive).models.map ModelRow.publicName =
      db.models.map ModelRow.publicName := by
    rw [Database.updateModel, List.map_map]
    refine List.map_congr_left fun m _ => ?_
    simp only [Function.comp_apply]
    split <;> rfl
  exact ⟨hids ▸ h.ids, hnames ▸ h.publicNames⟩

theorem uniqueModels_append {models : List ModelRow} {row : ModelRow} (h : UniqueModels models)
    (hnew : ¬ (models.any fun m => m.id = row.id ∨ m.publicName = row.publicName) = true) :
    UniqueModels (models ++ [{ row with isActive := true }]) := by
  have hfresh : ∀ m ∈ models, m.id ≠ row.id ∧ m.publicName ≠ row.publicName := by
    intro m hm
    have hm' : ¬ (m.id = row.id ∨ m.publicName = row.publicName) := fun hsame =>
      hnew (List.any_eq_true.mpr ⟨m, hm, decide_eq_true hsame⟩)
    exact not_or.mp hm'
  refine ⟨?_, ?_⟩
  · rw [List.map_append]
    refine h.ids.append (List.nodup_singleton _) ?_
    rw [List.disjoint_right]
    rintro _ hid hmem
    rw [List.map_singleton, List.mem_singleton] at hid
    obtain ⟨m, hm, hsame⟩ := List.mem_map.mp hmem
    exact (hfresh m hm).1 (hsame.trans hid)
  · rw [List.map_append]
    refine h.publicNames.append (List.nodup_singleton _) ?_
    rw [List.disjoint_right]
    rintro _ hname hmem
    rw [List.map_singleton, List.mem_singleton] at hname
    obtain ⟨m, hm, hsame⟩ := List.mem_map.mp hmem
    exact (hfresh m hm).2 (hsame.trans hname)

/-- The step lemma. -/
theorem uniqueModels_step {a : AdminAction} (h : UniqueModels s.db.models)
    (hstep : s.step protector chainSpec a = some s') : UniqueModels s'.db.models := by
  rcases Refunds.models_cases hstep with hsame | ⟨row, rfl, hcreated⟩ |
    ⟨id, input, output, isActive, rfl, hupdated⟩
  · rw [hsame]
    exact h
  · obtain ⟨hnew, -⟩ := Option.ite_none_left_eq_some.mp hstep
    rw [hcreated]
    exact uniqueModels_append h hnew
  · rw [hupdated]
    exact uniqueModels_updateModel h id input output isActive

/-- The run lemma. -/
theorem uniqueModels_exec {as : List AdminAction} (h : UniqueModels s.db.models)
    (hexec : exec (System.step protector chainSpec) s as = some s') :
    UniqueModels s'.db.models :=
  Reachable.invariant (motive := fun s => UniqueModels s.db.models)
    (fun _ _ _ hs hstep => uniqueModels_step hs hstep) h ⟨as, hexec⟩

/-! ### When the model is read -/

/-- In the run `as` from `s₀`, request `j` read `cfg` in a step of its own, when the lists showed
it; and the server has not started again since. -/
def ReadAsShown (protector : KeyProtector) (chainSpec : GoString) (capabilities : Int → Capabilities)
    (s₀ : System) (as : List AdminAction) (j : Nat) (cfg : ModelConfig) : Prop :=
  ∃ pre post t r name, as = pre ++ .proceed j :: post ∧ .restart ∉ post ∧
    exec (System.step protector chainSpec) s₀ pre = some t ∧ t.requests[j]? = some r ∧
    r.stage = .begun name ∧ Shows capabilities t.db name cfg

variable {capabilities : Int → Capabilities} {s₀ : System} {as : List AdminAction} {j : Nat}
  {cfg : ModelConfig}

theorem ReadAsShown.concat (h : ReadAsShown protector chainSpec capabilities s₀ as j cfg)
    {a : AdminAction} (ha : a ≠ .restart) :
    ReadAsShown protector chainSpec capabilities s₀ (as ++ [a]) j cfg := by
  obtain ⟨pre, post, t, r, name, rfl, hpost, hrest⟩ := h
  refine ⟨pre, post ++ [a], t, r, name, by simp, ?_, hrest⟩
  rw [List.mem_append, List.mem_singleton, not_or]
  exact ⟨hpost, ha.symm⟩

/-- What a step of a request has read, it has read now or before. -/
theorem config_of_next {r : Inquiry} {next : Pool × Lookup} (h : r.next s = some next)
    (hcfg : configRead next.2 = some cfg) :
    (∃ name, r.stage = .begun name ∧ findModelByPublicName s.db name = some cfg) ∨
      configRead r.stage = some cfg := by
  unfold Inquiry.next at h
  split at h
  · rename_i name hstage
    split at h
    · obtain rfl := Option.some.inj h
      cases hcfg
    · rename_i found hfound
      obtain rfl := Option.some.inj h
      obtain rfl := Option.some.inj hcfg
      exact .inl ⟨name, hstage, hfound⟩
  · rename_i found hstage
    right
    rw [hstage]
    split at h
    · obtain rfl := Option.some.inj h
      cases hcfg
    · obtain rfl := Option.some.inj h
      exact hcfg
  · rename_i route hstage
    right
    rw [hstage]
    split at h
    · split at h
      · obtain rfl := Option.some.inj h
        cases hcfg
      · obtain rfl := Option.some.inj h
        exact hcfg
    · split at h
      · obtain rfl := Option.some.inj h
        cases hcfg
      · split at h
        · obtain rfl := Option.some.inj h
          cases hcfg
        · obtain rfl := Option.some.inj h
          exact hcfg
  · cases h

/-- What a step does to a request that has read its model: it is the one that read it, or the
request had read it before and the server goes on. -/
theorem config_of_step {a : AdminAction} (hstep : s.step protector chainSpec a = some s')
    {r' : Inquiry} (hr' : s'.requests[j]? = some r') (hcfg : configRead r'.stage = some cfg) :
    (∃ r name, a = .proceed j ∧ s.requests[j]? = some r ∧ r.stage = .begun name ∧
        findModelByPublicName s.db name = some cfg) ∨
      (a ≠ .restart ∧ ∃ r, s.requests[j]? = some r ∧ configRead r.stage = some cfg) := by
  cases a with
  | createProvider | toggleProvider | createModel | updateModel =>
    rw [System.step] at hstep
    split at hstep
    · cases hstep
    · obtain rfl := Option.some.inj hstep
      exact .inr ⟨by simp, r', hr', hcfg⟩
  | addProviderKey input random =>
    obtain rfl := Option.some.inj hstep
    exact .inr ⟨by simp, r', hr', hcfg⟩
  | advance i =>
    obtain ⟨a, -, hstep⟩ := Option.bind_eq_some_iff.mp hstep
    obtain ⟨next, -, rfl⟩ := Option.map_eq_some_iff.mp hstep
    exact .inr ⟨by simp, r', hr', hcfg⟩
  | begin isEmbedding publicName =>
    obtain rfl := Option.some.inj hstep
    by_cases hlt : j < s.requests.length
    · rw [List.getElem?_append_left hlt] at hr'
      exact .inr ⟨by simp, r', hr', hcfg⟩
    · rw [List.getElem?_append_right (not_lt.mp hlt), List.getElem?_singleton] at hr'
      -- the request that begins has read nothing
      obtain ⟨-, hr'⟩ := Option.ite_none_right_eq_some.mp hr'
      obtain rfl := Option.some.inj hr'
      cases hcfg
  | proceed k =>
    obtain ⟨r, hr, hstep⟩ := Option.bind_eq_some_iff.mp hstep
    obtain ⟨next, hnext, rfl⟩ := Option.map_eq_some_iff.mp hstep
    by_cases hk : k = j
    · subst hk
      have hlt : k < s.requests.length := (List.getElem?_eq_some_iff.mp hr).1
      rw [List.getElem?_set_self hlt] at hr'
      obtain rfl := Option.some.inj hr'
      rcases config_of_next hnext hcfg with ⟨name, hstage, hfind⟩ | hbefore
      · exact .inl ⟨r, name, rfl, hr, hstage, hfind⟩
      · exact .inr ⟨by simp, r, hr, hbefore⟩
    · rw [List.getElem?_set_ne hk] at hr'
      exact .inr ⟨by simp, r', hr', hcfg⟩
  | restart =>
    obtain rfl := Option.some.inj hstep
    cases hr'

/-- **A request is billed at prices that were shown.**  In every run, the model that a request
has read is one that the lists showed at the step that read it: there was one entry of the name
that the client asked for, and the calculator said of every call what that model's prices make
it cost.  What the administration writes after that step does not touch the request. -/
theorem billed_as_shown (hunique : UniqueModels db.models)
    (hexec : exec (System.step protector chainSpec) (boot protector chainSpec db) as = some s)
    {r : Inquiry} (hr : s.requests[j]? = some r) (hcfg : configRead r.stage = some cfg) :
    ReadAsShown protector chainSpec capabilities (boot protector chainSpec db) as j cfg := by
  induction as using List.reverseRecOn generalizing s r with
  | nil =>
    obtain rfl := Option.some.inj hexec
    cases hr
  | append_singleton as a ih =>
    obtain ⟨t, ht, hstep⟩ := exec_concat_eq_some.mp hexec
    rcases config_of_step hstep hr hcfg with ⟨r₀, name, rfl, hr₀, hstage, hfind⟩ |
      ⟨ha, r₀, hr₀, hbefore⟩
    · exact ⟨as, [], t, r₀, name, rfl, List.not_mem_nil, ht, hr₀, hstage,
        shows_of_find (uniqueModels_exec hunique ht) hfind⟩
    · exact (ih ht hr₀ hbefore).concat ha

/-- A model with a price. -/
def pricedModel : Database :=
  { oneProvider with models := [⟨1, lit "gpt-4o", 1, lit "gpt-4o", 5 / 2, 10, true⟩] }

theorem pricedModel_unique : UniqueModels pricedModel.models := ⟨by decide, by decide⟩

/-- The prices are raised between the reads of the model and of the provider. -/
def raised : List AdminAction :=
  [.begin false (lit "gpt-4o"), .proceed 0, .updateModel 1 (some 5) (some 20) none, .proceed 0,
    .proceed 0]

theorem billed_as_shown_raised :
    ReadAsShown plaintext [] (fun _ => ⟨4096, true, true, false⟩)
      (boot plaintext [] pricedModel) raised 0 ⟨1, lit "gpt-4o", 1, lit "gpt-4o", 5 / 2, 10⟩ := by
  have hrun : ((exec (System.step plaintext []) (boot plaintext [] pricedModel) raised).bind
      fun s => s.requests[0]?.map fun r => configRead r.stage) =
        some (some ⟨1, lit "gpt-4o", 1, lit "gpt-4o", 5 / 2, 10⟩) := rfl
  obtain ⟨s, hexec, hstage⟩ := Option.bind_eq_some_iff.mp hrun
  obtain ⟨r, hr, hcfg⟩ := Option.map_eq_some_iff.mp hstage
  exact billed_as_shown pricedModel_unique hexec hr hcfg

/-! ### What is recorded -/

/-- The cost of a record is that of its counts on a route. -/
def CostsOn (route : ModelRoute) (r : UsageRecord) : Prop :=
  r.cost = calculateTokenCost route.inputPricePer1M route.outputPricePer1M r.promptTokens
    r.completionTokens

/-- A record is of a model that was asked for, at the cost of its route. -/
def Routed {W : Type} (s : Service W) (w : W) (r : UsageRecord) : Prop :=
  ∃ route, s.resolveRoute r.modelName w = .ok route ∧ CostsOn route r

theorem costsOn_errorRecord (call : CallContext) (publicModel : GoString) (route : ModelRoute)
    (latency : Rat) (isStream : Bool) :
    CostsOn route (errorRecord call publicModel route latency isStream) := by
  simp [CostsOn, errorRecord, calculateTokenCost]

/-- A successful completion is recorded at the cost of its route. -/
theorem routed_of_delivers {W : Type} {service : Service W} {call : CallContext}
    {req : OpenAI.ChatCompletionRequest} {latency : Rat} {w : W} {route : ModelRoute}
    {d : Delivery} (h : service.Delivers req w route d) :
    ∀ r ∈ (service.complete call req latency w d).2, Routed service w r := by
  obtain ⟨p, key, w₁, w₂, hroute, hprovider, hkey, hdelivered⟩ := h
  intro r hr
  cases d with
  | whole resp =>
    simp only [Service.complete, Service.chatCompletion, hroute, hprovider, hkey, hdelivered,
      finishResponse, List.mem_singleton] at hr
    refine ⟨route, by rw [hr]; exact hroute, ?_⟩
    rw [hr]
    cases husage : resp.usage <;>
      simp [CostsOn, okRecord, calculateCost, responseTokens, calculateTokenCost]
  | stream source writer =>
    simp only [Service.complete, Service.chatCompletionStream, hroute, hprovider, hkey,
      hdelivered, relayStream, List.mem_singleton] at hr
    refine ⟨route, by rw [hr]; exact hroute, ?_⟩
    rw [hr]
    rfl

theorem routed_of_mem_embedding {W : Type} {s : EmbeddingService W} {call : CallContext}
    {req : EmbeddingRequest} {latency : Rat} {w : W} {r : UsageRecord}
    (hr : r ∈ (s.createEmbedding call req latency w).1.records) : Routed s.toService w r := by
  unfold EmbeddingService.createEmbedding at hr
  cases hroute : s.toService.resolveRoute req.model w with
  | error e => simp [hroute] at hr
  | ok route =>
    simp only [hroute] at hr
    cases hkey : s.firstKey route.providerName w with
    | error e => simp [hkey] at hr
    | ok apiKey =>
      simp only [hkey] at hr
      rcases hreply : s.forward route.providerBaseURL apiKey { req with model := route.upstreamModel }
        w with ⟨e | reply, w₁⟩
      · simp [hreply] at hr
      · simp only [hreply, finishEmbedding] at hr
        split at hr
        · obtain rfl := List.mem_singleton.mp hr
          exact ⟨route, hroute, by simp [CostsOn, calculateTokenCost]⟩
        · cases hr

/-- Every record of a request is routed. -/
theorem routed_of_mem_handle {W : Type} (s : EmbeddingService W) (call : CallContext)
    (request : Request) (latency : Rat) (w : W) :
    ∀ r ∈ (s.handle call request latency w).1.records, Routed s.toService w r := by
  intro r hr
  cases request with
  | chat req =>
    rcases chatCompletion_cases s.toService req w call latency with ⟨route, resp, h⟩ | ⟨-, herror⟩
    · exact routed_of_delivers h r hr
    · obtain ⟨route, hroute, rfl⟩ := herror r hr
      exact ⟨route, hroute, costsOn_errorRecord ..⟩
  | stream req writer =>
    rcases chatCompletionStream_cases s.toService req w call latency writer with
      ⟨route, source, h⟩ | ⟨-, herror⟩
    · exact routed_of_delivers h r hr
    · obtain ⟨route, hroute, rfl⟩ := herror r hr
      exact ⟨route, hroute, costsOn_errorRecord ..⟩
  | embedding req => exact routed_of_mem_embedding hr

/-! ### What a user has used up -/

section Ledger
variable (protector : KeyProtector) (chainSpec : GoString)

/-- The records that a step makes, each with the tables of the moment. -/
def madeBy (s : Refunds.State) : Refunds.Action → List (Database × UsageRecord)
  | .request call r latency answers =>
    (Refunds.recordsOf s.catalog.db call r latency answers).map fun record => (s.catalog.db, record)
  | _ => []

/-- The records that a run makes. -/
def made : Refunds.State → List Refunds.Action → List (Database × UsageRecord)
  | _, [] => []
  | s, a :: as =>
    madeBy s a ++
      match Refunds.step protector chainSpec s a with
      | none => []
      | some s' => made s' as

/-- What has become of records, each with the tables it was made from. -/
structure Ledger where
  written : List (Database × UsageRecord) := []
  waiting : List (Database × UsageRecord) := []
  dropped : List (Database × UsageRecord) := []

/-- A request makes records; a goroutine writes its record or fails. -/
def Ledger.next (l : Ledger) (s : Refunds.State) : Refunds.Action → Ledger
  | .admin _ => l
  | .request call r latency answers =>
    { l with waiting := l.waiting ++ madeBy s (.request call r latency answers) }
  | .record i true =>
    { l with written := l.written ++ (l.waiting[i]?).toList, waiting := l.waiting.eraseIdx i }
  | .record i false =>
    { l with dropped := l.dropped ++ (l.waiting[i]?).toList, waiting := l.waiting.eraseIdx i }

/-- What a run makes of the records. -/
def ledger : Refunds.State → Ledger → List Refunds.Action → Ledger
  | _, l, [] => l
  | s, l, a :: as =>
    match Refunds.step protector chainSpec s a with
    | none => l
    | some s' => ledger s' (l.next s a) as

/-- What the calculator said, when the record was made, of a call with its counts. -/
def shownCost (capabilities : Int → Capabilities) (x : Database × UsageRecord) : Rat :=
  costPerRequest (modelCatalog capabilities x.1) x.2.modelName x.2.promptTokens x.2.completionTokens

variable {protector chainSpec} {capabilities : Int → Capabilities} {s s' : Refunds.State}
  {db : Database}

theorem find_of_resolveCatalog {publicName : GoString} {route : ModelRoute}
    (h : resolveCatalog db publicName = .ok route) :
    ∃ cfg, findModelByPublicName db publicName = some cfg ∧
      route.inputPricePer1M = cfg.inputPricePer1M ∧
      route.outputPricePer1M = cfg.outputPricePer1M := by
  unfold resolveCatalog Catalog.resolveModel at h
  cases hfind : findModelByPublicName db publicName with
  | none =>
    rw [hfind] at h
    cases h
  | some cfg =>
    rw [hfind] at h
    simp only at h
    cases hprovider : Catalog.findProviderByID db cfg.providerID with
    | none =>
      rw [hprovider] at h
      cases h
    | some p =>
      rw [hprovider] at h
      obtain rfl := Except.ok.inj h
      exact ⟨cfg, rfl, rfl, rfl⟩

theorem shownCost_eq (hunique : UniqueModels s.catalog.db.models) {a : Refunds.Action}
    {x : Database × UsageRecord} (hx : x ∈ madeBy s a) : shownCost capabilities x = x.2.cost := by
  cases a with
  | request call r latency answers =>
    obtain ⟨record, hrecord, rfl⟩ := List.mem_map.mp hx
    obtain ⟨route, hroute, hcost⟩ := routed_of_mem_handle _ call r latency () record hrecord
    obtain ⟨cfg, hfind, hinput, houtput⟩ :=
      find_of_resolveCatalog (Refunds.resolveCatalog_of_resolveRoute hroute)
    rw [shownCost, (shows_of_find hunique hfind).cost, hcost, hinput, houtput]
  | admin | record => cases hx

/-- The charges for a user among records. -/
def chargesFor (capabilities : Int → Capabilities) (userID : Int)
    (records : List (Database × UsageRecord)) : Rat :=
  ((records.filter fun x => x.2.userID == userID).map (shownCost capabilities)).sum

theorem chargesFor_concat (userID : Int) (records : List (Database × UsageRecord))
    (x : Database × UsageRecord) :
    chargesFor capabilities userID (records ++ [x]) = chargesFor capabilities userID records +
      if x.2.userID = userID then shownCost capabilities x else 0 := by
  unfold chargesFor
  rw [List.filter_append, List.map_append, List.sum_append]
  by_cases huser : x.2.userID = userID
  · rw [List.filter_cons_of_pos (by simpa using huser), if_pos huser, List.filter_nil,
      List.map_singleton, List.sum_singleton]
  · rw [List.filter_cons_of_neg (by simpa using huser), if_neg huser, List.filter_nil,
      List.map_nil, List.sum_nil]

/-- The ledger is right about a state. -/
structure Kept (capabilities : Int → Capabilities) (s : Refunds.State) (l : Ledger) : Prop where
  unique : UniqueModels s.catalog.db.models
  pending : l.waiting.map Prod.snd = s.pending
  shown : ∀ x ∈ l.waiting, shownCost capabilities x = x.2.cost
  used : ∀ userID, s.used userID = chargesFor capabilities userID l.written

theorem Kept.request {l : Ledger} (h : Kept capabilities s l) (call : CallContext) (r : Request)
    (latency : Rat) (answers : Refunds.Answers) :
    Kept capabilities
      { s with pending := s.pending ++ Refunds.recordsOf s.catalog.db call r latency answers }
      (l.next s (.request call r latency answers)) where
  unique := h.unique
  pending := by
    rw [Ledger.next, List.map_append, h.pending, madeBy, List.map_map]
    exact congrArg _ (List.map_id _)
  shown := by
    intro x hx
    rcases List.mem_append.mp hx with hx | hx
    · exact h.shown x hx
    · exact shownCost_eq h.unique hx
  used := h.used

/-- The record of a goroutine, as the ledger has it. -/
theorem Kept.waiting_get {l : Ledger} (h : Kept capabilities s l) {i : Nat} {r : UsageRecord}
    (hr : s.pending[i]? = some r) :
    ∃ x, l.waiting[i]? = some x ∧ x.2 = r ∧ shownCost capabilities x = r.cost ∧
      (x :: l.waiting.eraseIdx i).Perm l.waiting := by
  rw [← h.pending, List.getElem?_map] at hr
  obtain ⟨x, hx, rfl⟩ := Option.map_eq_some_iff.mp hr
  obtain ⟨hlt, rfl⟩ := List.getElem?_eq_some_iff.mp hx
  exact ⟨_, hx, rfl, h.shown _ (List.getElem_mem hlt), List.getElem_cons_eraseIdx_perm hlt⟩

/-- The step lemma: a step keeps the ledger right, and what it makes is all that is new. -/
theorem Kept.step {l : Ledger} (h : Kept capabilities s l) {a : Refunds.Action}
    (hstep : Refunds.step protector chainSpec s a = some s') :
    Kept capabilities s' (l.next s a) ∧
      ((l.next s a).written ++ (l.next s a).waiting ++ (l.next s a).dropped).Perm
        (l.written ++ l.waiting ++ l.dropped ++ madeBy s a) := by
  cases a with
  | admin a =>
    obtain ⟨catalog, hcatalog, rfl⟩ := Option.map_eq_some_iff.mp hstep
    exact ⟨⟨uniqueModels_step h.unique hcatalog, h.pending, h.shown, h.used⟩,
      by simp [Ledger.next, madeBy]⟩
  | request call r latency answers =>
    obtain rfl := Option.some.inj hstep
    refine ⟨h.request call r latency answers, ?_⟩
    simp only [Ledger.next, List.append_assoc]
    exact (List.perm_append_comm.append_left _).append_left _
  | record i ok =>
    obtain ⟨r, hr, rfl⟩ := Option.map_eq_some_iff.mp hstep
    obtain ⟨x, hx, rfl, hcost, herased⟩ := h.waiting_get hr
    have hpending : (l.waiting.eraseIdx i).map Prod.snd = s.pending.eraseIdx i := by
      rw [← List.eraseIdx_map, h.pending]
    have hshown : ∀ x ∈ l.waiting.eraseIdx i, shownCost capabilities x = x.2.cost := fun x hx =>
      h.shown x (List.mem_of_mem_eraseIdx hx)
    cases ok with
    | true =>
      have hnext : l.next s (.record i true) =
          { l with written := l.written ++ [x], waiting := l.waiting.eraseIdx i } := by
        rw [Ledger.next, hx]
        rfl
      rw [hnext]
      refine ⟨⟨h.unique, hpending, hshown, fun userID => ?_⟩, ?_⟩
      · rw [chargesFor_concat, ← h.used userID, hcost]
        simp only [if_true, Function.update_apply]
        by_cases huser : x.2.userID = userID
        · rw [if_pos huser, if_pos huser.symm, huser]
        · rw [if_neg huser, if_neg (Ne.symm huser), add_zero]
      · simp only [madeBy, List.append_nil, List.append_assoc, List.singleton_append]
        exact (herased.append_right _).append_left _
    | false =>
      have hnext : l.next s (.record i false) =
          { l with dropped := l.dropped ++ [x], waiting := l.waiting.eraseIdx i } := by
        rw [Ledger.next, hx]
        rfl
      rw [hnext]
      refine ⟨⟨h.unique, hpending, hshown, h.used⟩, ?_⟩
      have hmoved : (l.waiting.eraseIdx i ++ (l.dropped ++ [x])).Perm (l.waiting ++ l.dropped) := by
        rw [← List.append_assoc]
        exact List.perm_append_comm.trans (herased.append_right l.dropped)
      simp only [madeBy, List.append_nil, List.append_assoc]
      exact hmoved.append_left _

/-- The run lemma. -/
theorem Kept.run {as : List Refunds.Action} {l : Ledger} (h : Kept capabilities s l)
    (hexec : exec (Refunds.step protector chainSpec) s as = some s') :
    let l' := ledger protector chainSpec s l as
    Kept capabilities s' l' ∧ (l'.written ++ l'.waiting ++ l'.dropped).Perm
      (l.written ++ l.waiting ++ l.dropped ++ made protector chainSpec s as) := by
  induction as generalizing s l with
  | nil =>
    obtain rfl := Option.some.inj hexec
    exact ⟨h, by simp [made, ledger]⟩
  | cons a as ih =>
    obtain ⟨t, hstep, hrest⟩ := exec_cons_eq_some.mp hexec
    obtain ⟨hkept, hperm⟩ := h.step hstep
    obtain ⟨hkept', hperm'⟩ := ih hkept hrest
    simp only [ledger, made, hstep]
    refine ⟨hkept', hperm'.trans ?_⟩
    rw [← List.append_assoc]
    exact hperm.append_right _

/-- **What a user has used up is what was shown.**  In every run of the administration, of
requests and of the goroutines that record them, the records made are those that a goroutine has
written, those that wait and those whose goroutine failed; and what a user has used up is the sum
of what the calculator said of the calls of the user that were written, each when it was made. -/
theorem used_as_shown {as : List Refunds.Action}
    (hexec : exec (Refunds.step protector chainSpec) (Refunds.start protector chainSpec) as =
      some s) (capabilities : Int → Capabilities) :
    let l := ledger protector chainSpec (Refunds.start protector chainSpec) {} as
    l.waiting.map Prod.snd = s.pending ∧
      (l.written ++ l.waiting ++ l.dropped).Perm
        (made protector chainSpec (Refunds.start protector chainSpec) as) ∧
      ∀ userID, s.used userID = chargesFor capabilities userID l.written := by
  have hstart : Kept capabilities (Refunds.start protector chainSpec) {} :=
    ⟨⟨List.nodup_nil, List.nodup_nil⟩, rfl, fun x hx => absurd hx List.not_mem_nil, fun _ => rfl⟩
  obtain ⟨hkept, hperm⟩ := hstart.run hexec
  exact ⟨hkept.pending, hperm, hkept.used⟩

/-- A million tokens at a dollar, after that the price is raised, and the record of another million
tokens gets lost. -/
def raisedLater : List Refunds.Action :=
  Refunds.priced 1 0 ++ Refunds.streamed Refunds.millionTokens ++
    [.admin (.updateModel 1 (some 2) none none)] ++
    (Refunds.streamed Refunds.millionTokens).dropLast ++ [.record 0 false]

theorem used_as_shown_raisedLater :
    let l := ledger plaintext [] (Refunds.start plaintext []) {} raisedLater
    ∃ s, exec (Refunds.step plaintext []) (Refunds.start plaintext []) raisedLater = some s ∧
      s.used 1 = 1 ∧ l.written.length = 1 ∧ l.dropped.map (fun x => x.2.cost) = [2] ∧
      (l.written ++ l.waiting ++ l.dropped).Perm
        (made plaintext [] (Refunds.start plaintext []) raisedLater) ∧
      s.used 1 = chargesFor (fun _ => ⟨4096, true, true, false⟩) 1 l.written := by
  have hrun : (exec (Refunds.step plaintext []) (Refunds.start plaintext []) raisedLater).any
      (fun s => decide (s.used 1 = 1 ∧
        (ledger plaintext [] (Refunds.start plaintext []) {} raisedLater).written.length = 1 ∧
        (ledger plaintext [] (Refunds.start plaintext []) {} raisedLater).dropped.map
          (fun x => x.2.cost) = [2])) = true := by
    decide +kernel
  obtain ⟨s, hexec, hrun⟩ := (Option.any_eq_true _ _).mp hrun
  obtain ⟨hone, hwritten, hdropped⟩ := of_decide_eq_true hrun
  obtain ⟨-, hperm, hused⟩ := used_as_shown hexec fun _ => ⟨4096, true, true, false⟩
  exact ⟨s, hexec, hone, hwritten, hdropped, hperm, hused 1⟩

end Ledger

end UniLLM.Api
