import UniLLM.Catalog.DisabledProviders
import UniLLM.Inference.Accounting
import UniLLM.Inference.Credentials
import UniLLM.Inference.MissingUsage

/-!
# Usage and refunds

A cost is a token count times a price.  The admin handlers take any number for a price,
and the decoders take any integer for a count; nothing compares either with zero.  So a
record can have a negative cost, and recording it gives money back.

Admins change the catalog, requests are answered in any way, and goroutines record what
they cost.  As long as the prices that are set and the counts that are reported are not
negative, no cost is, and `balance_used` never goes down.
-/

namespace UniLLM.Inference
open Go OpenAI Transition

namespace Refunds

/-! ### Requests and their records -/

/-- What a request gets from the pool, the registry and upstream. -/
structure Answers where
  nextKey : Except GoString GoString
  firstKey : Except GoString GoString
  registered : Bool
  whole : Except GoString ChatCompletionResponse
  stream : Except GoString Source
  embedding : Except GoString EmbeddingReply

/-- The service on this database, when it gets these answers. -/
def serviceWith (db : Catalog.Database) (answers : Answers) : EmbeddingService Unit :=
  { resolveModel := fun publicName _ => resolveCatalog db publicName
    nextKey := fun _ w => (answers.nextKey, w)
    registry := fun name =>
      if answers.registered then
        some
          { name := name
            chatCompletion := fun _ _ w => (answers.whole, w)
            chatCompletionStream := fun _ _ w => (answers.stream, w) }
      else none
    firstKey := fun _ _ => answers.firstKey
    forward := fun _ _ _ w => (answers.embedding, w) }

/-- What is recorded for a request. -/
def recordsOf (db : Catalog.Database) (call : CallContext) (r : Request) (latency : Rat)
    (answers : Answers) : List UsageRecord :=
  ((serviceWith db answers).handle call r latency ()).1.records

/-! ### Steps -/

structure State where
  catalog : Catalog.System
  /-- `balance_used`. -/
  used : Int → Rat
  /-- The records that goroutines have yet to write. -/
  pending : List UsageRecord

inductive Action where
  | admin (a : Catalog.AdminAction)
  | request (call : CallContext) (r : Request) (latency : Rat) (answers : Answers)
  /-- The goroutine of a record adds the cost to `balance_used`, if it gets that far. -/
  | record (i : Nat) (ok : Bool)

variable (protector : Catalog.KeyProtector) (chainSpec : GoString)

def step (s : State) : Action → Option State
  | .admin a =>
    (Catalog.System.step protector chainSpec s.catalog a).map fun catalog =>
      { s with catalog := catalog }
  | .request call r latency answers =>
    some { s with pending := s.pending ++ recordsOf s.catalog.db call r latency answers }
  | .record i ok =>
    (s.pending[i]?).map fun r =>
      { s with
        used := if ok then Function.update s.used r.userID (s.used r.userID + r.cost) else s.used
        pending := s.pending.eraseIdx i }

/-- An empty database, and nothing used. -/
def start : State := ⟨Catalog.boot protector chainSpec ⟨[], [], []⟩, fun _ => 0, []⟩

/-- The prices of a model. -/
def PricesNonneg (m : Catalog.ModelRow) : Prop := 0 ≤ m.inputPricePer1M ∧ 0 ≤ m.outputPricePer1M

def TokensNonneg (t : Tokens) : Prop := 0 ≤ t.promptTokens ∧ 0 ≤ t.completionTokens

instance (m : Catalog.ModelRow) : Decidable (PricesNonneg m) := inferInstanceAs (Decidable (_ ∧ _))

instance (t : Tokens) : Decidable (TokensNonneg t) := inferInstanceAs (Decidable (_ ∧ _))

/-- The counts that upstream reports to a request, as far as they count. -/
def reportedTokens (answers : Answers) : Request → Tokens
  | .chat req =>
    match answers.whole with
    | .ok resp => (Delivery.whole resp).reported req.model
    | .error _ => {}
  | .stream req writer =>
    match answers.stream with
    | .ok source => (Delivery.stream source writer).reported req.model
    | .error _ => {}
  | .embedding _ =>
    match answers.embedding with
    | .ok reply => { promptTokens := ((reply.response.bind (·.usage)).map (·.promptTokens)).getD 0 }
    | .error _ => {}

/-- No negative price is set and no negative count is reported. -/
def Nonneg (_ : State) : Action → Prop
  | .admin (.createModel row) => PricesNonneg row
  | .admin (.updateModel _ input output _) => (∀ p ∈ input, 0 ≤ p) ∧ ∀ p ∈ output, 0 ≤ p
  | .admin _ => True
  | .request _ r _ answers => TokensNonneg (reportedTokens answers r)
  | .record _ _ => True

instance (s : State) (a : Action) : Decidable (Nonneg s a) := by
  unfold Nonneg
  split <;> infer_instance

/-! ### The cost of a record -/

variable {protector chainSpec} {s s' : State} {db : Catalog.Database}

theorem calculateTokenCost_nonneg {inputPrice outputPrice : Rat} {promptTok completionTok : Int}
    (hinput : 0 ≤ inputPrice) (houtput : 0 ≤ outputPrice) (hprompt : 0 ≤ promptTok)
    (hcompletion : 0 ≤ completionTok) :
    0 ≤ calculateTokenCost inputPrice outputPrice promptTok completionTok := by
  have hp : (0 : Rat) ≤ promptTok := by exact_mod_cast hprompt
  have hc : (0 : Rat) ≤ completionTok := by exact_mod_cast hcompletion
  unfold calculateTokenCost
  positivity

/-- A route has the prices of a model. -/
theorem prices_of_resolveCatalog {publicName : GoString} {route : ModelRoute}
    (h : resolveCatalog db publicName = .ok route) :
    ∃ m ∈ db.models, route.inputPricePer1M = m.inputPricePer1M ∧
      route.outputPricePer1M = m.outputPricePer1M := by
  unfold resolveCatalog Catalog.resolveModel Catalog.findModelByPublicName at h
  cases hfind : db.models.find? (fun m => m.publicName == publicName && m.isActive) with
  | none =>
    rw [hfind] at h
    cases h
  | some m =>
    rw [hfind] at h
    simp only [Option.map_some] at h
    cases hprovider : Catalog.findProviderByID db (Catalog.toModelConfig m).providerID with
    | none =>
      rw [hprovider] at h
      cases h
    | some p =>
      rw [hprovider] at h
      obtain rfl := Except.ok.inj h
      exact ⟨m, List.mem_of_find?_eq_some hfind, rfl, rfl⟩

/-- The cost of a record is that of its counts, and the counts are not negative. -/
def Priced (route : ModelRoute) (r : UsageRecord) : Prop :=
  r.cost = calculateTokenCost route.inputPricePer1M route.outputPricePer1M r.promptTokens
    r.completionTokens ∧ 0 ≤ r.promptTokens ∧ 0 ≤ r.completionTokens

theorem priced_errorRecord (call : CallContext) (publicModel : GoString) (route : ModelRoute)
    (latency : Rat) (isStream : Bool) :
    Priced route (errorRecord call publicModel route latency isStream) := by
  refine ⟨?_, le_refl _, le_refl _⟩
  simp [errorRecord, calculateTokenCost]

/-- What a stream records is not negative if the report is not: an estimate is positive. -/
theorem recorded_nonneg {publicModel : GoString} {d : Delivery} (messages : List Message)
    (h : TokensNonneg (d.reported publicModel)) : TokensNonneg (d.recorded publicModel messages) := by
  cases d with
  | whole resp => exact h
  | stream source writer =>
    unfold Delivery.recorded
    simp only
    split
    · exact h
    · obtain ⟨hprompt, hcompletion⟩ := estimateTokens_positive messages
        ((Delivery.stream source writer).contentBytes publicModel)
      exact ⟨by omega, by omega⟩

/-- What a successful completion records is priced. -/
theorem priced_of_delivers {W : Type} {service : Service W} {call : CallContext}
    {req : ChatCompletionRequest} {latency : Rat} {w : W} {route : ModelRoute} {d : Delivery}
    (h : service.Delivers req w route d) (hreported : TokensNonneg (d.reported req.model)) :
    ∀ r ∈ (service.complete call req latency w d).2, Priced route r := by
  have hcost : ∀ r ∈ (service.complete call req latency w d).2,
      r.cost = calculateTokenCost route.inputPricePer1M route.outputPricePer1M r.promptTokens
        r.completionTokens := by
    obtain ⟨p, key, w₁, w₂, hroute, hprovider, hkey, hdelivered⟩ := h
    intro r hr
    cases d with
    | whole resp =>
      simp only [Service.complete, Service.chatCompletion, hroute, hprovider, hkey, hdelivered,
        finishResponse, List.mem_singleton] at hr
      rw [hr]
      cases resp.usage <;> simp [okRecord, calculateCost, responseTokens, calculateTokenCost]
    | stream source writer =>
      simp only [Service.complete, Service.chatCompletionStream, hroute, hprovider, hkey,
        hdelivered, relayStream, List.mem_singleton] at hr
      rw [hr]
      rfl
  intro r hr
  obtain ⟨r', hrecords, htokens⟩ := records_of_delivers call latency h
  have hr' := hr
  rw [hrecords] at hr'
  obtain rfl := List.mem_singleton.mp hr'
  obtain ⟨hprompt, hcompletion⟩ := recorded_nonneg req.messages hreported
  rw [← htokens] at hprompt hcompletion
  exact ⟨hcost r hr, hprompt, hcompletion⟩

theorem resolveCatalog_of_resolveRoute {answers : Answers} {publicName : GoString}
    {route : ModelRoute}
    (h : (serviceWith db answers).toService.resolveRoute publicName () = .ok route) :
    resolveCatalog db publicName = .ok route := by
  unfold Service.resolveRoute serviceWith at h
  simp only at h
  cases hresolve : resolveCatalog db publicName with
  | error e =>
    rw [hresolve] at h
    cases h
  | ok route' =>
    rw [hresolve] at h
    exact congrArg _ (Except.ok.inj h)

/-- What the service delivers is the answer it gets. -/
theorem answer_of_delivers {answers : Answers} {req : ChatCompletionRequest} {route : ModelRoute}
    {d : Delivery} (h : (serviceWith db answers).toService.Delivers req () route d) :
    match d with
    | .whole resp => answers.whole = .ok resp
    | .stream source _ => answers.stream = .ok source := by
  obtain ⟨p, key, w₁, w₂, -, hprovider, -, hdelivered⟩ := h
  unfold Service.getProvider serviceWith at hprovider
  simp only at hprovider
  by_cases hregistered : answers.registered = true
  · rw [if_pos hregistered] at hprovider
    obtain rfl := Except.ok.inj hprovider
    cases d with
    | whole resp => exact (Prod.mk.inj hdelivered).1
    | stream source writer => exact (Prod.mk.inj hdelivered).1
  · rw [if_neg hregistered] at hprovider
    cases hprovider

/-- An embedding is priced by its prompt. -/
theorem priced_of_mem_embedding {call : CallContext} {publicModel : GoString} {route : ModelRoute}
    {latency : Rat} {reply : EmbeddingReply} {record : UsageRecord}
    (hreported : 0 ≤ ((reply.response.bind (·.usage)).map (·.promptTokens)).getD 0)
    (h : record ∈ (finishEmbedding call publicModel route latency reply).records) :
    Priced route record := by
  unfold finishEmbedding at h
  split at h
  · rename_i hstatus
    obtain rfl := List.mem_singleton.mp h
    refine ⟨by simp [calculateTokenCost], ?_, le_refl _⟩
    obtain ⟨resp, hresp⟩ := Option.isSome_iff_exists.mp (reply.answered hstatus)
    simp only [hresp, Option.bind_some, Option.get_some] at hreported ⊢
    cases husage : resp.usage with
    | none => exact le_refl _
    | some usage =>
      rw [husage] at hreported
      exact hreported
  · cases h

/-- **Every record is priced**: its cost is that of counts that are not negative. -/
theorem priced_of_mem_recordsOf {call : CallContext} {r : Request} {latency : Rat}
    {answers : Answers} (hreported : TokensNonneg (reportedTokens answers r)) :
    ∀ record ∈ recordsOf db call r latency answers,
      ∃ route, resolveCatalog db r.model = .ok route ∧ Priced route record := by
  intro record hrecord
  unfold recordsOf at hrecord
  cases r with
  | chat req =>
    have hcases := chatCompletion_cases (serviceWith db answers).toService req () call latency
    rcases hcases with ⟨route, resp, hdelivers⟩ | ⟨-, herror⟩
    · have hanswer : answers.whole = .ok resp := answer_of_delivers hdelivers
      simp only [reportedTokens, hanswer] at hreported
      exact ⟨route, resolveCatalog_of_resolveRoute hdelivers.route_eq,
        priced_of_delivers hdelivers hreported record hrecord⟩
    · obtain ⟨route, hroute, rfl⟩ := herror record hrecord
      exact ⟨route, resolveCatalog_of_resolveRoute hroute, priced_errorRecord ..⟩
  | stream req writer =>
    have hcases :=
      chatCompletionStream_cases (serviceWith db answers).toService req () call latency writer
    rcases hcases with ⟨route, source, hdelivers⟩ | ⟨-, herror⟩
    · have hanswer : answers.stream = .ok source := answer_of_delivers hdelivers
      simp only [reportedTokens, hanswer] at hreported
      exact ⟨route, resolveCatalog_of_resolveRoute hdelivers.route_eq,
        priced_of_delivers hdelivers hreported record hrecord⟩
    · obtain ⟨route, hroute, rfl⟩ := herror record hrecord
      exact ⟨route, resolveCatalog_of_resolveRoute hroute, priced_errorRecord ..⟩
  | embedding req =>
    simp only [EmbeddingService.handle, Outcome.summary] at hrecord
    unfold EmbeddingService.createEmbedding at hrecord
    cases hroute : (serviceWith db answers).toService.resolveRoute req.model () with
    | error e => simp [hroute] at hrecord
    | ok route =>
      refine ⟨route, resolveCatalog_of_resolveRoute hroute, ?_⟩
      simp only [hroute] at hrecord
      simp only [serviceWith] at hrecord
      cases hkey : answers.firstKey with
      | error e => simp [hkey] at hrecord
      | ok apiKey =>
        cases hreply : answers.embedding with
        | error e => simp [hkey, hreply] at hrecord
        | ok reply =>
          simp only [hkey, hreply] at hrecord
          simp only [reportedTokens, hreply] at hreported
          exact priced_of_mem_embedding hreported.1 hrecord

/-! ### Runs -/

/-- The prices in the database and the costs to be recorded are not negative. -/
structure Inv (s : State) : Prop where
  prices : ∀ m ∈ s.catalog.db.models, PricesNonneg m
  costs : ∀ r ∈ s.pending, 0 ≤ r.cost

theorem inv_start : Inv (start protector chainSpec) where
  prices := fun _ h => by cases h
  costs := fun _ h => by cases h

/-- The steps of `AddProviderKey` leave the models alone. -/
theorem models_advance {pool : Catalog.Pool} {r : Catalog.Request}
    {next : Catalog.Database × Catalog.Pool × Catalog.Request}
    (h : Catalog.advance protector db pool r = some next) : next.1.models = db.models := by
  rcases Catalog.advance_cases h with ⟨_, _, -, -, rfl⟩ | ⟨_, _, _, -, -, rfl⟩ | ⟨-, rfl⟩ |
    ⟨_, -, rfl⟩ | ⟨_, _, _, -, rfl⟩ <;> rfl

/-- Only `CreateModel` and `UpdateModel` change the table of models. -/
theorem models_cases {system catalog : Catalog.System} {a : Catalog.AdminAction}
    (hstep : Catalog.System.step protector chainSpec system a = some catalog) :
    catalog.db.models = system.db.models ∨
      (∃ row, a = .createModel row ∧
        catalog.db.models = system.db.models ++ [{ row with isActive := true }]) ∨
      ∃ id input output isActive, a = .updateModel id input output isActive ∧
        catalog.db = system.db.updateModel id input output isActive := by
  cases a with
  | createModel row =>
    obtain ⟨-, h⟩ := Option.ite_none_left_eq_some.mp hstep
    obtain rfl := Option.some.inj h
    exact Or.inr (Or.inl ⟨row, rfl, rfl⟩)
  | updateModel id input output isActive =>
    obtain ⟨-, h⟩ := Option.ite_none_left_eq_some.mp hstep
    obtain rfl := Option.some.inj h
    exact Or.inr (Or.inr ⟨id, input, output, isActive, rfl, rfl⟩)
  | createProvider id name baseURL =>
    obtain ⟨-, h⟩ := Option.ite_none_left_eq_some.mp hstep
    obtain rfl := Option.some.inj h
    exact Or.inl rfl
  | toggleProvider id isActive =>
    obtain ⟨-, h⟩ := Option.ite_none_left_eq_some.mp hstep
    obtain rfl := Option.some.inj h
    exact Or.inl rfl
  | addProviderKey input random =>
    obtain rfl := Option.some.inj hstep
    exact Or.inl rfl
  | advance i =>
    obtain ⟨addition, -, h⟩ := Option.bind_eq_some_iff.mp hstep
    obtain ⟨next, hnext, rfl⟩ := Option.map_eq_some_iff.mp h
    exact Or.inl (models_advance hnext)
  | begin isEmbedding publicName =>
    obtain rfl := Option.some.inj hstep
    exact Or.inl rfl
  | proceed j =>
    obtain ⟨r, -, h⟩ := Option.bind_eq_some_iff.mp hstep
    obtain ⟨next, -, rfl⟩ := Option.map_eq_some_iff.mp h
    exact Or.inl rfl
  | restart =>
    obtain rfl := Option.some.inj hstep
    exact Or.inl rfl

/-- A step of an admin leaves the prices as they are, or sets prices that are not
negative. -/
theorem prices_admin {catalog : Catalog.System} {a : Catalog.AdminAction} (h : Inv s)
    (hgood : Nonneg s (.admin a))
    (hstep : Catalog.System.step protector chainSpec s.catalog a = some catalog) :
    ∀ m ∈ catalog.db.models, PricesNonneg m := by
  intro m hm
  rcases models_cases hstep with hsame | ⟨row, rfl, hcreated⟩ |
    ⟨id, input, output, isActive, rfl, hupdated⟩
  · rw [hsame] at hm
    exact h.prices m hm
  · rw [hcreated] at hm
    rcases List.mem_append.mp hm with hold | hnew
    · exact h.prices m hold
    · rw [List.mem_singleton.mp hnew]
      exact hgood
  · rw [hupdated] at hm
    obtain ⟨m', hm', rfl⟩ := List.mem_map.mp hm
    obtain ⟨hin, hout⟩ := h.prices m' hm'
    split
    · refine ⟨?_, ?_⟩
      · cases input with
        | none => exact hin
        | some p => exact hgood.1 p rfl
      · cases output with
        | none => exact hout
        | some p => exact hgood.2 p rfl
    · exact ⟨hin, hout⟩

/-- **One step** keeps the invariant, and takes nothing off `balance_used`. -/
theorem step_inv {a : Action} (h : Inv s) (hgood : Nonneg s a)
    (hstep : step protector chainSpec s a = some s') :
    Inv s' ∧ ∀ user, s.used user ≤ s'.used user := by
  cases a with
  | admin a =>
    obtain ⟨catalog, hcatalog, rfl⟩ := Option.map_eq_some_iff.mp hstep
    exact ⟨⟨prices_admin h hgood hcatalog, h.costs⟩, fun _ => le_refl _⟩
  | request call r latency answers =>
    obtain rfl := Option.some.inj hstep
    refine ⟨⟨h.prices, fun record hrecord => ?_⟩, fun _ => le_refl _⟩
    rcases List.mem_append.mp hrecord with hold | hnew
    · exact h.costs record hold
    · obtain ⟨route, hroute, hcost, hprompt, hcompletion⟩ := priced_of_mem_recordsOf hgood record hnew
      obtain ⟨m, hm, hin, hout⟩ := prices_of_resolveCatalog hroute
      obtain ⟨hinput, houtput⟩ := h.prices m hm
      rw [hcost, hin, hout]
      exact calculateTokenCost_nonneg hinput houtput hprompt hcompletion
  | record i ok =>
    obtain ⟨r, hr, rfl⟩ := Option.map_eq_some_iff.mp hstep
    refine ⟨⟨h.prices, fun record hrecord => h.costs record (List.mem_of_mem_eraseIdx hrecord)⟩,
      fun user => ?_⟩
    have hcost := h.costs r (List.mem_of_getElem? hr)
    cases ok with
    | false => exact le_refl _
    | true =>
      simp only [if_true, Function.update_apply]
      split
      · rename_i huser
        rw [huser]
        linarith
      · exact le_refl _

/-- **The run lemma.** -/
theorem exec_inv {as : List Action}
    (hgood : Along (step protector chainSpec) Nonneg (start protector chainSpec) as)
    (hexec : exec (step protector chainSpec) (start protector chainSpec) as = some s) : Inv s :=
  exec_invariant (fun _ _ _ h hgood hstep => (step_inv h hgood hstep).1) inv_start hgood hexec

/-! ### Refunds -/

/-- A provider and a model with these prices. -/
def priced (inputPrice outputPrice : Rat) : List Action :=
  [.admin (.createProvider 1 (lit "openai") (lit "https://api.openai.com/v1")),
    .admin (.createModel ⟨1, lit "gpt-4o", 1, lit "gpt-4o", inputPrice, outputPrice, true⟩)]

/-- A stream of one line, and no other answers. -/
def streamOf (line : GoString) : Answers :=
  { nextKey := .ok (lit "sk")
    firstKey := .ok (lit "sk")
    registered := true
    whole := .error (lit "EOF")
    stream := .ok ⟨line ++ lit "\n", .eof, false⟩
    embedding := .error (lit "EOF") }

/-- User 1 asks for a stream, which is answered with this line, and it is recorded. -/
def streamed (line : GoString) : List Action :=
  [.request ⟨1, 1⟩ (.stream { model := lit "gpt-4o", messages := [], stream := true } []) 0 (streamOf line),
    .record 0 true]

/-- A report of a million prompt tokens. -/
def millionTokens : GoString :=
  lit "data: \x7b\"usage\":\x7b\"prompt_tokens\":1000000,\"completion_tokens\":0\x7d\x7d"

/-- A report of a million prompt tokens less than none. -/
def minusMillionTokens : GoString :=
  lit "data: \x7b\"usage\":\x7b\"prompt_tokens\":-1000000,\"completion_tokens\":0\x7d\x7d"

/-- A negative price gives money back, and so does a negative count. -/
theorem used_decreases :
    (∃ s, exec (step Catalog.plaintext []) (start Catalog.plaintext [])
        (priced (-1) 0 ++ streamed millionTokens) = some s ∧ s.used 1 < 0) ∧
      ∃ s, exec (step Catalog.plaintext []) (start Catalog.plaintext [])
        (priced 1 0 ++ streamed minusMillionTokens) = some s ∧ s.used 1 < 0 := by
  have hprice : (exec (step Catalog.plaintext []) (start Catalog.plaintext [])
      (priced (-1) 0 ++ streamed millionTokens)).any (fun s => decide (s.used 1 < 0)) = true := by
    decide +kernel
  have hcount : (exec (step Catalog.plaintext []) (start Catalog.plaintext [])
      (priced 1 0 ++ streamed minusMillionTokens)).any (fun s => decide (s.used 1 < 0)) = true := by
    decide +kernel
  obtain ⟨s, hs, hless⟩ := (Option.any_eq_true _ _).mp hprice
  obtain ⟨s', hs', hless'⟩ := (Option.any_eq_true _ _).mp hcount
  exact ⟨⟨s, hs, of_decide_eq_true hless⟩, ⟨s', hs', of_decide_eq_true hless'⟩⟩

/-- **Usage never refunds** while no negative price is set and no negative count is
reported: every cost to be recorded is at least zero, and no step takes anything off
`balance_used`. -/
theorem used_mono {as : List Action} {a : Action}
    (hgood : Along (step protector chainSpec) Nonneg (start protector chainSpec) (as ++ [a]))
    (hexec : exec (step protector chainSpec) (start protector chainSpec) as = some s)
    (hstep : step protector chainSpec s a = some s') :
    (∀ r ∈ s'.pending, 0 ≤ r.cost) ∧ ∀ user, s.used user ≤ s'.used user := by
  obtain ⟨hbefore, hlast⟩ := along_concat hgood hexec
  obtain ⟨hinv, hmono⟩ := step_inv (exec_inv hbefore hexec) hlast hstep
  exact ⟨hinv.costs, hmono⟩

theorem used_mono_millionTokens :
    ∃ s s', exec (step Catalog.plaintext []) (start Catalog.plaintext [])
        (priced 1 0 ++ (streamed millionTokens).dropLast) = some s ∧
      step Catalog.plaintext [] s (.record 0 true) = some s' ∧ s.used 1 ≤ s'.used 1 := by
  have hruns : ((exec (step Catalog.plaintext []) (start Catalog.plaintext [])
      (priced 1 0 ++ (streamed millionTokens).dropLast)).bind fun s =>
        step Catalog.plaintext [] s (.record 0 true)).isSome = true := by
    decide +kernel
  have hgood : Along (step Catalog.plaintext []) Nonneg (start Catalog.plaintext [])
      ((priced 1 0 ++ (streamed millionTokens).dropLast) ++ [.record 0 true]) := by
    decide +kernel
  obtain ⟨s', hs'⟩ := Option.isSome_iff_exists.mp hruns
  obtain ⟨s, hs, hstep⟩ := Option.bind_eq_some_iff.mp hs'
  exact ⟨s, s', hs, hstep, (used_mono hgood hs hstep).2 1⟩

end Refunds
end UniLLM.Inference
