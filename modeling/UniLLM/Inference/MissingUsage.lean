import UniLLM.Inference.StreamUsage

/-!
# Completions without usage

An upstream may leave out the usage of a completion, report zeros, or report one count of
the two.  The stream loop estimates both counts by size when it has neither.  A whole
completion is recorded with what its response says, so it is free when that is nothing;
and half a report is taken for a whole one in either way.
-/

namespace UniLLM.Inference
open Go OpenAI

/-! ### What a successful call gets -/

/-- What comes from the upstream. -/
inductive Delivery where
  | whole (resp : ChatCompletionResponse)
  /-- With what the writer answers to the lines. -/
  | stream (source : Source) (writer : List WriterReply)

variable {W : Type}

/-- The call is successful, and gets this. -/
def Service.Delivers (s : Service W) (req : ChatCompletionRequest) (w : W) (route : ModelRoute)
    (d : Delivery) : Prop :=
  ∃ p key w₁ w₂, s.resolveRoute req.model w = .ok route ∧
    s.getProvider route.providerName = .ok p ∧
    s.nextKey route.providerName w = (.ok key, w₁) ∧
    match d with
    | .whole resp =>
      p.chatCompletion key (prepareChatRequest req.model req route) w₁ = (.ok resp, w₂)
    | .stream source _ =>
      p.chatCompletionStream key (prepareChatRequest req.model req route) w₁ = (.ok source, w₂)

/-- What the call returns and records, whole or streamed. -/
def Service.complete (s : Service W) (call : CallContext) (req : ChatCompletionRequest)
    (latency : Rat) (w : W) : Delivery → Except InferenceError Unit × List UsageRecord
  | .whole _ =>
    ((s.chatCompletion call req latency w).1.result.map fun _ => (),
      (s.chatCompletion call req latency w).1.records)
  | .stream _ writer =>
    ((s.chatCompletionStream call req writer latency w).1.result.map fun _ => (),
      (s.chatCompletionStream call req writer latency w).1.records)

/-- The usage the upstream reported, as far as it counts: zeros if there is none. -/
def Delivery.reported (publicModel : GoString) : Delivery → Tokens
  | .whole resp => responseTokens resp.usage
  | .stream source writer =>
    match ((linesRead writer (scanLines maxScanTokenSize source).1).filter
        (mentionsUsage publicModel)).getLast? with
    | some line => extractStreamUsage (replaceModelName line publicModel)
    | none => {}

/-- The bytes of content in a line. -/
def lineContent (publicModel line : GoString) : Nat :=
  if isDataLine line then extractContentLength (replaceModelName line publicModel) else 0

/-- The bytes of content the upstream delivered. -/
def Delivery.contentBytes (publicModel : GoString) : Delivery → Nat
  | .whole resp =>
    match resp.choices with
    | [] => 0
    | choice :: _ =>
      match choice.message with
      | none => 0
      | some message =>
        match message.content with
        | .str content => content.length
        | _ => 0
  | .stream source writer =>
    ((linesRead writer (scanLines maxScanTokenSize source).1).map (lineContent publicModel)).sum

/-- There is one record, with a prompt and a completion; and without a report they are
estimated. -/
structure Charged (publicModel : GoString) (messages : List Message) (d : Delivery)
    (records : List UsageRecord) : Prop where
  charged : ∃ r, records = [r] ∧ 1 ≤ r.promptTokens ∧ 1 ≤ r.completionTokens
  estimated : ¬ (d.reported publicModel).IsNonzero → ∃ r, records = [r] ∧
    (⟨r.promptTokens, r.completionTokens, r.totalTokens⟩ : Tokens) =
      estimateTokens messages (d.contentBytes publicModel)

/-- The report has both counts, or, for a stream, neither. -/
def Delivery.ReportsAll (publicModel : GoString) (d : Delivery) : Prop :=
  (1 ≤ (d.reported publicModel).promptTokens ∧ 1 ≤ (d.reported publicModel).completionTokens) ∨
    match d with
    | .whole _ => False
    | .stream _ _ => ¬ (d.reported publicModel).IsNonzero

/-! ### What it records -/

variable {s : Service W} {req : ChatCompletionRequest} {w : W} {call : CallContext} {latency : Rat}

theorem Service.Delivers.route_eq {route : ModelRoute} {d : Delivery}
    (h : s.Delivers req w route d) : s.resolveRoute req.model w = .ok route := by
  obtain ⟨p, key, w₁, w₂, hroute, -⟩ := h
  exact hroute

variable (s req w call latency) in
/-- **A whole completion** gets what upstream delivers, or it fails and records at most that
upstream did. -/
theorem chatCompletion_cases :
    (∃ route resp, s.Delivers req w route (.whole resp)) ∨
      ((∃ e, (s.chatCompletion call req latency w).1.result = .error e) ∧
        ∀ record ∈ (s.chatCompletion call req latency w).1.records, ∃ route,
          s.resolveRoute req.model w = .ok route ∧
            record = errorRecord call req.model route latency false) := by
  unfold Service.chatCompletion
  cases hroute : s.resolveRoute req.model w with
  | error e => simp
  | ok route =>
    cases hprovider : s.getProvider route.providerName with
    | error e => simp [hprovider]
    | ok p =>
      rcases hkey : s.nextKey route.providerName w with ⟨e | key, w₁⟩
      · simp [hprovider, hkey]
      · rcases hresp : p.chatCompletion key (prepareChatRequest req.model req route) w₁ with
          ⟨e | resp, w₂⟩
        · simp [hprovider, hkey, hresp]
        · exact Or.inl ⟨route, resp, p, key, w₁, w₂, hroute, hprovider, hkey, hresp⟩

variable (s req w call latency) in
/-- A stream likewise. -/
theorem chatCompletionStream_cases (writer : List WriterReply) :
    (∃ route source, s.Delivers req w route (.stream source writer)) ∨
      ((∃ e, (s.chatCompletionStream call req writer latency w).1.result = .error e) ∧
        ∀ record ∈ (s.chatCompletionStream call req writer latency w).1.records, ∃ route,
          s.resolveRoute req.model w = .ok route ∧
            record = errorRecord call req.model route latency true) := by
  unfold Service.chatCompletionStream
  cases hroute : s.resolveRoute req.model w with
  | error e => simp
  | ok route =>
    cases hprovider : s.getProvider route.providerName with
    | error e => simp [hprovider]
    | ok p =>
      rcases hkey : s.nextKey route.providerName w with ⟨e | key, w₁⟩
      · simp [hprovider, hkey]
      · rcases hopen : p.chatCompletionStream key (prepareChatRequest req.model req route) w₁ with
          ⟨e | source, w₂⟩
        · simp [hprovider, hkey, hopen]
        · exact Or.inl ⟨route, source, p, key, w₁, w₂, hroute, hprovider, hkey, hopen⟩

/-- Every successful call is one that gets something. -/
theorem exists_delivers_of_ok {d : Delivery} (h : (s.complete call req latency w d).1 = .ok ()) :
    ∃ route, match d with
      | .whole _ => ∃ resp, s.Delivers req w route (.whole resp)
      | .stream _ writer => ∃ source, s.Delivers req w route (.stream source writer) := by
  cases d with
  | whole resp =>
    rcases chatCompletion_cases s req w call latency with hdelivers | ⟨⟨e, he⟩, -⟩
    · exact hdelivers
    · simp [Service.complete, he, Except.map] at h
  | stream source writer =>
    rcases chatCompletionStream_cases s req w call latency writer with hdelivers | ⟨⟨e, he⟩, -⟩
    · exact hdelivers
    · simp [Service.complete, he, Except.map] at h

/-- The tokens a successful call records. -/
def Delivery.recorded (publicModel : GoString) (messages : List Message) (d : Delivery) : Tokens :=
  match d with
  | .whole _ => d.reported publicModel
  | .stream _ _ =>
    if (d.reported publicModel).IsNonzero then d.reported publicModel
    else estimateTokens messages (d.contentBytes publicModel)

theorem foldl_contentChars (publicModel : GoString) (t : Tally) (ls : List GoString) :
    (ls.foldl (Tally.add publicModel) t).contentChars =
      t.contentChars + (ls.map (lineContent publicModel)).sum := by
  induction ls generalizing t with
  | nil => rfl
  | cons line ls ih =>
    have hadd : (t.add publicModel line).contentChars =
        t.contentChars + lineContent publicModel line := by
      unfold Tally.add lineContent
      split <;> rfl
    rw [List.foldl_cons, ih, hadd, List.map_cons, List.sum_cons, Nat.add_assoc]

/-- The stream loop estimates when there is nothing to record. -/
theorem estimate_eq_recorded (t estimate : Tokens) :
    (if t.promptTokens = 0 ∧ t.completionTokens = 0 then estimate else t) =
      if t.IsNonzero then t else estimate := by
  by_cases hprompt : t.promptTokens = 0 <;> by_cases hcompletion : t.completionTokens = 0 <;>
    simp [Tokens.IsNonzero, hprompt, hcompletion]

variable (call latency) in
/-- **What a successful call records**: one record, with what the upstream reported, but
for a stream that reported nothing. -/
theorem records_of_delivers {route : ModelRoute} {d : Delivery} (h : s.Delivers req w route d) :
    ∃ r, (s.complete call req latency w d).2 = [r] ∧
      (⟨r.promptTokens, r.completionTokens, r.totalTokens⟩ : Tokens) =
        d.recorded req.model req.messages := by
  obtain ⟨p, key, w₁, w₂, hroute, hprovider, hkey, hdelivered⟩ := h
  cases d with
  | whole resp =>
    simp only [Service.complete, Service.chatCompletion, hroute, hprovider, hkey, hdelivered]
    exact ⟨_, rfl, rfl⟩
  | stream source writer =>
    simp only [Service.complete, Service.chatCompletionStream, hroute, hprovider, hkey, hdelivered]
    refine ⟨_, rfl, ?_⟩
    have htokens := foldl_tokens req.model {}
      (linesRead writer (scanLines maxScanTokenSize source).1)
    have hchars := foldl_contentChars req.model {}
      (linesRead writer (scanLines maxScanTokenSize source).1)
    rw [Nat.zero_add] at hchars
    show (scanLoop req.model writer {} (scanLines maxScanTokenSize source).1).2.recorded
      req.messages = _
    rw [scanLoop_tally, Tally.recorded, htokens, hchars]
    simp only [Delivery.recorded, Delivery.contentBytes]
    exact estimate_eq_recorded _ _

theorem estimateTokens_positive (messages : List Message) (n : Nat) :
    1 ≤ (estimateTokens messages n).promptTokens ∧
      1 ≤ (estimateTokens messages n).completionTokens :=
  ⟨le_max_left _ _, le_max_left _ _⟩

/-! ### No completion is free -/

/-- One key, and an upstream that answers without usage. -/
def silentUpstream : Service Unit :=
  { resolveModel := fun name _ => .ok ⟨name, name, lit "openai", [], 1, 1⟩
    nextKey := fun _ w => (.ok (lit "sk"), w)
    registry := fun _ => some
      { name := lit "openai"
        chatCompletion := fun _ _ w => (.ok
          { object := lit "chat.completion"
            model := lit "gpt-4o"
            choices := [{ message := some { content := .str (lit "Hello!") } }] }, w)
        chatCompletionStream := fun _ _ w => (.ok ⟨[], .eof, false⟩, w) } }

/-- A greeting is answered, and nothing is charged. -/
theorem not_charged_silentUpstream :
    ∃ (req : ChatCompletionRequest) (resp : ChatCompletionResponse),
      req.messages ≠ [] ∧ (Delivery.whole resp).contentBytes req.model ≠ 0 ∧
        (∃ route, silentUpstream.Delivers req () route (.whole resp)) ∧
        ¬ Charged req.model req.messages (.whole resp)
          (silentUpstream.complete ⟨1, 1⟩ req 0 () (.whole resp)).2 := by
  refine ⟨{ model := lit "gpt-4o", messages := [{ role := lit "user", content := .str (lit "Hi") }] },
    _, by simp, ?_, ⟨_, _, _, _, _, rfl, rfl, rfl, rfl⟩, ?_⟩
  · decide
  · rintro ⟨⟨r, hr, hprompt, -⟩, -⟩
    obtain rfl := List.singleton_inj.mp hr
    exact absurd hprompt (by decide)

/-- **When no completion is free.**  For a successful call: exactly when the upstream
reports both counts or, for a stream, neither of the two. -/
theorem charged_iff {route : ModelRoute} {d : Delivery} (h : s.Delivers req w route d)
    (call : CallContext) (latency : Rat) :
    Charged req.model req.messages d (s.complete call req latency w d).2 ↔
      d.ReportsAll req.model := by
  obtain ⟨r, hrecords, htokens⟩ := records_of_delivers call latency h
  have hprompt : r.promptTokens = (d.recorded req.model req.messages).promptTokens :=
    congrArg Tokens.promptTokens htokens
  have hcompletion : r.completionTokens = (d.recorded req.model req.messages).completionTokens :=
    congrArg Tokens.completionTokens htokens
  rw [hrecords]
  constructor
  · rintro ⟨⟨r', hr', hp, hc⟩, -⟩
    obtain rfl := List.singleton_inj.mp hr'
    rw [hprompt] at hp
    rw [hcompletion] at hc
    cases d with
    | whole resp => exact Or.inl ⟨hp, hc⟩
    | stream source writer =>
      by_cases hnonzero : ((Delivery.stream source writer).reported req.model).IsNonzero
      · rw [Delivery.recorded, if_pos hnonzero] at hp hc
        exact Or.inl ⟨hp, hc⟩
      · exact Or.inr hnonzero
  · intro hall
    rcases hall with ⟨hp, hc⟩ | hnone
    · -- both counts, so they are recorded and there is nothing to estimate
      have hnonzero : (d.reported req.model).IsNonzero := Or.inl (by omega)
      have hsame : d.recorded req.model req.messages = d.reported req.model := by
        cases d with
        | whole resp => rfl
        | stream source writer => exact if_pos hnonzero
      rw [hsame] at hprompt hcompletion
      exact ⟨⟨r, rfl, by rw [hprompt]; exact hp, by rw [hcompletion]; exact hc⟩,
        fun hzero => absurd hnonzero hzero⟩
    · cases d with
      | whole resp => exact absurd hnone id
      | stream source writer =>
        have hestimate : (Delivery.stream source writer).recorded req.model req.messages =
            estimateTokens req.messages
              ((Delivery.stream source writer).contentBytes req.model) := if_neg hnone
        rw [hestimate] at hprompt hcompletion htokens
        obtain ⟨hp, hc⟩ := estimateTokens_positive req.messages
          ((Delivery.stream source writer).contentBytes req.model)
        exact ⟨⟨r, rfl, by rw [hprompt]; exact hp, by rw [hcompletion]; exact hc⟩,
          fun _ => ⟨r, rfl, htokens⟩⟩

/-- An upstream that answers with a response or a stream of its own. -/
def greetingUpstream (resp : ChatCompletionResponse) (source : Source) : Service Unit :=
  { resolveModel := fun name _ => .ok ⟨name, name, lit "openai", [], 1, 1⟩
    nextKey := fun _ w => (.ok (lit "sk"), w)
    registry := fun _ => some
      { name := lit "openai"
        chatCompletion := fun _ _ w => (.ok resp, w)
        chatCompletionStream := fun _ _ w => (.ok source, w) } }

/-- A greeting and its usage. -/
def countedHello : ChatCompletionResponse :=
  { object := lit "chat.completion"
    model := lit "gpt-4o"
    choices := [{ message := some { content := .str (lit "Hello!") } }]
    usage := some { promptTokens := 9, completionTokens := 2, totalTokens := 11 } }

/-- A greeting in two chunks, and nothing about usage. -/
def uncountedHello : Source :=
  ⟨lit "data: \x7b\"choices\":[\x7b\"delta\":\x7b\"content\":\"Hel\"\x7d\x7d]\x7d\n\n" ++
    lit "data: \x7b\"choices\":[\x7b\"delta\":\x7b\"content\":\"lo!\"\x7d\x7d]\x7d\n\n" ++
    lit "data: [DONE]\n\n", .eof, false⟩

def greetingRequest : ChatCompletionRequest :=
  { model := lit "gpt-4o", messages := [{ role := lit "user", content := .str (lit "Hi") }] }

/-- The greeting is charged, whole and streamed. -/
theorem charged_iff_hello :
    (Delivery.whole countedHello).contentBytes greetingRequest.model = 6 ∧
      (Delivery.stream uncountedHello []).contentBytes greetingRequest.model = 6 ∧
      Charged greetingRequest.model greetingRequest.messages (.whole countedHello)
        ((greetingUpstream countedHello uncountedHello).complete ⟨1, 1⟩ greetingRequest 0 ()
          (.whole countedHello)).2 ∧
      Charged greetingRequest.model greetingRequest.messages (.stream uncountedHello [])
        ((greetingUpstream countedHello uncountedHello).complete ⟨1, 1⟩ greetingRequest 0 ()
          (.stream uncountedHello [])).2 := by
  refine ⟨by decide, by decide +kernel, ?_, ?_⟩
  · refine (charged_iff ⟨_, _, _, _, rfl, rfl, rfl, rfl⟩ ⟨1, 1⟩ 0).mpr (.inl ?_)
    decide
  · refine (charged_iff ⟨_, _, _, _, rfl, rfl, rfl, rfl⟩ ⟨1, 1⟩ 0).mpr (.inr ?_)
    decide +kernel

end UniLLM.Inference
