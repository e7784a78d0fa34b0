import UniLLM.Inference.Credentials
import UniLLM.Inference.Wire

/-!
# The texts that go over the wire

A provider posts its request as the text of its format, and decodes the text of an answer with
status 200.  Retries and groups change neither: what a call returns in the end is what one of its
providers has decoded, or translated from an Anthropic message.
-/

namespace UniLLM.Provider
open Go OpenAI Inference

/-! ### What is posted -/

def Direct.format : Direct → Format
  | .openAI _ _ => .openAI
  | .anthropic _ => .anthropic
  | .google _ => .openAI

theorem Direct.posted_eq (p : Direct) (stream : Bool) (req : ChatCompletionRequest) :
    p.posted stream req = (p.format.body stream req).encode := by
  cases p <;> rfl

/-- **An upstream that speaks OpenAI reads the request that the provider was given.** -/
theorem Direct.posted_reads {p : Direct} (hp : p.format = .openAI) {req : ChatCompletionRequest}
    (h : ChatCompletionRequest.wire.Fits maxNestingDepth req) (stream : Bool) :
    ChatCompletionRequest.wire.decodeReader (p.posted stream req) =
      some { req with stream := stream } := by
  have hread := JsonType.decodeReader_marshal (fits_stream h stream)
  rw [JsonType.marshal, ChatCompletionRequest.wire_toJson] at hread
  rw [p.posted_eq, hp]
  exact hread

/-! ### What is answered -/

variable {http : Http} {env : Environment}

/-- The values of the answers are what their texts are decoded to. -/
def Environment.Decodes (env : Environment) : Prop :=
  ∀ n text resp, env.completion n = .answered 200 text (.ok resp) →
    ChatCompletionResponse.wire.decodeReader text = some resp

/-- The texts of a message are UTF-8 and its counts are machine integers, as `encoding/json` leaves
them; so are the inputs of its tools, which are taken as they come, and the sum of its counts. -/
structure Readable (ar : Anthropic.Response) : Prop where
  id : validString ar.id = true
  content : ∀ c ∈ ar.content, validString c.text = true ∧ validString c.id = true ∧
    validString c.name = true ∧ validString c.input = true
  inputTokens : InInt64 ar.usage.inputTokens
  outputTokens : InInt64 ar.usage.outputTokens
  totalTokens : InInt64 (ar.usage.inputTokens + ar.usage.outputTokens)

theorem validString_finishReason (stopReason : GoString) :
    validString (Anthropic.finishReason stopReason) = true := by
  unfold Anthropic.finishReason
  repeat' split
  all_goals decide

theorem textParts_valid {ar : Anthropic.Response} (h : Readable ar) :
    validString (Anthropic.textParts ar.content).flatten = true := by
  refine validString_flatten fun s hs => ?_
  obtain ⟨c, hc, rfl⟩ := List.mem_map.mp hs
  exact (h.content c (List.mem_of_mem_filter hc)).1

theorem toolCalls_fit {ar : Anthropic.Response} (h : Readable ar) {d : Nat} (hd : 2 ≤ d) :
    ∀ tc ∈ Anthropic.toolCalls ar.content, ToolCall.wire.Fits d tc := by
  intro tc htc
  obtain ⟨c, hc, rfl⟩ := List.mem_map.mp htc
  obtain ⟨-, hid, hname, hinput⟩ := h.content c (List.mem_of_mem_filter hc)
  have htype : validString (lit "function") = true := by decide
  have houter : 1 ≤ d := by omega
  have hinner : 1 ≤ d - 1 := by omega
  simp [ToolCall.wire, ToolCall.fields, FunctionCall.wire, FunctionCall.fields, hid, hname, hinput,
    htype, houter, hinner]

/-- The translation of a message can be read back. -/
theorem convertResponse_fits {ar : Anthropic.Response} (h : Readable ar) {created : Int}
    (hcreated : InInt64 created) {model : GoString} (hmodel : validString model = true) :
    ChatCompletionResponse.wire.Fits maxNestingDepth
      (Anthropic.convertResponse ar model created) := by
  have hcontent : ∀ d, JsonType.IsValue d
      (if Anthropic.textParts ar.content = [] then Json.null
      else Json.str (Anthropic.textParts ar.content).flatten) := by
    intro d
    split
    · exact JsonType.isValue_nil
    · exact JsonType.isValue_str.mpr (textParts_valid h)
  have htools : ∀ tc ∈ Anthropic.toolCalls ar.content,
      ToolCall.wire.Fits (maxNestingDepth - 1 - 1 - 1 - 1 - 1) tc := toolCalls_fit h (by decide)
  have hdetails : CompletionTokensDetails.wire.Fits (maxNestingDepth - 1 - 1) {} := by
    simp +decide [CompletionTokensDetails.wire, CompletionTokensDetails.fields]
  simp +decide [ChatCompletionResponse.wire, ChatCompletionResponse.fields, Choice.wire,
    Choice.fields, Message.wire, Message.fields, Usage.wire, Usage.fields,
    Anthropic.convertResponse, h.id, hcreated, hmodel, h.inputTokens, h.outputTokens, h.totalTokens,
    validString_finishReason, hcontent, hdetails]
  exact htools

/-- Decoded from an answer, or translated from an Anthropic message. -/
def FromUpstream (env : Environment) (resp : ChatCompletionResponse) : Prop :=
  (∃ n text, env.completion n = .answered 200 text (.ok resp)) ∨
    ∃ n text ar model k, env.message n = .answered 200 text (.ok ar) ∧
      resp = Anthropic.convertResponse ar model (env.now k / second)

section Exchange
variable {α : Type} {p : Direct} {apiKey model posted : GoString} {reply : Nat → Reply α} {w : Wire}

theorem exchange_eq_ok {value : α} (h : (exchange http p apiKey model posted reply w).1 = .ok value) :
    ∃ n text, reply n = .answered 200 text value := by
  unfold exchange at h
  split at h
  · cases h
  split at h
  · cases h
  simp only at h
  split at h
  · cases h
  · rename_i statusCode text decoded hreply
    by_cases hstatus : statusCode = 200
    · rw [if_neg (not_not_intro hstatus)] at h
      cases h
      exact ⟨w.ticks, text, hstatus ▸ hreply⟩
    · rw [if_pos hstatus] at h
      cases h

theorem decodeReply_eq_ok {answer : Except GoString (Except GoString α)} {value : α}
    (h : decodeReply answer = .ok value) : answer = .ok (.ok value) := by
  unfold decodeReply at h
  split at h
  · cases h
  · cases h
  · cases h
    rfl

end Exchange

section Calls
variable {apiKey : GoString} {req : ChatCompletionRequest} {resp : ChatCompletionResponse}

theorem Direct.fromUpstream {p : Direct} {w : Wire}
    (h : (p.chatCompletion http env apiKey req w).1 = .ok resp) : FromUpstream env resp := by
  unfold chatCompletion at h
  split at h
  · cases h
  split at h
  · -- an Anthropic message
    simp only at h
    cases hanswer : decodeReply
        (exchange http (.anthropic _) apiKey req.model _ env.message w).1 with
    | error e =>
      rw [hanswer] at h
      cases h
    | ok ar =>
      rw [hanswer] at h
      obtain ⟨n, text, hreply⟩ := exchange_eq_ok (decodeReply_eq_ok hanswer)
      exact .inr ⟨n, text, ar, req.model, _, hreply, (Except.ok.inj h).symm⟩
  · obtain ⟨n, text, hreply⟩ := exchange_eq_ok (decodeReply_eq_ok h)
    exact .inl ⟨n, text, hreply⟩

/-- The attempts end with a response that has some output. -/
theorem attempts_fromUpstream {p : Resilient} (left : Nat) {lastErr : GoString} {w : Wire}
    (h : (p.attempts http env apiKey req left lastErr w).1 = .ok resp) :
    FromUpstream env resp ∧ isEmptyOutput resp = false := by
  induction left generalizing lastErr w with
  | zero => cases h
  | succ left ih =>
    rw [Resilient.attempts] at h
    split at h
    · cases h
    · split at h
      · rename_i value w' hcall
        cases hempty : isEmptyOutput value with
        | true =>
          rw [hempty, if_pos rfl] at h
          exact ih h
        | false =>
          rw [hempty, if_neg Bool.false_ne_true] at h
          obtain rfl := Except.ok.inj h
          exact ⟨Direct.fromUpstream (congrArg Prod.fst hcall), hempty⟩
      · exact ih h

theorem Resilient.fromUpstream {p : Resilient} {w : Wire}
    (h : (p.chatCompletion http env apiKey req w).1 = .ok resp) :
    FromUpstream env resp ∧ isEmptyOutput resp = false := by
  unfold chatCompletion at h
  split at h
  · cases h
  · exact attempts_fromUpstream _ h

theorem tryAll_eq_ok {α : Type} {name lastErr : GoString}
    {method : Resilient → Wire → Except GoString α × Wire} {providers : List Resilient} {w : Wire}
    {value : α} (h : (tryAll name method providers lastErr w).1 = .ok value) :
    ∃ p ∈ providers, ∃ w', (method p w').1 = .ok value := by
  induction providers generalizing lastErr w with
  | nil => cases h
  | cons p providers ih =>
    rw [tryAll] at h
    split at h
    · rename_i value' w' hcall
      obtain rfl := Except.ok.inj h
      exact ⟨p, List.mem_cons_self, w, congrArg Prod.fst hcall⟩
    · obtain ⟨q, hq, w', hok⟩ := ih h
      exact ⟨q, List.mem_cons_of_mem p hq, w', hok⟩

theorem Fallback.fromUpstream {f : Fallback} {w : Wire}
    (h : (f.chatCompletion http env apiKey req w).1 = .ok resp) :
    FromUpstream env resp ∧ isEmptyOutput resp = false := by
  obtain ⟨p, -, w', hok⟩ := tryAll_eq_ok h
  exact Resilient.fromUpstream hok

/-- **What a registered provider returns** comes from upstream, and is not empty. -/
theorem chatProvider_fromUpstream {r : Registered} {s : Running}
    (h : ((chatProvider http env r).chatCompletion apiKey req s).1 = .ok resp) :
    FromUpstream env resp ∧ isEmptyOutput resp = false := by
  cases r with
  | resilient p => exact Resilient.fromUpstream h
  | fallback f => exact Fallback.fromUpstream h

end Calls

end UniLLM.Provider
