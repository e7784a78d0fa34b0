import UniLLM.Inference.StreamUsage
import UniLLM.Provider.ChunkLines

/-!
# What an Anthropic call costs

The same message may come whole or as a stream, and should be billed alike.  The
whole response reports input and output tokens.  The adapter's chunks report the
output tokens only: the input tokens are in `message_start`, which the event switch
skips.  So what a stream records is either the output tokens alone or the
estimate by size, and this module shows that neither is what the whole response
records.
-/

namespace UniLLM.Inference
open Go OpenAI Anthropic

/-- What is around a message: who calls, with which prompt, where the route leads. -/
structure Call where
  call : CallContext
  publicModel : GoString
  route : ModelRoute
  messages : List OpenAI.Message
  latency : Rat
  created : Int

/-- The chunk lines the adapter's translation emits for a message. -/
def chunkSource (model : GoString) (m : StreamedMessage) : Source :=
  { data := (m.events.map (translateEvent model)).flatMap Emission.render, fin := .eof }

/-- The tally of the loop over the streamed message. -/
def Call.tally (c : Call) (m : StreamedMessage) : Tally :=
  (scanLoop c.publicModel [] {}
    (scanLines maxScanTokenSize (chunkSource c.route.upstreamModel m)).1).2

/-- The records of the streamed message. -/
def Call.streamRecords (c : Call) (m : StreamedMessage) : List UsageRecord :=
  (relayStream c.call c.publicModel c.route c.messages [] c.latency
    (chunkSource c.route.upstreamModel m)).records

/-- The records of the message as one response. -/
def Call.wholeRecords (c : Call) (m : StreamedMessage) : List UsageRecord :=
  (finishResponse c.call c.publicModel c.route c.latency
    (convertResponse m.response c.route.upstreamModel c.created)).records

/-- What is billed: the token counts and the cost. -/
def UsageRecord.bill (r : UsageRecord) : Tokens × Rat :=
  (⟨r.promptTokens, r.completionTokens, r.totalTokens⟩, r.cost)

/-- The bill for these tokens. -/
def billOf (route : ModelRoute) (t : Tokens) : Tokens × Rat :=
  (t, calculateTokenCost route.inputPricePer1M route.outputPricePer1M t.promptTokens
    t.completionTokens)

/-- A stream is billed by what the loop keeps. -/
theorem relayStream_bill (call : CallContext) (publicModel : GoString) (route : ModelRoute)
    (messages : List OpenAI.Message) (writer : List WriterReply) (latency : Rat) (source : Source) :
    (relayStream call publicModel route messages writer latency source).records.map
        UsageRecord.bill =
      [billOf route ((scanLoop publicModel writer {}
        (scanLines maxScanTokenSize source).1).2.recorded messages)] := rfl

/-- A message is billed alike in every call. -/
def BilledAlike (m : StreamedMessage) : Prop :=
  ∀ c : Call, (c.streamRecords m).map UsageRecord.bill = (c.wholeRecords m).map UsageRecord.bill

/-! ### The whole response -/

/-- The tokens of a message. -/
def messageTokens (m : StreamedMessage) : Tokens :=
  ⟨m.usage.inputTokens, m.usage.outputTokens, m.usage.inputTokens + m.usage.outputTokens⟩

/-- A whole response is billed by its own counts. -/
theorem wholeRecords_bill (c : Call) (m : StreamedMessage) :
    (c.wholeRecords m).map UsageRecord.bill =
      [(messageTokens m, m.usage.inputTokens * c.route.inputPricePer1M / 1000000 +
        m.usage.outputTokens * c.route.outputPricePer1M / 1000000)] := rfl

/-! ### The chunks -/

/-- **Replacing the name in the text of a chunk is marshalling it with the other
name**, for plain names. -/
theorem replaceModelName_chunk {c : ChatCompletionResponse}
    {publicModel : GoString} (hc : IsChunk c)
    (hm : Plain c.model) (hp : Plain publicModel) :
    replaceModelName (lit "data: " ++ c.marshal) publicModel =
      lit "data: " ++ { c with model := publicModel }.marshal := by
  rw [dataLine_marshal hc hm, dataLine_marshal (c := { c with model := publicModel }) hc hp]
  generalize encodeFields ((lit "choices", Json.arr (c.choices.map Choice.toJson)) ::
    omitNil "usage" Usage.toJson c.usage) = tail
  have hindex : ∀ rest, index (lit "\"model\":\"")
      (chunkHead ++ (lit "\"model\":\"" ++ rest)) = some 60 :=
    fun _ => rfl
  have hdrop : ∀ rest, (chunkHead ++ (lit "\"model\":\"" ++ rest)).drop 69 = rest := fun _ => rfl
  have htake : ∀ rest, (chunkHead ++ (lit "\"model\":\"" ++ rest)).take 69 =
      chunkHead ++ lit "\"model\":\"" := fun _ => rfl
  have hquote : 0x22 ∉ c.model := fun h => (hm _ h).2.2 rfl
  have hstop : index (lit "\"") (c.model ++ 0x22 :: tail) = some c.model.length := by
    have hfirst : index (lit "\"") (0x22 :: tail) = some 0 := index_self_append [0x22] tail
    rw [show lit "\"" = [0x22] from by decide] at hfirst ⊢
    rw [index_append_of_not_mem hquote, hfirst]
    simp
  have hstart : 60 + (lit "\"model\":\"").length = 69 := by decide
  unfold replaceModelName
  rw [hindex]
  simp only [hstart, hdrop, hstop, htake]
  rw [← List.drop_drop, hdrop, List.drop_left]
  simp only [List.append_assoc]

/-- The usage of a chunk is read back from its line. -/
theorem extractStreamUsage_chunk {c : ChatCompletionResponse} (h : Survives c.toJson) :
    extractStreamUsage (lit "data: " ++ c.marshal) =
        ((decodeChunkUsage c.toJson).join).getD {} := by
  rw [extractStreamUsage, reportedUsage, trimPrefix_append, ChatCompletionResponse.marshal,
    parse_encode h.1 h.2]
  rfl

theorem floatToInt_inInt64 (x : Rat) : InInt64 (floatToInt x) := by
  unfold floatToInt
  generalize (if x < 0 then -(-x).floor else x.floor) = n
  by_cases hn : InInt64 n
  · simp [hn]
  · simp only [hn, if_false]
    decide

theorem decodeChunkUsage_textChunk (model text : GoString) :
    decodeChunkUsage (textChunk model text).toJson = some none := rfl

theorem decodeInt_intJson (old : Int) {n : Int} (hn : InInt64 n) :
    decodeInt old (intJson n) = some n := by
  rw [intJson, decodeInt, parseInt_formatInt hn]

theorem decodeChunkUsage_finished (model finishReason : GoString) {n : Int} (hn : InInt64 n) :
    decodeChunkUsage (finished model finishReason n).toJson = some (some ⟨0, n, 0⟩) := by
  have hzero : InInt64 0 := by decide
  have hfields : decodeFields decodeTokensField {} [(lit "prompt_tokens", intJson 0),
      (lit "completion_tokens", intJson n), (lit "total_tokens", intJson 0)] =
      some ⟨0, n, 0⟩ := by
    have h1 : setsField (lit "prompt_tokens") (lit "prompt_tokens") = true := by decide
    have h2 : setsField (lit "prompt_tokens") (lit "completion_tokens") = false := by decide
    have h3 : setsField (lit "completion_tokens") (lit "completion_tokens") = true := by decide
    have h4 : setsField (lit "prompt_tokens") (lit "total_tokens") = false := by decide
    have h5 : setsField (lit "completion_tokens") (lit "total_tokens") = false := by decide
    have h6 : setsField (lit "total_tokens") (lit "total_tokens") = true := by decide
    simp only [decodeFields, decodeTokensField, h1, h2, h3, h4, h5, h6, decodeInt_intJson _ hn,
      decodeInt_intJson _ hzero, Option.map_some, Option.bind_some, if_true, if_false,
      Bool.false_eq_true]
  have hobj : decodeUsage none (.obj [(lit "prompt_tokens", intJson 0),
      (lit "completion_tokens", intJson n), (lit "total_tokens", intJson 0)]) =
      some (some ⟨0, n, 0⟩) := by
    rw [decodeUsage, Option.getD_none, hfields, Option.map_some]
  have hskip : ∀ k ∈ [lit "id", lit "object", lit "created", lit "model", lit "choices"],
      setsField (lit "usage") k = false := by decide
  have husage : setsField (lit "usage") (lit "usage") = true := by decide
  simp only [List.forall_mem_cons] at hskip
  simp only [ChatCompletionResponse.toJson, finished, omitNil, Usage.toJson, List.cons_append,
    List.nil_append, List.append_nil, decodeChunkUsage, decodeFields, hskip, husage, hobj,
    Option.bind_some, if_true, if_false, Bool.false_eq_true]

/-! ### What a stream records -/

variable {c : Call} {m : StreamedMessage}

/-- The names of a call that can be put into JSON text as they are. -/
def Call.PlainNames (c : Call) : Prop := Plain c.route.upstreamModel ∧ Plain c.publicModel

/-- **Every chunk reports no input tokens and no total.** -/
theorem extractStreamUsage_messageChunk (hc : c.PlainNames) {chunk : ChatCompletionResponse}
    (h : MessageChunk c.route.upstreamModel m chunk) :
    (extractStreamUsage
        (replaceModelName (lit "data: " ++ chunk.marshal) c.publicModel)).promptTokens = 0 ∧
      (extractStreamUsage
        (replaceModelName (lit "data: " ++ chunk.marshal) c.publicModel)).totalTokens = 0 := by
  have hvalid := hc.2.validString
  rw [replaceModelName_chunk h.isChunk.1 (h.isChunk.2 ▸ hc.1) hc.2]
  rcases h with ⟨text, htext, rfl⟩ | rfl
  -- a chunk of text reports nothing, the last chunk its output tokens only
  · have hrename : { textChunk c.route.upstreamModel text with model := c.publicModel } =
        textChunk c.publicModel text := rfl
    rw [hrename, extractStreamUsage_chunk (textChunk_survives hvalid htext),
      decodeChunkUsage_textChunk]
    exact ⟨rfl, rfl⟩
  · have hrename : { finishChunk c.route.upstreamModel m.messageDelta with model := c.publicModel } =
        finished c.publicModel (streamFinishReason m.stopReason)
          (floatToInt (intJson m.usage.outputTokens).asFloat) := rfl
    rw [hrename, extractStreamUsage_chunk
      (finished_survives _ hvalid (validString_streamFinishReason _)),
      decodeChunkUsage_finished _ _ (floatToInt_inInt64 _)]
    exact ⟨rfl, rfl⟩

/-- A data line of the chunk source is a chunk. -/
theorem mem_lines_chunkSource (hc : c.PlainNames) {line : GoString}
    (h : line ∈ lines (chunkSource c.route.upstreamModel m).data) (hdata : isDataLine line = true) :
    ∃ chunk, MessageChunk c.route.upstreamModel m chunk ∧ line = lit "data: " ++ chunk.marshal := by
  have hclean : ∀ e ∈ m.events.map (translateEvent c.route.upstreamModel), e.IsClean := by
    intro e he
    cases e with
    | nothing => trivial
    | stop => trivial
    | chunk chunk =>
      have hvalid := hc.1.validString
      rcases events_emit he with ⟨text, htext, rfl⟩ | rfl
      · exact (textChunk_survives hvalid htext).1
      · exact (finished_survives _ hvalid (validString_streamFinishReason _)).1
  rw [chunkSource, lines_render hclean] at h
  obtain ⟨e, he, hline⟩ := List.mem_flatMap.mp h
  -- an emission is a line and a blank one; only a chunk's line is looked into
  have hempty : isDataLine [] = false := by decide
  cases e with
  | nothing => cases hline
  | stop =>
    have hdone : isDataLine (lit "data: [DONE]") = false := by decide
    rcases List.mem_pair.mp hline with rfl | rfl
    · rw [hdone] at hdata; cases hdata
    · rw [hempty] at hdata; cases hdata
  | chunk chunk =>
    rcases List.mem_pair.mp hline with rfl | rfl
    · exact ⟨chunk, events_emit he, rfl⟩
    · rw [hempty] at hdata; cases hdata

/-- The loop over the chunk source counts no input tokens and no total. -/
theorem tally_tokens (hc : c.PlainNames) :
    (c.tally m).tokens.promptTokens = 0 ∧ (c.tally m).tokens.totalTokens = 0 := by
  have hall : ∀ ls : List GoString, linesRead [] ls = ls := fun ls => by cases ls <;> rfl
  rw [Call.tally, scanLoop_tally, foldl_tokens, hall]
  cases hlast : ((scanLines maxScanTokenSize (chunkSource c.route.upstreamModel m)).1.filter
      (mentionsUsage c.publicModel)).getLast? with
  | none => exact ⟨rfl, rfl⟩
  | some line =>
    obtain ⟨hmem, hmention⟩ := List.mem_filter.mp (List.mem_of_getLast? hlast)
    have hline := (prefix_scanFrom [] _).subset hmem
    obtain ⟨chunk, hchunk, rfl⟩ :=
      mem_lines_chunkSource hc hline (Bool.and_eq_true_iff.mp hmention).1
    exact extractStreamUsage_messageChunk hc hchunk

/-- A call in which the estimate for the prompt is not the prompt's count is billed
differently. -/
theorem bill_ne_of_estimate_ne (hc : c.PlainNames)
    (hest : estimatePromptTokens c.messages ≠ m.usage.inputTokens) :
    (c.streamRecords m).map UsageRecord.bill ≠ (c.wholeRecords m).map UsageRecord.bill := by
  obtain ⟨hpt, htt⟩ := tally_tokens (m := m) hc
  intro h
  rw [wholeRecords_bill, Call.streamRecords, relayStream_bill, ← Call.tally] at h
  have htokens : (c.tally m).recorded c.messages = messageTokens m :=
    (Prod.mk.inj (List.singleton_inj.mp h)).1
  rw [Tally.recorded] at htokens
  split at htokens
  · exact hest (congrArg Tokens.promptTokens htokens)
  · rename_i hne
    have hI := congrArg Tokens.promptTokens htokens
    have hO := congrArg Tokens.completionTokens htokens
    have hT := congrArg Tokens.totalTokens htokens
    simp only [messageTokens] at hI hO hT
    exact hne ⟨hpt, by omega⟩

/-- A call with a prompt of `n` bytes. -/
def promptCall (n : Nat) : Call :=
  { call := ⟨1, 1⟩
    publicModel := lit "claude"
    route := ⟨lit "claude", lit "claude", lit "anthropic", [], 1, 1⟩
    messages := [{ role := lit "user", content := .str (List.replicate n 0x61) }]
    latency := 0
    created := 0 }

/-- For every message there is a call that is billed differently. -/
theorem exists_bill_ne (m : StreamedMessage) :
    ∃ c : Call, (c.streamRecords m).map UsageRecord.bill ≠
        (c.wholeRecords m).map UsageRecord.bill := by
  have hname : Plain (lit "claude") := by decide
  have hplain : ∀ n, (promptCall n).PlainNames := fun _ => ⟨hname, hname⟩
  have hshort : estimatePromptTokens (promptCall 0).messages = 1 := by decide
  have hlong : estimatePromptTokens (promptCall 4).messages = 2 := by decide
  -- two prompts with different estimates: one of them is wrong
  by_cases hI : m.usage.inputTokens = 1
  · exact ⟨promptCall 4, bill_ne_of_estimate_ne (hplain 4) (by rw [hlong, hI]; decide)⟩
  · exact ⟨promptCall 0, bill_ne_of_estimate_ne (hplain 0) (by rw [hshort]; exact fun h => hI h.symm)⟩

/-- A short answer: 9 tokens in, 4 out. -/
theorem not_billedAlike_short_answer :
    ¬ BilledAlike
      { id := lit "msg_1"
        blocks := [⟨.text (lit "Hello"), [lit "Hel", lit "lo"], by decide, by decide⟩]
        stopReason := lit "end_turn"
        usage := { inputTokens := 9, outputTokens := 4 } } := by
  intro h
  obtain ⟨c, hc⟩ := exists_bill_ne _
  exact hc (h c)

/-- **No message is billed alike.** -/
theorem not_billedAlike (m : StreamedMessage) : ¬ BilledAlike m := by
  intro h
  obtain ⟨c, hc⟩ := exists_bill_ne m
  exact hc (h c)

end UniLLM.Inference
