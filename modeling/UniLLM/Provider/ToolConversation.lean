import UniLLM.Provider.AnthropicConvert

/-!
# Conversations with tools

A response of the Anthropic API goes out as an OpenAI message.  The client sends the
message back, with the results of the tools, as the history of its next request, and the
history is translated again.  The two translations undo each other on responses that use
a tool: what upstream receives is what it had answered, with the texts joined.
-/

namespace UniLLM.Anthropic
open Go OpenAI

/-- A tool message of a client, with a string as its content. -/
structure ToolMessage where
  toolCallID : GoString
  content : GoString
  name : GoString := []
  toolCalls : List ToolCall := []

def ToolMessage.message (t : ToolMessage) : OpenAI.Message :=
  { role := lit "tool"
    content := .str t.content
    name := t.name
    toolCalls := t.toolCalls
    toolCallID := t.toolCallID }

/-- A response, and the results the client sends after it. -/
structure Turn where
  response : Response
  publicModel : GoString
  created : Int
  results : List ToolMessage

/-- The messages of a turn in the client's next request. -/
def Turn.sentBack (t : Turn) : List OpenAI.Message :=
  (convertResponse t.response t.publicModel t.created).choices.filterMap (·.message) ++
    t.results.map ToolMessage.message

/-- The response has a tool use block. -/
def Turn.UsesTool (t : Turn) : Prop := ∃ c ∈ t.response.content, c.type = lit "tool_use"

/-! ### What upstream should receive -/

/-- The texts of a response as one block, if there is any text. -/
def joinedText (cs : List Content) : List Content :=
  if (textParts cs).flatten = [] then []
  else [{ type := lit "text", text := (textParts cs).flatten }]

/-- The tool use blocks, with what such a block has. -/
def toolUses (cs : List Content) : List Content :=
  (cs.filter fun c => c.type = lit "tool_use").map fun c =>
    { type := lit "tool_use", id := c.id, name := c.name, input := c.input }

def ToolMessage.result (t : ToolMessage) : Message :=
  { role := lit "user"
    content := .blocks
      [{ type := lit "tool_result", toolUseID := t.toolCallID, content := t.content }] }

def Turn.history (t : Turn) : List Message :=
  { role := lit "assistant"
    content := .blocks (joinedText t.response.content ++ toolUses t.response.content) } ::
    t.results.map ToolMessage.result

/-! ### The round trip -/

/-- The message of a response, as `convertResponse` makes it. -/
def responseMessage (cs : List Content) : OpenAI.Message :=
  { role := lit "assistant"
    content := if textParts cs = [] then .null else .str (textParts cs).flatten
    toolCalls := toolCalls cs }

theorem Turn.sentBack_eq (t : Turn) :
    t.sentBack = responseMessage t.response.content :: t.results.map ToolMessage.message := rfl

/-- No text, and a text that is empty, are the same when they come back. -/
theorem contentToString_responseMessage (cs : List Content) :
    contentToString (responseMessage cs).content = (textParts cs).flatten := by
  unfold responseMessage
  by_cases h : textParts cs = []
  · simp [h, contentToString]
  · simp [h, contentToString]

/-- The blocks of a response come back. -/
theorem toolCallBlocks_responseMessage (cs : List Content) :
    toolCallBlocks (responseMessage cs) = joinedText cs ++ toolUses cs := by
  have htools : (responseMessage cs).toolCalls = toolCalls cs := rfl
  unfold toolCallBlocks
  rw [contentToString_responseMessage, htools, toolCalls, List.map_map]
  rfl

theorem Turn.UsesTool.toolCalls_ne_nil {t : Turn} (h : t.UsesTool) :
    toolCalls t.response.content ≠ [] := by
  obtain ⟨c, hc, htype⟩ := h
  have hmem : c ∈ t.response.content.filter fun c => c.type = lit "tool_use" :=
    List.mem_filter.mpr ⟨hc, by simpa using htype⟩
  intro hnil
  rw [toolCalls, List.map_eq_nil_iff] at hnil
  rw [hnil] at hmem
  cases hmem

theorem convertMessage_responseMessage {t : Turn} (h : t.UsesTool) :
    convertMessage (responseMessage t.response.content) =
      { role := lit "assistant"
        content := .blocks (joinedText t.response.content ++ toolUses t.response.content) } := by
  unfold convertMessage
  rw [if_pos ⟨rfl, h.toolCalls_ne_nil⟩, toolCallBlocks_responseMessage]
  rfl

theorem convertMessage_toolMessage (t : ToolMessage) : convertMessage t.message = t.result := by
  have hrole : t.message.role = lit "tool" := rfl
  unfold convertMessage
  rw [if_neg, if_pos hrole]
  · rfl
  · rw [hrole]
    exact fun h => absurd h.1 (by decide)

/-- One turn. -/
theorem convertMessages_sentBack {t : Turn} (h : t.UsesTool) :
    t.sentBack.map convertMessage = t.history := by
  have hresults : t.results.map (convertMessage ∘ ToolMessage.message) =
      t.results.map ToolMessage.result :=
    List.map_congr_left fun r _ => convertMessage_toolMessage r
  rw [Turn.sentBack_eq, Turn.history, List.map_cons, convertMessage_responseMessage h, List.map_map,
    hresults]

/-- There are no system messages in a turn. -/
theorem Turn.role_ne_system (t : Turn) : ∀ msg ∈ t.sentBack, msg.role ≠ lit "system" := by
  rw [Turn.sentBack_eq]
  intro msg hmsg
  rcases List.mem_cons.mp hmsg with rfl | hmsg
  · show lit "assistant" ≠ lit "system"
    decide
  · obtain ⟨r, -, rfl⟩ := List.mem_map.mp hmsg
    show lit "tool" ≠ lit "system"
    decide

/-- **Conversations with tools survive the round trip.** -/
theorem convertRequest_sentBack (req : ChatCompletionRequest) {turns : List Turn}
    (h : ∀ t ∈ turns, t.UsesTool) :
    (convertRequest { req with messages := turns.flatMap Turn.sentBack }).messages =
      turns.flatMap Turn.history := by
  have hnone : ∀ msg ∈ turns.flatMap Turn.sentBack, msg.role ≠ lit "system" := by
    intro msg hmsg
    obtain ⟨t, -, hmem⟩ := List.mem_flatMap.mp hmsg
    exact t.role_ne_system msg hmem
  calc (convertRequest { req with messages := turns.flatMap Turn.sentBack }).messages
      = (convertMessages (turns.flatMap Turn.sentBack) []).2 := rfl
    _ = (turns.flatMap Turn.sentBack).map convertMessage := by
        rw [convertMessages_snd, List.filter_eq_self.mpr]
        simpa using hnone
    _ = turns.flatMap fun t => t.sentBack.map convertMessage := List.map_flatMap
    _ = turns.flatMap Turn.history := List.flatMap_congr fun t ht => convertMessages_sentBack (h t ht)

/-- A response with two texts around a tool use, and the tool's result. -/
def weatherTurn : Turn where
  response :=
    { id := lit "msg_1"
      content :=
        [{ type := lit "text", text := lit "I look " },
         { type := lit "tool_use", id := lit "toolu_1", name := lit "weather",
           input := lit "\x7b\"city\": \"Bern\"\x7d" },
         { type := lit "text", text := lit "it up." }]
      stopReason := lit "tool_use"
      usage := { inputTokens := 10, outputTokens := 5 } }
  publicModel := lit "claude"
  created := 0
  results := [{ toolCallID := lit "toolu_1", content := lit "rain" }]

theorem convertRequest_sentBack_weatherTurn :
    (convertRequest { model := lit "claude", messages := [weatherTurn].flatMap Turn.sentBack }).messages =
      [weatherTurn].flatMap Turn.history := by
  refine convertRequest_sentBack { model := lit "claude", messages := [] } fun t ht => ?_
  obtain rfl := List.mem_singleton.mp ht
  exact ⟨_, List.mem_cons_of_mem _ List.mem_cons_self, rfl⟩

end UniLLM.Anthropic
