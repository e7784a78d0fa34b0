import UniLLM.Provider.StreamAdapter

/-!
# The same message, streamed and whole

The upstream sends an assistant message as a sequence of events: the text or the
input of each block comes in pieces, cut anywhere, between a start and a stop.
Here a message is put into events, the events go through the adapter's
translation, and the chunks are put together the way an OpenAI client does.  The
result is compared with what `convertResponse` makes of the same message.
-/

namespace UniLLM.Anthropic
open Go OpenAI

/-! ### Messages as events -/

/-- A block of an assistant message. -/
inductive Block where
  | text (s : GoString)
  /-- The input is its JSON text. -/
  | toolUse (id name input : GoString)

/-- The block as the whole response has it. -/
def Block.content : Block → Content
  | .text s => { type := lit "text", text := s }
  | .toolUse id name input => { type := lit "tool_use", id := id, name := name, input := input }

/-- What comes in pieces. -/
def Block.payload : Block → GoString
  | .text s => s
  | .toolUse _ _ input => input

def Block.isText : Block → Bool
  | .text _ => true
  | .toolUse .. => false

/-- A block and the pieces it is sent in.  A piece is a JSON string, so it has whole
runes. -/
structure StreamedBlock where
  block : Block
  pieces : List GoString
  valid : ∀ piece ∈ pieces, validString piece = true
  joined : pieces.flatten = block.payload

/-- A message and how its blocks are cut. -/
structure StreamedMessage where
  id : GoString
  blocks : List StreamedBlock
  stopReason : GoString
  usage : Usage

/-- The message as one response. -/
def StreamedMessage.response (m : StreamedMessage) : Response :=
  { id := m.id
    content := m.blocks.map (·.block.content)
    stopReason := m.stopReason
    usage := m.usage }

/-- A member whose value is a string literal. -/
def tag (name value : String) : GoString × Json := (lit name, .str (lit value))

/-- The block as its start announces it. -/
def Block.announced : Block → Json
  | .text _ => .obj [tag "type" "text", (lit "text", .str [])]
  | .toolUse id name _ =>
    .obj [tag "type" "tool_use", (lit "id", .str id), (lit "name", .str name), (lit "input", .obj [])]

/-- The delta that carries a piece. -/
def Block.delta (b : Block) (piece : GoString) : Json :=
  match b with
  | .text _ => .obj [tag "type" "text_delta", (lit "text", .str piece)]
  | .toolUse .. => .obj [tag "type" "input_json_delta", (lit "partial_json", .str piece)]

/-- The events of the block with index `i`. -/
def StreamedBlock.events (b : StreamedBlock) (i : Nat) : List (List (GoString × Json)) :=
  [[tag "type" "content_block_start", (lit "index", intJson i),
      (lit "content_block", b.block.announced)]] ++
    b.pieces.map (fun piece =>
      [tag "type" "content_block_delta", (lit "index", intJson i),
        (lit "delta", b.block.delta piece)]) ++
    [[tag "type" "content_block_stop", (lit "index", intJson i)]]

/-- The first event, with the input tokens. -/
def StreamedMessage.start (m : StreamedMessage) : List (GoString × Json) :=
  [tag "type" "message_start",
    (lit "message", .obj
      [(lit "id", .str m.id), tag "type" "message", tag "role" "assistant", (lit "content", .arr []),
        (lit "stop_reason", .null),
        (lit "usage", .obj [(lit "input_tokens", intJson m.usage.inputTokens)])])]

/-- The last event but one, with the stop reason and the output tokens. -/
def StreamedMessage.messageDelta (m : StreamedMessage) : List (GoString × Json) :=
  [tag "type" "message_delta",
    (lit "delta", .obj [(lit "stop_reason", .str m.stopReason), (lit "stop_sequence", .null)]),
    (lit "usage", .obj [(lit "output_tokens", intJson m.usage.outputTokens)])]

/-- The events of a message. -/
def StreamedMessage.events (m : StreamedMessage) : List (List (GoString × Json)) :=
  [m.start] ++ (m.blocks.zipIdx.flatMap fun b => b.1.events b.2) ++
    [m.messageDelta, [tag "type" "message_stop"]]

/-! ### Putting chunks together -/

/-- What a client has of a message. -/
structure Accumulated where
  content : GoString := []
  toolCalls : List ToolCall := []
  finishReason : GoString := []

/-- A tool call with an id is a new one; without, its arguments belong to the last. -/
def mergeToolCall (calls : List ToolCall) (delta : ToolCall) : List ToolCall :=
  match delta.id, calls.getLast? with
  | [], some last =>
    calls.dropLast ++
      [{ last with function :=
          { last.function with arguments := last.function.arguments ++ delta.function.arguments } }]
  | _, _ => calls ++ [delta]

/-- Adds a choice of a chunk. -/
def Accumulated.addChoice (acc : Accumulated) (choice : Choice) : Accumulated :=
  { content := acc.content ++ (choice.delta.map fun d => contentToString d.content).getD []
    toolCalls := ((choice.delta.map (·.toolCalls)).getD []).foldl mergeToolCall acc.toolCalls
    finishReason := if choice.finishReason = [] then acc.finishReason else choice.finishReason }

/-- Adds the emission of an event. -/
def Accumulated.add (acc : Accumulated) : Emission → Accumulated
  | .chunk c => c.choices.foldl Accumulated.addChoice acc
  | _ => acc

/-- What a client makes of the chunks the adapter emits for a message. -/
def StreamedMessage.accumulated (m : StreamedMessage) (model : GoString) : Accumulated :=
  (m.events.map (translateEvent model)).foldl Accumulated.add {}

/-- What a response carries. -/
def ofResponse (resp : ChatCompletionResponse) : Accumulated :=
  match resp.choices with
  | [] => {}
  | choice :: _ =>
    { content := (choice.message.map fun msg => contentToString msg.content).getD []
      toolCalls := (choice.message.map (·.toolCalls)).getD []
      finishReason := choice.finishReason }

/-- Both ways deliver the same message. -/
def StreamedMessage.SameEitherWay (m : StreamedMessage) (model publicModel : GoString)
    (created : Int) : Prop :=
  m.accumulated model = ofResponse (convertResponse m.response publicModel created)

/-! ### The events of a block -/

variable (model : GoString)

theorem translateEvent_blockStart (i : Nat) (b : Json) :
    translateEvent model [tag "type" "content_block_start", (lit "index", intJson i),
      (lit "content_block", b)] = .nothing := rfl

theorem translateEvent_blockStop (i : Nat) :
    translateEvent model [tag "type" "content_block_stop", (lit "index", intJson i)] = .nothing :=
      rfl

theorem translateEvent_textDelta (i : Nat) (s piece : GoString) :
    translateEvent model [tag "type" "content_block_delta", (lit "index", intJson i),
      (lit "delta", (Block.text s).delta piece)] = .chunk (textChunk model piece) := rfl

theorem translateEvent_inputDelta (i : Nat) (id name input piece : GoString) :
    translateEvent model [tag "type" "content_block_delta", (lit "index", intJson i),
      (lit "delta", (Block.toolUse id name input).delta piece)] = .nothing := rfl

theorem add_textChunk (acc : Accumulated) (piece : GoString) :
    acc.add (.chunk (textChunk model piece)) = { acc with content := acc.content ++ piece } := rfl

theorem foldl_textChunks (acc : Accumulated) (pieces : List GoString) :
    (pieces.map fun piece => Emission.chunk (textChunk model piece)).foldl Accumulated.add acc =
      { acc with content := acc.content ++ pieces.flatten } := by
  induction pieces generalizing acc with
  | nil => simp
  | cons piece pieces ih =>
    rw [List.map_cons, List.foldl_cons, add_textChunk, ih]
    simp

theorem foldl_nothing (acc : Accumulated) (pieces : List GoString) :
    (pieces.map fun _ => Emission.nothing).foldl Accumulated.add acc = acc := by
  induction pieces with
  | nil => rfl
  | cons piece pieces ih => exact ih

/-- **A block.**  Text arrives whole, however it is cut; of a tool use nothing does. -/
theorem foldl_blockEvents (acc : Accumulated) (b : StreamedBlock) (i : Nat) :
    ((b.events i).map (translateEvent model)).foldl Accumulated.add acc =
      { acc with content := acc.content ++ if b.block.isText then b.block.payload else [] } := by
  rcases b with ⟨block, pieces, valid, joined⟩
  simp only [StreamedBlock.events, List.map_append, List.map_cons, List.map_nil, List.foldl_append,
    translateEvent_blockStart, translateEvent_blockStop, List.map_map, Function.comp_def]
  cases block with
  | text s =>
    simp only [translateEvent_textDelta, foldl_textChunks, ← joined]
    rfl
  | toolUse id name input =>
    -- `input_json_delta` has no text, so the adapter drops every piece
    simp only [translateEvent_inputDelta, foldl_nothing]
    simp [Accumulated.add, Block.isText]

theorem foldl_blocks (acc : Accumulated) (blocks : List StreamedBlock) (i : Nat) :
    (((blocks.zipIdx i).flatMap fun b => b.1.events b.2).map (translateEvent model)).foldl
        Accumulated.add acc =
      { acc with content := acc.content ++ (textParts (blocks.map (·.block.content))).flatten } := by
  induction blocks generalizing acc i with
  | nil => simp [textParts]
  | cons b blocks ih =>
    rw [List.zipIdx_cons, List.flatMap_cons, List.map_append, List.foldl_append, foldl_blockEvents, ih]
    obtain ⟨block, pieces, valid, joined⟩ := b
    have htext : lit "tool_use" ≠ lit "text" := by decide
    cases block <;> simp [textParts, Block.content, Block.payload, Block.isText, htext]

/-! ### Whole messages -/

theorem streamFinishReason_eq (stopReason : GoString) :
    streamFinishReason stopReason = finishReason stopReason := by
  unfold streamFinishReason finishReason
  -- the stream names `end_turn`, the response leaves it to the default
  by_cases hend : stopReason = lit "end_turn"
  · have h1 : lit "end_turn" ≠ lit "max_tokens" := by decide
    have h2 : lit "end_turn" ≠ lit "tool_use" := by decide
    rw [if_pos hend, hend, if_neg h1, if_neg h2]
  · rw [if_neg hend]

theorem finishReason_ne_nil (stopReason : GoString) : finishReason stopReason ≠ [] := by
  have h1 : lit "stop" ≠ [] := by decide
  have h2 : lit "length" ≠ [] := by decide
  have h3 : lit "tool_calls" ≠ [] := by decide
  unfold finishReason
  split
  · exact h1
  · split
    · exact h2
    · split
      · exact h3
      · exact h1

theorem add_finishChunk (acc : Accumulated) (m : StreamedMessage) :
    acc.add (translateEvent model m.messageDelta) =
      { acc with finishReason := finishReason m.stopReason } := by
  have hchunk : translateEvent model m.messageDelta = .chunk (finishChunk model m.messageDelta) :=
    rfl
  have hstop : (mapGet (eventDelta m.messageDelta) (lit "stop_reason")).asString = m.stopReason :=
    rfl
  rw [hchunk]
  simp [Accumulated.add, finishChunk, Accumulated.addChoice, hstop, streamFinishReason_eq,
    finishReason_ne_nil, contentToString]

/-- What a client has at the end: all text, the finish reason and no tool call. -/
theorem accumulated_eq (m : StreamedMessage) :
    m.accumulated model =
      { content := (textParts m.response.content).flatten
        toolCalls := []
        finishReason := finishReason m.stopReason } := by
  have hstart : translateEvent model m.start = .nothing := rfl
  have hstop : translateEvent model [tag "type" "message_stop"] = .stop := rfl
  have hnothing : ∀ acc : Accumulated, acc.add .nothing = acc := fun _ => rfl
  have hend : ∀ acc : Accumulated, acc.add .stop = acc := fun _ => rfl
  simp only [StreamedMessage.accumulated, StreamedMessage.events, List.map_append, List.map_cons,
    List.map_nil, List.foldl_append, List.foldl_cons, List.foldl_nil, foldl_blocks, add_finishChunk,
    hstart, hstop, hnothing, hend, StreamedMessage.response, List.nil_append]

theorem ofResponse_convertResponse (ar : Response) (publicModel : GoString) (created : Int) :
    ofResponse (convertResponse ar publicModel created) =
      { content := (textParts ar.content).flatten
        toolCalls := toolCalls ar.content
        finishReason := finishReason ar.stopReason } := by
  by_cases h : textParts ar.content = []
  · simp [ofResponse, convertResponse, h, contentToString]
  · simp [ofResponse, convertResponse, h, contentToString]

theorem toolCalls_eq_nil_iff (blocks : List StreamedBlock) :
    toolCalls (blocks.map (·.block.content)) = [] ↔ ∀ b ∈ blocks, b.block.isText = true := by
  have htext : lit "text" ≠ lit "tool_use" := by decide
  induction blocks with
  | nil => simp [toolCalls]
  | cons b blocks ih =>
    obtain ⟨block, pieces, valid, joined⟩ := b
    cases block with
    | text s =>
      have hcalls : toolCalls (((⟨.text s, pieces, valid, joined⟩ : StreamedBlock) :: blocks).map
          (·.block.content)) = toolCalls (blocks.map (·.block.content)) := by
        simp [toolCalls, Block.content, htext]
      rw [hcalls]
      exact ih.trans (by simp [Block.isText])
    | toolUse id name input => simp [toolCalls, Block.content, Block.isText]

/-- A message that calls a tool: the streaming client is told to make tool calls and
gets none. -/
theorem not_sameEitherWay_tool_use :
    ¬ StreamedMessage.SameEitherWay
      { id := lit "msg_1"
        blocks := [⟨.toolUse (lit "toolu_1") (lit "add") (lit "\x7b\"x\":1\x7d"),
          [lit "\x7b\"x\"", lit ":1\x7d"], by decide, by decide⟩]
        stopReason := lit "tool_use"
        usage := { inputTokens := 9, outputTokens := 4 } }
      (lit "claude") (lit "public") 0 := by
  rw [StreamedMessage.SameEitherWay, accumulated_eq, ofResponse_convertResponse]
  intro h
  exact absurd (congrArg Accumulated.toolCalls h) (by simp [StreamedMessage.response, toolCalls,
    Block.content])

/-- **When a message is the same either way**: exactly when it has no tool use. -/
theorem sameEitherWay_iff (m : StreamedMessage) (publicModel : GoString) (created : Int) :
    m.SameEitherWay model publicModel created ↔ ∀ b ∈ m.blocks, b.block.isText = true := by
  rw [StreamedMessage.SameEitherWay, accumulated_eq, ofResponse_convertResponse,
    ← toolCalls_eq_nil_iff]
  constructor
  · intro h
    exact (congrArg Accumulated.toolCalls h).symm
  · intro h
    rw [StreamedMessage.response, h]

end UniLLM.Anthropic
