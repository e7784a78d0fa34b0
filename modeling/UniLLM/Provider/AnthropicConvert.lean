import UniLLM.OpenAI.Types

/-!
# Anthropic messages

The translation between OpenAI requests and responses and those of the Anthropic
Messages API, as the provider does it on whole values: `convertRequest` before a
call, `convertResponse` after one that did not stream.  `StreamAdapter` has the
translation of a stream.

A `json.RawMessage` (the input of a tool call) is its bytes.
-/

namespace UniLLM
open Go OpenAI

/-- The text of message content: the string, the texts of the parts joined, the
JSON of anything else. -/
def contentToString : Json → GoString
  | .str s => s
  | .arr parts =>
    (parts.filterMap fun item =>
      match item with
      | .obj fs =>
        match mapGet fs (lit "text") with
        | .str t => some t
        | _ => none
      | _ => none).flatten
  | .null => []
  | v => marshalAny v

/-- The text of a part. -/
def partText : Json → Option GoString
  | .obj fs =>
    match mapGet fs (lit "text") with
    | .str t => some t
    | _ => none
  | _ => none

theorem contentToString_arr (parts : List Json) :
    contentToString (.arr parts) = (parts.filterMap partText).flatten := rfl

namespace Anthropic

structure Image where
  type : GoString
  mediaType : GoString
  data : GoString

/-- A content block. -/
structure Content where
  type : GoString
  text : GoString := []
  source : Option Image := none
  id : GoString := []
  name : GoString := []
  input : GoString := []
  toolUseID : GoString := []
  content : GoString := []

/-- What a message carries: a string or content blocks. -/
inductive MessageContent where
  | text (s : GoString)
  | blocks (cs : List Content)

structure Message where
  role : GoString
  content : MessageContent

structure Tool where
  name : GoString
  description : GoString
  inputSchema : Json

structure Request where
  model : GoString
  messages : List Message
  system : GoString
  maxTokens : Int
  stream : Bool := false
  tools : List Tool

structure Usage where
  inputTokens : Int
  outputTokens : Int
  cacheReadInputTokens : Int := 0
  cacheCreationInputTokens : Int := 0

structure Response where
  id : GoString
  content : List Content
  stopReason : GoString
  usage : Usage

/-! ### OpenAI to Anthropic -/

/-- The blocks of an assistant message with tool calls. -/
def toolCallBlocks (msg : OpenAI.Message) : List Content :=
  let text := contentToString msg.content
  (if text = [] then [] else [{ type := lit "text", text := text }]) ++
    msg.toolCalls.map fun tc =>
      { type := lit "tool_use", id := tc.id, name := tc.function.name,
        input := tc.function.arguments }

/-- One message that is not a system message. -/
def convertMessage (msg : OpenAI.Message) : Message :=
  if msg.role = lit "assistant" ∧ msg.toolCalls ≠ [] then
    { role := msg.role, content := .blocks (toolCallBlocks msg) }
  else if msg.role = lit "tool" then
    { role := lit "user"
      content := .blocks [{ type := lit "tool_result", toolUseID := msg.toolCallID,
                            content := contentToString msg.content }] }
  else { role := msg.role, content := .text (contentToString msg.content) }

/-- The loop over the messages: a later system message replaces an earlier one. -/
def convertMessages : List OpenAI.Message → GoString → GoString × List Message
  | [], system => (system, [])
  | msg :: msgs, system =>
    if msg.role = lit "system" then convertMessages msgs (contentToString msg.content)
    else
      let (system, rest) := convertMessages msgs system
      (system, convertMessage msg :: rest)

def convertRequest (req : ChatCompletionRequest) : Request :=
  let (system, messages) := convertMessages req.messages []
  { model := req.model
    messages := messages
    system := system
    maxTokens := if req.maxTokens = 0 then 4096 else req.maxTokens
    tools := req.tools.map fun t =>
      { name := t.function.name, description := t.function.description,
        inputSchema := t.function.parameters } }

/-- Every other message is converted on its own. -/
theorem convertMessages_snd (msgs : List OpenAI.Message) (system : GoString) :
    (convertMessages msgs system).2 =
      (msgs.filter fun msg => msg.role ≠ lit "system").map convertMessage := by
  induction msgs generalizing system with
  | nil => rfl
  | cons msg msgs ih =>
    unfold convertMessages
    by_cases hsystem : msg.role = lit "system"
    · rw [if_pos hsystem, ih, List.filter_cons_of_neg (by simpa using hsystem)]
    · rw [if_neg hsystem, List.filter_cons_of_pos (by simpa using hsystem), List.map_cons, ← ih system]

/-- Of the system messages the last one counts. -/
theorem convertMessages_fst (msgs : List OpenAI.Message) (system : GoString) :
    (convertMessages msgs system).1 =
      ((msgs.filter fun msg => msg.role = lit "system").map fun msg =>
        contentToString msg.content).getLastD system := by
  induction msgs generalizing system with
  | nil => rfl
  | cons msg msgs ih =>
    unfold convertMessages
    by_cases hsystem : msg.role = lit "system"
    · rw [if_pos hsystem, ih, List.filter_cons_of_pos (by simpa using hsystem), List.map_cons,
        List.getLastD_cons]
    · rw [if_neg hsystem, List.filter_cons_of_neg (by simpa using hsystem), ← ih system]

/-- `json.Marshal` of a request succeeds: an input that is written must be JSON. -/
def Request.marshals (r : Request) : Bool :=
  r.messages.all fun m =>
    match m.content with
    | .text _ => true
    | .blocks cs => cs.all fun c => c.input.isEmpty || Json.valid c.input

/-- The tree of a `json.RawMessage`. -/
def rawJson (s : GoString) : Json := (Json.parse s).getD .null

/-- A slice that is nil until something is appended. -/
def sliceJson : List Json → Json
  | [] => .null
  | vs => .arr vs

def Image.tree (i : Image) : Json :=
  .obj [(lit "type", .str i.type), (lit "media_type", .str i.mediaType), (lit "data", .str i.data)]

def Content.tree (c : Content) : Json :=
  .obj ([(lit "type", .str c.type)] ++
    omitEmpty c.text.isEmpty "text" (.str c.text) ++
    omitNil "source" Image.tree c.source ++
    omitEmpty c.id.isEmpty "id" (.str c.id) ++
    omitEmpty c.name.isEmpty "name" (.str c.name) ++
    omitEmpty c.input.isEmpty "input" (rawJson c.input) ++
    omitEmpty c.toolUseID.isEmpty "tool_use_id" (.str c.toolUseID) ++
    omitEmpty c.content.isEmpty "content" (.str c.content))

def MessageContent.tree : MessageContent → Json
  | .text s => .str s
  | .blocks cs => .arr (cs.map Content.tree)

def Message.tree (m : Message) : Json :=
  .obj [(lit "role", .str m.role), (lit "content", m.content.tree)]

def Tool.tree (t : Tool) : Json :=
  .obj ([(lit "name", .str t.name)] ++
    omitEmpty t.description.isEmpty "description" (.str t.description) ++
    [(lit "input_schema", t.inputSchema.canonical)])

/-- The tree `json.Marshal` writes for a request, if the request marshals. -/
def Request.tree (r : Request) : Json :=
  .obj ([(lit "model", .str r.model), (lit "messages", sliceJson (r.messages.map Message.tree))] ++
    omitEmpty r.system.isEmpty "system" (.str r.system) ++
    [(lit "max_tokens", intJson r.maxTokens)] ++
    omitEmpty (!r.stream) "stream" (.bool r.stream) ++
    omitEmpty r.tools.isEmpty "tools" (.arr (r.tools.map Tool.tree)))

/-! ### Anthropic to OpenAI -/

/-- The texts of the text blocks. -/
def textParts (cs : List Content) : List GoString :=
  (cs.filter fun c => c.type = lit "text").map (·.text)

/-- The tool calls of the tool use blocks. -/
def toolCalls (cs : List Content) : List ToolCall :=
  (cs.filter fun c => c.type = lit "tool_use").map fun c =>
    { id := c.id, type := lit "function", function := { name := c.name, arguments := c.input } }

/-- The finish reason for a stop reason. -/
def finishReason (stopReason : GoString) : GoString :=
  if stopReason = lit "end_turn" then lit "stop"
  else if stopReason = lit "max_tokens" then lit "length"
  else if stopReason = lit "tool_use" then lit "tool_calls"
  else lit "stop"

/-- `created` is the time of the conversion. -/
def convertResponse (ar : Response) (publicModel : GoString) (created : Int) :
    ChatCompletionResponse :=
  { id := ar.id
    object := lit "chat.completion"
    created := created
    model := publicModel
    usage := some
      { promptTokens := ar.usage.inputTokens
        completionTokens := ar.usage.outputTokens
        totalTokens := ar.usage.inputTokens + ar.usage.outputTokens
        completionTokensDetails :=
          if ar.usage.cacheReadInputTokens > 0 ∨ ar.usage.cacheCreationInputTokens > 0 then some {}
          else none }
    choices :=
      [{ index := 0
         message := some
          { role := lit "assistant"
            content :=
              if textParts ar.content = [] then .null else .str (textParts ar.content).flatten
            toolCalls := toolCalls ar.content }
         finishReason := finishReason ar.stopReason }] }

end Anthropic
end UniLLM
