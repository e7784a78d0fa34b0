import UniLLM.Go.JsonDecode

/-!
# The OpenAI wire types

The request and response structs of `pkg/openai`, field by field.  A Go
`interface{}` (message content, tool parameters, stop sequences) holds whatever
was decoded into it, so it is a `Json` value with `.null` for nil; an optional
pointer is an `Option`; `int` is `Int`.

`toJson` gives the tree `json.Marshal` writes for a request or a response, with the
members that `omitempty` leaves out left out.
-/

namespace UniLLM
open Go

namespace OpenAI

structure FunctionCall where
  name : GoString
  arguments : GoString

structure ToolCall where
  id : GoString
  type : GoString
  function : FunctionCall

/-- A chat message.  The content is a string or a list of content parts. -/
structure Message where
  role : GoString := []
  content : Json := .null
  name : GoString := []
  toolCalls : List ToolCall := []
  toolCallID : GoString := []

structure Function where
  name : GoString
  description : GoString := []
  parameters : Json := .null

structure Tool where
  type : GoString
  function : Function

/-- Controls stream behaviour. -/
structure StreamOptions where
  includeUsage : Bool

structure ChatCompletionRequest where
  model : GoString
  messages : List Message
  maxTokens : Int := 0
  maxCompletionTokens : Int := 0
  temperature : Option Rat := none
  topP : Option Rat := none
  stream : Bool := false
  streamOptions : Option StreamOptions := none
  tools : List Tool := []
  stop : Json := .null
  n : Int := 0
  reasoningEffort : GoString := []

/-- Breaks down completion token usage. -/
structure CompletionTokensDetails where
  reasoningTokens : Int := 0
  acceptedPredictionTokens : Int := 0
  rejectedPredictionTokens : Int := 0

structure Usage where
  promptTokens : Int := 0
  completionTokens : Int := 0
  totalTokens : Int := 0
  completionTokensDetails : Option CompletionTokensDetails := none

structure Choice where
  index : Int := 0
  message : Option Message := none
  delta : Option Message := none
  finishReason : GoString := []

structure ChatCompletionResponse where
  id : GoString := []
  object : GoString
  created : Int := 0
  model : GoString
  choices : List Choice
  usage : Option Usage := none

/-! ### Marshalling -/

/-- A member with `omitempty`. -/
def omitEmpty (empty : Bool) (name : String) (v : Json) : List (GoString × Json) :=
  if empty then [] else [(lit name, v)]

def intJson (i : Int) : Json := .num (formatInt i)

def floatJson (x : Rat) : Json := .num (formatFloat x)

theorem intJson_inj {i j : Int} : intJson i = intJson j ↔ i = j := by
  constructor
  · intro h
    exact formatInt_injective (Json.num.inj h)
  · rintro rfl
    rfl

def FunctionCall.toJson (f : FunctionCall) : Json :=
  .obj [(lit "name", .str f.name), (lit "arguments", .str f.arguments)]

def ToolCall.toJson (t : ToolCall) : Json :=
  .obj [(lit "id", .str t.id), (lit "type", .str t.type), (lit "function", t.function.toJson)]

def Message.toJson (m : Message) : Json :=
  .obj ([(lit "role", .str m.role), (lit "content", m.content.canonical)] ++
    omitEmpty m.name.isEmpty "name" (.str m.name) ++
    omitEmpty m.toolCalls.isEmpty "tool_calls" (.arr (m.toolCalls.map ToolCall.toJson)) ++
    omitEmpty m.toolCallID.isEmpty "tool_call_id" (.str m.toolCallID))

def CompletionTokensDetails.toJson (d : CompletionTokensDetails) : Json :=
  .obj (omitEmpty (d.reasoningTokens == 0) "reasoning_tokens" (intJson d.reasoningTokens) ++
    omitEmpty (d.acceptedPredictionTokens == 0) "accepted_prediction_tokens"
      (intJson d.acceptedPredictionTokens) ++
    omitEmpty (d.rejectedPredictionTokens == 0) "rejected_prediction_tokens"
      (intJson d.rejectedPredictionTokens))

def Usage.toJson (u : Usage) : Json :=
  .obj ([(lit "prompt_tokens", intJson u.promptTokens),
      (lit "completion_tokens", intJson u.completionTokens),
      (lit "total_tokens", intJson u.totalTokens)] ++
    match u.completionTokensDetails with
    | none => []
    | some d => [(lit "completion_tokens_details", d.toJson)])

/-- A pointer with `omitempty`. -/
def omitNil {α : Type} (name : String) (toJson : α → Json) : Option α → List (GoString × Json)
  | none => []
  | some x => [(lit name, toJson x)]

def Function.toJson (f : Function) : Json :=
  .obj ([(lit "name", .str f.name)] ++
    omitEmpty f.description.isEmpty "description" (.str f.description) ++
    omitEmpty f.parameters.isNull "parameters" f.parameters.canonical)

def Tool.toJson (t : Tool) : Json :=
  .obj [(lit "type", .str t.type), (lit "function", t.function.toJson)]

def StreamOptions.toJson (o : StreamOptions) : Json :=
  .obj (omitEmpty (!o.includeUsage) "include_usage" (.bool o.includeUsage))

def ChatCompletionRequest.toJson (r : ChatCompletionRequest) : Json :=
  .obj ([(lit "model", .str r.model), (lit "messages", .arr (r.messages.map Message.toJson))] ++
    omitEmpty (r.maxTokens == 0) "max_tokens" (intJson r.maxTokens) ++
    omitEmpty (r.maxCompletionTokens == 0) "max_completion_tokens" (intJson r.maxCompletionTokens) ++
    omitNil "temperature" floatJson r.temperature ++
    omitNil "top_p" floatJson r.topP ++
    omitEmpty (!r.stream) "stream" (.bool r.stream) ++
    omitNil "stream_options" StreamOptions.toJson r.streamOptions ++
    omitEmpty r.tools.isEmpty "tools" (.arr (r.tools.map Tool.toJson)) ++
    omitEmpty r.stop.isNull "stop" r.stop.canonical ++
    omitEmpty (r.n == 0) "n" (intJson r.n) ++
    omitEmpty r.reasoningEffort.isEmpty "reasoning_effort" (.str r.reasoningEffort))

def Choice.toJson (c : Choice) : Json :=
  .obj ([(lit "index", intJson c.index)] ++ omitNil "message" Message.toJson c.message ++
    omitNil "delta" Message.toJson c.delta ++
    omitEmpty c.finishReason.isEmpty "finish_reason" (.str c.finishReason))

/-- The choices are a slice that is not nil. -/
def ChatCompletionResponse.toJson (r : ChatCompletionResponse) : Json :=
  .obj ([(lit "id", .str r.id), (lit "object", .str r.object), (lit "created", intJson r.created),
      (lit "model", .str r.model), (lit "choices", .arr (r.choices.map Choice.toJson))] ++
    omitNil "usage" Usage.toJson r.usage)

/-- `json.Marshal` of a response. -/
def ChatCompletionResponse.marshal (r : ChatCompletionResponse) : GoString := r.toJson.encode

/-! ### Members of a tree -/

/-- A member of an object. -/
def memberOf (name : String) : Json → Option Json
  | .obj fs => (fs.find? fun f => f.1 == lit name).map Prod.snd
  | _ => none

theorem memberOf_append (name : String) (fs gs : List (GoString × Json)) :
    memberOf name (.obj (fs ++ gs)) = (memberOf name (.obj fs)).or (memberOf name (.obj gs)) := by
  simp only [memberOf, List.find?_append, Option.map_or]

theorem memberOf_omitEmpty (name name' : String) (empty : Bool) (v : Json) :
    memberOf name (.obj (omitEmpty empty name' v)) =
      if empty = false ∧ lit name' = lit name then some v else none := by
  cases empty <;> by_cases h : lit name' = lit name <;> simp [omitEmpty, memberOf, h]

theorem memberOf_omitNil {α : Type} {name name' : String} (h : lit name' ≠ lit name)
    (toJson : α → Json) (x : Option α) : memberOf name (.obj (omitNil name' toJson x)) = none := by
  cases x <;> simp [omitNil, memberOf, h]

theorem memberOf_cons (name name' : String) (v : Json) (fs : List (GoString × Json)) :
    memberOf name (.obj ((lit name', v) :: fs)) =
      if lit name' = lit name then some v else memberOf name (.obj fs) := by
  by_cases h : lit name' = lit name <;> simp [memberOf, h]

end OpenAI
end UniLLM
