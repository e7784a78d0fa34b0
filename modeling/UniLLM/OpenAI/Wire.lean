import UniLLM.Go.JsonTypes
import UniLLM.OpenAI.Types

/-!
# The OpenAI types as JSON types

The structs of `pkg/openai` with the tags of their fields.  What they are written as is what
`toJson` gives, so the laws of JSON types hold for it.
-/

namespace UniLLM.OpenAI
open Go

/-! ### Messages -/

def FunctionCall.fields : List (StructField FunctionCall) :=
  [.always "name" .string (·.name) fun f a => { f with name := a },
   .always "arguments" .string (·.arguments) fun f a => { f with arguments := a }]

theorem FunctionCall.fields_ok : StructFields ⟨[], []⟩ FunctionCall.fields where
  names := by decide
  distinct := by decide
  apart := by simp [fields]
  get_set := by simp [fields]
  get_zero := by simp [fields]
  omits_zero := by simp [fields]
  ext := by
    rintro ⟨⟩ ⟨⟩ h
    simpa [fields] using h

def FunctionCall.wire : JsonType FunctionCall := .struct _ FunctionCall.fields fields_ok

@[simp] theorem FunctionCall.wire_zero : FunctionCall.wire.zero = ⟨[], []⟩ := rfl

def ToolCall.fields : List (StructField ToolCall) :=
  [.always "id" .string (·.id) fun t a => { t with id := a },
   .always "type" .string (·.type) fun t a => { t with type := a },
   .always "function" FunctionCall.wire (·.function) fun t a => { t with function := a }]

theorem ToolCall.fields_ok : StructFields ⟨[], [], ⟨[], []⟩⟩ ToolCall.fields where
  names := by decide
  distinct := by decide
  apart := by simp [fields]
  get_set := by simp [fields]
  get_zero := by simp [fields]
  omits_zero := by simp [fields]
  ext := by
    rintro ⟨⟩ ⟨⟩ h
    simpa [fields] using h

def ToolCall.wire : JsonType ToolCall := .struct _ ToolCall.fields fields_ok

@[simp] theorem ToolCall.wire_zero : ToolCall.wire.zero = ⟨[], [], ⟨[], []⟩⟩ := rfl

def Message.fields : List (StructField Message) :=
  [.always "role" .string (·.role) fun m a => { m with role := a },
   .always "content" .any (·.content) fun m a => { m with content := a },
   ⟨"name", .string, List.isEmpty, (·.name), fun m a => { m with name := a }⟩,
   ⟨"tool_calls", .slice ToolCall.wire, List.isEmpty, (·.toolCalls),
     fun m a => { m with toolCalls := a }⟩,
   ⟨"tool_call_id", .string, List.isEmpty, (·.toolCallID), fun m a => { m with toolCallID := a }⟩]

theorem Message.fields_ok : StructFields {} Message.fields where
  names := by decide
  distinct := by decide
  apart := by simp [fields]
  get_set := by simp [fields]
  get_zero := by simp [fields]
  omits_zero := by simp [fields]
  ext := by
    rintro ⟨⟩ ⟨⟩ h
    simpa [fields] using h

def Message.wire : JsonType Message := .struct _ Message.fields fields_ok

@[simp] theorem Message.wire_zero : Message.wire.zero = {} := rfl

theorem Message.wire_ne_null (m : Message) : Message.wire.toJson m ≠ .null :=
  JsonType.struct_ne_null _ m

/-! ### Requests -/

def Function.fields : List (StructField Function) :=
  [.always "name" .string (·.name) fun f a => { f with name := a },
   ⟨"description", .string, List.isEmpty, (·.description), fun f a => { f with description := a }⟩,
   ⟨"parameters", .any, Json.isNull, (·.parameters), fun f a => { f with parameters := a }⟩]

theorem Function.fields_ok : StructFields ⟨[], [], .null⟩ Function.fields where
  names := by decide
  distinct := by decide
  apart := by simp [fields]
  get_set := by simp [fields]
  get_zero := by simp [fields]
  omits_zero := by simp [fields]
  ext := by
    rintro ⟨⟩ ⟨⟩ h
    simpa [fields] using h

def Function.wire : JsonType Function := .struct _ Function.fields fields_ok

@[simp] theorem Function.wire_zero : Function.wire.zero = ⟨[], [], .null⟩ := rfl

def Tool.fields : List (StructField Tool) :=
  [.always "type" .string (·.type) fun t a => { t with type := a },
   .always "function" Function.wire (·.function) fun t a => { t with function := a }]

theorem Tool.fields_ok : StructFields ⟨[], ⟨[], [], .null⟩⟩ Tool.fields where
  names := by decide
  distinct := by decide
  apart := by simp [fields]
  get_set := by simp [fields]
  get_zero := by simp [fields]
  omits_zero := by simp [fields]
  ext := by
    rintro ⟨⟩ ⟨⟩ h
    simpa [fields] using h

def Tool.wire : JsonType Tool := .struct _ Tool.fields fields_ok

@[simp] theorem Tool.wire_zero : Tool.wire.zero = ⟨[], ⟨[], [], .null⟩⟩ := rfl

def StreamOptions.fields : List (StructField StreamOptions) :=
  [⟨"include_usage", .bool, not, (·.includeUsage), fun o a => { o with includeUsage := a }⟩]

theorem StreamOptions.fields_ok : StructFields ⟨false⟩ StreamOptions.fields where
  names := by decide
  distinct := by decide
  apart := by simp [fields]
  get_set := by simp [fields]
  get_zero := by simp [fields]
  omits_zero := by simp [fields]
  ext := by
    rintro ⟨⟩ ⟨⟩ h
    simpa [fields] using h

def StreamOptions.wire : JsonType StreamOptions := .struct _ StreamOptions.fields fields_ok

@[simp] theorem StreamOptions.wire_zero : StreamOptions.wire.zero = ⟨false⟩ := rfl

theorem StreamOptions.wire_ne_null (o : StreamOptions) : StreamOptions.wire.toJson o ≠ .null :=
  JsonType.struct_ne_null _ o

def ChatCompletionRequest.fields : List (StructField ChatCompletionRequest) :=
  [.always "model" .string (·.model) fun r a => { r with model := a },
   .always "messages" (.slice Message.wire) (·.messages) fun r a => { r with messages := a },
   ⟨"max_tokens", .int, (· == 0), (·.maxTokens), fun r a => { r with maxTokens := a }⟩,
   ⟨"max_completion_tokens", .int, (· == 0), (·.maxCompletionTokens),
     fun r a => { r with maxCompletionTokens := a }⟩,
   .omitNil "temperature" (.pointer .float64 JsonType.float64_ne_null) (·.temperature)
     fun r a => { r with temperature := a },
   .omitNil "top_p" (.pointer .float64 JsonType.float64_ne_null) (·.topP)
     fun r a => { r with topP := a },
   ⟨"stream", .bool, not, (·.stream), fun r a => { r with stream := a }⟩,
   .omitNil "stream_options" (.pointer StreamOptions.wire StreamOptions.wire_ne_null)
     (·.streamOptions) fun r a => { r with streamOptions := a },
   ⟨"tools", .slice Tool.wire, List.isEmpty, (·.tools), fun r a => { r with tools := a }⟩,
   ⟨"stop", .any, Json.isNull, (·.stop), fun r a => { r with stop := a }⟩,
   ⟨"n", .int, (· == 0), (·.n), fun r a => { r with n := a }⟩,
   ⟨"reasoning_effort", .string, List.isEmpty, (·.reasoningEffort),
     fun r a => { r with reasoningEffort := a }⟩]

theorem ChatCompletionRequest.fields_ok :
    StructFields { model := [], messages := [] } ChatCompletionRequest.fields where
  names := by decide
  distinct := by decide
  apart := by simp [fields]
  get_set := by simp [fields]
  get_zero := by simp [fields]
  omits_zero := by simp [fields]
  ext := by
    rintro ⟨⟩ ⟨⟩ h
    simpa [fields] using h

def ChatCompletionRequest.wire : JsonType ChatCompletionRequest :=
  .struct _ ChatCompletionRequest.fields fields_ok

@[simp] theorem ChatCompletionRequest.wire_zero :
    ChatCompletionRequest.wire.zero = { model := [], messages := [] } :=
  rfl

/-! ### Responses -/

def CompletionTokensDetails.fields : List (StructField CompletionTokensDetails) :=
  [⟨"reasoning_tokens", .int, (· == 0), (·.reasoningTokens),
     fun d a => { d with reasoningTokens := a }⟩,
   ⟨"accepted_prediction_tokens", .int, (· == 0), (·.acceptedPredictionTokens),
     fun d a => { d with acceptedPredictionTokens := a }⟩,
   ⟨"rejected_prediction_tokens", .int, (· == 0), (·.rejectedPredictionTokens),
     fun d a => { d with rejectedPredictionTokens := a }⟩]

theorem CompletionTokensDetails.fields_ok : StructFields {} CompletionTokensDetails.fields where
  names := by decide
  distinct := by decide
  apart := by simp [fields]
  get_set := by simp [fields]
  get_zero := by simp [fields]
  omits_zero := by simp [fields]
  ext := by
    rintro ⟨⟩ ⟨⟩ h
    simpa [fields] using h

def CompletionTokensDetails.wire : JsonType CompletionTokensDetails :=
  .struct _ CompletionTokensDetails.fields fields_ok

@[simp] theorem CompletionTokensDetails.wire_zero : CompletionTokensDetails.wire.zero = {} := rfl

theorem CompletionTokensDetails.wire_ne_null (d : CompletionTokensDetails) :
    CompletionTokensDetails.wire.toJson d ≠ .null :=
  JsonType.struct_ne_null _ d

def Usage.fields : List (StructField Usage) :=
  [.always "prompt_tokens" .int (·.promptTokens) fun u a => { u with promptTokens := a },
   .always "completion_tokens" .int (·.completionTokens)
     fun u a => { u with completionTokens := a },
   .always "total_tokens" .int (·.totalTokens) fun u a => { u with totalTokens := a },
   .omitNil "completion_tokens_details"
     (.pointer CompletionTokensDetails.wire CompletionTokensDetails.wire_ne_null)
     (·.completionTokensDetails) fun u a => { u with completionTokensDetails := a }]

theorem Usage.fields_ok : StructFields {} Usage.fields where
  names := by decide
  distinct := by decide
  apart := by simp [fields]
  get_set := by simp [fields]
  get_zero := by simp [fields]
  omits_zero := by simp [fields]
  ext := by
    rintro ⟨⟩ ⟨⟩ h
    simpa [fields] using h

def Usage.wire : JsonType Usage := .struct _ Usage.fields fields_ok

@[simp] theorem Usage.wire_zero : Usage.wire.zero = {} := rfl

theorem Usage.wire_ne_null (u : Usage) : Usage.wire.toJson u ≠ .null :=
  JsonType.struct_ne_null _ u

def Choice.fields : List (StructField Choice) :=
  [.always "index" .int (·.index) fun c a => { c with index := a },
   .omitNil "message" (.pointer Message.wire Message.wire_ne_null) (·.message)
     fun c a => { c with message := a },
   .omitNil "delta" (.pointer Message.wire Message.wire_ne_null) (·.delta)
     fun c a => { c with delta := a },
   ⟨"finish_reason", .string, List.isEmpty, (·.finishReason),
     fun c a => { c with finishReason := a }⟩]

theorem Choice.fields_ok : StructFields {} Choice.fields where
  names := by decide
  distinct := by decide
  apart := by simp [fields]
  get_set := by simp [fields]
  get_zero := by simp [fields]
  omits_zero := by simp [fields]
  ext := by
    rintro ⟨⟩ ⟨⟩ h
    simpa [fields] using h

def Choice.wire : JsonType Choice := .struct _ Choice.fields fields_ok

@[simp] theorem Choice.wire_zero : Choice.wire.zero = {} := rfl

def ChatCompletionResponse.fields : List (StructField ChatCompletionResponse) :=
  [.always "id" .string (·.id) fun r a => { r with id := a },
   .always "object" .string (·.object) fun r a => { r with object := a },
   .always "created" .int (·.created) fun r a => { r with created := a },
   .always "model" .string (·.model) fun r a => { r with model := a },
   .always "choices" (.slice Choice.wire) (·.choices) fun r a => { r with choices := a },
   .omitNil "usage" (.pointer Usage.wire Usage.wire_ne_null) (·.usage)
     fun r a => { r with usage := a }]

theorem ChatCompletionResponse.fields_ok :
    StructFields { object := [], model := [], choices := [] } ChatCompletionResponse.fields where
  names := by decide
  distinct := by decide
  apart := by simp [fields]
  get_set := by simp [fields]
  get_zero := by simp [fields]
  omits_zero := by simp [fields]
  ext := by
    rintro ⟨⟩ ⟨⟩ h
    simpa [fields] using h

def ChatCompletionResponse.wire : JsonType ChatCompletionResponse :=
  .struct _ ChatCompletionResponse.fields fields_ok

@[simp] theorem ChatCompletionResponse.wire_zero :
    ChatCompletionResponse.wire.zero = { object := [], model := [], choices := [] } :=
  rfl

/-! ### What is written -/

/-- A pointer with `omitempty`, as it is written. -/
theorem member_omitNil {α : Type} (name : String) (t : JsonType α) (x : Option α) :
    (if x = none then [] else [(lit name, t.writePointer x)]) = omitNil name t.toJson x := by
  cases x <;> rfl

theorem floatJson_eq : JsonType.float64.toJson = floatJson := rfl

theorem ToolCall.wire_toJson : ToolCall.wire.toJson = ToolCall.toJson := rfl

theorem Message.wire_toJson : Message.wire.toJson = Message.toJson := by
  funext m
  simp [wire, fields, StructField.member, Message.toJson, ToolCall.wire_toJson, omitEmpty]

theorem Function.wire_toJson : Function.wire.toJson = Function.toJson := by
  funext f
  simp [wire, fields, StructField.member, Function.toJson, omitEmpty]

theorem Tool.wire_toJson : Tool.wire.toJson = Tool.toJson := by
  funext t
  simp [wire, fields, StructField.member, Tool.toJson, Function.wire_toJson]

theorem StreamOptions.wire_toJson : StreamOptions.wire.toJson = StreamOptions.toJson := by
  funext o
  simp [wire, fields, StructField.member, StreamOptions.toJson, omitEmpty]

theorem ChatCompletionRequest.wire_toJson :
    ChatCompletionRequest.wire.toJson = ChatCompletionRequest.toJson := by
  funext r
  simp [wire, fields, StructField.member, ChatCompletionRequest.toJson, omitEmpty, intJson,
    member_omitNil, floatJson_eq, Message.wire_toJson, Tool.wire_toJson, StreamOptions.wire_toJson]

theorem CompletionTokensDetails.wire_toJson :
    CompletionTokensDetails.wire.toJson = CompletionTokensDetails.toJson := by
  funext d
  simp [wire, fields, StructField.member, CompletionTokensDetails.toJson, omitEmpty, intJson]

theorem Usage.wire_toJson : Usage.wire.toJson = Usage.toJson := by
  funext u
  cases hcase : u.completionTokensDetails <;>
    simp [wire, fields, StructField.member, Usage.toJson, intJson, hcase, JsonType.writePointer,
      CompletionTokensDetails.wire_toJson]

theorem Choice.wire_toJson : Choice.wire.toJson = Choice.toJson := by
  funext c
  simp [wire, fields, StructField.member, Choice.toJson, omitEmpty, intJson, member_omitNil,
    Message.wire_toJson]

theorem ChatCompletionResponse.wire_toJson :
    ChatCompletionResponse.wire.toJson = ChatCompletionResponse.toJson := by
  funext r
  simp [wire, fields, StructField.member, ChatCompletionResponse.toJson, intJson,
    member_omitNil, Choice.wire_toJson, Usage.wire_toJson]

end UniLLM.OpenAI
