import UniLLM.Provider.AnthropicConvert

/-!
# Gemini requests

The translation of an OpenAI request to the native Gemini API.  The provider has it for a
mode that it is not started in; in the other mode the request goes out as it is.
-/

namespace UniLLM.Gemini
open Go OpenAI

structure FunctionCall where
  name : GoString
  args : GoString

structure FunctionResp where
  name : GoString
  response : GoString

structure Part where
  text : GoString := []
  functionCall : Option FunctionCall := none
  functionResp : Option FunctionResp := none

structure Content where
  role : GoString := []
  parts : List Part

structure GenerationConfig where
  maxOutputTokens : Int
  temperature : Option Rat
  topP : Option Rat

structure Request where
  contents : List Content
  systemInstruction : Option Content
  generationConfig : GenerationConfig
  /-- The function declarations, one list for each element of `tools`. -/
  tools : List (List OpenAI.Function)

/-- One message that is not a system message. -/
def convertMessage (msg : OpenAI.Message) : Content :=
  let text := contentToString msg.content
  if msg.role = lit "tool" then
    { role := lit "user"
      parts := [{ functionResp := some ⟨msg.name, text⟩ }] }
  else
    { role := if msg.role = lit "assistant" then lit "model" else msg.role
      parts := (if text = [] then [] else [{ text := text }]) ++
        msg.toolCalls.map fun tc =>
          { functionCall := some ⟨tc.function.name, tc.function.arguments⟩ } }

/-- The loop over the messages: a later system message replaces an earlier one. -/
def convertMessages : List OpenAI.Message → Option Content → Option Content × List Content
  | [], system => (system, [])
  | msg :: msgs, system =>
    if msg.role = lit "system" then
      convertMessages msgs (some { parts := [{ text := contentToString msg.content }] })
    else
      let (system, rest) := convertMessages msgs system
      (system, convertMessage msg :: rest)

def convertToGemini (req : ChatCompletionRequest) : Request :=
  let (system, contents) := convertMessages req.messages none
  { contents := contents
    systemInstruction := system
    generationConfig := ⟨req.maxTokens, req.temperature, req.topP⟩
    tools := if req.tools = [] then [] else [req.tools.map (·.function)] }

/-! ### Marshalling -/

open Anthropic (rawJson sliceJson)

def FunctionCall.tree (f : FunctionCall) : Json :=
  .obj [(lit "name", .str f.name), (lit "args", rawJson f.args)]

def FunctionResp.tree (f : FunctionResp) : Json :=
  .obj [(lit "name", .str f.name), (lit "response", rawJson f.response)]

def Part.tree (p : Part) : Json :=
  .obj (omitEmpty p.text.isEmpty "text" (.str p.text) ++
    omitNil "functionCall" FunctionCall.tree p.functionCall ++
    omitNil "functionResponse" FunctionResp.tree p.functionResp)

def Content.tree (c : Content) : Json :=
  .obj (omitEmpty c.role.isEmpty "role" (.str c.role) ++
    [(lit "parts", sliceJson (c.parts.map Part.tree))])

def GenerationConfig.tree (g : GenerationConfig) : Json :=
  .obj (omitEmpty (g.maxOutputTokens == 0) "maxOutputTokens" (intJson g.maxOutputTokens) ++
    omitNil "temperature" floatJson g.temperature ++
    omitNil "topP" floatJson g.topP)

/-- The tree `json.Marshal` writes for a request, if the request marshals. -/
def Request.tree (r : Request) : Json :=
  .obj ([(lit "contents", sliceJson (r.contents.map Content.tree))] ++
    omitNil "systemInstruction" Content.tree r.systemInstruction ++
    [(lit "generationConfig", r.generationConfig.tree)] ++
    omitEmpty r.tools.isEmpty "tools" (.arr (r.tools.map fun fs =>
      .obj [(lit "functionDeclarations", .arr (fs.map OpenAI.Function.toJson))])))

end UniLLM.Gemini
