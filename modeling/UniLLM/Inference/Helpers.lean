import UniLLM.Provider.AnthropicConvert

/-!
# Helpers of the inference service

Prices, the preparation of a request, and what the service reads off the lines of
a stream.  Prices and costs are exact rational numbers where the source computes
in `float64`.
-/

namespace UniLLM.Inference
open Go OpenAI

/-- Where a public model name leads. -/
structure ModelRoute where
  publicName : GoString
  upstreamModel : GoString
  providerName : GoString
  providerBaseURL : GoString
  inputPricePer1M : Rat
  outputPricePer1M : Rat

/-- The lower case of a byte.  No rune outside ASCII has one of the bytes
`isReasoningModel` looks for as its lower case. -/
def lowerByte (b : UInt8) : UInt8 := if 0x41 ≤ b ∧ b ≤ 0x5A then b + 0x20 else b

def isReasoningModel (model : GoString) : Bool :=
  let m := model.map lowerByte
  hasPrefix m (lit "o1") || hasPrefix m (lit "o3") || hasPrefix m (lit "o4")

def calculateTokenCost (inputPrice outputPrice : Rat) (promptTok completionTok : Int) : Rat :=
  promptTok * inputPrice / 1000000 + completionTok * outputPrice / 1000000

def calculateCost (inputPrice outputPrice : Rat) : Option Usage → Rat
  | none => 0
  | some usage => calculateTokenCost inputPrice outputPrice usage.promptTokens usage.completionTokens

/-- The request as it goes upstream. -/
def prepareChatRequest (publicModel : GoString) (req : ChatCompletionRequest) (route : ModelRoute) :
    ChatCompletionRequest :=
  let req := { req with model := route.upstreamModel }
  let req :=
    if isReasoningModel publicModel ∧ 0 < req.maxTokens then
      { req with
        maxCompletionTokens :=
          if req.maxCompletionTokens = 0 then req.maxTokens else req.maxCompletionTokens
        maxTokens := 0 }
    else req
  if req.stream then { req with streamOptions := some ⟨true⟩ } else req

/-! ### Lines of a stream -/

/-- Puts the public name in the place of the first model name. -/
def replaceModelName (line publicModel : GoString) : GoString :=
  match index (lit "\"model\":\"") line with
  | none => line
  | some idx =>
    let start := idx + (lit "\"model\":\"").length
    match index (lit "\"") (line.drop start) with
    | none => line
    | some stop => line.take start ++ publicModel ++ line.drop (start + stop)

/-- Into `struct { Content string }`, which holds `old`. -/
def decodeDelta (old : GoString) : Json → Option GoString
  | .null => some old
  | .obj fs =>
    decodeFields (fun c k v => if setsField (lit "content") k then decodeString c v else some c) old fs
  | _ => none

/-- Into `struct { Delta struct { Content string } }`. -/
def decodeChoice (old : GoString) : Json → Option GoString
  | .null => some old
  | .obj fs =>
    decodeFields (fun c k v => if setsField (lit "delta") k then decodeDelta c v else some c) old fs
  | _ => none

/-- Into the slice of choices.  Of the slice only the first element is kept; an
element that is there already is decoded into. -/
def decodeChoices (old : Option GoString) : Json → Option (Option GoString)
  | .null => some none
  | .arr [] => some none
  | .arr (v :: vs) =>
    if vs.all fun v => (decodeChoice [] v).isSome then (decodeChoice (old.getD []) v).map some else none
  | _ => none

/-- The first choice's content in a chunk. -/
def decodeContent : Json → Option (Option GoString)
  | .null => some none
  | .obj fs =>
    decodeFields (fun c k v => if setsField (lit "choices") k then decodeChoices c v else some c) none fs
  | _ => none

def extractContentLength (line : GoString) : Nat :=
  match (Json.parse (trimPrefix line (lit "data: "))).bind decodeContent with
  | some (some content) => content.length
  | _ => 0

/-- The token counts of a usage object. -/
structure Tokens where
  promptTokens : Int := 0
  completionTokens : Int := 0
  totalTokens : Int := 0
  deriving DecidableEq

/-- One member of the usage object. -/
def decodeTokensField (t : Tokens) (key : GoString) (v : Json) : Option Tokens :=
  if setsField (lit "prompt_tokens") key then
    (decodeInt t.promptTokens v).map fun n => { t with promptTokens := n }
  else if setsField (lit "completion_tokens") key then
    (decodeInt t.completionTokens v).map fun n => { t with completionTokens := n }
  else if setsField (lit "total_tokens") key then
    (decodeInt t.totalTokens v).map fun n => { t with totalTokens := n }
  else some t

/-- Into the pointer to the usage struct: `null` clears it, an object is decoded into
what it points to. -/
def decodeUsage (old : Option Tokens) : Json → Option (Option Tokens)
  | .null => some none
  | .obj fs => (decodeFields decodeTokensField (old.getD {}) fs).map some
  | _ => none

/-- The usage of a chunk: `none` when the chunk does not decode, `some none` when it has
no usage object. -/
def decodeChunkUsage : Json → Option (Option Tokens)
  | .null => some none
  | .obj fs =>
    decodeFields (fun u k v => if setsField (lit "usage") k then decodeUsage u v else some u) none fs
  | _ => none

/-- The usage a line reports, if it reports one. -/
def reportedUsage (line : GoString) : Option Tokens :=
  ((Json.parse (trimPrefix line (lit "data: "))).bind decodeChunkUsage).join

def extractStreamUsage (line : GoString) : Tokens := (reportedUsage line).getD {}

/-- A token for four bytes of text, at least one. -/
def estimatePromptTokens (messages : List Message) : Int :=
  let total := (messages.map fun m =>
    (match m.content with
    | .str s => s.length
    | v => (marshalAny v).length) + 4).sum
  max 1 (total / 4 : Nat)

end UniLLM.Inference
