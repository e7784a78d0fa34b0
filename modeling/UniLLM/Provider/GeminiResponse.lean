import UniLLM.Provider.GeminiConvert

/-!
# Gemini responses

The translation of a native Gemini response to an OpenAI one.  OpenAI has a finish reason
for a message that calls tools, Anthropic a stop reason, and Gemini neither: a candidate with
function calls stops as any other.  So the finish reason has to be read off the parts, which
the translation does not do.
-/

namespace UniLLM.Gemini
open Go OpenAI

structure Candidate where
  content : Content
  finishReason : GoString

structure UsageMetadata where
  promptTokenCount : Int := 0
  candidatesTokenCount : Int := 0
  totalTokenCount : Int := 0
  thoughtsTokenCount : Int := 0

structure Response where
  candidates : List Candidate
  usageMetadata : Option UsageMetadata := none

/-! ### Gemini to OpenAI -/

def UsageMetadata.usage (u : UsageMetadata) : Usage :=
  { promptTokens := u.promptTokenCount
    completionTokens := u.candidatesTokenCount
    totalTokens := u.totalTokenCount
    completionTokensDetails :=
      if u.thoughtsTokenCount > 0 then some { reasoningTokens := u.thoughtsTokenCount } else none }

/-- A function call, when there are `n` before it. -/
def toolCall (f : FunctionCall) (n : Nat) : ToolCall :=
  { id := lit "call_" ++ formatNat n
    type := lit "function"
    function := ⟨f.name, f.args⟩ }

/-- The loop over the parts: the texts and the tool calls so far. -/
def readParts : List Part → List GoString → List ToolCall → List GoString × List ToolCall
  | [], textParts, toolCalls => (textParts, toolCalls)
  | part :: parts, textParts, toolCalls =>
    readParts parts (if part.text ≠ [] then textParts ++ [part.text] else textParts)
      (match part.functionCall with
        | some f => toolCalls ++ [toolCall f toolCalls.length]
        | none => toolCalls)

/-- The finish reason for that of a candidate. -/
def convertReason (reason : GoString) : GoString :=
  if reason = lit "MAX_TOKENS" then lit "length"
  else if reason = lit "STOP" then lit "stop"
  else lit "stop"

def Candidate.message (cand : Candidate) : OpenAI.Message :=
  let (textParts, toolCalls) := readParts cand.content.parts [] []
  { role := lit "assistant"
    content := if textParts = [] then .null else .str textParts.flatten
    toolCalls := toolCalls }

def Candidate.choice (cand : Candidate) (i : Nat) : Choice :=
  { index := i
    message := some cand.message
    finishReason := convertReason cand.finishReason }

/-- `created` is the time of the conversion. -/
def convertFromGemini (gr : Response) (model : GoString) (created : Int) :
    ChatCompletionResponse :=
  { object := lit "chat.completion"
    created := created
    model := model
    usage := gr.usageMetadata.map UsageMetadata.usage
    choices := gr.candidates.zipIdx.map fun cand => cand.1.choice cand.2 }

/-! ### What a candidate's message has -/

def Content.texts (c : Content) : List GoString := c.parts.map (·.text)

def Content.functionCalls (c : Content) : List FunctionCall := c.parts.filterMap (·.functionCall)

/-- The function calls as tool calls, numbered in order. -/
def Content.toolCalls (c : Content) : List ToolCall :=
  c.functionCalls.zipIdx.map fun f => toolCall f.1 f.2

theorem readParts_eq (parts : List Part) (textParts : List GoString) (toolCalls : List ToolCall) :
    readParts parts textParts toolCalls =
      (textParts ++ (parts.map (·.text)).filter (· ≠ []),
        toolCalls ++ ((parts.filterMap (·.functionCall)).zipIdx toolCalls.length).map fun f =>
          toolCall f.1 f.2) := by
  induction parts generalizing textParts toolCalls with
  | nil => simp [readParts]
  | cons part parts ih =>
    have htexts : (if part.text ≠ [] then textParts ++ [part.text] else textParts) ++
          (parts.map (·.text)).filter (· ≠ []) =
        textParts ++ ((part :: parts).map (·.text)).filter (· ≠ []) := by
      by_cases h : part.text = []
      · simp [h]
      · simp [h]
    rw [readParts, ih, htexts]
    cases hcall : part.functionCall with
    | none => simp [hcall]
    | some f => simp [hcall, List.zipIdx_cons]

theorem Candidate.toolCalls_message (cand : Candidate) :
    cand.message.toolCalls = cand.content.toolCalls := by
  unfold Candidate.message
  rw [readParts_eq]
  rfl

/-- The content is the text of the candidate, or nothing if there is none. -/
theorem Candidate.content_message (cand : Candidate) :
    cand.message.content = .str cand.content.texts.flatten ∨
      (cand.message.content = .null ∧ cand.content.texts.flatten = []) := by
  unfold Candidate.message
  rw [readParts_eq]
  simp only [List.nil_append]
  split
  · rename_i hnil
    exact .inr ⟨rfl, by rw [Content.texts, ← List.flatten_filter_ne_nil, hnil]; rfl⟩
  · exact .inl (by rw [List.flatten_filter_ne_nil]; rfl)

theorem Candidate.toolCalls_eq_nil {cand : Candidate} :
    cand.message.toolCalls = [] ↔ cand.content.functionCalls = [] := by
  rw [Candidate.toolCalls_message, Content.toolCalls, List.map_eq_nil_iff, List.zipIdx_eq_nil_iff]

/-! ### Finish reasons -/

/-- A call that upstream answered with.  Gemini gives calls no ids. -/
structure AnsweredCall where
  id : Option GoString
  function : OpenAI.FunctionCall

/-- A tool call is this call, under the id that upstream gave it. -/
structure AnsweredCall.Is (call : AnsweredCall) (tc : ToolCall) : Prop where
  type : tc.type = lit "function"
  function : tc.function = call.function
  id : ∀ id ∈ call.id, tc.id = id

/-- What upstream answered: whether it stopped at the token limit, its texts, and its calls. -/
structure Answer where
  limited : Prop
  texts : List GoString
  calls : List AnsweredCall

/-- The message and its finish reason say what upstream answered, the way OpenAI would. -/
structure Signals (answer : Answer) (msg : OpenAI.Message) (finishReason : GoString) : Prop where
  length : finishReason = lit "length" ↔ answer.limited
  toolCalls : ¬ answer.limited → (finishReason = lit "tool_calls" ↔ msg.toolCalls ≠ [])
  stop : ¬ answer.limited → msg.toolCalls = [] → finishReason = lit "stop"
  content : msg.content = .str answer.texts.flatten ∨
    (msg.content = .null ∧ answer.texts.flatten = [])
  calls : List.Forall₂ AnsweredCall.Is answer.calls msg.toolCalls

def Candidate.answer (cand : Candidate) : Answer :=
  { limited := cand.finishReason = lit "MAX_TOKENS"
    texts := cand.content.texts
    calls := cand.content.functionCalls.map fun f => ⟨none, f.name, f.args⟩ }

/-- The candidate stopped by itself, or at the limit. -/
def Candidate.Stops (cand : Candidate) : Prop :=
  cand.finishReason = lit "STOP" ∨ cand.finishReason = lit "MAX_TOKENS"

theorem Content.function_toolCalls (c : Content) :
    c.toolCalls.map (·.function) = c.functionCalls.map fun f => ⟨f.name, f.args⟩ := by
  calc c.toolCalls.map (·.function)
      = c.functionCalls.zipIdx.map fun f => ⟨f.1.name, f.1.args⟩ := by
        rw [Content.toolCalls, List.map_map]
        rfl
    _ = (c.functionCalls.zipIdx.map Prod.fst).map fun f => ⟨f.name, f.args⟩ := by
        rw [List.map_map]
        rfl
    _ = c.functionCalls.map fun f => ⟨f.name, f.args⟩ := by rw [List.zipIdx_map_fst]

/-- The numbered calls are the calls of the parts. -/
theorem Content.is_toolCalls (c : Content) :
    List.Forall₂ AnsweredCall.Is (c.functionCalls.map fun f => ⟨none, f.name, f.args⟩)
      c.toolCalls := by
  have hfst : c.functionCalls = c.functionCalls.zipIdx.map Prod.fst :=
    (List.zipIdx_map_fst 0 c.functionCalls).symm
  rw [Content.toolCalls, List.forall₂_map_right_iff]
  nth_rewrite 1 [hfst]
  rw [List.map_map, List.forall₂_map_left_iff, List.forall₂_same]
  exact fun f _ => ⟨rfl, rfl, fun _ hid => by cases hid⟩

/-- The reasons of a candidate that stops. -/
theorem convertReason_stop : convertReason (lit "STOP") = lit "stop" := by decide

theorem convertReason_eq_length {cand : Candidate} (h : cand.Stops) :
    convertReason cand.finishReason = lit "length" ↔ cand.finishReason = lit "MAX_TOKENS" := by
  rcases h with hstop | hmax
  · rw [hstop]
    decide
  · rw [hmax]
    decide

/-- The translation is wrong only about a candidate that calls and stops. -/
theorem Candidate.signals_iff {cand : Candidate} (h : cand.Stops) :
    Signals cand.answer cand.message (convertReason cand.finishReason) ↔
      (cand.finishReason = lit "STOP" → cand.content.functionCalls = []) := by
  constructor
  · intro hsignals hstop
    have hnot : ¬ cand.finishReason = lit "MAX_TOKENS" := by
      rw [hstop]
      decide
    have htools := hsignals.toolCalls hnot
    rw [hstop, convertReason_stop] at htools
    by_contra hcalls
    exact absurd (htools.mpr (mt Candidate.toolCalls_eq_nil.mp hcalls)) (by decide)
  · intro hcalls
    have hstop : ¬ cand.finishReason = lit "MAX_TOKENS" →
        convertReason cand.finishReason = lit "stop" ∧ cand.message.toolCalls = [] := by
      intro hnot
      have hreason := h.resolve_right hnot
      rw [hreason]
      exact ⟨convertReason_stop, Candidate.toolCalls_eq_nil.mpr (hcalls hreason)⟩
    refine ⟨convertReason_eq_length h, ?_, fun hnot _ => (hstop hnot).1, cand.content_message, ?_⟩
    · intro hnot
      rw [(hstop hnot).1, (hstop hnot).2]
      exact iff_of_false (by decide) fun hne => hne rfl
    · rw [cand.toolCalls_message]
      exact cand.content.is_toolCalls

/-- The choice has a message, and they say what upstream answered. -/
def ChoiceSignals (answer : Answer) (c : Choice) : Prop :=
  ∃ msg, c.message = some msg ∧ Signals answer msg c.finishReason

theorem Candidate.choiceSignals_iff (cand : Candidate) (i : Nat) :
    ChoiceSignals cand.answer (cand.choice i) ↔
      Signals cand.answer cand.message (convertReason cand.finishReason) := by
  constructor
  · rintro ⟨msg, hmsg, hsignals⟩
    obtain rfl := Option.some.inj hmsg
    exact hsignals
  · intro hsignals
    exact ⟨cand.message, rfl, hsignals⟩

/-- Every choice says what its candidate answered. -/
def GeminiSignals (gr : Response) : Prop :=
  ∀ model created, List.Forall₂ (fun cand c => ChoiceSignals (Candidate.answer cand) c) gr.candidates
    (convertFromGemini gr model created).choices

theorem choicesSignal_iff {cands : List Candidate} (h : ∀ cand ∈ cands, cand.Stops) (n : Nat) :
    List.Forall₂ (fun cand c => ChoiceSignals (Candidate.answer cand) c) cands
        ((cands.zipIdx n).map fun cand => cand.1.choice cand.2) ↔
      ∀ cand ∈ cands, cand.finishReason = lit "STOP" → cand.content.functionCalls = [] := by
  induction cands generalizing n with
  | nil => simp
  | cons cand cands ih =>
    have hrest := ih (fun c hc => h c (List.mem_cons_of_mem cand hc)) (n + 1)
    rw [List.zipIdx_cons, List.map_cons, List.forall₂_cons, hrest, List.forall_mem_cons,
      Candidate.choiceSignals_iff, Candidate.signals_iff (h cand List.mem_cons_self)]

theorem geminiSignals_iff {gr : Response} (h : ∀ cand ∈ gr.candidates, cand.Stops) :
    GeminiSignals gr ↔
      ∀ cand ∈ gr.candidates, cand.finishReason = lit "STOP" → cand.content.functionCalls = [] := by
  constructor
  · intro hall
    exact (choicesSignal_iff h 0).mp (hall [] 0)
  · intro hall model created
    exact (choicesSignal_iff h 0).mpr hall

/-! ### The other translation -/

/-- An Anthropic response that stopped at the limit, or else for the tools it uses, or else at
its end. -/
def StopsForTools (ar : Anthropic.Response) : Prop :=
  ar.stopReason = lit "max_tokens" ∨
    (ar.stopReason = lit "tool_use" ∧ ∃ c ∈ ar.content, c.type = lit "tool_use") ∨
    (ar.stopReason = lit "end_turn" ∧ ∀ c ∈ ar.content, c.type ≠ lit "tool_use")

def anthropicAnswer (ar : Anthropic.Response) : Answer :=
  { limited := ar.stopReason = lit "max_tokens"
    texts := (ar.content.filter fun c => c.type = lit "text").map (·.text)
    calls := (ar.content.filter fun c => c.type = lit "tool_use").map fun c =>
      ⟨some c.id, c.name, c.input⟩ }

/-- Its one choice says what it answered. -/
def AnthropicSignals (ar : Anthropic.Response) : Prop :=
  ∀ publicModel created,
    List.Forall₂ ChoiceSignals [anthropicAnswer ar]
      (Anthropic.convertResponse ar publicModel created).choices

theorem anthropicToolCalls_eq_nil {cs : List Anthropic.Content} :
    Anthropic.toolCalls cs = [] ↔ ∀ c ∈ cs, c.type ≠ lit "tool_use" := by
  rw [Anthropic.toolCalls, List.map_eq_nil_iff, List.filter_eq_nil_iff]
  simp

/-- The finish reason of a response that stops for its tools. -/
theorem anthropicReason {ar : Anthropic.Response} (h : StopsForTools ar) :
    (Anthropic.finishReason ar.stopReason = lit "length" ↔ ar.stopReason = lit "max_tokens") ∧
      (¬ ar.stopReason = lit "max_tokens" →
        (Anthropic.finishReason ar.stopReason = lit "tool_calls" ↔
          Anthropic.toolCalls ar.content ≠ []) ∧
        (Anthropic.toolCalls ar.content = [] →
          Anthropic.finishReason ar.stopReason = lit "stop")) := by
  rcases h with hmax | ⟨htool, c, hc, htype⟩ | ⟨hend, hnone⟩
  · rw [hmax]
    exact ⟨by decide, fun hne => absurd rfl hne⟩
  · have hne : Anthropic.toolCalls ar.content ≠ [] := fun hnil =>
      anthropicToolCalls_eq_nil.mp hnil c hc htype
    rw [htool]
    exact ⟨by decide, fun _ => ⟨iff_of_true (by decide) hne, fun hnil => absurd hnil hne⟩⟩
  · have hnil : Anthropic.toolCalls ar.content = [] := anthropicToolCalls_eq_nil.mpr hnone
    rw [hend]
    exact ⟨by decide, fun _ => ⟨iff_of_false (by decide) (not_not.mpr hnil), fun _ => by decide⟩⟩

theorem anthropicSignals {ar : Anthropic.Response} (h : StopsForTools ar) :
    AnthropicSignals ar := by
  intro publicModel created
  obtain ⟨hlength, hother⟩ := anthropicReason h
  refine .cons ⟨_, rfl, hlength, fun hnot => (hother hnot).1, fun hnot => (hother hnot).2, ?_, ?_⟩ .nil
  · show (if Anthropic.textParts ar.content = [] then Json.null
        else .str (Anthropic.textParts ar.content).flatten) =
          .str (Anthropic.textParts ar.content).flatten ∨ _
    split
    · rename_i hnil
      refine .inr ⟨rfl, ?_⟩
      show (Anthropic.textParts ar.content).flatten = []
      rw [hnil]
      rfl
    · exact .inl rfl
  · show List.Forall₂ AnsweredCall.Is (anthropicAnswer ar).calls (Anthropic.toolCalls ar.content)
    rw [anthropicAnswer, Anthropic.toolCalls, List.forall₂_map_left_iff, List.forall₂_map_right_iff,
      List.forall₂_same]
    exact fun c _ => ⟨rfl, rfl, fun id hid => Option.some.inj hid⟩

/-- A call of a tool. -/
def weatherCall : Response where
  candidates :=
    [{ content :=
        { role := lit "model"
          parts := [{ functionCall := some ⟨lit "weather", lit "\x7b\"city\": \"Bern\"\x7d"⟩ }] }
       finishReason := lit "STOP" }]

/-- It goes out as a message that stops. -/
theorem not_signals_weatherCall : ¬ GeminiSignals weatherCall := by
  intro h
  have hstops : ∀ cand ∈ weatherCall.candidates, cand.Stops := by
    intro cand hcand
    obtain rfl := List.mem_singleton.mp hcand
    exact .inl rfl
  have hcalls := (geminiSignals_iff hstops).mp h _ List.mem_cons_self rfl
  cases hcalls

/-- **When both translations signal tool calls the OpenAI way**: exactly when no candidate
that stops by itself has called a function. -/
theorem bothSignal_iff {gr : Response} (hgr : ∀ cand ∈ gr.candidates, cand.Stops)
    {ar : Anthropic.Response} (har : StopsForTools ar) :
    GeminiSignals gr ∧ AnthropicSignals ar ↔
      ∀ cand ∈ gr.candidates, cand.finishReason = lit "STOP" → cand.content.functionCalls = [] := by
  rw [geminiSignals_iff hgr]
  exact and_iff_left (anthropicSignals har)

/-- A call at the limit. -/
def limitedCall : Response where
  candidates :=
    [{ content := { role := lit "model", parts := [{ functionCall := some ⟨lit "weather", lit "\x7b\x7d"⟩ }] }
       finishReason := lit "MAX_TOKENS" }]

/-- A response that stops for a tool. -/
def callingResponse : Anthropic.Response where
  id := lit "msg_1"
  content :=
    [{ type := lit "text", text := lit "Let me see." },
     { type := lit "tool_use", id := lit "toolu_1", name := lit "weather", input := lit "\x7b\x7d" }]
  stopReason := lit "tool_use"
  usage := { inputTokens := 10, outputTokens := 5 }

theorem bothSignal_limitedCall :
    (GeminiSignals limitedCall ∧ AnthropicSignals callingResponse) ∧
      ∀ cand ∈ limitedCall.candidates, cand.finishReason ≠ lit "STOP" := by
  have hmax : ∀ cand ∈ limitedCall.candidates, cand.finishReason = lit "MAX_TOKENS" := by
    intro cand hcand
    obtain rfl := List.mem_singleton.mp hcand
    rfl
  have hnot : ∀ cand ∈ limitedCall.candidates, cand.finishReason ≠ lit "STOP" := by
    intro cand hcand
    rw [hmax cand hcand]
    decide
  have htool : StopsForTools callingResponse :=
    .inr (.inl ⟨rfl, _, List.mem_cons_of_mem _ List.mem_cons_self, rfl⟩)
  exact ⟨(bothSignal_iff (fun cand hcand => .inr (hmax cand hcand)) htool).mpr
    fun cand hcand hstop => absurd hstop (hnot cand hcand), hnot⟩

end UniLLM.Gemini
