import UniLLM.Go.JsonText
import UniLLM.Provider.StreamMessage

/-!
# The adapter's output as lines

What the adapter emits is read again line by line.  A marshalled chunk has no
control characters, so it is one line, followed by an empty one; and the model
name stands in its text where it is expected, which is what the service relies on
when it puts another name there.
-/

namespace UniLLM.Anthropic
open Go OpenAI

/-! ### The text of a chunk -/

/-- A chunk with the constant members the adapter gives it. -/
def IsChunk (c : ChatCompletionResponse) : Prop :=
  c.id = [] ∧ c.object = lit "chat.completion.chunk" ∧ c.created = 0

/-- The text of a chunk up to its model name. -/
def chunkHead : GoString :=
  lit "data: \x7b\"id\":\"\",\"object\":\"chat.completion.chunk\",\"created\":0,"

theorem dataLine_marshal {c : ChatCompletionResponse} (hc : IsChunk c) (hm : Plain c.model) :
    lit "data: " ++ c.marshal =
      chunkHead ++ (lit "\"model\":\"" ++ (c.model ++ 0x22 ::
        encodeFields ((lit "choices", .arr (c.choices.map Choice.toJson)) ::
          omitNil "usage" Usage.toJson c.usage))) := by
  obtain ⟨id, object, created, model, choices, usage⟩ := c
  obtain ⟨rfl, rfl, rfl⟩ := hc
  have hq : quote model = 0x22 :: (model ++ [0x22]) := by rw [quote, hm.quoteBody_eq]
  simp only [ChatCompletionResponse.marshal, ChatCompletionResponse.toJson, List.cons_append,
    List.nil_append, Json.encode, encodeFields, hq]
  rw [List.append_assoc]
  rfl

/-! ### Lines -/

/-- The lines a caller sees for an emission. -/
def emissionLines : Emission → List GoString
  | .nothing => []
  | .chunk c => [lit "data: " ++ c.marshal, []]
  | .stop => [lit "data: [DONE]", []]

/-- The chunks among the emissions have clean trees. -/
def Emission.IsClean : Emission → Prop
  | .chunk c => c.toJson.Clean
  | _ => True

/-- What is emitted falls into lines the way it was put together. -/
theorem lines_render {es : List Emission} (h : ∀ e ∈ es, e.IsClean) :
    lines (es.flatMap Emission.render) = es.flatMap emissionLines := by
  induction es with
  | nil => rfl
  | cons e es ih =>
    have htwo : ∀ {line : GoString} (rest : GoString), Printable line →
        lines (line ++ lit "\n\n" ++ rest) = [line, []] ++ lines rest := by
      intro line rest hline
      have hempty : lines ([] ++ newline :: rest) = [] :: lines rest := lines_line List.not_mem_nil
      rw [List.nil_append] at hempty
      rw [List.append_assoc, show lit "\n\n" ++ rest = newline :: newline :: rest from rfl,
        lines_line hline.newline_not_mem, hline.dropCR_eq, hempty]
      rfl
    have hes := ih fun e he => h e (List.mem_cons_of_mem _ he)
    rw [List.flatMap_cons, List.flatMap_cons]
    cases e with
    | nothing => exact hes
    | stop =>
      have hdone : Printable (lit "data: [DONE]") := by decide
      have hsplit : Emission.stop.render = lit "data: [DONE]" ++ lit "\n\n" := by decide
      rw [hsplit, htwo _ hdone, hes]
      rfl
    | chunk c =>
      have hdata : Printable (lit "data: ") := by decide
      have hclean : c.toJson.Clean := h (.chunk c) (List.mem_cons_self ..)
      rw [Emission.render, ChatCompletionResponse.marshal,
        htwo _ (hdata.append (Json.printable _ hclean)), hes]
      rfl

/-! ### The chunks of a message -/

variable {model : GoString}

/-- A chunk the adapter emits for a message: text, or the one that finishes. -/
def MessageChunk (model : GoString) (m : StreamedMessage) (c : ChatCompletionResponse) : Prop :=
  (∃ text, validString text = true ∧ c = textChunk model text) ∨
    c = finishChunk model m.messageDelta

theorem blockEvents_emit {b : StreamedBlock} {i : Nat} {c : ChatCompletionResponse}
    (h : Emission.chunk c ∈ (b.events i).map (translateEvent model)) :
    ∃ piece ∈ b.pieces, c = textChunk model piece := by
  obtain ⟨event, hevent, hc⟩ := List.mem_map.mp h
  simp only [StreamedBlock.events, List.mem_append, List.mem_singleton, List.mem_map] at hevent
  rcases hevent with (rfl | ⟨piece, hpiece, rfl⟩) | rfl
  · rw [translateEvent_blockStart] at hc; cases hc
  · cases hb : b.block with
    | text s =>
      rw [hb, translateEvent_textDelta] at hc
      exact ⟨piece, hpiece, (Emission.chunk.inj hc).symm⟩
    | toolUse id name input => rw [hb, translateEvent_inputDelta] at hc; cases hc
  · rw [translateEvent_blockStop] at hc; cases hc

/-- What is emitted for a message are chunks of these two kinds. -/
theorem events_emit {m : StreamedMessage} {c : ChatCompletionResponse}
    (h : Emission.chunk c ∈ m.events.map (translateEvent model)) : MessageChunk model m c := by
  simp only [StreamedMessage.events, List.map_append, List.mem_append, List.map_cons, List.map_nil,
    List.mem_cons, List.not_mem_nil, or_false, List.map_flatMap, List.mem_flatMap] at h
  rcases h with (hstart | ⟨⟨b, i⟩, hb, hblock⟩) | hfinish | hstop
  · cases hstart
  · obtain ⟨piece, hpiece, rfl⟩ := blockEvents_emit hblock
    exact .inl ⟨piece, b.valid piece hpiece, rfl⟩
  · exact .inr (Emission.chunk.inj hfinish)
  · cases hstop

theorem MessageChunk.isChunk {m : StreamedMessage} {c : ChatCompletionResponse}
    (h : MessageChunk model m c) : IsChunk c ∧ c.model = model := by
  rcases h with ⟨text, -, rfl⟩ | rfl
  · exact ⟨⟨rfl, rfl, rfl⟩, rfl⟩
  · exact ⟨⟨rfl, rfl, rfl⟩, rfl⟩

/-! ### Their trees -/

/-- A tree that is read back from its text. -/
def Survives (v : Json) : Prop := v.Clean ∧ v.depth ≤ maxNestingDepth

theorem intJson_clean (i : Int) : (intJson i).Clean := by
  rw [intJson, Json.Clean]
  exact isNumberText_formatInt i

/-- The names of members that occur in a chunk, and its constant texts, are UTF-8. -/
theorem chunk_names_valid :
    ∀ name ∈ [lit "id", lit "object", lit "created", lit "model", lit "choices", lit "usage",
      lit "index", lit "delta", lit "role", lit "content", lit "finish_reason", lit "prompt_tokens",
      lit "completion_tokens", lit "total_tokens", lit "chat.completion.chunk", []],
      validString name = true := by
  decide

theorem textChunk_survives {text : GoString} (hm : validString model = true)
    (ht : validString text = true) : Survives (textChunk model text).toJson := by
  have hnames := chunk_names_valid
  simp only [List.forall_mem_cons] at hnames
  constructor
  · simp only [ChatCompletionResponse.toJson, textChunk, Choice.toJson, Message.toJson, omitEmpty,
      omitNil, Json.canonical, List.map_cons, List.map_nil, List.isEmpty_nil, if_true,
      List.append_nil, List.cons_append, List.nil_append, Json.Clean, CleanFields, CleanElems,
      hnames, hm, ht, intJson_clean, and_self]
  · have hdepth : (textChunk model text).toJson.depth = 4 := rfl
    rw [hdepth]
    decide

/-- A chunk that finishes a message, with its usage. -/
def finished (model finishReason : GoString) (completionTokens : Int) : ChatCompletionResponse :=
  { object := lit "chat.completion.chunk"
    model := model
    choices := [{ index := 0, delta := some {}, finishReason := finishReason }]
    usage := some { completionTokens := completionTokens } }

theorem finished_survives {finishReason : GoString} (n : Int) (hm : validString model = true)
    (hf : validString finishReason = true) : Survives (finished model finishReason n).toJson := by
  have hnames := chunk_names_valid
  simp only [List.forall_mem_cons] at hnames
  constructor
  · cases hempty : finishReason.isEmpty <;>
      simp only [ChatCompletionResponse.toJson, finished, Choice.toJson, Message.toJson, Usage.toJson,
        omitEmpty, omitNil, Json.canonical, List.map_cons, List.map_nil, List.isEmpty_nil, if_true,
        hempty, Bool.false_eq_true, if_false, List.append_nil, List.cons_append, List.nil_append,
        Json.Clean, CleanFields, CleanElems, hnames, hm, hf, intJson_clean, and_self]
  · have hdepth : (finished model finishReason n).toJson.depth = 4 := by
      cases finishReason <;> rfl
    rw [hdepth]
    decide

theorem validString_streamFinishReason (stopReason : GoString) :
    validString (streamFinishReason stopReason) = true := by
  unfold streamFinishReason
  split
  · decide
  · split <;> decide

end UniLLM.Anthropic
