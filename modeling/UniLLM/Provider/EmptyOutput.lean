import UniLLM.Provider.Upstream

/-!
# Which output is taken for empty

Two functions read the content of a message.  `contentToString` reads a string, joins the
texts of parts and writes anything else as JSON; `isEmptyOutput` reads a string only, and
finds nothing in any other content.  They agree exactly on the contents that hold no text
in another form.
-/

namespace UniLLM.Provider
open Go OpenAI

/-- `isEmptyOutput` of the pointer it is called with. -/
def isEmptyResponse : Option ChatCompletionResponse → Bool
  | none => true
  | some resp => isEmptyOutput resp

/-- The message of the first choice. -/
def firstMessage (resp : Option ChatCompletionResponse) : Option Message :=
  (resp.bind (·.choices.head?)).bind (·.message)

/-- There is nothing in the response that `contentToString` could read: no first choice, no
message in it, or neither tool calls nor text in the message. -/
def HoldsNothing (resp : Option ChatCompletionResponse) : Prop :=
  resp.bind (·.choices.head?) = none ∨ firstMessage resp = none ∨
    ∃ msg, firstMessage resp = some msg ∧ msg.toolCalls = [] ∧ contentToString msg.content = []

/-- The content is a string, nil, or an array without text in its parts. -/
def TextOnlyInString : Json → Prop
  | .str _ => True
  | .null => True
  | .arr parts => ∀ part ∈ parts, ∀ t, partText part = some t → t = []
  | _ => False

/-! ### The two readings -/

/-- `isEmptyOutput` looks at the first message alone. -/
theorem isEmptyResponse_iff (resp : Option ChatCompletionResponse) :
    isEmptyResponse resp = true ↔
      ∀ msg, firstMessage resp = some msg → msg.toolCalls = [] ∧ msg.content.asString = [] := by
  cases resp with
  | none => simp [isEmptyResponse, firstMessage]
  | some resp =>
    cases hchoices : resp.choices with
    | nil => simp [isEmptyResponse, isEmptyOutput, firstMessage, hchoices]
    | cons choice choices =>
      cases hmessage : choice.message with
      | none => simp [isEmptyResponse, isEmptyOutput, firstMessage, hchoices, hmessage]
      | some msg =>
        have hempty : isEmptyResponse (some resp) = true ↔
            msg.toolCalls = [] ∧ msg.content.asString = [] := by
          by_cases htools : msg.toolCalls = []
          · cases hcontent : msg.content <;>
              simp [isEmptyResponse, isEmptyOutput, hchoices, hmessage, htools, hcontent,
                Json.asString]
          · simp [isEmptyResponse, isEmptyOutput, hchoices, hmessage, htools]
        simp [hempty, firstMessage, hchoices, hmessage]

theorem holdsNothing_iff (resp : Option ChatCompletionResponse) :
    HoldsNothing resp ↔
      ∀ msg, firstMessage resp = some msg → msg.toolCalls = [] ∧ contentToString msg.content = [] := by
  constructor
  · rintro (hnone | hnone | ⟨msg, hmsg, htools, htext⟩) msg' hmsg'
    · rw [firstMessage, hnone] at hmsg'
      cases hmsg'
    · rw [hnone] at hmsg'
      cases hmsg'
    · rw [hmsg] at hmsg'
      obtain rfl := Option.some.inj hmsg'
      exact ⟨htools, htext⟩
  · intro h
    cases hmsg : firstMessage resp with
    | none => exact Or.inr (Or.inl hmsg)
    | some msg => exact Or.inr (Or.inr ⟨msg, hmsg, h msg hmsg⟩)

/-- Of content of these forms the two read the same. -/
theorem contentToString_eq_asString {content : Json} (h : TextOnlyInString content) :
    contentToString content = content.asString := by
  cases content with
  | null => rfl
  | str s => rfl
  | arr parts =>
    show contentToString (.arr parts) = []
    rw [contentToString_arr, List.flatten_eq_nil_iff]
    intro t ht
    obtain ⟨part, hpart, htext⟩ := List.mem_filterMap.mp ht
    exact h part hpart t htext
  | bool b => exact absurd h id
  | num text => exact absurd h id
  | obj fs => exact absurd h id

/-- Content of any other form holds text that `isEmptyOutput` does not see. -/
theorem contentToString_ne_nil {content : Json} (h : ¬ TextOnlyInString content) :
    contentToString content ≠ [] ∧ content.asString = [] := by
  cases content with
  | null => exact absurd trivial h
  | str s => exact absurd trivial h
  | arr parts =>
    refine ⟨fun hnil => h fun part hpart t htext => ?_, rfl⟩
    rw [contentToString_arr, List.flatten_eq_nil_iff] at hnil
    exact hnil t (List.mem_filterMap.mpr ⟨part, hpart, htext⟩)
  | bool b => cases b <;> exact ⟨by decide, rfl⟩
  | num text => exact ⟨formatFloat_ne_nil _, rfl⟩
  | obj fs =>
    refine ⟨?_, rfl⟩
    show (Json.obj (canonicalFields fs [])).encode ≠ []
    cases canonicalFields fs [] <;> simp [Json.encode]

/-- A text in a part array. -/
def partsResponse : ChatCompletionResponse where
  object := lit "chat.completion"
  model := lit "m"
  choices :=
    [{ message := some
        { role := lit "assistant"
          content := .arr [.obj [(lit "type", .str (lit "text")), (lit "text", .str (lit "hi"))]] } }]

/-- The answer `hi` is taken for empty. -/
theorem isEmptyResponse_partsResponse :
    isEmptyResponse (some partsResponse) = true ∧ ¬ HoldsNothing (some partsResponse) := by
  refine ⟨rfl, fun h => ?_⟩
  have htext := ((holdsNothing_iff _).mp h _ rfl).2
  exact absurd htext (by decide)

/-- **Which output is rightly taken for empty**: the answer is right about a response unless
its first message has no tool calls and its content holds text in another form than a
string. -/
theorem isEmptyResponse_sound_iff (resp : Option ChatCompletionResponse) :
    (isEmptyResponse resp = true → HoldsNothing resp) ↔
      ∀ msg, firstMessage resp = some msg → msg.toolCalls = [] → TextOnlyInString msg.content := by
  rw [isEmptyResponse_iff, holdsNothing_iff]
  constructor
  · intro h msg hmsg htools
    by_contra hother
    obtain ⟨htext, hstring⟩ := contentToString_ne_nil hother
    refine absurd (h (fun msg' hmsg' => ?_) msg hmsg).2 htext
    obtain rfl := Option.some.inj (hmsg.symm.trans hmsg')
    exact ⟨htools, hstring⟩
  · intro h hempty msg hmsg
    obtain ⟨htools, hstring⟩ := hempty msg hmsg
    exact ⟨htools, (contentToString_eq_asString (h msg hmsg htools)).trans hstring⟩

end UniLLM.Provider
