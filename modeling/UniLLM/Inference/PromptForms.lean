import UniLLM.Inference.Helpers
import UniLLM.Go.JsonRoundTrip

/-!
# The two forms of a text in a prompt

A text is content as it stands or as an array of one text part, and `contentToString` reads
both alike.  The estimate of a prompt measures the first by its length and the second by the
length of its JSON, which is longer by at least 27 bytes: the syntax around the text, and
what escaping adds.  So the form counts for more than a token.
-/

namespace UniLLM.Inference
open Go OpenAI

/-- A text as an array of one part.  The members of the part come in either order. -/
inductive IsParts (s : GoString) : Json → Prop where
  | typeText : IsParts s
      (.arr [.obj [(lit "type", .str (lit "text")), (lit "text", .str s)]])
  | textType : IsParts s
      (.arr [.obj [(lit "text", .str s), (lit "type", .str (lit "text"))]])

/-- How much longer the JSON of the array is than the text. -/
def partsOverhead (s : GoString) : Nat := 27 + ((quoteBody s).length - s.length)

/-- The second list has some contents in the other form.  What this adds to the length of
the prompt is summed up. -/
inductive Rewritten : List Message → List Message → Int → Prop where
  | nil : Rewritten [] [] 0
  | same (m : Message) {ms ms' : List Message} {added : Int} (h : Rewritten ms ms' added) :
      Rewritten (m :: ms) (m :: ms') added
  | toParts (m : Message) (s : GoString) {parts : Json} (hparts : IsParts s parts)
      {ms ms' : List Message} {added : Int} (h : Rewritten ms ms' added) :
      Rewritten ({ m with content := .str s } :: ms) ({ m with content := parts } :: ms')
        (added + partsOverhead s)
  | toString (m : Message) (s : GoString) {parts : Json} (hparts : IsParts s parts)
      {ms ms' : List Message} {added : Int} (h : Rewritten ms ms' added) :
      Rewritten ({ m with content := parts } :: ms) ({ m with content := .str s } :: ms')
        (added - partsOverhead s)

/-! ### Lengths -/

/-- What the estimate takes a message for. -/
def messageSize (m : Message) : Nat :=
  (match m.content with
  | .str s => s.length
  | v => (marshalAny v).length) + 4

/-- What the estimate takes a prompt for, in bytes. -/
def promptSize (ms : List Message) : Nat := (ms.map messageSize).sum

theorem estimatePromptTokens_eq (ms : List Message) :
    estimatePromptTokens ms = max 1 ((promptSize ms / 4 : Nat) : Int) := rfl

theorem length_le_quoteByte (b : UInt8) : 1 ≤ (quoteByte b).length := by
  have hall : ∀ n, n < 256 → 1 ≤ (quoteByte (.ofNat n)).length := by decide +kernel
  have hb := hall b.toNat b.toNat_lt
  rwa [UInt8.ofNat_toNat] at hb

/-- A rune is not shorter inside a string literal. -/
theorem length_le_quoteRune (r : GoString) : r.length ≤ (quoteRune (some r)).length := by
  rcases quoteRune_cases r with ⟨b, rfl, hquote⟩ | ⟨rfl, hquote⟩ | ⟨rfl, hquote⟩ | ⟨-, hquote⟩
  · rw [hquote]
    exact length_le_quoteByte b
  · rw [hquote]
    decide
  · rw [hquote]
    decide
  · rw [hquote]

/-- Escaping never makes a text shorter. -/
theorem length_le_quoteBody (s : GoString) : s.length ≤ (quoteBody s).length := by
  induction s using runeInduction with
  | nil => exact Nat.zero_le _
  | rune r s hr ih =>
    rw [quoteBody] at ih ⊢
    rw [runes_append hr, List.flatMap_cons, List.length_append, List.length_append]
    exact Nat.add_le_add (length_le_quoteRune r) ih
  | invalid b s hb ih =>
    rw [quoteBody] at ih ⊢
    rw [runes_cons_invalid hb, List.flatMap_cons, List.length_append, List.length_cons, Nat.add_comm]
    exact Nat.add_le_add (by decide) ih

/-- The part is written with its members sorted. -/
theorem marshalAny_parts {s : GoString} {parts : Json} (h : IsParts s parts) :
    marshalAny parts =
      lit "[\x7b\"text\":\"" ++ quoteBody s ++ lit "\",\"type\":\"text\"\x7d]" := by
  have hcanonical : parts.canonical =
      .arr [.obj [(lit "text", .str s), (lit "type", .str (lit "text"))]] := by
    cases h with
    | typeText => rfl
    | textType => rfl
  rw [marshalAny, hcanonical]
  simp only [Json.encode, encodeElems, encodeFields, quote, List.cons_append, List.append_assoc,
    List.nil_append]
  rfl

theorem messageSize_str (m : Message) (s : GoString) :
    messageSize { m with content := .str s } = s.length + 4 := rfl

theorem messageSize_parts (m : Message) {s : GoString} {parts : Json} (h : IsParts s parts) :
    messageSize { m with content := parts } = s.length + partsOverhead s + 4 := by
  have hsize : messageSize { m with content := parts } = (marshalAny parts).length + 4 := by
    cases h <;> rfl
  have hopen : (lit "[\x7b\"text\":\"").length = 10 := by decide
  have hclose : (lit "\",\"type\":\"text\"\x7d]").length = 17 := by decide
  have hle := length_le_quoteBody s
  rw [hsize, marshalAny_parts h, List.length_append, List.length_append, hopen, hclose,
    partsOverhead]
  omega

/-! ### The estimates -/

variable {ms ms' : List Message} {added : Int}

theorem promptSize_cons (m : Message) (ms : List Message) :
    promptSize (m :: ms) = messageSize m + promptSize ms := by
  rw [promptSize, List.map_cons, List.sum_cons]
  rfl

theorem Rewritten.promptSize_eq (h : Rewritten ms ms' added) :
    (promptSize ms' : Int) = promptSize ms + added := by
  induction h with
  | nil => rfl
  | same m h ih =>
    rw [promptSize_cons, promptSize_cons]
    omega
  | toParts m s hparts h ih =>
    rw [promptSize_cons, promptSize_cons, messageSize_str, messageSize_parts m hparts]
    omega
  | toString m s hparts h ih =>
    rw [promptSize_cons, promptSize_cons, messageSize_str, messageSize_parts m hparts]
    omega

/-- A message counts for a token even without content. -/
theorem four_le_promptSize (m : Message) (ms : List Message) : 4 ≤ promptSize (m :: ms) := by
  have hmessage : 4 ≤ messageSize m := Nat.le_add_left 4 _
  rw [promptSize_cons]
  exact Nat.le_add_right_of_le hmessage

/-- Neither list has messages, or the minimum of one token matters in neither. -/
theorem Rewritten.size_cases (h : Rewritten ms ms' added) :
    (ms = [] ∧ ms' = [] ∧ added = 0) ∨ (4 ≤ promptSize ms ∧ 4 ≤ promptSize ms') := by
  cases h with
  | nil => exact Or.inl ⟨rfl, rfl, rfl⟩
  | same m h => exact Or.inr ⟨four_le_promptSize _ _, four_le_promptSize _ _⟩
  | toParts m s hparts h => exact Or.inr ⟨four_le_promptSize _ _, four_le_promptSize _ _⟩
  | toString m s hparts h => exact Or.inr ⟨four_le_promptSize _ _, four_le_promptSize _ _⟩

/-- A greeting. -/
def greeting : Message := { role := lit "user", content := .str (lit "hi") }

/-- The greeting in the other form. -/
def greetingParts : Message :=
  { role := lit "user"
    content := .arr [.obj [(lit "type", .str (lit "text")), (lit "text", .str (lit "hi"))]] }

theorem rewritten_greeting :
    Rewritten [greeting] [greetingParts] (0 + partsOverhead (lit "hi")) :=
  .toParts greeting (lit "hi") .typeText .nil

/-- The greeting is estimated at one token as a string, and at eight as an array. -/
theorem estimatePromptTokens_greeting :
    Rewritten [greeting] [greetingParts] (0 + partsOverhead (lit "hi")) ∧
      estimatePromptTokens [greeting] = 1 ∧ estimatePromptTokens [greetingParts] = 8 :=
  ⟨rewritten_greeting, by decide, by decide⟩

/-- **When the form does not matter**: what the other forms add, less what they save, must
not carry the size of the prompt over a multiple of four. -/
theorem estimatePromptTokens_eq_iff (h : Rewritten ms ms' added) :
    estimatePromptTokens ms = estimatePromptTokens ms' ↔
      ((promptSize ms : Int) + added) / 4 = (promptSize ms : Int) / 4 := by
  have hsize := h.promptSize_eq
  rw [estimatePromptTokens_eq, estimatePromptTokens_eq, ← hsize]
  rcases h.size_cases with ⟨rfl, rfl, -⟩ | ⟨hms, hms'⟩
  · exact iff_of_true rfl rfl
  · rw [max_eq_right (by omega), max_eq_right (by omega)]
    omega

theorem estimatePromptTokens_eq_iff_greeting :
    estimatePromptTokens [greeting] = estimatePromptTokens [greetingParts] ↔
      ((promptSize [greeting] : Int) + (0 + partsOverhead (lit "hi"))) / 4 =
        (promptSize [greeting] : Int) / 4 :=
  estimatePromptTokens_eq_iff rewritten_greeting

theorem Rewritten.refl (ms : List Message) : Rewritten ms ms 0 := by
  induction ms with
  | nil => exact .nil
  | cons m ms ih => exact .same m ih

theorem Rewritten.append_left (pre : List Message) (h : Rewritten ms ms' added) :
    Rewritten (pre ++ ms) (pre ++ ms') added := by
  induction pre with
  | nil => exact h
  | cons m pre ih => exact .same m ih

/-- **One text in the other form always changes the estimate.** -/
theorem estimatePromptTokens_lt (pre post : List Message) (m : Message) {s : GoString}
    {parts : Json} (h : IsParts s parts) :
    estimatePromptTokens (pre ++ { m with content := .str s } :: post) <
      estimatePromptTokens (pre ++ { m with content := parts } :: post) := by
  have hrewritten : Rewritten (pre ++ { m with content := .str s } :: post)
      (pre ++ { m with content := parts } :: post) (0 + partsOverhead s) :=
    .append_left pre (.toParts m s h (.refl post))
  have hsize := hrewritten.promptSize_eq
  have hadded : 27 ≤ partsOverhead s := Nat.le_add_right _ _
  rw [estimatePromptTokens_eq, estimatePromptTokens_eq]
  rcases hrewritten.size_cases with ⟨-, hnil, -⟩ | ⟨hstring, hparts⟩
  · simp at hnil
  · rw [max_eq_right (by omega), max_eq_right (by omega)]
    omega

end UniLLM.Inference
