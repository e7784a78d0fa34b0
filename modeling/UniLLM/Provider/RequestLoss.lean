import UniLLM.Provider.AnthropicConvert
import UniLLM.Lib.Occurrences

/-!
# What a translated request loses

An OpenAI request is taken apart into pieces: texts, images, tool calls, the results of
tools, the texts of the system messages, and the sampling parameters.  Of these
`convertRequest` keeps the text of the last system message only, no images, the tool calls
of assistant messages only, and no sampling parameters.  Everything else is in the Anthropic
request, in its order.
-/

namespace UniLLM.Anthropic
open Go OpenAI

/-! ### Pieces -/

/-- A piece of a request. -/
inductive Piece where
  | text (t : GoString)
  /-- The `image_url` of an image part. -/
  | image (imageURL : Json)
  | toolCall (id name arguments : GoString)
  /-- With the texts of the tool's message. -/
  | toolResult (callID : GoString) (texts : List GoString)

def Piece.asText : Piece → Option GoString
  | .text t => some t
  | _ => none

def Piece.isImage : Piece → Bool
  | .image _ => true
  | _ => false

def Piece.isToolCall : Piece → Bool
  | .toolCall _ _ _ => true
  | _ => false

/-- The piece a content part is. -/
def partPiece : Json → Option Piece
  | .obj fs =>
    match mapGet fs (lit "type") with
    | .str type =>
      if type = lit "text" then (partText (.obj fs)).map .text
      else if type = lit "image_url" then some (.image (mapGet fs (lit "image_url")))
      else none
    | _ => none
  | _ => none

def contentPieces : Json → List Piece
  | .str s => [.text s]
  | .arr parts => parts.filterMap partPiece
  | _ => []

/-- The content is a string, nil, or an array of text and image parts. -/
def ContentForm : Json → Prop
  | .str _ => True
  | .null => True
  | .arr parts => ∀ part ∈ parts, (partPiece part).isSome = true
  | _ => False

def contentTexts (content : Json) : List GoString := (contentPieces content).filterMap Piece.asText

def contentImages (content : Json) : List Piece := (contentPieces content).filter Piece.isImage

def toolCallPieces (msg : OpenAI.Message) : List Piece :=
  msg.toolCalls.map fun tc => .toolCall tc.id tc.function.name tc.function.arguments

/-- The pieces of a message.  The texts of system messages are on their own. -/
def messagePieces (msg : OpenAI.Message) : List Piece :=
  if msg.role = lit "system" then contentImages msg.content ++ toolCallPieces msg
  else if msg.role = lit "tool" then
    .toolResult msg.toolCallID (contentTexts msg.content) :: contentImages msg.content ++
      toolCallPieces msg
  else contentPieces msg.content ++ toolCallPieces msg

def systemMessages (msgs : List OpenAI.Message) : List OpenAI.Message :=
  msgs.filter fun msg => msg.role = lit "system"

/-! ### What is kept -/

/-- The blocks of a message; a string is a text block. -/
def MessageContent.contents : MessageContent → List Content
  | .text s => [{ type := lit "text", text := s }]
  | .blocks cs => cs

/-- The block has all of the piece. -/
def Piece.IsIn (c : Content) : Piece → Prop
  | .text t => c.type = lit "text" ∧ OccurInOrder [t] c.text
  | .image _ => c.source ≠ none
  | .toolCall id name arguments =>
    c.type = lit "tool_use" ∧ c.id = id ∧ c.name = name ∧ c.input = arguments
  | .toolResult callID texts =>
    c.type = lit "tool_result" ∧ c.toolUseID = callID ∧ OccurInOrder texts c.content

/-- The pieces are in the blocks, in their order.  A block can have several texts; a text
that is empty needs no block. -/
inductive Kept : List Piece → List Content → Prop where
  | nil (cs : List Content) : Kept [] cs
  | skip (c : Content) {ps : List Piece} {cs : List Content} (h : Kept ps cs) : Kept ps (c :: cs)
  | empty {ps : List Piece} {cs : List Content} (h : Kept ps cs) : Kept (.text [] :: ps) cs
  | piece {p : Piece} {c : Content} (hp : p.IsIn c) {ps : List Piece} {cs : List Content}
      (h : Kept ps cs) : Kept (p :: ps) (c :: cs)
  | texts {ts : List GoString} {c : Content} (htype : c.type = lit "text")
      (hts : OccurInOrder ts c.text) {ps : List Piece} {cs : List Content} (h : Kept ps cs) :
      Kept (ts.map .text ++ ps) (c :: cs)

/-- The body has the sampling parameters that the request sets.  The stop sequences may be
under either of their names. -/
def KeepsSampling (req : ChatCompletionRequest) (body : Json) : Prop :=
  (∀ t, req.temperature = some t → memberOf "temperature" body = some (floatJson t)) ∧
    (∀ p, req.topP = some p → memberOf "top_p" body = some (floatJson p)) ∧
    (req.stop ≠ .null →
      memberOf "stop" body ≠ none ∨ memberOf "stop_sequences" body ≠ none)

/-- Nothing of the request is lost. -/
structure LosesNothing (req : ChatCompletionRequest) : Prop where
  system : OccurInOrder ((systemMessages req.messages).flatMap fun msg => contentTexts msg.content)
    (convertRequest req).system
  pieces : Kept (req.messages.flatMap messagePieces)
    ((convertRequest req).messages.flatMap fun m => m.content.contents)
  sampling : KeepsSampling req (convertRequest req).tree

/-- What `convertRequest` asks of a request: one system message with text, no images, tool
calls in assistant messages only, and no sampling parameters. -/
structure Translatable (req : ChatCompletionRequest) : Prop where
  system : ∀ msg ∈ (systemMessages req.messages).dropLast, contentToString msg.content = []
  images : ∀ msg ∈ req.messages, contentImages msg.content = []
  toolCalls : ∀ msg ∈ req.messages, msg.role ≠ lit "assistant" → msg.toolCalls = []
  temperature : req.temperature = none
  topP : req.topP = none
  stop : req.stop = .null

/-! ### Contents without images -/

/-- A part is a text or an image. -/
theorem partPiece_cases {part : Json} {p : Piece} (h : partPiece part = some p) :
    (∃ t, p = .text t ∧ partText part = some t) ∨ ∃ imageURL, p = .image imageURL := by
  cases part with
  | obj fs =>
    simp only [partPiece] at h
    split at h
    · split at h
      · obtain ⟨t, ht, rfl⟩ := Option.map_eq_some_iff.mp h
        exact Or.inl ⟨t, rfl, ht⟩
      · split at h
        · exact Or.inr ⟨_, (Option.some.inj h).symm⟩
        · cases h
    · cases h
  | _ => cases h

/-- The pieces are the texts that `contentToString` joins. -/
theorem contentPieces_eq {content : Json} (hform : ContentForm content)
    (himages : contentImages content = []) :
    contentPieces content = (contentTexts content).map .text ∧
      contentToString content = (contentTexts content).flatten := by
  cases content with
  | null => exact ⟨rfl, rfl⟩
  | str s => exact ⟨rfl, (List.append_nil s).symm⟩
  | arr parts =>
    have hparts : parts.filterMap partPiece = (parts.filterMap partText).map .text := by
      rw [contentImages, contentPieces, List.filter_eq_nil_iff] at himages
      induction parts with
      | nil => rfl
      | cons part parts ih =>
        obtain ⟨p, hp⟩ := Option.isSome_iff_exists.mp (hform part List.mem_cons_self)
        obtain ⟨t, rfl, ht⟩ | ⟨imageURL, rfl⟩ := partPiece_cases hp
        case inr =>
          exact absurd rfl (himages _ (List.mem_filterMap.mpr ⟨part, List.mem_cons_self, hp⟩))
        rw [List.filterMap_cons_some hp, List.filterMap_cons_some ht, List.map_cons, ih]
        · exact fun part' hpart' => hform part' (List.mem_cons_of_mem _ hpart')
        · intro p' hp'
          rw [List.filterMap_cons_some hp] at himages
          exact himages p' (List.mem_cons_of_mem _ hp')
    have htexts : contentTexts (.arr parts) = parts.filterMap partText := by
      rw [contentTexts, contentPieces, hparts, List.filterMap_map]
      exact List.filterMap_some
    rw [htexts]
    exact ⟨hparts, contentToString_arr parts⟩
  | bool b => exact absurd hform id
  | num text => exact absurd hform id
  | obj fs => exact absurd hform id

/-! ### What is kept of a message -/

/-- The blocks a message becomes: none for a system message. -/
def messageBlocks (msg : OpenAI.Message) : List Content :=
  if msg.role = lit "system" then [] else (convertMessage msg).content.contents

theorem contents_convertRequest (req : ChatCompletionRequest) :
    ((convertRequest req).messages.flatMap fun m => m.content.contents) =
      req.messages.flatMap messageBlocks := by
  have hmessages : (convertRequest req).messages = (convertMessages req.messages []).2 := rfl
  rw [hmessages, convertMessages_snd]
  induction req.messages with
  | nil => rfl
  | cons msg msgs ih =>
    rw [List.flatMap_cons, messageBlocks]
    by_cases hrole : msg.role = lit "system"
    · rw [List.filter_cons_of_neg (by simpa using hrole), if_pos hrole, ih, List.nil_append]
    · rw [List.filter_cons_of_pos (by simpa using hrole), if_neg hrole, List.map_cons,
        List.flatMap_cons, ih]

theorem Kept.append {ps ps' : List Piece} {cs cs' : List Content} (h : Kept ps cs)
    (h' : Kept ps' cs') : Kept (ps ++ ps') (cs ++ cs') := by
  induction h with
  | nil cs =>
    induction cs with
    | nil => exact h'
    | cons c cs ih => exact .skip c ih
  | skip c h ih => exact .skip c ih
  | empty h ih => exact .empty ih
  | piece hp h ih => exact .piece hp ih
  | texts htype hts h ih =>
    rw [List.append_assoc]
    exact .texts htype hts ih

theorem kept_empty_texts {ts : List GoString} (h : ∀ t ∈ ts, t = []) :
    Kept (ts.map .text) [] := by
  induction ts with
  | nil => exact .nil []
  | cons t ts ih =>
    obtain rfl := h _ List.mem_cons_self
    exact .empty (ih fun t ht => h t (List.mem_cons_of_mem _ ht))

/-- Texts are in the block of the joined text, which is left out if it is empty. -/
theorem kept_joined (ts : List GoString) :
    Kept (ts.map .text) (if ts.flatten = [] then []
      else [{ type := lit "text", text := ts.flatten }]) := by
  split
  · rename_i hnil
    exact kept_empty_texts (List.flatten_eq_nil_iff.mp hnil)
  · have h := Kept.texts (c := { type := lit "text", text := ts.flatten }) rfl
      (occurInOrder_flatten ts) (.nil [])
    rwa [List.append_nil] at h

theorem kept_toolCalls (tcs : List ToolCall) :
    Kept (tcs.map fun tc => .toolCall tc.id tc.function.name tc.function.arguments)
      (tcs.map fun tc => { type := lit "tool_use", id := tc.id, name := tc.function.name,
                           input := tc.function.arguments }) := by
  induction tcs with
  | nil => exact .nil []
  | cons tc tcs ih =>
    have hcall : Piece.IsIn
        { type := lit "tool_use", id := tc.id, name := tc.function.name,
          input := tc.function.arguments }
        (.toolCall tc.id tc.function.name tc.function.arguments) := ⟨rfl, rfl, rfl, rfl⟩
    exact .piece hcall ih

theorem kept_message {msg : OpenAI.Message} (hform : ContentForm msg.content)
    (himages : contentImages msg.content = [])
    (htools : msg.role ≠ lit "assistant" → msg.toolCalls = []) :
    Kept (messagePieces msg) (messageBlocks msg) := by
  obtain ⟨hpieces, htext⟩ := contentPieces_eq hform himages
  unfold messagePieces messageBlocks convertMessage
  by_cases hassistant : msg.role = lit "assistant" ∧ msg.toolCalls ≠ []
  · have hsystem : msg.role ≠ lit "system" := by
      rw [hassistant.1]
      decide
    have hnotTool : msg.role ≠ lit "tool" := by
      rw [hassistant.1]
      decide
    rw [if_neg hsystem, if_neg hsystem, if_neg hnotTool, if_pos hassistant, hpieces]
    show Kept _ (toolCallBlocks msg)
    unfold toolCallBlocks
    simp only [htext]
    exact (kept_joined _).append (kept_toolCalls msg.toolCalls)
  · have hnone : msg.toolCalls = [] := by
      by_contra hsome
      exact hassistant ⟨by_contra fun hne => hsome (htools hne), hsome⟩
    have hcalls : toolCallPieces msg = [] := by rw [toolCallPieces, hnone, List.map_nil]
    rw [if_neg hassistant, hcalls, himages]
    by_cases hsystem : msg.role = lit "system"
    · rw [if_pos hsystem]
      exact .nil _
    · rw [if_neg hsystem, if_neg hsystem]
      by_cases htool : msg.role = lit "tool"
      · rw [if_pos htool, if_pos htool, htext]
        have hresult : Piece.IsIn
            { type := lit "tool_result", toolUseID := msg.toolCallID,
              content := (contentTexts msg.content).flatten }
            (.toolResult msg.toolCallID (contentTexts msg.content)) :=
          ⟨rfl, rfl, occurInOrder_flatten _⟩
        exact .piece hresult (.nil [])
      · rw [if_neg htool, if_neg htool, htext, hpieces]
        have htexts := Kept.texts
          (c := { type := lit "text", text := (contentTexts msg.content).flatten }) rfl
          (occurInOrder_flatten _) (.nil [])
        exact htexts

/-- **The messages of a request that meets the conditions are kept.** -/
theorem kept_messages {msgs : List OpenAI.Message} (hform : ∀ msg ∈ msgs, ContentForm msg.content)
    (himages : ∀ msg ∈ msgs, contentImages msg.content = [])
    (htools : ∀ msg ∈ msgs, msg.role ≠ lit "assistant" → msg.toolCalls = []) :
    Kept (msgs.flatMap messagePieces) (msgs.flatMap messageBlocks) := by
  induction msgs with
  | nil => exact .nil []
  | cons msg msgs ih =>
    rw [List.forall_mem_cons] at hform himages htools
    rw [List.flatMap_cons, List.flatMap_cons]
    exact (kept_message hform.1 himages.1 htools.1).append (ih hform.2 himages.2 htools.2)

/-! ### What is lost -/

/-- Images are only in blocks with a source. -/
theorem Kept.no_images {ps : List Piece} {cs : List Content} (h : Kept ps cs)
    (hcs : ∀ c ∈ cs, c.source = none) : ∀ p ∈ ps, p.isImage = false := by
  induction h with
  | nil cs => exact fun p hp => absurd hp List.not_mem_nil
  | skip c h ih => exact ih fun c' hc' => hcs c' (List.mem_cons_of_mem _ hc')
  | empty h ih =>
    rw [List.forall_mem_cons]
    exact ⟨rfl, ih hcs⟩
  | @piece p c hp ps cs h ih =>
    rw [List.forall_mem_cons] at hcs ⊢
    refine ⟨?_, ih hcs.2⟩
    cases p with
    | image imageURL => exact absurd hcs.1 hp
    | _ => rfl
  | texts htype hts h ih =>
    rw [List.forall_mem_append]
    refine ⟨fun p hp => ?_, ih fun c' hc' => hcs c' (List.mem_cons_of_mem _ hc')⟩
    obtain ⟨t, -, rfl⟩ := List.mem_map.mp hp
    rfl

/-- Each tool call has a block of its own. -/
theorem Kept.toolCalls_le {ps : List Piece} {cs : List Content} (h : Kept ps cs) :
    ps.countP Piece.isToolCall ≤ cs.countP fun c => c.type = lit "tool_use" := by
  induction h with
  | nil cs => exact Nat.zero_le _
  | skip c h ih =>
    rw [List.countP_cons]
    exact Nat.le_add_right_of_le ih
  | empty h ih =>
    rw [List.countP_cons]
    exact ih
  | @piece p c hp ps cs h ih =>
    rw [List.countP_cons, List.countP_cons]
    refine Nat.add_le_add ih ?_
    cases p with
    | toolCall id name arguments =>
      rw [if_pos (c := Piece.isToolCall _ = true) rfl, if_pos (by simpa using hp.1)]
    | _ => exact Nat.zero_le _
  | @texts ts c htype hts ps cs h ih =>
    have hnone : (ts.map Piece.text).countP Piece.isToolCall = 0 := by
      rw [List.countP_eq_zero]
      intro p hp
      obtain ⟨t, -, rfl⟩ := List.mem_map.mp hp
      exact Bool.false_ne_true
    rw [List.countP_append, hnone, Nat.zero_add, List.countP_cons]
    exact Nat.le_add_right_of_le ih

/-- `convertRequest` sets no image source. -/
theorem source_eq_none (msg : OpenAI.Message) : ∀ c ∈ messageBlocks msg, c.source = none := by
  unfold messageBlocks convertMessage
  split
  · exact fun c hc => absurd hc List.not_mem_nil
  · split
    · intro c hc
      rcases List.mem_append.mp hc with htext | htool
      · split at htext
        · cases htext
        · rw [List.mem_singleton.mp htext]
      · obtain ⟨tc, -, rfl⟩ := List.mem_map.mp htool
        rfl
    · split <;>
      · intro c hc
        rw [List.mem_singleton.mp hc]

theorem isToolCall_eq_false {content : Json} :
    ∀ p ∈ contentPieces content, p.isToolCall = false := by
  intro p hp
  cases content with
  | str s => rw [List.mem_singleton.mp hp]; rfl
  | arr parts =>
    obtain ⟨part, -, hpart⟩ := List.mem_filterMap.mp hp
    obtain ⟨t, rfl, -⟩ | ⟨imageURL, rfl⟩ := partPiece_cases hpart
    · rfl
    · rfl
  | _ => cases hp

/-- The pieces of a message have all its tool calls. -/
theorem countP_messagePieces (msg : OpenAI.Message) :
    (messagePieces msg).countP Piece.isToolCall = msg.toolCalls.length := by
  have hcalls : (toolCallPieces msg).countP Piece.isToolCall = msg.toolCalls.length := by
    rw [toolCallPieces, List.countP_map]
    exact List.countP_eq_length.mpr fun tc _ => rfl
  have hcontent : (contentPieces msg.content).countP Piece.isToolCall = 0 :=
    List.countP_eq_zero.mpr fun p hp => Bool.not_eq_true _ ▸ isToolCall_eq_false p hp
  have himages : (contentImages msg.content).countP Piece.isToolCall = 0 :=
    Nat.eq_zero_of_le_zero (hcontent ▸ List.Sublist.countP_le List.filter_sublist)
  unfold messagePieces
  split
  · rw [List.countP_append, himages, hcalls, Nat.zero_add]
  · split
    · rw [List.cons_append, List.countP_cons, List.countP_append, himages, hcalls]
      exact Nat.zero_add _
    · rw [List.countP_append, hcontent, hcalls, Nat.zero_add]

/-- The blocks have the tool calls of an assistant. -/
theorem countP_messageBlocks_le (msg : OpenAI.Message) :
    ((messageBlocks msg).countP fun c => c.type = lit "tool_use") ≤
      if msg.role = lit "assistant" then msg.toolCalls.length else 0 := by
  unfold messageBlocks convertMessage
  split
  · exact Nat.zero_le _
  · split
    · rename_i hassistant
      rw [if_pos hassistant.1]
      show (toolCallBlocks msg).countP _ ≤ _
      unfold toolCallBlocks
      rw [List.countP_append, List.countP_map]
      refine Nat.le_trans (Nat.add_le_add_left List.countP_le_length _) ?_
      split
      · exact Nat.le_of_eq (Nat.zero_add _)
      · exact Nat.le_of_eq (Nat.zero_add _)
    · split
      · exact Nat.zero_le _
      · exact Nat.zero_le _

/-- There are no more blocks than tool calls. -/
theorem countP_blocks_le (msgs : List OpenAI.Message) :
    ((msgs.flatMap messageBlocks).countP fun c => c.type = lit "tool_use") ≤
      (msgs.flatMap messagePieces).countP Piece.isToolCall := by
  induction msgs with
  | nil => exact Nat.le_refl _
  | cons msg msgs ih =>
    have hmsg := countP_messageBlocks_le msg
    rw [List.flatMap_cons, List.flatMap_cons, List.countP_append, List.countP_append,
      countP_messagePieces]
    split at hmsg
    · omega
    · omega

/-- With a block for every tool call, no message but an assistant's has one. -/
theorem toolCalls_eq_nil_of_le {msgs : List OpenAI.Message}
    (h : (msgs.flatMap messagePieces).countP Piece.isToolCall ≤
      (msgs.flatMap messageBlocks).countP fun c => c.type = lit "tool_use") :
    ∀ msg ∈ msgs, msg.role ≠ lit "assistant" → msg.toolCalls = [] := by
  induction msgs with
  | nil => exact fun msg hmsg => absurd hmsg List.not_mem_nil
  | cons msg msgs ih =>
    have hmsg := countP_messageBlocks_le msg
    have hrest := countP_blocks_le msgs
    rw [List.flatMap_cons, List.flatMap_cons, List.countP_append, List.countP_append,
      countP_messagePieces] at h
    rw [List.forall_mem_cons]
    refine ⟨fun hrole => ?_, ih ?_⟩
    · rw [if_neg hrole] at hmsg
      exact List.eq_nil_of_length_eq_zero (by omega)
    · split at hmsg
      · omega
      · omega

theorem Kept.no_images_of_request {req : ChatCompletionRequest}
    (h : Kept (req.messages.flatMap messagePieces) (req.messages.flatMap messageBlocks)) :
    ∀ msg ∈ req.messages, contentImages msg.content = [] := by
  have hnone := h.no_images fun c hc => by
    obtain ⟨msg, -, hmem⟩ := List.mem_flatMap.mp hc
    exact source_eq_none msg c hmem
  intro msg hmsg
  rw [List.eq_nil_iff_forall_not_mem]
  intro p hp
  have himage : p.isImage = true := (List.mem_filter.mp hp).2
  have hpiece : p ∈ messagePieces msg := by
    have hcontent : p ∈ contentPieces msg.content := List.mem_of_mem_filter hp
    unfold messagePieces
    split
    · exact List.mem_append_left _ hp
    · split
      · exact List.mem_append_left _ (List.mem_cons_of_mem _ hp)
      · exact List.mem_append_left _ hcontent
  rw [hnone p (List.mem_flatMap.mpr ⟨msg, hmsg, hpiece⟩)] at himage
  cases himage

/-! ### System messages -/

/-- The text of the last system message. -/
theorem system_convertRequest (req : ChatCompletionRequest) :
    (convertRequest req).system =
      ((systemMessages req.messages).map fun msg => contentToString msg.content).getLastD [] :=
  convertMessages_fst req.messages []

theorem system_kept_iff {msgs : List OpenAI.Message}
    (h : ∀ msg ∈ msgs, contentToString msg.content = (contentTexts msg.content).flatten) :
    OccurInOrder (msgs.flatMap fun msg => contentTexts msg.content)
        ((msgs.map fun msg => contentToString msg.content).getLastD []) ↔
      ∀ msg ∈ msgs.dropLast, contentToString msg.content = [] := by
  rcases List.eq_nil_or_concat' msgs with rfl | ⟨init, last, rfl⟩
  · exact iff_of_true trivial fun msg hmsg => absurd hmsg List.not_mem_nil
  · have hinit : ∀ msg ∈ init, contentToString msg.content = (contentTexts msg.content).flatten :=
      fun msg hmsg => h msg (List.mem_append_left _ hmsg)
    have hlast : contentToString last.content = (contentTexts last.content).flatten :=
      h last (List.mem_append_right _ (List.mem_singleton_self last))
    have hflat : (init ++ [last]).flatMap (fun msg => contentTexts msg.content) =
        init.flatMap (fun msg => contentTexts msg.content) ++ contentTexts last.content := by
      rw [List.flatMap_append, List.flatMap_singleton]
    have hsystem : ((init ++ [last]).map fun msg => contentToString msg.content).getLastD [] =
        (contentTexts last.content).flatten := by
      rw [List.map_append, List.map_singleton, List.getLastD_concat, hlast]
    rw [hflat, hsystem, List.dropLast_concat]
    constructor
    · intro hkept msg hmsg
      rw [hinit msg hmsg, List.flatten_eq_nil_iff]
      exact fun t ht => hkept.eq_nil_of_append t (List.mem_flatMap.mpr ⟨msg, hmsg, ht⟩)
    · intro hempty
      refine .nils_append (fun t ht => ?_) (occurInOrder_flatten _)
      obtain ⟨msg, hmsg, hmem⟩ := List.mem_flatMap.mp ht
      have hnil := hempty msg hmsg
      rw [hinit msg hmsg, List.flatten_eq_nil_iff] at hnil
      exact hnil t hmem

/-! ### Sampling parameters -/

/-- The Anthropic body has no sampling parameters. -/
theorem memberOf_tree (r : Request) :
    memberOf "temperature" r.tree = none ∧ memberOf "top_p" r.tree = none ∧
      memberOf "stop" r.tree = none ∧ memberOf "stop_sequences" r.tree = none := by
  unfold Request.tree
  simp +decide [memberOf_append, memberOf_omitEmpty, memberOf_cons]

theorem keepsSampling_iff (req : ChatCompletionRequest) (r : Request) :
    KeepsSampling req r.tree ↔ req.temperature = none ∧ req.topP = none ∧ req.stop = .null := by
  obtain ⟨htemperature, htopP, hstop, hsequences⟩ := memberOf_tree r
  unfold KeepsSampling
  rw [htemperature, htopP, hstop, hsequences]
  simp only [reduceCtorEq, imp_false, ne_eq, not_true_eq_false, or_self, not_not,
    Option.eq_none_iff_forall_ne_some]

/-- **When nothing is lost.** -/
theorem losesNothing_iff (req : ChatCompletionRequest)
    (h : ∀ msg ∈ req.messages, ContentForm msg.content) : LosesNothing req ↔ Translatable req := by
  -- without images, `contentToString` joins the texts
  have htexts (himages : ∀ msg ∈ req.messages, contentImages msg.content = []) :
      ∀ msg ∈ systemMessages req.messages,
        contentToString msg.content = (contentTexts msg.content).flatten := by
    intro msg hmsg
    have hmem := List.mem_of_mem_filter hmsg
    exact (contentPieces_eq (h msg hmem) (himages msg hmem)).2
  constructor
  · rintro ⟨hsystem, hpieces, hsampling⟩
    rw [contents_convertRequest] at hpieces
    have himages := hpieces.no_images_of_request
    obtain ⟨htemperature, htopP, hstop⟩ := (keepsSampling_iff req _).mp hsampling
    rw [system_convertRequest] at hsystem
    exact ⟨(system_kept_iff (htexts himages)).mp hsystem, himages,
      toolCalls_eq_nil_of_le hpieces.toolCalls_le, htemperature, htopP, hstop⟩
  · rintro ⟨hsystem, himages, htools, htemperature, htopP, hstop⟩
    refine ⟨?_, ?_, (keepsSampling_iff req _).mpr ⟨htemperature, htopP, hstop⟩⟩
    · rw [system_convertRequest]
      exact (system_kept_iff (htexts himages)).mpr hsystem
    · rw [contents_convertRequest]
      exact kept_messages h himages htools

/-- A request with these system messages. -/
def instructed (instructions : List String) : ChatCompletionRequest where
  model := lit "claude"
  messages := instructions.map (fun s => { role := lit "system", content := .str (lit s) }) ++
    [{ role := lit "user", content := .str (lit "Hello") }]

theorem contentForm_instructed (instructions : List String) :
    ∀ msg ∈ (instructed instructions).messages, ContentForm msg.content := by
  intro msg hmsg
  rcases List.mem_append.mp hmsg with hsystem | huser
  · obtain ⟨s, -, rfl⟩ := List.mem_map.mp hsystem
    trivial
  · rw [List.mem_singleton.mp huser]
    trivial

/-- The first of two system messages is lost. -/
theorem not_losesNothing_instructed :
    (∀ msg ∈ (instructed ["Answer in French.", "Be brief."]).messages, ContentForm msg.content) ∧
      ¬ LosesNothing (instructed ["Answer in French.", "Be brief."]) := by
  refine ⟨contentForm_instructed _, fun h => ?_⟩
  have hroom := h.system.length_le
  exact absurd hroom (by decide)

theorem losesNothing_iff_instructed :
    LosesNothing (instructed ["Be brief."]) ↔ Translatable (instructed ["Be brief."]) :=
  losesNothing_iff _ (contentForm_instructed _)

end UniLLM.Anthropic
