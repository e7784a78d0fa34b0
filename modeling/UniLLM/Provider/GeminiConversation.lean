import UniLLM.Provider.GeminiResponse
import Mathlib.Data.List.Nodup

/-!
# Gemini conversations with tools

A response with function calls goes out as an OpenAI message.  The client sends the message
back with a tool message for each call, and the history is translated again.  OpenAI links a
result to its call by an id, Gemini by the name of the function.

The calls come back.  The results do not: a tool message has no name, and the translation
neither looks the id up nor makes JSON of the result, and every turn starts its ids at 0.
-/

namespace UniLLM.Gemini
open Go OpenAI

/-- A client's answer to a call: any text. -/
structure ToolResult where
  call : ToolCall
  content : GoString

def ToolResult.message (r : ToolResult) : OpenAI.Message :=
  { role := lit "tool"
    content := .str r.content
    toolCallID := r.call.id }

/-- A message of the client that is about no tool. -/
def Plain (msg : OpenAI.Message) : Prop := msg.role ≠ lit "tool" ∧ msg.toolCalls = []

/-- What the client says, a response of which it takes a candidate, and a result for each
call, in any order. -/
structure Turn where
  prompt : List OpenAI.Message
  plain : ∀ msg ∈ prompt, Plain msg
  response : Response
  model : GoString
  created : Int
  choice : Nat
  candidate : Candidate
  chosen : response.candidates[choice]? = some candidate
  results : List ToolResult
  answered : (results.map (·.call)).Perm candidate.message.toolCalls

/-- The messages of a turn in the client's next request. -/
def Turn.sentBack (t : Turn) : List OpenAI.Message :=
  t.prompt ++
    (((convertFromGemini t.response t.model t.created).choices[t.choice]?).bind (·.message)).toList ++
    t.results.map ToolResult.message

/-! ### What upstream receives -/

def Content.functionResps (c : Content) : List FunctionResp := c.parts.filterMap (·.functionResp)

/-- The request with the turns as its history. -/
def convertHistory (req : ChatCompletionRequest) (turns : List Turn) : Request :=
  convertToGemini { req with messages := turns.flatMap Turn.sentBack }

/-- The conversation survives the round trip. -/
structure RoundTrips (turns : List Turn) : Prop where
  calls : ∀ req, (convertHistory req turns).contents.flatMap Content.functionCalls =
    turns.flatMap fun t => t.candidate.content.functionCalls
  /-- A result names the function it is of, and is JSON. -/
  results : ∀ req, List.Forall₂
    (fun r f => f.name = r.call.function.name ∧ (Json.parse f.response).isSome = true)
    (turns.flatMap (·.results)) ((convertHistory req turns).contents.flatMap Content.functionResps)
  ids : (turns.flatMap fun t => t.candidate.message.toolCalls.map (·.id)).Nodup

/-! ### Messages one by one -/

theorem convertMessages_snd (msgs : List OpenAI.Message) (system : Option Content) :
    (convertMessages msgs system).2 = (msgs.filter (·.role ≠ lit "system")).map convertMessage := by
  induction msgs generalizing system with
  | nil => rfl
  | cons msg msgs ih =>
    rw [convertMessages]
    split
    · rename_i hrole
      rw [ih, List.filter_cons_of_neg (by simpa using hrole)]
    · rename_i hrole
      rw [List.filter_cons_of_pos (by simpa using hrole), List.map_cons, ← ih system]

theorem functionCalls_convertMessage {msg : OpenAI.Message} (h : msg.role ≠ lit "tool") :
    (convertMessage msg).functionCalls =
      msg.toolCalls.map fun tc => ⟨tc.function.name, tc.function.arguments⟩ := by
  have htools : ((msg.toolCalls.map fun tc =>
        ({ functionCall := some ⟨tc.function.name, tc.function.arguments⟩ } : Part)).filterMap
          (·.functionCall)) =
      msg.toolCalls.map fun tc => (⟨tc.function.name, tc.function.arguments⟩ : FunctionCall) := by
    simp [List.filterMap_map]
  unfold convertMessage Content.functionCalls
  rw [if_neg h]
  simp only [List.filterMap_append, htools]
  split <;> rfl

theorem functionResps_convertMessage {msg : OpenAI.Message} (h : msg.role ≠ lit "tool") :
    (convertMessage msg).functionResps = [] := by
  unfold convertMessage Content.functionResps
  rw [if_neg h, List.filterMap_eq_nil_iff]
  intro part hpart
  rcases List.mem_append.mp hpart with htext | htool
  · split at htext
    · cases htext
    · obtain rfl := List.mem_singleton.mp htext
      rfl
  · obtain ⟨tc, -, rfl⟩ := List.mem_map.mp htool
    rfl

/-- A tool message has the result's text, and no name. -/
theorem convertMessage_toolResult (r : ToolResult) :
    convertMessage r.message =
      { role := lit "user", parts := [{ functionResp := some ⟨[], r.content⟩ }] } := by
  have hrole : r.message.role = lit "tool" := rfl
  unfold convertMessage
  rw [if_pos hrole]
  rfl

/-- What each message adds to the contents. -/
def messageCalls (msg : OpenAI.Message) : List FunctionCall :=
  if msg.role = lit "system" then [] else (convertMessage msg).functionCalls

def messageResps (msg : OpenAI.Message) : List FunctionResp :=
  if msg.role = lit "system" then [] else (convertMessage msg).functionResps

theorem flatMap_contents {β : Type} (f : Content → List β) (req : ChatCompletionRequest) :
    (convertToGemini req).contents.flatMap f =
      req.messages.flatMap fun msg =>
        if msg.role = lit "system" then [] else f (convertMessage msg) := by
  have hcontents : (convertToGemini req).contents = (convertMessages req.messages none).2 := rfl
  rw [hcontents, convertMessages_snd]
  induction req.messages with
  | nil => rfl
  | cons msg msgs ih =>
    rw [List.flatMap_cons, ← ih]
    by_cases h : msg.role = lit "system"
    · rw [if_pos h, List.filter_cons_of_neg (by simpa using h)]
      rfl
    · rw [if_neg h, List.filter_cons_of_pos (by simpa using h)]
      rfl

theorem messageCalls_of_plain {msg : OpenAI.Message} (h : Plain msg) :
    messageCalls msg = [] ∧ messageResps msg = [] := by
  unfold messageCalls messageResps
  split
  · exact ⟨rfl, rfl⟩
  · rw [functionCalls_convertMessage h.1, functionResps_convertMessage h.1, h.2]
    exact ⟨rfl, rfl⟩

/-! ### A turn -/

variable (t : Turn)

/-- The message of the choice is that of the candidate. -/
theorem Turn.sentBack_eq : t.sentBack =
    t.prompt ++ [t.candidate.message] ++ t.results.map ToolResult.message := by
  have hchoice : (convertFromGemini t.response t.model t.created).choices[t.choice]? =
      some (t.candidate.choice t.choice) := by
    show (t.response.candidates.zipIdx.map fun cand => cand.1.choice cand.2)[t.choice]? = _
    rw [List.getElem?_map, List.getElem?_zipIdx, t.chosen]
    simp
  unfold Turn.sentBack
  rw [hchoice]
  rfl

/-- The candidate's calls, back from the tool calls. -/
theorem messageCalls_candidate (cand : Candidate) :
    messageCalls cand.message = cand.content.functionCalls ∧ messageResps cand.message = [] := by
  have hrole : cand.message.role = lit "assistant" := by
    unfold Candidate.message
    rfl
  have htool : cand.message.role ≠ lit "tool" := by
    rw [hrole]
    decide
  have hsystem : ¬ cand.message.role = lit "system" := by
    rw [hrole]
    decide
  unfold messageCalls messageResps
  rw [if_neg hsystem, if_neg hsystem, functionCalls_convertMessage htool,
    functionResps_convertMessage htool, cand.toolCalls_message]
  refine ⟨?_, rfl⟩
  have hback := congrArg (List.map fun f : OpenAI.FunctionCall => (⟨f.name, f.arguments⟩ : FunctionCall))
    cand.content.function_toolCalls
  rw [List.map_map, List.map_map] at hback
  exact hback.trans (List.map_id _)

theorem messageCalls_toolResult (r : ToolResult) :
    messageCalls r.message = [] ∧ messageResps r.message = [⟨[], r.content⟩] := by
  have hsystem : ¬ r.message.role = lit "system" := by
    show ¬ lit "tool" = lit "system"
    decide
  unfold messageCalls messageResps
  rw [if_neg hsystem, if_neg hsystem, convertMessage_toolResult]
  exact ⟨rfl, rfl⟩

theorem Turn.messageCalls_sentBack :
    t.sentBack.flatMap messageCalls = t.candidate.content.functionCalls := by
  have hprompt : t.prompt.flatMap messageCalls = [] :=
    List.flatMap_eq_nil_iff.mpr fun msg hmsg => (messageCalls_of_plain (t.plain msg hmsg)).1
  have hresults : (t.results.map ToolResult.message).flatMap messageCalls = [] := by
    rw [List.flatMap_map]
    exact List.flatMap_eq_nil_iff.mpr fun r _ => (messageCalls_toolResult r).1
  rw [t.sentBack_eq, List.flatMap_append, List.flatMap_append, hprompt, hresults,
    List.flatMap_singleton, (messageCalls_candidate t.candidate).1, List.nil_append,
    List.append_nil]

theorem Turn.messageResps_sentBack :
    t.sentBack.flatMap messageResps = t.results.map fun r => ⟨[], r.content⟩ := by
  have hprompt : t.prompt.flatMap messageResps = [] :=
    List.flatMap_eq_nil_iff.mpr fun msg hmsg => (messageCalls_of_plain (t.plain msg hmsg)).2
  have hresults : (t.results.map ToolResult.message).flatMap messageResps =
      t.results.map fun r => ⟨[], r.content⟩ := by
    rw [List.flatMap_map, List.map_eq_flatMap]
    exact List.flatMap_congr fun r _ => (messageCalls_toolResult r).2
  rw [t.sentBack_eq, List.flatMap_append, List.flatMap_append, hprompt, hresults,
    List.flatMap_singleton, (messageCalls_candidate t.candidate).2]
  rfl

variable (req : ChatCompletionRequest) (turns : List Turn)

/-- **The calls come back**, in order. -/
theorem functionCalls_convertHistory :
    (convertHistory req turns).contents.flatMap Content.functionCalls =
      turns.flatMap fun t => t.candidate.content.functionCalls := by
  rw [convertHistory, flatMap_contents, List.flatMap_assoc]
  exact List.flatMap_congr fun t _ => t.messageCalls_sentBack

/-- The results come back without a name. -/
theorem functionResps_convertHistory :
    (convertHistory req turns).contents.flatMap Content.functionResps =
      (turns.flatMap (·.results)).map fun r => ⟨[], r.content⟩ := by
  rw [convertHistory, flatMap_contents, List.flatMap_assoc, List.map_flatMap]
  exact List.flatMap_congr fun t _ => t.messageResps_sentBack

/-! ### Ids -/

/-- The ids of a turn's calls. -/
def Turn.ids : List GoString := t.candidate.message.toolCalls.map (·.id)

theorem Turn.ids_eq : t.ids =
    (List.range t.candidate.content.functionCalls.length).map fun n => lit "call_" ++ formatNat n := by
  have hsnd : (t.candidate.content.functionCalls.zipIdx).map Prod.snd =
      List.range t.candidate.content.functionCalls.length := by
    rw [List.zipIdx_map_snd, List.range_eq_range']
  rw [Turn.ids, t.candidate.toolCalls_message, Content.toolCalls, ← hsnd, List.map_map, List.map_map]
  rfl

/-- Within a turn they are distinct. -/
theorem Turn.nodup_ids : t.ids.Nodup := by
  rw [t.ids_eq]
  refine List.Nodup.map ?_ List.nodup_range
  intro m n h
  exact formatNat_injective (List.append_cancel_left h)

/-- Every turn with a call has the first id. -/
theorem Turn.first_mem_ids (h : t.candidate.content.functionCalls ≠ []) :
    lit "call_0" ∈ t.ids := by
  rw [t.ids_eq]
  exact List.mem_map.mpr ⟨0, List.mem_range.mpr (List.length_pos_iff.mpr h), by decide⟩

/-- At most one turn has calls. -/
def OneTurnCalls : Prop :=
  turns.Pairwise fun t t' =>
    t.candidate.content.functionCalls = [] ∨ t'.candidate.content.functionCalls = []

theorem nodup_ids_iff : (turns.flatMap Turn.ids).Nodup ↔ OneTurnCalls turns := by
  rw [List.nodup_flatMap]
  have hall : ∀ t ∈ turns, t.ids.Nodup := fun t _ => t.nodup_ids
  refine (and_iff_right hall).trans (iff_of_eq ?_)
  refine congrArg (List.Pairwise · turns) ?_
  funext t t'
  refine propext ⟨fun hdisjoint => ?_, fun hnil => ?_⟩
  · by_contra hboth
    obtain ⟨hcalls, hcalls'⟩ := not_or.mp hboth
    exact hdisjoint (t.first_mem_ids hcalls) (t'.first_mem_ids hcalls')
  · intro id hmem hmem'
    rw [t.ids_eq] at hmem
    rw [t'.ids_eq] at hmem'
    rcases hnil with hnil | hnil
    · rw [hnil] at hmem
      cases hmem
    · rw [hnil] at hmem'
      cases hmem'

/-! ### The round trip -/

/-- The results are of the candidate's calls. -/
theorem Turn.names_iff (name : GoString) :
    (∀ r ∈ t.results, r.call.function.name = name) ↔
      ∀ f ∈ t.candidate.content.functionCalls, f.name = name := by
  have hnames : t.candidate.message.toolCalls.map (·.function.name) =
      t.candidate.content.functionCalls.map (·.name) := by
    have hmap := congrArg (List.map fun f : OpenAI.FunctionCall => f.name)
      t.candidate.content.function_toolCalls
    rw [List.map_map, List.map_map] at hmap
    rw [t.candidate.toolCalls_message]
    exact hmap
  have hperm : (t.results.map (·.call.function.name)).Perm
      (t.candidate.content.functionCalls.map (·.name)) := by
    have hcalls := t.answered.map (·.function.name)
    rw [List.map_map, hnames] at hcalls
    exact hcalls
  constructor
  · intro h f hf
    have hmem := hperm.mem_iff.mpr (List.mem_map_of_mem hf)
    obtain ⟨r, hr, hname⟩ := List.mem_map.mp hmem
    exact hname.symm.trans (h r hr)
  · intro h r hr
    have hmem := hperm.mem_iff.mp (List.mem_map_of_mem hr)
    obtain ⟨f, hf, hname⟩ := List.mem_map.mp hmem
    exact hname.symm.trans (h f hf)

theorem results_iff :
    (∀ req, List.Forall₂
      (fun r f => f.name = r.call.function.name ∧ (Json.parse f.response).isSome = true)
      (turns.flatMap (·.results))
      ((convertHistory req turns).contents.flatMap Content.functionResps)) ↔
    (∀ t ∈ turns, ∀ f ∈ t.candidate.content.functionCalls, f.name = []) ∧
      ∀ t ∈ turns, ∀ r ∈ t.results, (Json.parse r.content).isSome = true := by
  simp only [functionResps_convertHistory, List.forall₂_map_right_iff, List.forall₂_same]
  constructor
  · intro h
    have hall := h { model := [], messages := [] }
    refine ⟨fun t ht => (t.names_iff []).mp fun r hr => ?_, fun t ht r hr => ?_⟩
    · exact (hall r (List.mem_flatMap.mpr ⟨t, ht, hr⟩)).1.symm
    · exact (hall r (List.mem_flatMap.mpr ⟨t, ht, hr⟩)).2
  · rintro ⟨hnames, hjson⟩ req r hr
    obtain ⟨t, ht, hr⟩ := List.mem_flatMap.mp hr
    exact ⟨((t.names_iff []).mpr (hnames t ht) r hr).symm, hjson t ht r hr⟩

/-- A question about the weather. -/
def weather : FunctionCall := ⟨lit "weather", lit "\x7b\"city\": \"Bern\"\x7d"⟩

def weatherCandidate : Candidate where
  content := { role := lit "model", parts := [{ functionCall := some weather }] }
  finishReason := lit "STOP"

theorem perm_weather :
    ([(⟨toolCall weather 0, lit "rain"⟩ : ToolResult)].map (·.call)).Perm
      weatherCandidate.message.toolCalls := List.Perm.refl _

theorem chosen_weather : [weatherCandidate][0]? = some weatherCandidate := rfl

theorem plain_nil : ∀ msg ∈ ([] : List OpenAI.Message), Plain msg := fun _ h => absurd h List.not_mem_nil

def weatherTurn : Turn where
  prompt := []
  plain := plain_nil
  response := { candidates := [weatherCandidate] }
  model := lit "gemini"
  created := 0
  choice := 0
  candidate := weatherCandidate
  chosen := chosen_weather
  results := [⟨toolCall weather 0, lit "rain"⟩]
  answered := perm_weather

/-- The result comes back without the name of its function. -/
theorem not_roundTrips_weather : ¬ RoundTrips [weatherTurn] := by
  intro h
  have hnames := ((results_iff [weatherTurn]).mp h.results).1
  exact absurd (hnames _ List.mem_cons_self weather List.mem_cons_self) (by decide)

/-- **When conversations with tools survive the round trip**: exactly when the functions that
are called have no name, the results are JSON, and one turn at most has calls. -/
theorem roundTrips_iff : RoundTrips turns ↔
    (∀ t ∈ turns, ∀ f ∈ t.candidate.content.functionCalls, f.name = []) ∧
      (∀ t ∈ turns, ∀ r ∈ t.results, (Json.parse r.content).isSome = true) ∧
      OneTurnCalls turns := by
  constructor
  · intro h
    obtain ⟨hnames, hjson⟩ := (results_iff turns).mp h.results
    exact ⟨hnames, hjson, (nodup_ids_iff turns).mp h.ids⟩
  · rintro ⟨hnames, hjson, hone⟩
    exact ⟨fun req => functionCalls_convertHistory req turns,
      (results_iff turns).mpr ⟨hnames, hjson⟩, (nodup_ids_iff turns).mpr hone⟩

end UniLLM.Gemini
