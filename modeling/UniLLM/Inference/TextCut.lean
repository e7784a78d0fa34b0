import UniLLM.Inference.ModelRewrite
import UniLLM.Inference.PromptForms
import UniLLM.Inference.Spelling

/-!
# A text in chunks

An upstream that reports no usage is billed by the bytes it sends, and it may cut its text into
chunks as it likes.  The estimate is made once, from the sum over all chunks, so the cut should
not show in the bill.

The content of a chunk is measured after the model name is replaced.  Wherever the name stands
in the chunk, it is a string the decoder has no field for, so another name does not matter.
But the replacement ends at the first quote, even an escaped one.  Then the line is no JSON any
more, and its content is not counted.
-/

namespace UniLLM.Inference
open Go OpenAI

/-! ### Streams of chunks -/

/-- The content of a delta, empty if there is none. -/
def HasContent (delta : List (GoString × Json)) (content : GoString) : Prop :=
  membersFor (lit "content") delta = [.str content] ∨
    content = [] ∧
      (membersFor (lit "content") delta = [] ∨ membersFor (lit "content") delta = [.null])

/-- A chunk with one choice and no usage. -/
structure ChunkShape (fields : List (GoString × Json)) (content : GoString) : Prop where
  choices : ∃ choice delta, membersFor (lit "choices") fields = [.arr [.obj choice]] ∧
    membersFor (lit "delta") choice = [.obj delta] ∧ HasContent delta content
  usage : membersFor (lit "usage") fields = [] ∨ membersFor (lit "usage") fields = [.null]

/-- A line and the text it carries. -/
inductive ChunkLine (model : GoString) : GoString → GoString → Prop
  | chunk {line content : GoString} {before after : List (GoString × Json)}
      (hnames : NamesModel line before model after)
      (hshape : ChunkShape (before ++ (lit "model", .str model) :: after) content) :
      ChunkLine model line content
  /-- A blank line, a comment, the end. -/
  | other {line : GoString}
      (hline : hasPrefix line (lit "data:") = false ∨ line = lit "data: [DONE]") :
      ChunkLine model line []

/-- A stream of chunks of one model: its lines, and the text in each. -/
structure ChunkStream (model : GoString) (source : Source) (chunks : List (GoString × GoString)) :
    Prop where
  lines_eq : lines source.data = chunks.map Prod.fst
  carries : ∀ c ∈ chunks, ChunkLine model c.1 c.2
  fits : LinesFit maxScanTokenSize source

/-- The text of a stream. -/
def textOf (chunks : List (GoString × GoString)) : GoString := chunks.flatMap Prod.snd

/-! ### The bill of a text -/

/-- A token for four bytes, of the prompt and of the text. -/
def textBill (route : ModelRoute) (messages : List Message) (text : GoString) : Tokens × Rat :=
  let prompt : Int := (max 1 (promptSize messages / 4) : Nat)
  let completion : Int := (max 1 (text.length / 4) : Nat)
  (⟨prompt, completion, prompt + completion⟩,
    calculateTokenCost route.inputPricePer1M route.outputPricePer1M prompt completion)

/-- Every call that gets the stream records the bill of the text.  The writer never fails. -/
def BilledByText (publicModel text : GoString) (source : Source) : Prop :=
  ∀ (W : Type) (s : Service W) (call : CallContext) (req : ChatCompletionRequest)
    (writer : List WriterReply) (latency : Rat) (w : W) (route : ModelRoute),
    req.model = publicModel → (∀ reply ∈ writer, reply = .ok) → s.Opens req w route source →
      (s.chatCompletionStream call req writer latency w).1.records.map UsageRecord.bill =
        [textBill route req.messages text]

/-- Two streams of a text are billed by the text, and so they are billed the same. -/
structure CutInvariant (publicModel text : GoString) (source source' : Source) : Prop where
  first : BilledByText publicModel text source
  second : BilledByText publicModel text source'

/-- However a text is cut. -/
def CutsDoNotShow (publicModel : GoString) : Prop :=
  ∀ model source source' chunks chunks', ChunkStream model source chunks →
    ChunkStream model source' chunks' → textOf chunks = textOf chunks' →
      CutInvariant publicModel (textOf chunks) source source'

/-! ### What is lost -/

/-- The first model name of the line has an escaped quote. -/
def cutsName (line : GoString) : Bool :=
  match index modelKey line with
  | none => false
  | some idx =>
    let name := line.drop (idx + modelKey.length)
    match index (lit "\"") name with
    | none => false
    | some stop => QuoteState.inside.run (name.take stop) == .escape

/-- The text of the other lines. -/
def keptText (chunks : List (GoString × GoString)) : GoString :=
  textOf (chunks.filter fun c => !cutsName c.1)

/-- What is lost does not change the estimate. -/
def KeepsEstimate (chunks : List (GoString × GoString)) : Prop :=
  max 1 ((keptText chunks).length / 4) = max 1 ((textOf chunks).length / 4)

section Place

variable {line before old rest : GoString}

theorem OldName.cutsName_eq (h : OldName line before old rest) :
    cutsName line = (QuoteState.inside.run old == .escape) := by
  unfold cutsName
  rw [h.first]
  simp only [h.drop_eq, index_quote h.ends, List.take_left]

theorem cutsName_of_not (h : ∀ before old rest, ¬ OldName line before old rest) :
    cutsName line = false := by
  unfold cutsName
  cases hfirst : index modelKey line with
  | none => rfl
  | some idx => simp only [index_quote_of_not h hfirst]

end Place

/-! ### The tokens around a name -/

/-- The key in front of a name that is replaced: `model`, or a longer one. -/
def NameKey (key : GoString) : Prop := key = lit "model" ∨ 0x22 ∈ key

theorem setsField_nameKey {name : GoString} (hmodel : setsField name (lit "model") = false)
    (hname : 0x22 ∉ foldName name) {key : GoString} (h : NameKey key) :
    setsField name key = false := by
  rcases h with rfl | hquote
  · exact hmodel
  · exact setsField_of_quote hname hquote

/-- The tokens of a text around the place where a name is replaced: up to the key, and from the
end of the literal on, which may have `more` than the old name. -/
structure NamePlace (x old rest more v key : GoString) (front : List Lexeme)
    (tl : List (GoString × Lexeme)) : Prop where
  nameKey : NameKey key
  literal : Denotes (old ++ more) v
  split : ∃ tail, 0x22 :: rest = more ++ 0x22 :: tail ∧ Lexes tail tl
  paste : ∀ name vs, Lexes (0x22 :: (name ++ 0x22 :: rest)) vs →
    ∃ ts, Lexes (x ++ (modelKey ++ (name ++ 0x22 :: rest))) ts ∧
      ts.map Prod.snd = front ++ .str key :: .mark 0x3A :: vs.map Prod.snd

theorem exists_namePlace {x old rest : GoString} {ts : List (GoString × Lexeme)}
    (hends : 0x22 ∉ old) (h : Lexes (x ++ (modelKey ++ (old ++ 0x22 :: rest))) ts) :
    ∃ more v key front tl, NamePlace x old rest more v key front tl ∧
      ts.map Prod.snd = front ++ memberTokens key (replaceInvalid v) (tl.map Prod.snd) := by
  rw [modelKey_append] at h
  obtain ⟨us, vs, rfl, hvs, hpaste⟩ := h.key_context (by decide) (by decide) not_lexes_model
  have hfront := hpaste [] [] (.nil fun b hb => absurd hb List.not_mem_nil)
  rw [List.append_nil] at hfront
  obtain ⟨us, text, key, rfl, hname⟩ := hfront.last_token (by decide) not_lexes_model
  obtain ⟨more, tail, v, tl, hsplit, hliteral, htail, hmap⟩ := exists_literal hends hvs
  refine ⟨more, v, key, us.map Prod.snd, tl, ⟨hname, hliteral, ⟨tail, hsplit, htail⟩, ?_⟩, ?_⟩
  · intro name vs' hvs'
    rw [modelKey_append]
    exact ⟨_, hpaste _ _ (.mark rfl hvs'), by simp⟩
  · simp [memberTokens, hmap]

section NamePlace

variable {x old rest more v key publicModel : GoString} {front : List Lexeme}
  {tl : List (GoString × Lexeme)}

/-- The literal is the old name, or goes on after an escaped quote. -/
theorem NamePlace.more_cases (h : NamePlace x old rest more v key front tl) :
    (more = [] ∧ QuoteState.inside.run old = .inside ∧ Lexes rest tl) ∨
      ∃ m tail, more = 0x22 :: m ∧ QuoteState.inside.run old = .escape ∧
        rest = m ++ 0x22 :: tail ∧ Lexes tail tl := by
  obtain ⟨tail, hsplit, htail⟩ := h.split
  have hliteral := h.literal
  cases more with
  | nil =>
    rw [List.append_nil] at hliteral
    rw [(List.cons.inj hsplit).2]
    exact Or.inl ⟨rfl, hliteral.enclosed.run_eq, htail⟩
  | cons b m =>
    obtain ⟨rfl, hrest⟩ := List.cons.inj hsplit
    exact Or.inr ⟨m, tail, rfl, hliteral.run_after_quote.1, hrest, htail⟩

/-- **A whole name is replaced by another one.** -/
theorem NamePlace.parse_renamed (h : NamePlace x old rest more v key front tl)
    (hrest : Lexes rest tl) (hpublic : Verbatim publicModel) {s : GoString} {t : Json}
    (ht : t.lexemes = front ++ memberTokens key s (tl.map Prod.snd))
    (hdepth : t.depth ≤ maxNestingDepth) :
    ∃ t', Renamed NameKey t t' ∧
      Json.parse (x ++ (modelKey ++ (publicModel ++ 0x22 :: rest))) = some t' := by
  have hname : Lexes (0x22 :: (publicModel ++ 0x22 :: rest))
      ((0x22 :: (publicModel ++ [0x22]), .str (replaceInvalid publicModel)) :: tl) := by
    have htoken := Lexes.token (.str (denotes_self hpublic.2)) trivial hrest
    rwa [List.cons_append, List.append_assoc, List.singleton_append] at htoken
  obtain ⟨ts, hlex, hts⟩ := h.paste publicModel _ hname
  rw [List.map_cons, replaceInvalid_of_valid hpublic.1] at hts
  obtain ⟨t', hrenamed, ht'⟩ := exists_renamed publicModel h.nameKey t front _ ht
  exact ⟨t', hrenamed,
    parse_eq_some_iff.mpr ⟨ts, hlex, hts.trans ht'.symm, hrenamed.depth_eq ▸ hdepth⟩⟩

/-- **A name that is cut leaves no JSON.** -/
theorem NamePlace.parse_cut {m tail : GoString}
    (h : NamePlace x old rest (0x22 :: m) v key front tl) (hrest : rest = m ++ 0x22 :: tail)
    (htail : Lexes tail tl) (hpublic : Verbatim publicModel) :
    Json.parse (x ++ (modelKey ++ (publicModel ++ 0x22 :: rest))) = none := by
  rw [Option.eq_none_iff_forall_ne_some]
  intro t ht
  obtain ⟨ts, hlex, -⟩ := parse_eq_some_iff.mp ht
  obtain ⟨us, vs, -, hvs, -⟩ := exists_value hlex
  rw [hrest] at hvs
  exact Lexes.not_cut (fun b hb => ⟨(hpublic.2 b hb).1, (hpublic.2 b hb).2.1⟩) h.literal htail hvs

end NamePlace

/-! ### What is decoded -/

theorem decodeDelta_renamed {v v' : Json} (h : Renamed NameKey v v') (old : GoString) :
    decodeDelta old v = decodeDelta old v' := by
  rcases h.obj_or_arr with ⟨fs, fs', rfl, rfl⟩ | ⟨before, after, x, x', rfl, rfl, -⟩
  · exact h.decodeField_eq (fun k hk => setsField_nameKey (by decide) (by decide) hk)
      (fun c v v' hv => hv.decodeString_eq c) old
  · rfl

theorem decodeChoice_renamed {v v' : Json} (h : Renamed NameKey v v') (old : GoString) :
    decodeChoice old v = decodeChoice old v' := by
  rcases h.obj_or_arr with ⟨fs, fs', rfl, rfl⟩ | ⟨before, after, x, x', rfl, rfl, -⟩
  · exact h.decodeField_eq (fun k hk => setsField_nameKey (by decide) (by decide) hk)
      (fun c v v' hv => decodeDelta_renamed hv c) old
  · rfl

theorem decodeChoices_renamed {v v' : Json} (h : Renamed NameKey v v') (old : Option GoString) :
    decodeChoices old v = decodeChoices old v' := by
  rcases h.obj_or_arr with ⟨fs, fs', rfl, rfl⟩ | ⟨before, after, x, x', rfl, rfl, hx⟩
  · rfl
  · cases before with
    | nil =>
      simp only [List.nil_append, decodeChoices]
      rw [decodeChoice_renamed hx]
    | cons w before =>
      simp only [List.cons_append, decodeChoices, List.all_append, List.all_cons]
      rw [decodeChoice_renamed hx]

/-- **The content is the same under another name.** -/
theorem decodeContent_renamed {v v' : Json} (h : Renamed NameKey v v') :
    decodeContent v = decodeContent v' := by
  rcases h.obj_or_arr with ⟨fs, fs', rfl, rfl⟩ | ⟨before, after, x, x', rfl, rfl, -⟩
  · exact h.decodeField_eq (fun k hk => setsField_nameKey (by decide) (by decide) hk)
      (fun c v v' hv => decodeChoices_renamed hv c) none
  · rfl

theorem decodeUsage_renamed {v v' : Json} (h : Renamed NameKey v v') (old : Option Tokens) :
    decodeUsage old v = decodeUsage old v' := by
  rcases h.obj_or_arr with ⟨fs, fs', rfl, rfl⟩ | ⟨before, after, x, x', rfl, rfl, -⟩
  · have hfields : decodeFields decodeTokensField (old.getD {}) fs =
        decodeFields decodeTokensField (old.getD {}) fs' := by
      refine h.decodeFields_eq (fun t k v hk => ?_) (fun t k v v' hv => ?_) _
      · have hprompt : setsField (lit "prompt_tokens") k = false :=
          setsField_nameKey (by decide) (by decide) hk
        have hcompletion : setsField (lit "completion_tokens") k = false :=
          setsField_nameKey (by decide) (by decide) hk
        have htotal : setsField (lit "total_tokens") k = false :=
          setsField_nameKey (by decide) (by decide) hk
        simp [decodeTokensField, hprompt, hcompletion, htotal]
      · simp only [decodeTokensField, hv.decodeInt_eq]
    rw [decodeUsage, decodeUsage, hfields]
  · rfl

/-- So is the usage. -/
theorem decodeChunkUsage_renamed {v v' : Json} (h : Renamed NameKey v v') :
    decodeChunkUsage v = decodeChunkUsage v' := by
  rcases h.obj_or_arr with ⟨fs, fs', rfl, rfl⟩ | ⟨before, after, x, x', rfl, rfl, -⟩
  · exact h.decodeField_eq (fun k hk => setsField_nameKey (by decide) (by decide) hk)
      (fun c v v' hv => decodeUsage_renamed hv c) none
  · rfl

section Chunk

variable {fields : List (GoString × Json)} {content : GoString}

theorem HasContent.decodeDelta_eq {delta : List (GoString × Json)} (h : HasContent delta content) :
    decodeDelta [] (.obj delta) = some content := by
  rw [decodeDelta, decodeFields_membersFor]
  rcases h with hstr | ⟨rfl, hnone | hnull⟩
  · rw [hstr]
    rfl
  · rw [hnone]
    rfl
  · rw [hnull]
    rfl

theorem ChunkShape.decodeContent_eq (h : ChunkShape fields content) :
    decodeContent (.obj fields) = some (some content) := by
  obtain ⟨choice, delta, hchoices, hdelta, hcontent⟩ := h.choices
  have hchoice : decodeChoice [] (.obj choice) = some content := by
    rw [decodeChoice, decodeFields_membersFor, hdelta, List.foldlM_cons, hcontent.decodeDelta_eq]
    rfl
  rw [decodeContent, decodeFields_membersFor, hchoices, List.foldlM_cons, decodeChoices]
  simp [hchoice]

theorem ChunkShape.decodeChunkUsage_eq (h : ChunkShape fields content) :
    decodeChunkUsage (.obj fields) = some none := by
  rw [decodeChunkUsage, decodeFields_membersFor]
  rcases h.usage with hnone | hnull
  · rw [hnone]
    rfl
  · rw [hnull]
    rfl

end Chunk

/-! ### What a line counts -/

variable {publicModel model line text : GoString}

/-- **What is measured of JSON**: what the upstream wrote, unless the name is cut. -/
theorem measured_json (hpublic : Verbatim publicModel) {payload : GoString} {t : Json}
    (hparse : Json.parse payload = some t) :
    reportedUsage (replaceModelName (lit "data: " ++ payload) publicModel) =
        (if cutsName (lit "data: " ++ payload) then none
        else reportedUsage (lit "data: " ++ payload)) ∧
      extractContentLength (replaceModelName (lit "data: " ++ payload) publicModel) =
        if cutsName (lit "data: " ++ payload) then 0
        else extractContentLength (lit "data: " ++ payload) := by
  by_cases hplace : ∃ front old rest, OldName (lit "data: " ++ payload) front old rest
  · obtain ⟨front, old, rest, hold⟩ := hplace
    have hcuts := hold.cutsName_eq
    obtain ⟨x, rfl, rfl⟩ := hold.before_eq
    obtain ⟨ts, hlex, hts, hdepth⟩ := parse_eq_some_iff.mp hparse
    obtain ⟨more, v, key, lead, tl, hname, hmap⟩ := exists_namePlace hold.ends hlex
    rw [hold.replaceModelName_eq, List.append_assoc, hcuts, reportedUsage, reportedUsage,
      extractContentLength, extractContentLength, trimPrefix_append, trimPrefix_append]
    rcases hname.more_cases with ⟨rfl, hrun, hrest⟩ | ⟨m, tail, rfl, hrun, hrest, htail⟩
    · -- the whole name is replaced
      obtain ⟨t', hrenamed, ht'⟩ := hname.parse_renamed hrest hpublic (hts.symm.trans hmap) hdepth
      rw [ht', hparse, Option.bind_some, Option.bind_some, Option.bind_some, Option.bind_some,
        ← decodeContent_renamed hrenamed, ← decodeChunkUsage_renamed hrenamed, hrun]
      exact ⟨rfl, rfl⟩
    · rw [hname.parse_cut hrest htail hpublic, hrun]
      exact ⟨rfl, rfl⟩
  · have hnone : ∀ front old rest, ¬ OldName (lit "data: " ++ payload) front old rest :=
      fun front old rest hold => hplace ⟨front, old, rest, hold⟩
    rw [replaceModelName_of_not publicModel hnone, cutsName_of_not hnone]
    exact ⟨rfl, rfl⟩

theorem measured_chunk (hpublic : Verbatim publicModel) {before after : List (GoString × Json)}
    (hnames : NamesModel line before model after)
    (hshape : ChunkShape (before ++ (lit "model", .str model) :: after) text) :
    reportedUsage (replaceModelName line publicModel) = none ∧
      extractContentLength (replaceModelName line publicModel) =
        if cutsName line then 0 else text.length := by
  obtain ⟨payload, rfl, hparse⟩ := hnames.parsed
  have husage : reportedUsage (lit "data: " ++ payload) = none := by
    rw [reportedUsage, trimPrefix_append, hparse, Option.bind_some, hshape.decodeChunkUsage_eq]
    rfl
  have hchars : extractContentLength (lit "data: " ++ payload) = text.length := by
    rw [extractContentLength, trimPrefix_append, hparse, Option.bind_some, hshape.decodeContent_eq]
  obtain ⟨hreported, hmeasured⟩ := measured_json hpublic hparse
  rw [hreported, hmeasured, husage, hchars, ite_self]
  exact ⟨rfl, rfl⟩

/-- The line has the text that the loop looks for before it decodes a usage, as it is relayed. -/
def showsUsage (publicModel line : GoString) : Bool :=
  contains (replaceModelName line publicModel) (lit "\"usage\"")

/-- Counts of the same payload, with its name cut or not. -/
theorem counts_eq_iff {shows shows' cut cut' : Bool} {usage : Option Tokens} {chars : Nat} :
    Counts.mk (if shows then some ((if cut then none else usage).getD {}).counted else none)
        (if cut then 0 else chars) =
      Counts.mk (if shows' then some ((if cut' then none else usage).getD {}).counted else none)
        (if cut' then 0 else chars) ↔
      shows = shows' ∧
        (cut = cut' ∨ chars = 0 ∧ (shows = true → (usage.getD {}).counted = {})) := by
  have hnothing : Tokens.counted {} = {} := by decide
  rw [Counts.mk.injEq]
  cases shows <;> cases shows' <;> cases cut <;> cases cut' <;> simp [hnothing] <;> grind

/-- **When two spellings of JSON count alike**: both show a usage or neither, and the name is cut
in both or in neither, or there is nothing to lose. -/
theorem relayedCounts_eq_iff (hpublic : Verbatim publicModel) {p p' : GoString} {t : Json}
    (hsame : SameTokens p p') (hparse : Json.parse p = some t) :
    relayedCounts publicModel (lit "data: " ++ p) = relayedCounts publicModel (lit "data: " ++ p') ↔
      showsUsage publicModel (lit "data: " ++ p) = showsUsage publicModel (lit "data: " ++ p') ∧
        (cutsName (lit "data: " ++ p) = cutsName (lit "data: " ++ p') ∨
          extractContentLength (lit "data: " ++ p) = 0 ∧
            (showsUsage publicModel (lit "data: " ++ p) = true →
              (extractStreamUsage (lit "data: " ++ p)).counted = {})) := by
  have hparse' : Json.parse p' = some t := by
    rcases hsame with rfl | ⟨ts, hp, hp'⟩
    · exact hparse
    · rw [← parse_congr hp hp', hparse]
  have husage : reportedUsage (lit "data: " ++ p') = reportedUsage (lit "data: " ++ p) := by
    rw [reportedUsage, reportedUsage, trimPrefix_append, trimPrefix_append, hparse, hparse']
  have hchars : extractContentLength (lit "data: " ++ p') = extractContentLength (lit "data: " ++ p) := by
    rw [extractContentLength, extractContentLength, trimPrefix_append, trimPrefix_append, hparse,
      hparse']
  obtain ⟨hreported, hmeasured⟩ := measured_json hpublic hparse
  obtain ⟨hreported', hmeasured'⟩ := measured_json hpublic hparse'
  rw [relayedCounts, relayedCounts, if_pos (isDataLine_of_parse hparse),
    if_pos (isDataLine_of_parse hparse'), lineCounts, lineCounts]
  simp only [extractStreamUsage, hreported, hmeasured, hreported', hmeasured', husage, hchars]
  exact counts_eq_iff

theorem not_isDataLine_of_other
    (h : hasPrefix line (lit "data:") = false ∨ line = lit "data: [DONE]") :
    isDataLine line = false := by
  rcases h with hprefix | rfl
  · rw [Bool.eq_false_iff]
    intro hdata
    obtain ⟨p, rfl, -⟩ := payload_of_isDataLine hdata
    have hsplit : lit "data: " ++ p = lit "data:" ++ (lit " " ++ p) := rfl
    rw [hsplit, hasPrefix_append] at hprefix
    cases hprefix
  · decide

/-- **What a line counts**: its text, unless the name is cut, and no usage. -/
theorem ChunkLine.relayedCounts_eq (h : ChunkLine model line text)
    (hpublic : Verbatim publicModel) :
    ((relayedCounts publicModel line).usage = none ∨
        (relayedCounts publicModel line).usage = some {}) ∧
      (relayedCounts publicModel line).chars = if cutsName line then 0 else text.length := by
  cases h with
  | chunk hnames hshape =>
    obtain ⟨husage, hchars⟩ := measured_chunk hpublic hnames hshape
    rw [relayedCounts, if_pos hnames.isDataLine_eq]
    refine ⟨?_, hchars⟩
    simp only [lineCounts, extractStreamUsage, husage]
    split
    · exact Or.inr rfl
    · exact Or.inl rfl
  | other hline =>
    rw [relayedCounts, not_isDataLine_of_other hline, if_neg Bool.false_ne_true]
    exact ⟨Or.inl rfl, by simp⟩

/-! ### What a stream counts -/

/-- Counts without usage add up. -/
theorem foldl_plus_silent {cs : List Counts} (h : ∀ c ∈ cs, c.usage = none ∨ c.usage = some {})
    (n : Nat) :
    cs.foldl Tally.plus ⟨{}, n⟩ = ⟨{}, n + (cs.map Counts.chars).sum⟩ := by
  induction cs generalizing n with
  | nil => rfl
  | cons c cs ih =>
    obtain ⟨hc, hcs⟩ := List.forall_mem_cons.mp h
    have hplus : Tally.plus ⟨{}, n⟩ c = ⟨{}, n + c.chars⟩ := by
      rcases hc with hnone | hzero
      · rw [Tally.plus, hnone]
        rfl
      · rw [Tally.plus, hzero]
        rfl
    rw [List.foldl_cons, hplus, ih hcs, List.map_cons, List.sum_cons, Nat.add_assoc]

theorem length_keptText (chunks : List (GoString × GoString)) :
    (keptText chunks).length =
      (chunks.map fun c => if cutsName c.1 then 0 else c.2.length).sum := by
  induction chunks with
  | nil => rfl
  | cons c chunks ih =>
    rw [List.map_cons, List.sum_cons, ← ih, keptText, List.filter_cons]
    by_cases hc : cutsName c.1 = true
    · rw [if_pos hc, hc, Bool.not_true, if_neg Bool.false_ne_true, Nat.zero_add]
      rfl
    · rw [if_neg hc, Bool.not_eq_true _ |>.mp hc, Bool.not_false, if_pos rfl, textOf,
        List.flatMap_cons, List.length_append]
      rfl

section Stream

variable {source source' : Source} {chunks chunks' : List (GoString × GoString)}

/-- **A stream counts the text that is kept.** -/
theorem ChunkStream.streamTally_eq (h : ChunkStream model source chunks)
    (hpublic : Verbatim publicModel) :
    streamTally publicModel source = ⟨{}, (keptText chunks).length⟩ := by
  have hcounts : ∀ c ∈ chunks, ((relayedCounts publicModel c.1).usage = none ∨
      (relayedCounts publicModel c.1).usage = some {}) ∧
      (relayedCounts publicModel c.1).chars = if cutsName c.1 then 0 else c.2.length :=
    fun c hc => (h.carries c hc).relayedCounts_eq hpublic
  have hsilent : ∀ c ∈ (lines source.data).map (relayedCounts publicModel),
      c.usage = none ∨ c.usage = some {} := by
    rw [h.lines_eq, List.map_map]
    intro c hc
    obtain ⟨c', hc', rfl⟩ := List.mem_map.mp hc
    exact (hcounts c' hc').1
  have hchars : ((lines source.data).map (relayedCounts publicModel)).map Counts.chars =
      chunks.map fun c => if cutsName c.1 then 0 else c.2.length := by
    rw [h.lines_eq, List.map_map, List.map_map]
    exact List.map_congr_left fun c hc => (hcounts c hc).2
  have hfold := foldl_plus_silent hsilent 0
  rw [hchars, ← length_keptText, Nat.zero_add] at hfold
  exact hfold

theorem linesRead_of_ok {writer : List WriterReply} (h : ∀ reply ∈ writer, reply = .ok)
    (ls : List GoString) : linesRead writer ls = ls := by
  induction writer generalizing ls with
  | nil => cases ls <;> rfl
  | cons reply writer ih =>
    obtain ⟨rfl, hrest⟩ := List.forall_mem_cons.mp h
    cases ls with
    | nil => rfl
    | cons line ls => rw [linesRead, ih hrest]

/-- **A call records the bill of the text that is kept.** -/
theorem ChunkStream.billedByText_kept (h : ChunkStream model source chunks)
    (hpublic : Verbatim publicModel) : BilledByText publicModel (keptText chunks) source := by
  intro W s call req writer latency w route hreq hok hopen
  have hread : (scanLoop req.model writer {} (scanLines maxScanTokenSize source).1).2 =
      (scanLoop req.model [] {} (scanLines maxScanTokenSize source).1).2 := by
    rw [scanLoop_tally, scanLoop_tally, linesRead_of_ok hok, linesRead_of_ok (by simp)]
  have hrecorded : (scanLoop req.model writer {} (scanLines maxScanTokenSize source).1).2.recorded
      req.messages = estimateTokens req.messages (keptText chunks).length := by
    rw [hread, recorded_streamTally req.model h.fits, hreq, h.streamTally_eq hpublic]
    exact recorded_of_not_isNonzero (by simp [Tokens.IsNonzero]) _ _
  have hestimate : billOf route (estimateTokens req.messages (keptText chunks).length) =
      textBill route req.messages (keptText chunks) := by
    simp only [billOf, estimateTokens, textBill, estimatePromptTokens_eq, Nat.cast_max,
      Nat.cast_one]
  rw [chatCompletionStream_of_opens hopen, relayStream_bill, hrecorded, hestimate]

theorem ChunkStream.billedByText_iff (h : ChunkStream model source chunks)
    (hpublic : Verbatim publicModel) :
    BilledByText publicModel (textOf chunks) source ↔ KeepsEstimate chunks := by
  have hkept := h.billedByText_kept hpublic
  constructor
  · intro htext
    -- one call shows it
    have hopen := oneRoute_opens (.direct source) { model := publicModel, messages := [] }
    have hbill := (hkept _ _ ⟨1, 1⟩ _ [] 0 () _ rfl (by simp) hopen).symm.trans
      (htext _ _ ⟨1, 1⟩ _ [] 0 () _ rfl (by simp) hopen)
    have htokens := congrArg (fun b => b.1.completionTokens) (List.singleton_inj.mp hbill)
    exact Int.ofNat.inj htokens
  · intro hkeeps W s call req writer latency w route hreq hok hopen
    rw [hkept W s call req writer latency w route hreq hok hopen]
    simp only [textBill, show max 1 ((keptText chunks).length / 4) = _ from hkeeps]

end Stream

/-! ### Two cuts of a greeting -/

/-- The text of a chunk, with the name as it is spelled. -/
def chunkText (name piece : GoString) : GoString :=
  lit "\x7b\"model\":\"" ++ name ++
    lit "\",\"choices\":[\x7b\"delta\":\x7b\"content\":\"" ++ piece ++ lit "\"\x7d\x7d]\x7d"

def chunksOf (name : GoString) (pieces : List GoString) : List (GoString × GoString) :=
  pieces.map fun piece => (lit "data: " ++ chunkText name piece, piece)

/-- The tree of such a text. -/
def chunkFields (model piece : GoString) : List (GoString × Json) :=
  [(lit "model", .str model),
    (lit "choices", .arr [.obj [(lit "delta", .obj [(lit "content", .str piece)])]])]

theorem chunkStream_chunksOf (model name : GoString) (pieces : List GoString)
    (h : ∀ piece ∈ pieces,
      Json.parse (chunkText name piece) = some (.obj (chunkFields model piece)) ∧
        IsLine (lit "data: " ++ chunkText name piece)) :
    ChunkStream model (streamOf ((chunksOf name pieces).map Prod.fst)) (chunksOf name pieces) := by
  have hlines : ∀ line ∈ (chunksOf name pieces).map Prod.fst, IsLine line := by
    intro line hline
    obtain ⟨c, hc, rfl⟩ := List.mem_map.mp hline
    obtain ⟨piece, hpiece, rfl⟩ := List.mem_map.mp hc
    exact (h piece hpiece).2
  obtain ⟨hls, hfit⟩ := lines_streamOf hlines
  refine ⟨hls, fun c hc => ?_, hfit⟩
  obtain ⟨piece, hpiece, rfl⟩ := List.mem_map.mp hc
  have hlast : lit "model" ∉ [lit "choices"] := by decide
  have hnames : NamesModel (lit "data: " ++ chunkText name piece) [] model
      (chunkFields model piece).tail := ⟨⟨_, rfl, (h piece hpiece).1⟩, hlast⟩
  exact .chunk hnames ⟨⟨_, _, rfl, rfl, Or.inl rfl⟩, Or.inl rfl⟩

def greetingWhole : List GoString := [lit "Hello, world!"]

def greetingCut : List GoString := [lit "Hello, ", lit "world!"]

/-- A quote in the upstream's model name is spelled in two ways. -/
theorem not_cutsDoNotShow_quote : Verbatim (lit "fast") ∧ ¬ CutsDoNotShow (lit "fast") := by
  refine ⟨by decide, fun h => ?_⟩
  have hwhole := chunkStream_chunksOf (lit "a\"b") (lit "a\\u0022b") greetingWhole
    (List.forall_mem_singleton.mpr ⟨rfl, by decide, by decide, by decide⟩)
  have hcut := chunkStream_chunksOf (lit "a\"b") (lit "a\\\"b") greetingCut
    (List.forall_mem_cons.mpr ⟨⟨rfl, by decide, by decide, by decide⟩,
      List.forall_mem_singleton.mpr ⟨rfl, by decide, by decide, by decide⟩⟩)
  have hinvariant := h _ _ _ _ _ hwhole hcut rfl
  have hkeeps := (hcut.billedByText_iff (by decide)).mp hinvariant.second
  revert hkeeps
  rw [KeepsEstimate]
  decide +kernel

/-- **When the cut does not show**: exactly when in both streams the text of the chunks whose
model name is cut does not change the estimate. -/
theorem cutInvariant_iff {publicModel model model' : GoString} {source source' : Source}
    {chunks chunks' : List (GoString × GoString)} (hpublic : Verbatim publicModel)
    (h : ChunkStream model source chunks) (h' : ChunkStream model' source' chunks')
    (htext : textOf chunks = textOf chunks') :
    CutInvariant publicModel (textOf chunks) source source' ↔
      KeepsEstimate chunks ∧ KeepsEstimate chunks' := by
  have hfirst := h.billedByText_iff hpublic
  have hsecond := h'.billedByText_iff hpublic
  rw [← htext] at hsecond
  constructor
  · rintro ⟨hbill, hbill'⟩
    exact ⟨hfirst.mp hbill, hsecond.mp hbill'⟩
  · rintro ⟨hkeeps, hkeeps'⟩
    exact ⟨hfirst.mpr hkeeps, hsecond.mpr hkeeps'⟩

/-- The greeting from a model without a quote in its name. -/
theorem cutInvariant_greeting :
    CutInvariant (lit "fast") (textOf (chunksOf (lit "gpt-4o") greetingWhole))
      (streamOf ((chunksOf (lit "gpt-4o") greetingWhole).map Prod.fst))
      (streamOf ((chunksOf (lit "gpt-4o") greetingCut).map Prod.fst)) := by
  have hwhole := chunkStream_chunksOf (lit "gpt-4o") (lit "gpt-4o") greetingWhole
    (List.forall_mem_singleton.mpr ⟨rfl, by decide, by decide, by decide⟩)
  have hcut := chunkStream_chunksOf (lit "gpt-4o") (lit "gpt-4o") greetingCut
    (List.forall_mem_cons.mpr ⟨⟨rfl, by decide, by decide, by decide⟩,
      List.forall_mem_singleton.mpr ⟨rfl, by decide, by decide, by decide⟩⟩)
  have hpublic : Verbatim (lit "fast") := by decide
  refine (cutInvariant_iff hpublic hwhole hcut rfl).mpr ⟨?_, ?_⟩
  · rw [KeepsEstimate]
    decide +kernel
  · rw [KeepsEstimate]
    decide +kernel

end UniLLM.Inference
