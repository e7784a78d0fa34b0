import UniLLM.Go.Scanner
import UniLLM.Provider.AnthropicConvert

/-!
# The Anthropic stream adapter

`anthropicStreamAdapter` is a reader over a reader: each call of `Read` first
hands out what is left in its buffer, and otherwise scans one line of the
Anthropic stream, writes that line's translation into the buffer and hands out the
front of it.  `Adapter.read` is that call, `drain` a caller that reads until the
first error, whatever sizes it asks for.

What a caller receives does not depend on the sizes: `deliver` computes it from the
lines alone, and `drain_eq` is the connection.
-/

namespace UniLLM.Anthropic
open Go OpenAI

/-! ### Events -/

/-- What the event switch makes of an event: it writes a chunk, ends the stream, or
does nothing. -/
inductive Emission where
  | nothing
  | chunk (c : ChatCompletionResponse)
  | stop

/-- `event["type"].(string)`. -/
def eventType (event : List (GoString × Json)) : GoString :=
  (mapGet event (lit "type")).asString

/-- `event["delta"].(map[string]interface{})`. -/
def eventDelta (event : List (GoString × Json)) : List (GoString × Json) :=
  (mapGet event (lit "delta")).asMap.getD []

/-- A chunk of text. -/
def textChunk (model text : GoString) : ChatCompletionResponse :=
  { object := lit "chat.completion.chunk"
    model := model
    choices := [{ index := 0, delta := some { role := [], content := .str text } }] }

/-- The finish reason of a `message_delta`. -/
def streamFinishReason (stopReason : GoString) : GoString :=
  if stopReason = lit "max_tokens" then lit "length"
  else if stopReason = lit "tool_use" then lit "tool_calls"
  else lit "stop"

/-- The usage of a `message_delta`: the output tokens, when there is a usage object. -/
def eventUsage (event : List (GoString × Json)) : Option OpenAI.Usage :=
  (mapGet event (lit "usage")).asMap.map fun usage =>
    { completionTokens := floatToInt (mapGet usage (lit "output_tokens")).asFloat }

/-- The chunk that finishes the message. -/
def finishChunk (model : GoString) (event : List (GoString × Json)) : ChatCompletionResponse :=
  { object := lit "chat.completion.chunk"
    model := model
    choices :=
      [{ index := 0
         delta := some {}
         finishReason :=
           streamFinishReason (mapGet (eventDelta event) (lit "stop_reason")).asString }]
    usage := eventUsage event }

/-- The event switch. -/
def translateEvent (model : GoString) (event : List (GoString × Json)) : Emission :=
  if eventType event = lit "content_block_delta" then
    if (mapGet (eventDelta event) (lit "type")).asString = lit "text_delta" then
      .chunk (textChunk model (mapGet (eventDelta event) (lit "text")).asString)
    else .nothing
  else if eventType event = lit "message_delta" then .chunk (finishChunk model event)
  else if eventType event = lit "message_stop" then .stop
  else .nothing

/-- What is written to the buffer. -/
def Emission.render : Emission → GoString
  | .nothing => []
  | .chunk c => lit "data: " ++ c.marshal ++ lit "\n\n"
  | .stop => lit "data: [DONE]\n\n"

/-! ### Lines -/

/-- What a source line is to the adapter. -/
inductive Line where
  | blank
  /-- A `data: ` line with a JSON object (or `null`, an object without members). -/
  | event (event : List (GoString × Json))
  /-- An `event:` line. -/
  | eventName
  /-- Anything else, trimmed. -/
  | other (text : GoString)

/-- The tests `Read` makes on a line. -/
def readLine (line : GoString) : Line :=
  let lineStr := trimSpace line
  if lineStr = [] then .blank
  else if hasPrefix lineStr (lit "data: ") then
    match unmarshalMap (trimPrefix lineStr (lit "data: ")) with
    | some event => .event event
    | none => .other lineStr
  else if hasPrefix lineStr (lit "event:") then .eventName
  else .other lineStr

/-- The translation of a source line. -/
def translateLine (model line : GoString) : GoString :=
  match readLine line with
  | .blank => lit "\n"
  | .event event => (translateEvent model event).render
  | .eventName => []
  | .other text => text ++ lit "\n"

/-- A `message_stop` event. -/
def isStop (line : GoString) : Bool :=
  match readLine line with
  | .event event => eventType event == lit "message_stop"
  | _ => false

/-- An event the switch has nothing to say about. -/
def ignoredEvent (event : List (GoString × Json)) : Bool :=
  eventType event != lit "message_delta" && eventType event != lit "message_stop" &&
    !(eventType event == lit "content_block_delta" &&
      (mapGet (eventDelta event) (lit "type")).asString == lit "text_delta")

/-- A line nothing is written for: an event name or an ignored event. -/
def silent (line : GoString) : Bool :=
  match readLine line with
  | .event event => ignoredEvent event
  | .eventName => true
  | _ => false

/-! ### The reader -/

/-- The adapter's state.  What the scanner will deliver stands for the source. -/
structure Adapter where
  scanner : Scanner
  model : GoString
  buf : GoString := []
  done : Bool := false

/-- The longest line the adapter's scanner accepts has one byte less. -/
def adapterMaxLine : Nat := 1024 * 1024

def newAnthropicStreamAdapter (source : Source) (model : GoString) : Adapter :=
  { scanner := newScanner adapterMaxLine source, model := model }

/-- `bytes.Buffer.Read` into `n` bytes: what is read, the error, what stays. -/
def bufferRead (buf : GoString) (n : Nat) : GoString × Option ReadError × GoString :=
  if buf = [] then ([], if n = 0 then none else some .eof, []) else (buf.take n, none, buf.drop n)

/-- `Read` into `n` bytes. -/
def Adapter.read (a : Adapter) (n : Nat) : GoString × Option ReadError × Adapter :=
  if a.buf ≠ [] then
    let (p, err, buf) := bufferRead a.buf n
    (p, err, { a with buf := buf })
  else if a.done then ([], some .eof, a)
  else
    match a.scanner.pending with
    | [] => ([], some (a.scanner.err.getD .eof), { a with done := true })
    | line :: pending =>
      let (p, err, buf) := bufferRead (translateLine a.model line) n
      (p, err, { a with scanner := { a.scanner with pending := pending }
                        buf := buf
                        done := isStop line })

/-- The sizes a caller reads with. -/
structure Schedule where
  size : Nat → Nat
  pos : ∀ i, 0 < size i

/-- The schedule after its first read. -/
def Schedule.tail (s : Schedule) : Schedule := ⟨fun i => s.size (i + 1), fun i => s.pos (i + 1)⟩

/-- Reads until the first error: all that was read, the error, the adapter then. -/
def drain : (fuel : Nat) → Schedule → Adapter → Option (GoString × ReadError × Adapter)
  | 0, _, _ => none
  | fuel + 1, s, a =>
    match a.read (s.size 0) with
    | (p, some err, a) => some (p, err, a)
    | (p, none, a) => (drain fuel s.tail a).map fun r => (p ++ r.1, r.2)

/-! ### What is delivered -/

/-- What a caller receives for the given lines, the error it sees first, and the
lines that are unread then.  A silent line looks like the end. -/
def deliver (model : GoString) (err : Option ReadError) :
    List GoString → GoString × ReadError × List GoString
  | [] => ([], err.getD .eof, [])
  | line :: pending =>
    if silent line then ([], .eof, pending)
    else if isStop line then (translateLine model line, .eof, pending)
    else
      let r := deliver model err pending
      (translateLine model line ++ r.1, r.2)

/-- What a caller still receives. -/
def Adapter.remaining (a : Adapter) : GoString × ReadError × List GoString :=
  let r := if a.done then ([], .eof, a.scanner.pending)
    else deliver a.model a.scanner.err a.scanner.pending
  (a.buf ++ r.1, r.2)

/-- The adapter as a source for the next reader.  `drain_eq` is why the sizes that
reader asks for do not matter. -/
def Adapter.source (a : Adapter) : Source := { data := a.remaining.1, fin := a.remaining.2.1 }

/-- How many reads of one byte it takes at most. -/
def Adapter.work (a : Adapter) : Nat :=
  a.buf.length + (a.scanner.pending.map fun line => (translateLine a.model line).length + 1).sum

theorem ignoredEvent_iff (model : GoString) (event : List (GoString × Json)) :
    ignoredEvent event = true ↔ (translateEvent model event).render = [] := by
  have hchunk : ∀ c : ChatCompletionResponse, (Emission.chunk c).render ≠ [] := by
    intro c
    have hdata : lit "data: " ≠ [] := by decide
    simp [Emission.render, hdata]
  have hstop : Emission.stop.render ≠ [] := by decide
  unfold translateEvent ignoredEvent
  by_cases hblock : eventType event = lit "content_block_delta"
  · have h1 : lit "content_block_delta" ≠ lit "message_delta" := by decide
    have h2 : lit "content_block_delta" ≠ lit "message_stop" := by decide
    by_cases htext : (mapGet (eventDelta event) (lit "type")).asString = lit "text_delta"
    · simp [hblock, htext, hchunk]
    · simp [hblock, htext, h1, h2, Emission.render]
  · by_cases hdelta : eventType event = lit "message_delta"
    · have h1 : lit "message_delta" ≠ lit "content_block_delta" := by decide
      simp [hdelta, h1, hchunk]
    · by_cases hs : eventType event = lit "message_stop"
      · have h1 : lit "message_stop" ≠ lit "content_block_delta" := by decide
        have h2 : lit "message_stop" ≠ lit "message_delta" := by decide
        simp [hs, h1, h2, hstop]
      · simp [hblock, hdelta, hs, Emission.render]

/-- The silent lines are the lines with an empty translation. -/
theorem silent_iff (model line : GoString) :
    silent line = true ↔ translateLine model line = [] := by
  have hnewline : lit "\n" ≠ [] := by decide
  unfold silent translateLine
  cases readLine line with
  | blank => simp [hnewline]
  | event event => exact ignoredEvent_iff model event
  | eventName => simp
  | other text => simp [hnewline]

theorem not_silent_of_isStop {line : GoString} (h : isStop line = true) : silent line = false := by
  unfold isStop at h
  unfold silent
  split at h
  · rename_i event hline
    rw [hline]
    simp [ignoredEvent, beq_iff_eq.mp h]
  · cases h

/-- **One `Read`.**  What it returns is the front of what remains, and an error
comes when nothing remains. -/
theorem read_spec (a : Adapter) {n : Nat} (hn : 0 < n) :
    (∃ p a', a.read n = (p, none, a') ∧ a'.work < a.work ∧
        a.remaining = (p ++ a'.remaining.1, a'.remaining.2)) ∨
      ∃ err a', a.read n = ([], some err, a') ∧ a.remaining = ([], err, a'.scanner.pending) := by
  have hbuf : ∀ {buf : GoString}, buf ≠ [] →
      bufferRead buf n = (buf.take n, none, buf.drop n) ∧ (buf.drop n).length < buf.length := by
    intro buf hne
    have : 0 < buf.length := List.length_pos_iff.mpr hne
    exact ⟨by rw [bufferRead, if_neg hne], by rw [List.length_drop]; omega⟩
  obtain ⟨⟨pending, err⟩, model, buf, done⟩ := a
  by_cases hne : buf = []
  · subst hne
    cases done with
    | true => exact .inr ⟨.eof, _, by simp [Adapter.read]; rfl, by simp [Adapter.remaining]⟩
    | false =>
      -- the buffer is empty, so `Read` scans one line
      cases pending with
      | nil =>
        exact .inr ⟨err.getD .eof, _, by simp [Adapter.read]; rfl, by
          simp [Adapter.remaining, deliver]⟩
      | cons line pending =>
        by_cases hs : silent line = true
        -- an empty translation leaves the buffer empty, and an empty buffer reads as the end
        · have hnil : translateLine model line = [] := (silent_iff model line).mp hs
          refine .inr ⟨.eof, _, by simp [Adapter.read, hnil, bufferRead, hn.ne']; rfl, ?_⟩
          simp [Adapter.remaining, deliver, hs]
        · have hout : translateLine model line ≠ [] := fun h => hs ((silent_iff model line).mpr h)
          obtain ⟨hread, hlen⟩ := hbuf hout
          refine .inl ⟨_, _, by simp [Adapter.read, hread]; exact ⟨rfl, rfl⟩, ?_, ?_⟩
          · simp only [Adapter.work, List.map_cons, List.sum_cons, List.length_nil]
            omega
          · cases hstop : isStop line with
            | true => simp [Adapter.remaining, deliver, hs, hstop]
            | false =>
              simp [Adapter.remaining, deliver, hs, hstop, ← List.append_assoc]
  -- what is left of an earlier line comes first
  · obtain ⟨hread, hlen⟩ := hbuf hne
    refine .inl ⟨_, _, by simp [Adapter.read, hne, hread]; exact ⟨rfl, rfl⟩, ?_, ?_⟩
    · simp only [Adapter.work]
      omega
    · simp only [Adapter.remaining, ← List.append_assoc, List.take_append_drop]

/-- **Every schedule reads the same**: what is delivered is a function of the
lines. -/
theorem drain_eq (s : Schedule) (a : Adapter) {fuel : Nat} (hfuel : a.work < fuel) :
    ∃ a', drain fuel s a = some (a.remaining.1, a.remaining.2.1, a') ∧
      a'.scanner.pending = a.remaining.2.2 := by
  induction fuel generalizing s a with
  | zero => exact absurd hfuel (Nat.not_lt_zero _)
  | succ fuel ih =>
    rcases read_spec a (s.pos 0) with ⟨p, a', hread, hwork, hrem⟩ | ⟨err, a', hread, hrem⟩
    · obtain ⟨a'', hdrain, hpending⟩ := ih s.tail a' (by omega)
      refine ⟨a'', ?_, by rw [hpending, hrem]⟩
      simp only [drain, hread, hdrain, hrem, Option.map_some]
    · exact ⟨a', by simp only [drain, hread, hrem], by rw [hrem]⟩

end UniLLM.Anthropic
