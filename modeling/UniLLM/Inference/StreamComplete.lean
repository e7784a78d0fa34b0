import UniLLM.Inference.Service
import UniLLM.Provider.StreamDelivery

/-!
# Is a stream that is recorded as ok complete?

The scan loop ends the same way whatever ended it: at the end of the stream, at a
read error, at a line longer than the scanner's limit of 64 KiB.  Behind the
adapter there are more ways: its own scanner has a limit of 1 MiB, and it skips
the upstream's `error` events.  The record says ok each time.  This module
determines for which upstreams that is the truth.
-/

namespace UniLLM.Inference
open Go OpenAI Anthropic

/-! ### Upstreams -/

/-- Where a stream comes from. -/
inductive Upstream where
  /-- The response body itself. -/
  | direct (source : Source)
  /-- A response body behind the Anthropic adapter. -/
  | anthropic (source : Source) (model : GoString)

/-- What the service reads. -/
def Upstream.stream : Upstream → Source
  | .direct source => source
  | .anthropic source model => (newAnthropicStreamAdapter source model).source

/-- The lines the client is owed. -/
def Upstream.due : Upstream → List GoString
  | .direct source => lines source.data
  | .anthropic source model => lines ((upToStop (lines source.data)).flatMap (translateLine model))

/-- An `error` event. -/
def isErrorEvent (line : GoString) : Bool :=
  match readLine line with
  | .event event => eventType event == lit "error"
  | _ => false

/-- The upstream comes to its end without reporting an error. -/
def Upstream.EndsCleanly : Upstream → Prop
  | .direct source => source.fin = .eof
  | .anthropic source _ =>
    (source.fin = .eof ∨ ∃ line ∈ lines source.data, isStop line = true) ∧
      ∀ line ∈ upToStop (lines source.data), isErrorEvent line = false

/-- The lines pass the scanners on the way: what the service scans has lines below
64 KiB, and what the adapter does not get to, behind its own limit or a silent
line, has nothing to be translated. -/
def Upstream.Fits : Upstream → Prop
  | .direct source => LinesFit maxScanTokenSize source
  | .anthropic source model =>
    LinesFit maxScanTokenSize
        ⟨(upToStop (lines source.data)).flatMap (translateLine model), .eof, false⟩ ∧
      ∀ line ∈ (upToStop (lines source.data)).drop
          (heard (scanLines adapterMaxLine source).1).length, silent line = true

/-- The client was given every line it is owed, and the upstream reported no error. -/
def Upstream.Complete (u : Upstream) (publicModel : GoString) (delivered : List GoString) : Prop :=
  delivered = u.due.map (rewriteLine publicModel) ∧ u.EndsCleanly

/-! ### Calls -/

variable {W : Type}

/-- A call gets as far as opening a stream. -/
def Service.Opens (s : Service W) (req : ChatCompletionRequest) (w : W) (route : ModelRoute)
    (stream : Source) : Prop :=
  ∃ p key w₁ w₂, s.resolveRoute req.model w = .ok route ∧
    s.getProvider route.providerName = .ok p ∧
    s.nextKey route.providerName w = (.ok key, w₁) ∧
    p.chatCompletionStream key (prepareChatRequest req.model req route) w₁ = (.ok stream, w₂)

/-- No error, and one record with status ok. -/
def RecordedOk {α : Type} (o : Outcome α) : Prop :=
  (∃ r, o.result = .ok r) ∧ o.records.map (fun r => (r.status, r.httpStatus)) = [(lit "ok", 200)]

/-- If the call is recorded as ok, the client was given everything.  The writer accepts
every line. -/
def OkMeansComplete (s : Service W) (call : CallContext)
    (req : ChatCompletionRequest) (latency : Rat)
    (w : W) (u : Upstream) : Prop :=
  RecordedOk (s.chatCompletionStream call req [] latency w).1 →
    u.Complete req.model (s.chatCompletionStream call req [] latency w).1.delivered

/-- A call that opens a stream relays it. -/
theorem chatCompletionStream_of_opens {s : Service W} {req : ChatCompletionRequest} {w : W}
    {route : ModelRoute} {stream : Source} (h : s.Opens req w route stream) (call : CallContext)
    (writer : List WriterReply) (latency : Rat) :
    (s.chatCompletionStream call req writer latency w).1 =
      relayStream call req.model route req.messages writer latency stream := by
  obtain ⟨p, key, w₁, w₂, hroute, hprovider, hkey, hstream⟩ := h
  simp only [Service.chatCompletionStream, hroute, hprovider, hkey, hstream]

/-- A call that opens none returns an error. -/
theorem chatCompletionStream_of_not_opens {s : Service W} {req : ChatCompletionRequest} {w : W}
    (h : ∀ route stream, ¬ s.Opens req w route stream) (call : CallContext)
    (writer : List WriterReply) (latency : Rat) :
    ∃ e, (s.chatCompletionStream call req writer latency w).1.result = .error e := by
  unfold Service.chatCompletionStream
  cases hroute : s.resolveRoute req.model w with
  | error e => exact ⟨e, rfl⟩
  | ok route =>
    cases hprovider : s.getProvider route.providerName with
    | error e => exact ⟨e, by simp only [hprovider]⟩
    | ok p =>
      rcases hkey : s.nextKey route.providerName w with ⟨e | key, w₁⟩
      · exact ⟨_, by simp only [hprovider, hkey]; rfl⟩
      · rcases hstream : p.chatCompletionStream key (prepareChatRequest req.model req route) w₁ with
          ⟨e | stream, w₂⟩
        · exact ⟨_, by simp only [hprovider, hkey, hstream]; rfl⟩
        · exact absurd ⟨p, key, w₁, w₂, hroute, hprovider, hkey, hstream⟩ (h route stream)

/-! ### What is relayed -/

/-- A writer that accepts everything is given every line that is scanned. -/
theorem scanLoop_delivered (publicModel : GoString) (t : Tally) (ls : List GoString) :
    (scanLoop publicModel [] t ls).1 = ls.map (rewriteLine publicModel) := by
  induction ls generalizing t with
  | nil => rfl
  | cons line rest ih =>
    rw [scanLoop, List.map_cons, ih]

/-- Of rewritten lines a prefix is everything only if it is everything before. -/
theorem map_eq_map_of_prefix {f : GoString → GoString} {ls ls' : List GoString} (h : ls <+: ls') :
    ls.map f = ls'.map f ↔ ls = ls' := by
  refine ⟨fun heq => h.eq_of_length ?_, fun heq => heq ▸ rfl⟩
  simpa using congrArg List.length heq

/-- What the adapter hands on of a source. -/
theorem adapter_data (source : Source) (model : GoString) :
    (newAnthropicStreamAdapter source model).source.data =
      (heard (scanLines adapterMaxLine source).1).flatMap (translateLine model) := by
  simp only [Adapter.source, Adapter.remaining, newAnthropicStreamAdapter, newScanner,
    Bool.false_eq_true, if_false, List.nil_append, deliver_bytes]

/-- The lines up to `message_stop` are those that are heard and the rest. -/
theorem heard_append_drop (source : Source) :
    heard (scanLines adapterMaxLine source).1 ++ (upToStop (lines source.data)).drop
      (heard (scanLines adapterMaxLine source).1).length = upToStop (lines source.data) := by
  have hscanned : (scanLines adapterMaxLine source).1 <+: lines source.data :=
    prefix_scanFrom [] source.data
  obtain ⟨rest, hrest⟩ := prefix_heard hscanned
  have hup : upToStop (lines source.data) = heard (scanLines adapterMaxLine source).1 ++ rest :=
    hrest.symm
  rw [hup, List.drop_left]

theorem flatMap_translateLine_eq_nil (model : GoString) (ls : List GoString) :
    ls.flatMap (translateLine model) = [] ↔ ∀ line ∈ ls, silent line = true := by
  rw [List.flatMap_eq_nil_iff]
  exact forall_congr' fun line => imp_congr_right fun _ => (silent_iff model line).symm

/-- Behind the adapter everything is scanned exactly when the lines fit. -/
theorem scanned_eq_due_anthropic (source : Source) (model : GoString) :
    ((scanLines maxScanTokenSize (Upstream.anthropic source model).stream).1 <+:
        (Upstream.anthropic source model).due) ∧
      ((scanLines maxScanTokenSize (Upstream.anthropic source model).stream).1 =
          (Upstream.anthropic source model).due ↔
        (Upstream.anthropic source model).Fits) := by
  set first := heard (scanLines adapterMaxLine source).1 with hfirst
  set rest := (upToStop (lines source.data)).drop first.length with hrest
  have hup : upToStop (lines source.data) = first ++ rest := (heard_append_drop source).symm
  have hdata : (Upstream.anthropic source model).stream.data =
      first.flatMap (translateLine model) :=
    adapter_data source model
  have hdue : (Upstream.anthropic source model).due =
      lines (first.flatMap (translateLine model)) ++
          lines (rest.flatMap (translateLine model)) := by
    rw [Upstream.due, hup, List.flatMap_append,
      lines_append (flatMap_translateLine_ends model first)]
  have hpre : (scanLines maxScanTokenSize (Upstream.anthropic source model).stream).1 <+:
      lines (first.flatMap (translateLine model)) := hdata ▸ prefix_scanFrom [] _
  have hfit : (scanLines maxScanTokenSize (Upstream.anthropic source model).stream).1 =
      lines (first.flatMap (translateLine model)) ↔
      LinesFit maxScanTokenSize ⟨first.flatMap (translateLine model), .eof, false⟩ := by
    rw [← hdata, scanLines_eq_lines_iff (by decide)]
    rfl
  refine ⟨hdue ▸ hpre.trans (List.prefix_append _ _), ?_⟩
  have hfits : (Upstream.anthropic source model).Fits ↔
      LinesFit maxScanTokenSize
          ⟨(first ++ rest).flatMap (translateLine model), .eof, false⟩ ∧
        ∀ line ∈ rest, silent line = true := by
    rw [Upstream.Fits, ← hfirst, ← hrest, hup]
  rw [hfits, hdue, ← flatMap_translateLine_eq_nil model rest, List.flatMap_append]
  constructor
  · -- what the service scans is part of what the adapter heard, so nothing owed is left after it
    intro h
    have hlen := congrArg List.length h
    have hle := hpre.length_le
    rw [List.length_append] at hlen
    have hnil : lines (rest.flatMap (translateLine model)) = [] :=
      List.eq_nil_of_length_eq_zero (by omega)
    rw [hnil, List.append_nil, hfit] at h
    rw [lines_eq_nil.mp hnil, List.append_nil]
    exact ⟨h, rfl⟩
  · rintro ⟨h, hnil⟩
    rw [hnil, List.append_nil] at h
    rw [hnil, hfit.mpr h, lines_eq_nil.mpr rfl, List.append_nil]

/-- Only lines that are owed are scanned, in order; all of them exactly when they fit. -/
theorem scanned_eq_due (u : Upstream) :
    ((scanLines maxScanTokenSize u.stream).1 <+: u.due) ∧
      ((scanLines maxScanTokenSize u.stream).1 = u.due ↔ u.Fits) := by
  cases u with
  | direct source => exact ⟨prefix_scanFrom [] source.data, scanLines_eq_lines_iff (by decide)⟩
  | anthropic source model => exact scanned_eq_due_anthropic source model

/-- The relay of an upstream is complete exactly when the lines fit and the upstream
ends cleanly. -/
theorem relay_complete_iff (u : Upstream) (call : CallContext) (publicModel : GoString)
    (route : ModelRoute) (messages : List OpenAI.Message) (latency : Rat) :
    u.Complete publicModel
        (relayStream call publicModel route messages [] latency u.stream).delivered ↔
      u.EndsCleanly ∧ u.Fits := by
  have hdelivered : (relayStream call publicModel route messages [] latency u.stream).delivered =
      (scanLines maxScanTokenSize u.stream).1.map (rewriteLine publicModel) :=
    scanLoop_delivered publicModel {} _
  obtain ⟨hpre, hfits⟩ := scanned_eq_due u
  rw [Upstream.Complete, hdelivered, map_eq_map_of_prefix hpre, hfits, and_comm]

/-! ### The record -/

/-- A service with one route to one provider, which answers every call with the stream
of the upstream. -/
def oneRoute (u : Upstream) : Service Unit :=
  { resolveModel := fun name _ => .ok ⟨name, lit "gpt", lit "openai", [], 1, 1⟩
    nextKey := fun _ w => (.ok (lit "sk-1"), w)
    registry := fun _ => some
      { name := lit "openai"
        chatCompletion := fun _ _ w => (.error (lit "no answer"), w)
        chatCompletionStream := fun _ _ w => (.ok u.stream, w) } }

theorem oneRoute_opens (u : Upstream) (req : ChatCompletionRequest) :
    (oneRoute u).Opens req () ⟨req.model, lit "gpt", lit "openai", [], 1, 1⟩ u.stream :=
  ⟨_, lit "sk-1", (), (), rfl, rfl, rfl, rfl⟩

/-- The connection breaks after the first chunk. -/
theorem not_okMeansComplete_reset :
    ¬ OkMeansComplete
      (oneRoute (.direct ⟨lit "data: \x7b\x7d\n", .failed (lit "connection reset"), false⟩)) ⟨1, 1⟩
      { model := lit "gpt", messages := [] } 0 ()
      (.direct ⟨lit "data: \x7b\x7d\n", .failed (lit "connection reset"), false⟩) := by
  intro h
  rw [OkMeansComplete, chatCompletionStream_of_opens (oneRoute_opens _ _)] at h
  obtain ⟨-, hclean⟩ := h ⟨⟨_, rfl⟩, rfl⟩
  cases hclean

/-- **When ok means complete.**  For a call that opens a stream: exactly when the
upstream ends without an error and its lines pass the scanners. -/
theorem okMeansComplete_iff {s : Service W} {req : ChatCompletionRequest} {w : W}
    {route : ModelRoute} {u : Upstream} (hopen : s.Opens req w route u.stream) (call : CallContext)
    (latency : Rat) :
    OkMeansComplete s call req latency w u ↔ u.EndsCleanly ∧ u.Fits := by
  rw [OkMeansComplete, chatCompletionStream_of_opens hopen, relay_complete_iff]
  have hok : RecordedOk (relayStream call req.model route req.messages [] latency u.stream) :=
    ⟨⟨_, rfl⟩, rfl⟩
  exact ⟨fun h => h hok, fun h _ => h⟩

/-- A greeting in two chunks. -/
def chunkedHello : Upstream :=
  .direct
    ⟨lit "data: \x7b\"choices\":[\x7b\"delta\":\x7b\"content\":\"Hel\"\x7d\x7d]\x7d\n\n" ++
      lit "data: \x7b\"choices\":[\x7b\"delta\":\x7b\"content\":\"lo\"\x7d\x7d]\x7d\n\n" ++
      lit "data: [DONE]\n\n", .eof, false⟩

/-- Events of Anthropic without their names: a name would end the adapter's reading. -/
def namelessHello : Upstream :=
  .anthropic
    ⟨lit "data: \x7b\"type\":\"content_block_delta\",\"delta\":" ++
      lit "\x7b\"type\":\"text_delta\",\"text\":\"Hello\"\x7d\x7d\n\n" ++
      lit "data: \x7b\"type\":\"message_delta\",\"delta\":\x7b\"stop_reason\":\"end_turn\"\x7d\x7d\n\n" ++
      lit "data: \x7b\"type\":\"message_stop\"\x7d\n\n", .eof, false⟩ (lit "claude")

theorem okMeansComplete_iff_hello :
    OkMeansComplete (oneRoute chunkedHello) ⟨1, 1⟩ { model := lit "gpt", messages := [] } 0 ()
        chunkedHello ∧
      OkMeansComplete (oneRoute namelessHello) ⟨1, 1⟩ { model := lit "claude", messages := [] } 0
        () namelessHello := by
  constructor
  · refine (okMeansComplete_iff (oneRoute_opens _ _) ⟨1, 1⟩ 0).mpr ⟨rfl, ?_⟩
    show LinesFit _ _
    rw [LinesFit]
    decide +kernel
  · refine (okMeansComplete_iff (oneRoute_opens _ _) ⟨1, 1⟩ 0).mpr ⟨⟨.inl rfl, ?_⟩, ?_, ?_⟩
    · decide +kernel
    · rw [LinesFit]
      decide +kernel
    · decide +kernel

end UniLLM.Inference
