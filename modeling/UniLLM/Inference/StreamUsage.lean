import UniLLM.Inference.Service
import Mathlib.Data.List.Lemmas

/-!
# The usage a stream reports

An upstream may report the usage of a stream in a chunk, and what the service
records should be the last such report.  The loop overwrites its counts at every
line with the text `"usage"` in it, whatever that line reports, so what counts in
the end is the last line of that kind.
-/

namespace UniLLM.Inference
open Go OpenAI

/-- The usage reported in the chunks of a stream, in order. -/
def reports (ls : List GoString) : List Tokens := (ls.filter isDataLine).filterMap reportedUsage

/-- Not both counts are zero. -/
def Tokens.IsNonzero (t : Tokens) : Prop := t.promptTokens ≠ 0 ∨ t.completionTokens ≠ 0

instance (t : Tokens) : Decidable t.IsNonzero := inferInstanceAs (Decidable (_ ∨ _))

/-- The lines the loop reads: up to the first the writer does not accept. -/
def linesRead : List WriterReply → List GoString → List GoString
  | _, [] => []
  | [], ls => ls
  | .ok :: writer, line :: rest => line :: linesRead writer rest
  | _ :: _, line :: _ => [line]

/-- A chunk that, as it is relayed, contains the text `"usage"`. -/
def mentionsUsage (publicModel line : GoString) : Bool :=
  isDataLine line && contains (replaceModelName line publicModel) (lit "\"usage\"")

/-- What a call records is what the stream's last report says, and no estimate, if there
is a report with a count. -/
def ReportedUsageWins (call : CallContext) (publicModel : GoString) (route : ModelRoute)
    (messages : List Message) (writer : List WriterReply) (latency : Rat) (stream : Source) :
    Prop :=
  ∀ t, (reports (lines stream.data)).getLast? = some t →
    (∃ r ∈ reports (lines stream.data), r.IsNonzero) →
    (relayStream call publicModel route messages writer latency stream).records.map
        (fun r => (⟨r.promptTokens, r.completionTokens, r.totalTokens⟩ : Tokens)) = [t] ∧
      (scanLoop publicModel writer {} (scanLines maxScanTokenSize stream).1).2.tokens.IsNonzero

variable (publicModel : GoString)

/-- The loop's tally is that of the lines it reads. -/
theorem scanLoop_tally (writer : List WriterReply) (t : Tally) (ls : List GoString) :
    (scanLoop publicModel writer t ls).2 =
      (linesRead writer ls).foldl (Tally.add publicModel) t := by
  induction ls generalizing writer t with
  | nil => cases writer <;> rfl
  | cons line rest ih =>
    cases writer with
    | nil =>
      have hrest : linesRead [] rest = rest := by cases rest <;> rfl
      rw [scanLoop, ih, hrest]
      rfl
    | cons reply writer =>
      cases reply with
      | ok => rw [scanLoop, ih]; rfl
      | writeFails => rfl
      | flushFails => rfl

/-- The counts at the end of the loop are those of the last line that mentions
usage. -/
theorem foldl_tokens (t : Tally) (ls : List GoString) :
    (ls.foldl (Tally.add publicModel) t).tokens =
      match (ls.filter (mentionsUsage publicModel)).getLast? with
      | some line => extractStreamUsage (replaceModelName line publicModel)
      | none => t.tokens := by
  induction ls generalizing t with
  | nil => rfl
  | cons line rest ih =>
    have hadd : (t.add publicModel line).tokens =
        if mentionsUsage publicModel line then
          extractStreamUsage (replaceModelName line publicModel)
        else t.tokens := by
      unfold Tally.add mentionsUsage
      by_cases hdata : isDataLine line = true <;> simp [hdata]
    rw [List.foldl_cons, ih, hadd, List.filter_cons]
    by_cases hm : mentionsUsage publicModel line = true
    · rw [if_pos hm, if_pos hm, List.getLast?_cons]
      cases (rest.filter (mentionsUsage publicModel)).getLast? <;> rfl
    · rw [if_neg hm, if_neg hm]

/-- What a stream with a count in the tally records. -/
theorem recorded_eq_iff (t : Tally) (messages : List Message) (tokens : Tokens) :
    t.recorded messages = tokens ∧ t.tokens.IsNonzero ↔ t.tokens = tokens ∧ tokens.IsNonzero := by
  have hnonzero : t.tokens.IsNonzero ↔
      ¬ (t.tokens.promptTokens = 0 ∧ t.tokens.completionTokens = 0) := by
    rw [Tokens.IsNonzero, not_and_or]
  constructor
  · rintro ⟨hrec, hne⟩
    rw [Tally.recorded, if_neg (hnonzero.mp hne)] at hrec
    exact ⟨hrec, hrec ▸ hne⟩
  · rintro ⟨rfl, hne⟩
    exact ⟨by rw [Tally.recorded, if_neg (hnonzero.mp hne)], hne⟩

/-- A count that is extracted was reported. -/
theorem extractStreamUsage_eq_iff {line : GoString} {t : Tokens} (ht : t.IsNonzero) :
    extractStreamUsage line = t ↔ reportedUsage line = some t := by
  unfold extractStreamUsage
  cases reportedUsage line with
  | none =>
    have : ({} : Tokens) ≠ t := by
      rintro rfl
      simp [Tokens.IsNonzero] at ht
    simp [this]
  | some u => simp

variable (call : CallContext) (route : ModelRoute) (messages : List Message)
  (writer : List WriterReply) (latency : Rat)

/-- The report `t` is recorded exactly when the last line read that mentions usage
reports it. -/
theorem records_report_iff (stream : Source) (t : Tokens) :
    ((relayStream call publicModel route messages writer latency stream).records.map
          (fun r => (⟨r.promptTokens, r.completionTokens, r.totalTokens⟩ : Tokens)) = [t] ∧
        (scanLoop publicModel writer {} (scanLines maxScanTokenSize stream).1).2.tokens.IsNonzero) ↔
      t.IsNonzero ∧
        ∃ line ∈ ((linesRead writer (scanLines maxScanTokenSize stream).1).filter
            (mentionsUsage publicModel)).getLast?,
          reportedUsage (replaceModelName line publicModel) = some t := by
  have hrecords : (relayStream call publicModel route messages writer latency stream).records.map
      (fun r => (⟨r.promptTokens, r.completionTokens, r.totalTokens⟩ : Tokens)) =
      [(scanLoop publicModel writer {} (scanLines maxScanTokenSize stream).1).2.recorded messages] :=
    rfl
  rw [hrecords, List.singleton_inj, recorded_eq_iff, scanLoop_tally, foldl_tokens, and_comm]
  refine and_congr_right fun ht => ?_
  cases ((linesRead writer (scanLines maxScanTokenSize stream).1).filter
      (mentionsUsage publicModel)).getLast? with
  | none =>
    have : ({} : Tokens) ≠ t := by
      rintro rfl
      simp [Tokens.IsNonzero] at ht
    simp [this]
  | some line => simp [extractStreamUsage_eq_iff ht]

/-- A later chunk without usage wipes out the report before it. -/
theorem not_reportedUsageWins_null_after_report :
    ¬ ReportedUsageWins ⟨1, 1⟩ (lit "gpt") ⟨lit "gpt", lit "gpt", lit "openai", [], 1, 1⟩ [] [] 0
      ⟨lit "data: \x7b\"usage\":\x7b\"prompt_tokens\":9,\"completion_tokens\":4,\"total_tokens\":13\x7d\x7d\n\ndata: \x7b\"usage\":null\x7d\n\ndata: [DONE]\n\n",
        .eof, false⟩ := by
  intro h
  have hwins := h ⟨9, 4, 13⟩ (by decide +kernel) (by decide +kernel)
  rw [records_report_iff] at hwins
  revert hwins
  decide +kernel

/-- **When the report wins.**  Exactly when the last line the loop reads with the text
`"usage"` in it reports, as relayed, what the stream's last report says, and that is
not zero. -/
theorem reportedUsageWins_iff (stream : Source) :
    ReportedUsageWins call publicModel route messages writer latency stream ↔
      ∀ t, (reports (lines stream.data)).getLast? = some t →
        (∃ r ∈ reports (lines stream.data), r.IsNonzero) →
        t.IsNonzero ∧
          ∃ line ∈ ((linesRead writer (scanLines maxScanTokenSize stream).1).filter
              (mentionsUsage publicModel)).getLast?,
            reportedUsage (replaceModelName line publicModel) = some t :=
  forall_congr' fun t => imp_congr_right fun _ => imp_congr_right fun _ =>
    records_report_iff publicModel call route messages writer latency stream t

end UniLLM.Inference
