import UniLLM.Inference.AnthropicBilling
import UniLLM.Go.JsonGrammar

/-!
# Spellings of a stream

Server-sent events leave an upstream some freedom: a blank after `data:` or none, lines
that end with CRLF or LF, white space in the JSON of a payload.  The same events should
be billed alike however they are spelled.

The scanner takes both line ends, and what a payload counts depends on its tokens alone
(`lineCounts_eq_of_sameTokens`).  But the loop looks into lines with the blank only, so an
upstream that leaves it out is billed by an estimate.
-/

namespace UniLLM.Inference
open Go OpenAI

/-! ### Events and their spellings -/

/-- The payload of a data line: what follows the colon and one optional blank. -/
def payload (line : GoString) : Option GoString :=
  if hasPrefix line (lit "data:") then
    some (trimPrefix (line.drop (lit "data:").length) (lit " "))
  else none

/-- The same but for white space between the tokens of JSON text. -/
def SameTokens (p p' : GoString) : Prop := p = p' ∨ ∃ ts, Lexes p ts ∧ Lexes p' ts

/-- Two spellings of a line. -/
inductive Respelled : GoString → GoString → Prop
  | refl (line : GoString) : Respelled line line
  | data {line line' p p' : GoString} (hline : payload line = some p)
      (hline' : payload line' = some p') (hsame : SameTokens p p') : Respelled line line'

/-- The record of a call depends on the spelling neither in its tokens nor in its cost.  The
writer accepts every line. -/
def SameBill (publicModel : GoString) (s s' : Source) : Prop :=
  ∀ (call : CallContext) (route : ModelRoute) (messages : List Message) (latency : Rat),
    (relayStream call publicModel route messages [] latency s).records.map UsageRecord.bill =
      (relayStream call publicModel route messages [] latency s').records.map UsageRecord.bill

/-- Streams that differ only in the spelling `R` of some lines, which fit the scanner, are
billed alike. -/
def BillsEvents (publicModel : GoString) (R : GoString → GoString → Prop) : Prop :=
  ∀ s s' : Source, LinesFit maxScanTokenSize s → LinesFit maxScanTokenSize s' →
    List.Forall₂ (fun line line' => R line line' ∨ line = line') (lines s.data) (lines s'.data) →
      SameBill publicModel s s'

/-! ### What a line counts -/

/-- A report without prompt and completion tokens counts as zeros. -/
def Tokens.counted (t : Tokens) : Tokens := if t.IsNonzero then t else {}

/-- What the loop takes from a line. -/
structure Counts where
  usage : Option Tokens := none
  chars : Nat := 0
  deriving DecidableEq

/-- What the text of a line counts. -/
def lineCounts (line : GoString) : Counts :=
  { usage :=
      if contains line (lit "\"usage\"") then some (extractStreamUsage line).counted else none
    chars := extractContentLength line }

/-- What a line counts in the loop. -/
def relayedCounts (publicModel line : GoString) : Counts :=
  if isDataLine line then lineCounts (replaceModelName line publicModel) else {}

/-- The replacement of the model name leaves the counts of the line alone. -/
def KeepsCounts (publicModel line : GoString) : Prop :=
  lineCounts (replaceModelName line publicModel) = lineCounts line

/-- When two spellings of a line count alike. -/
structure SpelledAlike (publicModel line line' : GoString) : Prop where
  /-- The loop looks into both or into neither, or there is nothing to count. -/
  seen : isDataLine line = isDataLine line' ∨
    relayedCounts publicModel line = {} ∧ relayedCounts publicModel line' = {}
  /-- If it looks into both, the replacement of the model name does no harm, or the same. -/
  names : isDataLine line = true → isDataLine line' = true → line ≠ line' →
    (KeepsCounts publicModel line ∧ KeepsCounts publicModel line') ∨
      relayedCounts publicModel line = relayedCounts publicModel line'

def Tally.counted (t : Tally) : Tally := { t with tokens := t.tokens.counted }

def Tally.plus (t : Tally) (c : Counts) : Tally :=
  ⟨c.usage.getD t.tokens, t.contentChars + c.chars⟩

theorem Tally.counted_add (publicModel : GoString) (t : Tally) (line : GoString) :
    (t.add publicModel line).counted = t.counted.plus (relayedCounts publicModel line) := by
  unfold Tally.add relayedCounts
  by_cases hdata : isDataLine line = true
  · rw [if_pos hdata, if_pos hdata]
    simp only [Tally.counted, Tally.plus, lineCounts]
    split <;> rfl
  · rw [if_neg hdata, if_neg hdata]
    rfl

theorem Tally.recorded_counted (t : Tally) (messages : List Message) :
    t.counted.recorded messages = t.recorded messages := by
  by_cases ht : t.tokens.IsNonzero
  · rw [Tally.counted, Tokens.counted, if_pos ht]
  · have hzero : t.tokens.promptTokens = 0 ∧ t.tokens.completionTokens = 0 := by
      rw [Tokens.IsNonzero, not_or, not_not, not_not] at ht
      exact ht
    rw [Tally.recorded, Tally.recorded, if_pos hzero, Tally.counted, Tokens.counted, if_neg ht,
      if_pos ⟨rfl, rfl⟩]

theorem foldl_counted (publicModel : GoString) (t : Tally) (ls : List GoString) :
    (ls.foldl (Tally.add publicModel) t).counted =
      (ls.map (relayedCounts publicModel)).foldl Tally.plus t.counted := by
  induction ls generalizing t with
  | nil => rfl
  | cons line ls ih => rw [List.foldl_cons, ih, Tally.counted_add, List.map_cons, List.foldl_cons]

/-- What a stream counts. -/
def streamTally (publicModel : GoString) (s : Source) : Tally :=
  ((lines s.data).map (relayedCounts publicModel)).foldl Tally.plus {}

theorem recorded_streamTally (publicModel : GoString) {s : Source}
    (hfit : LinesFit maxScanTokenSize s) (messages : List Message) :
    (scanLoop publicModel [] {} (scanLines maxScanTokenSize s).1).2.recorded messages =
      (streamTally publicModel s).recorded messages := by
  have hread : linesRead [] (lines s.data) = lines s.data := by cases lines s.data <;> rfl
  rw [(scanLines_eq_lines_iff (by decide)).mpr hfit, scanLoop_tally, hread, ← Tally.recorded_counted,
    foldl_counted]
  rfl

/-- **A bill is what the tally says**, so bills agree when the tallies always do. -/
theorem sameBill_iff {publicModel : GoString} {s s' : Source} (hfit : LinesFit maxScanTokenSize s)
    (hfit' : LinesFit maxScanTokenSize s') :
    SameBill publicModel s s' ↔ ∀ messages, (streamTally publicModel s).recorded messages =
      (streamTally publicModel s').recorded messages := by
  have hbill : ∀ {s : Source}, LinesFit maxScanTokenSize s → ∀ (call : CallContext)
      (route : ModelRoute) (messages : List Message) (latency : Rat),
      (relayStream call publicModel route messages [] latency s).records.map UsageRecord.bill =
        [billOf route ((streamTally publicModel s).recorded messages)] := by
    intro s hfit call route messages latency
    rw [relayStream_bill, recorded_streamTally publicModel hfit]
  constructor
  · intro h messages
    have heq := h ⟨1, 1⟩ ⟨[], [], [], [], 1, 1⟩ messages 0
    rw [hbill hfit, hbill hfit'] at heq
    exact (Prod.mk.inj (List.singleton_inj.mp heq)).1
  · intro h call route messages latency
    rw [hbill hfit, hbill hfit', h messages]

/-! ### Payloads -/

/-- **Equal tokens are parsed alike.** -/
theorem parse_congr {p p' : GoString} {ts : List (GoString × Lexeme)} (h : Lexes p ts)
    (h' : Lexes p' ts) : Json.parse p = Json.parse p' := by
  ext v
  rw [parse_eq_some_iff, parse_eq_some_iff]
  constructor
  · rintro ⟨us, hus, hv⟩
    obtain rfl := hus.unique h
    exact ⟨us, h', hv⟩
  · rintro ⟨us, hus, hv⟩
    obtain rfl := hus.unique h'
    exact ⟨us, h, hv⟩

theorem not_lexes_usage (s : GoString) (us : List (GoString × Lexeme)) :
    ¬ Lexes (lit "usage" ++ s) us :=
  not_lexes_of_nextToken (b := 0x75) (s := lit "sage" ++ s) rfl rfl

theorem contains_data (p : GoString) :
    contains (lit "data: " ++ p) (lit "\"usage\"") = contains p (lit "\"usage\"") := by
  have hquote : 0x22 ∉ lit "data: " := by decide
  have husage : lit "\"usage\"" = 0x22 :: (lit "usage" ++ [0x22]) := by decide
  unfold contains
  rw [husage, index_append_of_not_mem hquote, Option.isSome_map]

/-- **What a payload counts depends on its tokens alone.** -/
theorem lineCounts_eq_of_sameTokens {p p' : GoString} (h : SameTokens p p') :
    lineCounts (lit "data: " ++ p) = lineCounts (lit "data: " ++ p') := by
  rcases h with rfl | ⟨ts, hp, hp'⟩
  · rfl
  · have husage : lit "\"usage\"" = 0x22 :: (lit "usage" ++ [0x22]) := by decide
    have hcontains : contains p (lit "\"usage\"") = contains p' (lit "\"usage\"") := by
      rw [Bool.eq_iff_iff, husage, hp.contains_quoted_iff (by decide) not_lexes_usage,
        hp'.contains_quoted_iff (by decide) not_lexes_usage]
    simp only [lineCounts, contains_data, hcontains, extractStreamUsage, reportedUsage,
      extractContentLength, trimPrefix_append, parse_congr hp hp']

/-- A line that the loop looks into, and its payload. -/
theorem payload_of_isDataLine {line : GoString} (h : isDataLine line = true) :
    ∃ p, line = lit "data: " ++ p ∧ payload line = some p := by
  obtain ⟨hstart, -⟩ := Bool.and_eq_true_iff.mp h
  obtain ⟨p, rfl⟩ := hasPrefix_iff.mp hstart
  refine ⟨p, rfl, ?_⟩
  have hsplit : lit "data: " ++ p = lit "data:" ++ (lit " " ++ p) := rfl
  rw [payload, hsplit, hasPrefix_append, if_pos rfl, List.drop_left, trimPrefix_append]

/-- **Two spellings count the same.** -/
theorem Respelled.relayedCounts_eq {publicModel line line' : GoString} (h : Respelled line line')
    (halike : SpelledAlike publicModel line line') :
    relayedCounts publicModel line = relayedCounts publicModel line' := by
  by_cases hne : line = line'
  · rw [hne]
  rcases halike.seen with hseen | ⟨hempty, hempty'⟩
  · by_cases hdata : isDataLine line = true
    · have hdata' : isDataLine line' = true := hseen ▸ hdata
      rcases halike.names hdata hdata' hne with ⟨hkeeps, hkeeps'⟩ | hsame
      -- the loop counts the upstream's own payloads, and these have the same tokens
      · obtain ⟨p, hline, hp⟩ := payload_of_isDataLine hdata
        obtain ⟨p', hline', hp'⟩ := payload_of_isDataLine hdata'
        rw [relayedCounts, if_pos hdata, hkeeps, relayedCounts, if_pos hdata', hkeeps', hline, hline']
        cases h with
        | refl => exact absurd rfl hne
        | data hq hq' hsame =>
          rw [hp] at hq
          rw [hp'] at hq'
          rw [← Option.some.inj hq, ← Option.some.inj hq'] at hsame
          exact lineCounts_eq_of_sameTokens hsame
      · exact hsame
    · rw [relayedCounts, if_neg hdata, relayedCounts, if_neg (hseen ▸ hdata)]
  · rw [hempty, hempty']

/-- **Streams whose lines count alike are billed alike.** -/
theorem sameBill_of_counts {publicModel : GoString} {s s' : Source}
    (hfit : LinesFit maxScanTokenSize s) (hfit' : LinesFit maxScanTokenSize s')
    (h : List.Forall₂ (fun line line' => relayedCounts publicModel line = relayedCounts publicModel line')
      (lines s.data) (lines s'.data)) : SameBill publicModel s s' := by
  have hmap : (lines s.data).map (relayedCounts publicModel) =
      (lines s'.data).map (relayedCounts publicModel) := by
    rw [← List.forall₂_eq_eq_eq, List.forall₂_map_left_iff, List.forall₂_map_right_iff]
    exact h
  rw [sameBill_iff hfit hfit']
  intro messages
  rw [streamTally, streamTally, hmap]

/-! ### Streams of given lines -/

/-- A line of a stream. -/
structure IsLine (line : GoString) : Prop where
  newline_not_mem : newline ∉ line
  getLast_ne : line.getLast? ≠ some 0x0D
  fits : line.length < maxScanTokenSize

/-- What stands before the newline: a carriage return or nothing. -/
def lineEnd (crlf : Bool) : GoString := if crlf then [0x0D] else []

/-- The text of lines, each with one of the two line ends. -/
def written (ls : List (GoString × Bool)) : GoString :=
  ls.flatMap fun l => l.1 ++ lineEnd l.2 ++ [newline]

theorem dropCR_lineEnd {line : GoString} (h : line.getLast? ≠ some 0x0D) (crlf : Bool) :
    dropCR (line ++ lineEnd crlf) = line := by
  cases crlf with
  | false => rw [lineEnd, if_neg Bool.false_ne_true, List.append_nil, dropCR, if_neg h]
  | true => rw [lineEnd, if_pos rfl, dropCR, if_pos List.getLast?_concat, List.dropLast_concat]

/-- **Both line ends give the same lines.** -/
theorem lines_written {ls : List (GoString × Bool)} (h : ∀ l ∈ ls, IsLine l.1)
    (hfit : ∀ l ∈ ls, (l.1 ++ lineEnd l.2).length < maxScanTokenSize)
    (fin : ReadError) (flag : Bool) :
    lines (written ls) = ls.map Prod.fst ∧ LinesFit maxScanTokenSize ⟨written ls, fin, flag⟩ := by
  rw [← scanLines_eq_lines_iff (by decide)]
  induction ls with
  | nil => exact ⟨rfl, rfl⟩
  | cons l ls ih =>
    obtain ⟨hl, hls⟩ := List.forall_mem_cons.mp h
    obtain ⟨hlen, hlens⟩ := List.forall_mem_cons.mp hfit
    obtain ⟨hlines, hscan⟩ := ih hls hlens
    have htext : written (l :: ls) = (l.1 ++ lineEnd l.2) ++ newline :: written ls := by
      rw [written, List.flatMap_cons, ← written, List.append_assoc (l.1 ++ lineEnd l.2)]
      rfl
    have hnewline : newline ∉ l.1 ++ lineEnd l.2 := by
      rw [List.mem_append]
      rintro (hm | hm)
      · exact hl.newline_not_mem hm
      · revert hm
        cases l.2 <;> decide
    rw [htext, lines_line hnewline, scanLines_line hnewline hlen, dropCR_lineEnd hl.getLast_ne]
    exact ⟨by rw [hlines, List.map_cons], by rw [hscan]⟩

/-! ### A line in different streams -/

/-- A stream of lines. -/
def streamOf (ls : List GoString) : Source :=
  ⟨written (ls.map fun line => (line, false)), .eof, false⟩

theorem lines_streamOf {ls : List GoString} (h : ∀ line ∈ ls, IsLine line) :
    lines (streamOf ls).data = ls ∧ LinesFit maxScanTokenSize (streamOf ls) := by
  have hls : ∀ l ∈ ls.map fun line => (line, false), IsLine l.1 ∧ l.2 = false := by
    intro l hl
    obtain ⟨line, hline, rfl⟩ := List.mem_map.mp hl
    exact ⟨h line hline, rfl⟩
  obtain ⟨hlines, hfit⟩ := lines_written (fun l hl => (hls l hl).1) (fun l hl => by
    rw [(hls l hl).2, lineEnd, if_neg Bool.false_ne_true, List.append_nil]
    exact (hls l hl).1.fits) .eof false
  refine ⟨?_, hfit⟩
  rw [streamOf, hlines, List.map_map]
  exact List.map_id ls

/-- A line that reports `n` prompt tokens, for a digit `n`. -/
def reportLine (n : Nat) : GoString :=
  lit "data: \x7b\"usage\":\x7b\"prompt_tokens\":" ++ [.ofNat (0x30 + n)] ++ lit "\x7d\x7d"

/-- A line with `n` bytes of content. -/
def contentLine (n : Nat) : GoString :=
  lit "data: \x7b\"choices\":[\x7b\"delta\":\x7b\"content\":\"" ++ List.replicate n 0x61 ++
    lit "\"\x7d\x7d]\x7d"

/-- Lines that tell apart what other lines count, and what they count themselves. -/
def probes : List (GoString × Counts) :=
  [([], {}), (reportLine 0, ⟨some {}, 0⟩), (reportLine 1, ⟨some ⟨1, 0, 0⟩, 0⟩),
    (reportLine 2, ⟨some ⟨2, 0, 0⟩, 0⟩), (contentLine 4, ⟨none, 4⟩), (contentLine 5, ⟨none, 5⟩),
    (contentLine 6, ⟨none, 6⟩), (contentLine 7, ⟨none, 7⟩)]

theorem relayedCounts_probe (publicModel : GoString) :
    ∀ p ∈ probes, IsLine p.1 ∧ relayedCounts publicModel p.1 = p.2 := by
  have hline : ∀ p ∈ probes, newline ∉ p.1 ∧ p.1.getLast? ≠ some 0x0D ∧
      p.1.length < maxScanTokenSize := by decide
  have hcounts : ∀ p ∈ probes, index (lit "\"model\":\"") p.1 = none ∧
      (if isDataLine p.1 then lineCounts p.1 else {}) = p.2 := by decide +kernel
  intro p hp
  obtain ⟨hnewline, hlast, hfits⟩ := hline p hp
  obtain ⟨hindex, hcount⟩ := hcounts p hp
  have hsame : replaceModelName p.1 publicModel = p.1 := by rw [replaceModelName, hindex]
  exact ⟨⟨hnewline, hlast, hfits⟩, by rw [relayedCounts, hsame, hcount]⟩

/-- The tally of three lines. -/
def around (d c e : Counts) : Tally := ((({} : Tally).plus d).plus c).plus e

/-- Nothing tells two counts apart in the streams of the probes. -/
def Indistinct (c c' : Counts) : Prop :=
  ∀ p ∈ probes, ∀ q ∈ probes, ∀ messages,
    (around p.2 c q.2).recorded messages = (around p.2 c' q.2).recorded messages

theorem Indistinct.symm {c c' : Counts} (h : Indistinct c c') : Indistinct c' c :=
  fun p hp q hq messages => (h p hp q hq messages).symm

/-- Content shows between other content and a report of zeros. -/
theorem Indistinct.chars_eq {c c' : Counts} (h : Indistinct c c') : c.chars = c'.chars := by
  have hestimate : ∀ n, (contentLine n, ⟨none, n⟩) ∈ probes →
      (estimateTokens [] (0 + n + c.chars + 0)).completionTokens =
        (estimateTokens [] (0 + n + c'.chars + 0)).completionTokens := by
    intro n hn
    exact congrArg Tokens.completionTokens
      (h _ hn (reportLine 0, ⟨some {}, 0⟩) (by simp [probes]) [])
  -- the estimate divides by four: four lengths in a row show every difference
  have h₄ := hestimate 4 (by simp [probes])
  have h₅ := hestimate 5 (by simp [probes])
  have h₆ := hestimate 6 (by simp [probes])
  have h₇ := hestimate 7 (by simp [probes])
  simp only [estimateTokens] at h₄ h₅ h₆ h₇
  omega

theorem recorded_of_isNonzero {t : Tokens} (ht : t.IsNonzero) (n : Nat) (messages : List Message) :
    (⟨t, n⟩ : Tally).recorded messages = t := by
  have hnonzero : ¬ (t.promptTokens = 0 ∧ t.completionTokens = 0) := by
    rw [not_and_or]
    exact ht
  exact if_neg hnonzero

theorem recorded_of_not_isNonzero {t : Tokens} (ht : ¬ t.IsNonzero) (n : Nat)
    (messages : List Message) : (⟨t, n⟩ : Tally).recorded messages = estimateTokens messages n := by
  rw [Tokens.IsNonzero, not_or, not_not, not_not] at ht
  exact if_pos ht

/-- No report is the estimate for every prompt. -/
theorem exists_estimateTokens_ne (t : Tokens) (n : Nat) :
    ∃ messages, estimateTokens messages n ≠ t := by
  by_contra h
  push Not at h
  have hsame := (h []).trans (h [{ role := lit "user", content := .str (lit "a prompt") }]).symm
  have hprompt : estimatePromptTokens [] =
      estimatePromptTokens [{ role := lit "user", content := .str (lit "a prompt") }] :=
    congrArg Tokens.promptTokens hsame
  exact absurd hprompt (by decide)

/-- A report shows after another one. -/
theorem not_indistinct_some_none (t : Tokens) (n m : Nat) : ¬ Indistinct ⟨some t, n⟩ ⟨none, m⟩ := by
  intro h
  have hone : (⟨t, 0 + 0 + n + 0⟩ : Tally).recorded [] = ⟨1, 0, 0⟩ :=
    h (reportLine 1, ⟨some ⟨1, 0, 0⟩, 0⟩) (by simp [probes]) ([], {}) (by simp [probes]) []
  have htwo : (⟨t, 0 + 0 + n + 0⟩ : Tally).recorded [] = ⟨2, 0, 0⟩ :=
    h (reportLine 2, ⟨some ⟨2, 0, 0⟩, 0⟩) (by simp [probes]) ([], {}) (by simp [probes]) []
  rw [hone] at htwo
  exact absurd htwo (by decide)

/-- A report of zeros is an estimate, another report is not. -/
theorem Indistinct.isNonzero {t t' : Tokens} {n n' : Nat} (h : Indistinct ⟨some t, n⟩ ⟨some t', n'⟩)
    (ht : t.IsNonzero) : t' = t := by
  have halone : ∀ messages, (⟨t, 0 + 0 + n + 0⟩ : Tally).recorded messages =
      (⟨t', 0 + 0 + n' + 0⟩ : Tally).recorded messages :=
    h ([], {}) (by simp [probes]) ([], {}) (by simp [probes])
  by_cases ht' : t'.IsNonzero
  · have hsame := halone []
    rw [recorded_of_isNonzero ht, recorded_of_isNonzero ht'] at hsame
    exact hsame.symm
  · obtain ⟨messages, hne⟩ := exists_estimateTokens_ne t (0 + 0 + n' + 0)
    have hsame := halone messages
    rw [recorded_of_isNonzero ht, recorded_of_not_isNonzero ht'] at hsame
    exact absurd hsame.symm hne

theorem counted_eq_self_or (t : Tokens) : t.counted.IsNonzero ∨ t.counted = {} := by
  by_cases ht : t.IsNonzero
  · rw [Tokens.counted, if_pos ht]
    exact Or.inl ht
  · rw [Tokens.counted, if_neg ht]
    exact Or.inr rfl

/-- A report counts as itself or as zeros. -/
def Counts.Normal (c : Counts) : Prop := ∀ t ∈ c.usage, t.IsNonzero ∨ t = {}

theorem relayedCounts_normal (publicModel line : GoString) :
    (relayedCounts publicModel line).Normal := by
  intro t ht
  unfold relayedCounts lineCounts at ht
  split at ht
  · obtain ⟨-, hcounted⟩ := Option.ite_none_right_eq_some.mp ht
    rw [← Option.some.inj hcounted]
    exact counted_eq_self_or _
  · cases ht

/-- **Counts that are not told apart are equal.** -/
theorem Indistinct.eq {c c' : Counts} (h : Indistinct c c') (hc : c.Normal) (hc' : c'.Normal) :
    c = c' := by
  have hchars := h.chars_eq
  obtain ⟨usage, n⟩ := c
  obtain ⟨usage', n'⟩ := c'
  obtain rfl : n = n' := hchars
  cases usage with
  | none =>
    cases usage' with
    | none => rfl
    | some t' => exact absurd h.symm (not_indistinct_some_none t' n n)
  | some t =>
    cases usage' with
    | none => exact absurd h (not_indistinct_some_none t n n)
    | some t' =>
      rcases hc t rfl with ht | rfl
      · rw [h.isNonzero ht]
      · rcases hc' t' rfl with ht' | rfl
        · rw [← h.symm.isNonzero ht']
        · rfl

/-- **Lines that can be exchanged in every stream count the same.** -/
theorem relayedCounts_eq_of_exchange {publicModel line line' : GoString} (hline : IsLine line)
    (hline' : IsLine line')
    (h : ∀ first last, IsLine first → IsLine last →
      SameBill publicModel (streamOf [first, line, last]) (streamOf [first, line', last])) :
    relayedCounts publicModel line = relayedCounts publicModel line' := by
  refine Indistinct.eq ?_ (relayedCounts_normal _ _) (relayedCounts_normal _ _)
  intro p hp q hq messages
  obtain ⟨hfirst, hp'⟩ := relayedCounts_probe publicModel p hp
  obtain ⟨hlast, hq'⟩ := relayedCounts_probe publicModel q hq
  have hls : ∀ l, IsLine l → ∀ line ∈ [p.1, l, q.1], IsLine line := by
    intro l hl
    simp [hfirst, hl, hlast]
  obtain ⟨hlines, hfit⟩ := lines_streamOf (hls line hline)
  obtain ⟨hlines', hfit'⟩ := lines_streamOf (hls line' hline')
  have hbill := (sameBill_iff hfit hfit').mp (h p.1 q.1 hfirst hlast) messages
  rw [streamTally, streamTally, hlines, hlines'] at hbill
  rw [← hp', ← hq']
  exact hbill

/-! ### Streams -/

/-- A report in a line without the blank is not seen. -/
theorem not_billsEvents_no_blank : ¬ BillsEvents (lit "fast") Respelled := by
  intro h
  have hfit : LinesFit maxScanTokenSize
      ⟨lit "data: \x7b\"usage\":\x7b\"prompt_tokens\":9\x7d\x7d\n", .eof, false⟩ := by
    rw [LinesFit]
    decide +kernel
  have hfit' : LinesFit maxScanTokenSize
      ⟨lit "data:\x7b\"usage\":\x7b\"prompt_tokens\":9\x7d\x7d\n", .eof, false⟩ := by
    rw [LinesFit]
    decide +kernel
  have hpayload : Respelled (lit "data: \x7b\"usage\":\x7b\"prompt_tokens\":9\x7d\x7d")
      (lit "data:\x7b\"usage\":\x7b\"prompt_tokens\":9\x7d\x7d") :=
    .data rfl rfl (Or.inl rfl)
  have hbill := (sameBill_iff hfit hfit').mp (h _ _ hfit hfit' (.cons (Or.inl hpayload) .nil)) []
  revert hbill
  decide +kernel

/-- **What spellings the bill does not depend on**: exactly those that hide no line that counts,
and under which the replacement of the model name does no harm, or the same. -/
theorem billsEvents_iff {publicModel : GoString} {R : GoString → GoString → Prop}
    (hlines : ∀ line line', R line line' → IsLine line ∧ IsLine line' ∧ Respelled line line') :
    BillsEvents publicModel R ↔
      ∀ line line', R line line' → SpelledAlike publicModel line line' := by
  constructor
  · intro h line line' hR
    obtain ⟨hline, hline', -⟩ := hlines line line' hR
    have hsame : relayedCounts publicModel line = relayedCounts publicModel line' := by
      refine relayedCounts_eq_of_exchange hline hline' fun first last hfirst hlast => ?_
      have hthree : ∀ l, IsLine l → ∀ line ∈ [first, l, last], IsLine line := by
        intro l hl
        simp [hfirst, hl, hlast]
      obtain ⟨hls, hfit⟩ := lines_streamOf (hthree line hline)
      obtain ⟨hls', hfit'⟩ := lines_streamOf (hthree line' hline')
      refine h _ _ hfit hfit' ?_
      rw [hls, hls']
      exact .cons (Or.inr rfl) (.cons (Or.inl hR) (.cons (Or.inr rfl) .nil))
    refine ⟨?_, fun _ _ _ => Or.inr hsame⟩
    -- a line that the loop does not look into counts nothing, so the other one does not either
    by_cases hdata : isDataLine line = true
    · by_cases hdata' : isDataLine line' = true
      · exact Or.inl (hdata.trans hdata'.symm)
      · have hempty : relayedCounts publicModel line' = {} := if_neg hdata'
        exact Or.inr ⟨hsame.trans hempty, hempty⟩
    · have hempty : relayedCounts publicModel line = {} := if_neg hdata
      exact Or.inr ⟨hempty, hsame.symm.trans hempty⟩
  · intro h s s' hfit hfit' hrel
    refine sameBill_of_counts hfit hfit' (hrel.imp fun line line' hpair => ?_)
    rcases hpair with hR | rfl
    · exact (hlines line line' hR).2.2.relayedCounts_eq (h line line' hR)
    · rfl

/-- A blank after a colon is white space between tokens. -/
theorem sameTokens_blank {x k y : GoString} {v : Json} (hquote : 0x22 ∉ k) (hescape : 0x5C ∉ k)
    (hno : ∀ s us, ¬ Lexes (k ++ s) us)
    (hparse : Json.parse (x ++ 0x22 :: (k ++ 0x22 :: 0x3A :: y)) = some v) :
    SameTokens (x ++ 0x22 :: (k ++ 0x22 :: 0x3A :: y))
      (x ++ 0x22 :: (k ++ 0x22 :: 0x3A :: 0x20 :: y)) := by
  obtain ⟨ts, hlex, -⟩ := parse_eq_some_iff.mp hparse
  obtain ⟨us, vs, rfl, hvs, hpaste⟩ := hlex.key_context hquote hescape hno
  have hblank : AllSpace [0x20] := by
    intro b hb
    rw [List.mem_singleton.mp hb]
    rfl
  exact Or.inr ⟨_, hlex, hpaste _ _ (.mark rfl (hvs.space hblank))⟩

theorem billsEvents_iff_blank_after_colon :
    BillsEvents (lit "fast") fun line line' =>
      line = lit "data: \x7b\"usage\":\x7b\"prompt_tokens\":9\x7d\x7d" ∧
        line' = lit "data: \x7b\"usage\": \x7b\"prompt_tokens\":9\x7d\x7d" := by
  refine (billsEvents_iff ?_).mpr ?_
  · rintro line line' ⟨rfl, rfl⟩
    refine ⟨⟨by decide, by decide, by decide⟩, ⟨by decide, by decide, by decide⟩, .data rfl rfl ?_⟩
    exact sameTokens_blank (x := lit "\x7b") (k := lit "usage") (by decide) (by decide)
      not_lexes_usage rfl
  · rintro line line' ⟨rfl, rfl⟩
    refine ⟨Or.inl rfl, fun _ _ _ => Or.inl ⟨?_, ?_⟩⟩
    · rw [KeepsCounts]
      decide +kernel
    · rw [KeepsCounts]
      decide +kernel

end UniLLM.Inference
