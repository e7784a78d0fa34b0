import Mathlib.Data.List.Forall2
import UniLLM.Lib.Fragments
import UniLLM.Js.JsonScan

/-!
# The playground page reads an answer

`handleSend` of the playground decodes each piece of the response body as it arrives,
splits the piece into lines and appends the content of each chunk it can parse.  It keeps
no line that has only begun, so a line that is cut is read as two: neither is a chunk.
The text shown is the whole answer exactly when no line with content is cut
(`assembles_iff_keepsLines`).
-/

namespace UniLLM.Web.Playground

open Js Fragments

/-- The separator of `chunk.split("\n")`. -/
def newline : UInt16 := 0x0A

/-- `parsed.choices?.[0]?.delta?.content`.  Where `parsed` is `null` the access throws,
which is caught, and nothing is added either. -/
def deltaContent (parsed : Value) : Option Value := do
  let choices ← parsed.get (lit "choices")
  let choice ← choices.first
  let delta ← choice.get (lit "delta")
  delta.get (lit "content")

section

-- JavaScript's text for a number, for `true`, for an array and for an object, as `+=` puts
-- it behind a string; nothing for the number zero, which is falsy.
variable (text : Value → JsString)

/-- What `if (delta) fullText += delta` adds. -/
def added : Option Value → JsString
  | none | some .null | some (.bool false) => []
  | some (.str s) => s
  | some v => text v

/-- What the data of a line adds. -/
def dataText (data : JsString) : JsString :=
  if data = lit "[DONE]" then []
  else
    match JSON.parse data with
    | some parsed => added text (deltaContent parsed)
    | none => []

/-- What a line adds. -/
def lineText (line : JsString) : JsString :=
  if startsWith line (lit "data: ") then dataText text (trim (line.drop 6)) else []

/-- What the loop keeps between two reads. -/
structure Reading where
  decoder : TextDecoder
  fullText : JsString

/-- One turn of the loop, with what `reader.read()` has returned. -/
def onRead (st : Reading) (value : List UInt8) : Reading :=
  let (decoder, chunk) := st.decoder.decode value
  let lines := split newline chunk
  { decoder
    fullText := lines.foldl (fun fullText line => fullText ++ lineText text line) st.fullText }

/-- `fullText` after the loop. -/
def handleSend (reads : List (List UInt8)) : JsString :=
  (reads.foldl (onRead text) ⟨.new, []⟩).fullText

end

/-! ### Bodies of OpenAI chunks -/

/-- An OpenAI chunk, by the members of its object, and the content of its first choice. -/
inductive IsChunk : List (JsString × Value) → JsString → Prop
  | noChoice {fs : List (JsString × Value)}
      (h : ∀ v, member (lit "choices") fs = some v → v = .null ∨ v = .arr []) : IsChunk fs []
  | noDelta {fs choice : List (JsString × Value)} {choices : List Value}
      (hchoices : member (lit "choices") fs = some (.arr (.obj choice :: choices)))
      (h : ∀ v, member (lit "delta") choice = some v → v = .null) : IsChunk fs []
  | noContent {fs choice delta : List (JsString × Value)} {choices : List Value}
      (hchoices : member (lit "choices") fs = some (.arr (.obj choice :: choices)))
      (hdelta : member (lit "delta") choice = some (.obj delta))
      (h : ∀ v, member (lit "content") delta = some v → v = .null) : IsChunk fs []
  | content {fs choice delta : List (JsString × Value)} {choices : List Value} {s : JsString}
      (hchoices : member (lit "choices") fs = some (.arr (.obj choice :: choices)))
      (hdelta : member (lit "delta") choice = some (.obj delta))
      (hcontent : member (lit "content") delta = some (.str s)) : IsChunk fs s

/-- A line of a body and the content it carries.  White space may stand around the data,
such as the carriage return of a line that ends in two bytes. -/
inductive IsLine : JsString → JsString → Prop
  | blank {line : JsString} (h : AllWhite line) : IsLine line []
  | done {lead trail : JsString} (hlead : AllWhite lead) (htrail : AllWhite trail) :
    IsLine (lit "data: " ++ (lead ++ (lit "[DONE]" ++ trail))) []
  | chunk {lead inner trail : JsString} {fs : List (JsString × Value)} {c : JsString}
      (hlead : AllWhite lead) (htrail : AllWhite trail)
      (hparse : JSON.parse (0x7B :: (inner ++ [0x7D])) = some (.obj fs)) (hchunk : IsChunk fs c) :
    IsLine (lit "data: " ++ (lead ++ (0x7B :: (inner ++ [0x7D]) ++ trail))) c

/-- A body of such lines, and the contents of its lines in order. -/
def IsBody (body : List UInt8) (contents : List JsString) : Prop :=
  List.Forall₂ IsLine (split newline (TextDecoder.new.decode body).2) contents

/-- Between these bytes and those a line with content is cut, elsewhere than at its start
or in the white space it ends in. -/
def CutsContent (before after : List UInt8) : Prop :=
  let (decoder, shown) := TextDecoder.new.decode before
  let head := lastLine newline shown
  let tail := firstLine newline (decoder.decode after).2
  (∃ c ≠ [], IsLine (head ++ tail) c) ∧ head ≠ [] ∧ ¬ AllWhite tail

theorem cutsContent_iff {before after : List UInt8} :
    CutsContent before after ↔
      (∃ c ≠ [], IsLine (lastLine newline (TextDecoder.new.decode before).2 ++
        firstLine newline ((TextDecoder.new.decode before).1.decode after).2) c) ∧
      lastLine newline (TextDecoder.new.decode before).2 ≠ [] ∧
      ¬ AllWhite (firstLine newline ((TextDecoder.new.decode before).1.decode after).2) :=
  Iff.rfl

/-- No two reads share a line with content. -/
def KeepsLines (reads : List (List UInt8)) : Prop :=
  ∀ before after, reads = before ++ after → ¬ CutsContent before.flatten after.flatten

variable {text : Value → JsString}

/-! ### The loop -/

/-- The pieces as the decoder gives them. -/
def chunks : TextDecoder → List (List UInt8) → List JsString
  | _, [] => []
  | d, value :: reads => (d.decode value).2 :: chunks (d.decode value).1 reads

theorem foldl_append_eq (f : JsString → JsString) (lines : List JsString) (s : JsString) :
    lines.foldl (fun s line => s ++ f line) s = s ++ lines.flatMap f := by
  induction lines generalizing s with
  | nil => exact (List.append_nil s).symm
  | cons line lines ih => rw [List.foldl_cons, ih, List.flatMap_cons, List.append_assoc]

theorem foldl_onRead (reads : List (List UInt8)) (st : Reading) :
    (reads.foldl (onRead text) st).fullText =
      st.fullText ++
        ((chunks st.decoder reads).flatMap (split newline)).flatMap (lineText text) := by
  induction reads generalizing st with
  | nil => exact (List.append_nil _).symm
  | cons value reads ih =>
    have hone : (onRead text st value).fullText =
        st.fullText ++ (split newline (st.decoder.decode value).2).flatMap (lineText text) :=
      foldl_append_eq ..
    have hdecoder : (onRead text st value).decoder = (st.decoder.decode value).1 := rfl
    rw [List.foldl_cons, ih, hone, hdecoder, chunks, List.flatMap_cons, List.flatMap_append,
      List.append_assoc]

/-- The answer shown is what the fragments of the lines add. -/
theorem handleSend_eq (reads : List (List UInt8)) :
    handleSend text reads =
      (fragments newline (chunks .new reads)).flatMap fun g => g.flatMap (lineText text) := by
  have hlines : (chunks .new reads).flatMap (split newline) =
      (fragments newline (chunks .new reads)).flatten := (flatten_fragments _).symm
  rw [handleSend, foldl_onRead, List.nil_append, hlines, List.flatMap_def, List.flatMap_def,
    List.map_flatten, List.flatten_flatten, List.map_map]
  rfl

theorem flatten_chunks (reads : List (List UInt8)) (d : TextDecoder) :
    (chunks d reads).flatten = (d.decode reads.flatten).2 := by
  induction reads generalizing d with
  | nil => rfl
  | cons value reads ih =>
    rw [chunks, List.flatten_cons, List.flatten_cons, TextDecoder.decode_append, ih]

theorem chunks_append (before after : List (List UInt8)) (d : TextDecoder) :
    chunks d (before ++ after) = chunks d before ++ chunks (d.decode before.flatten).1 after := by
  induction before generalizing d with
  | nil => rfl
  | cons value before ih =>
    rw [List.cons_append, chunks, ih, chunks, List.flatten_cons, TextDecoder.decode_append,
      List.cons_append]

/-- A cut between pieces of text is one between reads. -/
theorem exists_reads {reads : List (List UInt8)} {d : TextDecoder} {us vs : List JsString}
    (h : chunks d reads = us ++ vs) :
    ∃ before after, reads = before ++ after ∧ us = chunks d before ∧
      vs = chunks (d.decode before.flatten).1 after := by
  induction us generalizing reads d with
  | nil => exact ⟨[], reads, rfl, rfl, h.symm⟩
  | cons u us ih =>
    cases reads with
    | nil => cases h
    | cons value reads =>
      obtain ⟨rfl, hrest⟩ := List.cons.inj h
      obtain ⟨before, after, rfl, rfl, rfl⟩ := ih hrest
      refine ⟨value :: before, after, rfl, rfl, ?_⟩
      rw [List.flatten_cons, TextDecoder.decode_append]

/-! ### One line -/

theorem lineText_data (rest : JsString) :
    lineText text (lit "data: " ++ rest) = dataText text (trim rest) := by
  have hstart : startsWith (lit "data: " ++ rest) (lit "data: ") = true :=
    List.isPrefixOf_iff_prefix.mpr (List.prefix_append ..)
  rw [lineText, if_pos hstart]
  rfl

variable (text) in
/-- Only a line that starts with `data: ` adds anything. -/
theorem lineText_cases (line : JsString) :
    lineText text line = [] ∨ ∃ rest, line = lit "data: " ++ rest := by
  by_cases hstart : startsWith line (lit "data: ") = true
  · obtain ⟨rest, hrest⟩ := List.isPrefixOf_iff_prefix.mp hstart
    exact Or.inr ⟨rest, hrest.symm⟩
  · exact Or.inl (if_neg hstart)

theorem dataText_eq_nil {data : JsString} (h : JSON.parse data = none) :
    dataText text data = [] := by
  unfold dataText
  split
  · rfl
  · rw [h]

/-- Data that begins and ends with something else than white space, and whose brackets do
not close before its end. -/
structure Framed (a : UInt16) (inner : JsString) (z : UInt16) : Prop where
  first : isWhite a = false
  last : isWhite z = false
  unclosed : ∀ q, q <+: inner → (Scan.out 0).run (a :: q) ≠ .out 0

theorem framed_done : Framed 0x5B (lit "DONE") 0x5D where
  first := by decide
  last := by decide
  unclosed q hq := by
    have hlit : lit "DONE" = 0x44 :: lit "ONE" := by decide
    rw [hlit] at hq
    rcases List.prefix_cons_iff.mp hq with rfl | ⟨t, rfl, -⟩
    · decide
    · have hstuck : (Scan.out 0).run (0x5B :: 0x44 :: t) = Scan.stuck.run t := rfl
      rw [hstuck, Scan.run_stuck]
      decide

theorem framed_chunk {inner : JsString} {fs : List (JsString × Value)}
    (h : JSON.parse (0x7B :: (inner ++ [0x7D])) = some (.obj fs)) : Framed 0x7B inner 0x7D where
  first := by decide
  last := by decide
  unclosed q hq hrun := by
    have habove := (balanced_inner h).above 1 q hq
    have hopen : (Scan.out 0).run (0x7B :: q) = (Scan.out 1).run q := rfl
    rw [← hopen, hrun] at habove
    exact Nat.not_succ_le_zero 0 habove

/-- **Data that is cut before its end adds nothing.** -/
theorem Framed.dataText_of_cut {a z : UInt16} {inner lead trail y w : JsString}
    (h : Framed a inner z) (hlead : AllWhite lead) (htrail : AllWhite trail)
    (heq : lead ++ (a :: (inner ++ [z]) ++ trail) = y ++ w) (hw : ¬ AllWhite w) :
    dataText text (trim y) = [] := by
  have hwhite : AllWhite y → dataText text (trim y) = [] := by
    intro hy
    rw [trim_of_allWhite hy]
    exact dataText_eq_nil (by decide)
  rcases List.append_eq_append_iff.mp heq with ⟨as, rfl, has⟩ | ⟨as, rfl, -⟩
  · cases as with
    | nil => exact hwhite (by rw [List.append_nil]; exact hlead)
    | cons b as =>
      rw [List.cons_append, List.cons_append] at has
      obtain ⟨rfl, hrest⟩ := List.cons.inj has
      -- the cut is in front of the last unit
      have hpre : as <+: inner := by
        rcases List.append_eq_append_iff.mp hrest with ⟨bs, rfl, rfl⟩ | ⟨bs, hbs, rfl⟩
        · exact absurd htrail.of_append_right hw
        · rcases List.eq_nil_or_concat bs with rfl | ⟨bs, u, rfl⟩
          · exact absurd htrail hw
          · rw [List.concat_eq_append, ← List.append_assoc] at hbs
            exact ⟨bs, (List.append_inj' hbs rfl).1.symm⟩
      rw [trim_lead hlead h.first]
      apply dataText_eq_nil
      have htrim : (a :: as).rdropWhile isWhite <+: a :: as := List.rdropWhile_prefix ..
      rcases List.prefix_cons_iff.mp htrim with hnil | ⟨t, ht, hta⟩
      · rw [hnil]
        decide
      · rw [ht, Option.eq_none_iff_forall_ne_some]
        intro v hv
        exact h.unclosed t (hta.trans hpre) ((balanced_of_parse hv).run_eq 0)
  · exact hwhite hlead.of_append_left

theorem Framed.lineText_of_cut {a z : UInt16} {inner lead trail f w : JsString}
    (h : Framed a inner z) (hlead : AllWhite lead) (htrail : AllWhite trail)
    (heq : lit "data: " ++ (lead ++ (a :: (inner ++ [z]) ++ trail)) = f ++ w)
    (hw : ¬ AllWhite w) : lineText text f = [] := by
  rcases lineText_cases text f with hf | ⟨y, rfl⟩
  · exact hf
  · rw [List.append_assoc] at heq
    rw [lineText_data]
    exact h.dataText_of_cut hlead htrail (List.append_cancel_left heq) hw

/-- A line that lacks only white space at its end is read like the whole. -/
theorem Framed.lineText_whole {a z : UInt16} {inner lead trail f w : JsString}
    (h : Framed a inner z) (hlead : AllWhite lead) (htrail : AllWhite trail)
    (heq : lit "data: " ++ (lead ++ (a :: (inner ++ [z]) ++ trail)) = f ++ w)
    (hw : AllWhite w) : lineText text f = dataText text (a :: (inner ++ [z])) := by
  have hlast : lit "data: " ++ (lead ++ (a :: inner)) ++ z :: trail = f ++ w := by
    rw [← heq]
    simp
  obtain ⟨trail', rfl, rfl⟩ := hw.of_cut h.last hlast
  have hline : lit "data: " ++ (lead ++ (a :: inner)) ++ z :: trail' =
      lit "data: " ++ (lead ++ (a :: (inner ++ [z]) ++ trail')) := by simp
  rw [hline, lineText_data, trim_between hlead htrail.of_append_left h.first h.last]

/-- A content is a member of a member `choices`. -/
theorem exists_choices {v : Value} (h : added text (deltaContent v) ≠ []) :
    ∃ fs w, v = .obj fs ∧ (lit "choices", w) ∈ fs := by
  cases hchoices : v.get (lit "choices") with
  | none =>
    have hnone : deltaContent v = none := by rw [deltaContent, hchoices]; rfl
    rw [hnone] at h
    exact absurd rfl h
  | some w =>
    cases v with
    | obj fs => exact ⟨fs, w, rfl, mem_of_member hchoices⟩
    | _ => cases hchoices

/-- A reader comes over `data: ` inside of a string only. -/
theorem run_data {q : Scan} (h : q.run (lit "data: ") ≠ .stuck) :
    ∃ n, q.run (lit "data: ") = .inString n := by
  cases q with
  | out n => exact absurd rfl h
  | inString n => exact ⟨n, rfl⟩
  | escape n => exact ⟨n, rfl⟩
  | stuck => exact absurd rfl h

/-- **Data that is read from the middle of a JSON text on adds nothing.** -/
theorem dataText_of_balanced {r x y z : JsString} (h : Balanced r)
    (heq : r = x ++ (lit "data: " ++ (y ++ z))) : dataText text (trim y) = [] := by
  by_contra hne
  unfold dataText at hne
  split at hne
  · exact hne rfl
  split at hne
  case h_2 => exact hne rfl
  rename_i v hparse
  obtain ⟨fs, w, rfl, hmem⟩ := exists_choices hne
  obtain ⟨lead, trail, hlead, -, hy⟩ := exists_trim y
  have hrun : (Scan.out 0).run r ≠ .stuck := by
    rw [h.run_eq]
    exact fun heq => by cases heq
  rw [heq, Scan.run_append, Scan.run_append, hy, List.append_assoc, Scan.run_append,
    List.append_assoc, Scan.run_append] at hrun
  have hdata := Scan.ne_stuck_of_run (Scan.ne_stuck_of_run (Scan.ne_stuck_of_run hrun))
  obtain ⟨n, hn⟩ := run_data hdata
  have hstuck : (Scan.inString n).run (trim y) = .stuck :=
    Scan.run_inString_of_parse hparse hmem (fun _ => rfl) n
  rw [hn, (Enclosed.of_allWhite hlead).run_eq, hstuck] at hrun
  exact hrun (Scan.run_stuck _)

/-- A fragment from within a line that has no further `d` adds nothing. -/
theorem lineText_of_not_mem {x f z line : JsString} (heq : 0x64 :: line = x ++ (f ++ z))
    (hx : x ≠ []) (h : 0x64 ∉ line) : lineText text f = [] := by
  rcases lineText_cases text f with hf | ⟨y, rfl⟩
  · exact hf
  · cases x with
    | nil => exact absurd rfl hx
    | cons u x =>
      obtain ⟨-, rfl⟩ := List.cons.inj heq
      have hmem : 0x64 ∈ lit "data: " ++ y := List.mem_append_left y (by decide)
      exact absurd (List.mem_append_right x (List.mem_append_left z hmem)) h

theorem deltaContent_of_choices {fs : List (JsString × Value)} {v : Value} {vs : List Value}
    (h : member (lit "choices") fs = some (.arr (v :: vs))) :
    deltaContent (.obj fs) = (v.get (lit "delta")).bind (Value.get (lit "content")) := by
  have hget : Value.get (lit "choices") (.obj fs) = some (.arr (v :: vs)) := h
  rw [deltaContent, hget]
  rfl

/-- What is missing or `null` adds nothing. -/
theorem added_of_null {o : Option Value} (h : ∀ v, o = some v → v = .null) :
    added text o = [] := by
  cases o with
  | none => rfl
  | some v =>
    obtain rfl := h v rfl
    rfl

theorem added_of_isChunk {fs : List (JsString × Value)} {c : JsString} (h : IsChunk fs c) :
    added text (deltaContent (.obj fs)) = c := by
  cases h with
  | noChoice h =>
    have hget : Value.get (lit "choices") (.obj fs) = member (lit "choices") fs := rfl
    have hnone : deltaContent (.obj fs) = none := by
      rw [deltaContent, hget]
      cases hchoices : member (lit "choices") fs with
      | none => rfl
      | some v => rcases h v hchoices with rfl | rfl <;> rfl
    rw [hnone]
    rfl
  | noDelta hchoices h =>
    rw [deltaContent_of_choices hchoices]
    refine added_of_null fun w hw => ?_
    obtain ⟨v, hv, hcontent⟩ := Option.bind_eq_some_iff.mp hw
    obtain rfl := h v hv
    cases hcontent
  | noContent hchoices hdelta h =>
    rw [deltaContent_of_choices hchoices]
    refine added_of_null fun w hw => ?_
    obtain ⟨v, hv, hcontent⟩ := Option.bind_eq_some_iff.mp hw
    obtain rfl := Option.some.inj (hdelta.symm.trans hv)
    exact h w hcontent
  | content hchoices hdelta hcontent =>
    rw [deltaContent_of_choices hchoices]
    refine (congrArg (added text) (?_ : _ = some (.str c))).trans rfl
    exact Option.bind_eq_some_iff.mpr ⟨_, hdelta, hcontent⟩

theorem lit_data : lit "data: " = 0x64 :: lit "ata: " := by decide

theorem lit_done : lit "[DONE]" = 0x5B :: (lit "DONE" ++ [0x5D]) := by decide

theorem d_not_mem_of_allWhite {s : JsString} (h : AllWhite s) : 0x64 ∉ s := by
  intro hmem
  cases h _ hmem

theorem lineText_of_allWhite {line : JsString} (h : AllWhite line) : lineText text line = [] := by
  rcases lineText_cases text line with hnil | ⟨y, rfl⟩
  · exact hnil
  · exact absurd (List.mem_append_left y (by decide)) (d_not_mem_of_allWhite h)

namespace IsLine

variable {line c f x z : JsString}

/-- **The front of a line, cut before its end, adds nothing.** -/
theorem early (h : IsLine line c) (heq : line = f ++ z) (hz : ¬ AllWhite z) :
    lineText text f = [] := by
  cases h with
  | blank hwhite =>
    rw [heq] at hwhite
    exact absurd hwhite.of_append_right hz
  | done hlead htrail =>
    rw [lit_done] at heq
    exact framed_done.lineText_of_cut hlead htrail heq hz
  | chunk hlead htrail hparse => exact (framed_chunk hparse).lineText_of_cut hlead htrail heq hz

/-- **The whole line adds its content**, and so does what lacks only white space at the
end. -/
theorem whole (h : IsLine line c) (heq : line = f ++ z) (hz : AllWhite z) :
    lineText text f = c := by
  cases h with
  | blank hwhite =>
    rw [heq] at hwhite
    exact lineText_of_allWhite hwhite.of_append_left
  | done hlead htrail =>
    rw [lit_done] at heq
    rw [framed_done.lineText_whole hlead htrail heq hz, ← lit_done]
    rfl
  | @chunk lead inner trail fs c hlead htrail hparse hchunk =>
    have hne : (0x7B :: (inner ++ [0x7D]) : JsString) ≠ lit "[DONE]" := by
      rw [lit_done]
      exact fun heq => absurd (List.cons.inj heq).1 (by decide)
    rw [(framed_chunk hparse).lineText_whole hlead htrail heq hz, dataText, if_neg hne, hparse]
    exact added_of_isChunk hchunk

/-- **What is read from the middle of a line on adds nothing.** -/
theorem late (h : IsLine line c) (heq : line = x ++ (f ++ z)) (hx : x ≠ []) :
    lineText text f = [] := by
  cases h with
  | blank hwhite =>
    rw [heq] at hwhite
    exact lineText_of_allWhite hwhite.of_append_right.of_append_left
  | @done lead trail hlead htrail =>
    rw [lit_data, List.cons_append] at heq
    refine lineText_of_not_mem heq hx ?_
    simp only [List.mem_append, not_or]
    exact ⟨by decide, d_not_mem_of_allWhite hlead, by decide, d_not_mem_of_allWhite htrail⟩
  | @chunk lead inner trail fs c hlead htrail hparse hchunk =>
    rcases lineText_cases text f with hf | ⟨y, rfl⟩
    · exact hf
    rw [lineText_data]
    have hbalanced : Balanced (lead ++ (0x7B :: (inner ++ [0x7D]) ++ trail)) :=
      (Balanced.of_allWhite hlead).append
        (((balanced_inner hparse).bracketed (Or.inl rfl) (Or.inl rfl)).append (.of_allWhite htrail))
    rcases List.append_eq_append_iff.mp heq with ⟨as, rfl, hrest⟩ | ⟨as, hdata, hrest⟩
    · rw [List.append_assoc] at hrest
      exact dataText_of_balanced hbalanced hrest
    · -- `data: ` itself is cut, and there is no further `d` in it
      cases as with
      | nil =>
        rw [List.nil_append, List.append_assoc] at hrest
        exact dataText_of_balanced (x := []) hbalanced hrest.symm
      | cons u as =>
        cases x with
        | nil => exact absurd rfl hx
        | cons v x =>
          obtain ⟨rfl, -⟩ := List.cons.inj hrest
          rw [lit_data, List.cons_append] at hdata
          have hmem : 0x64 ∈ lit "ata: " := by
            rw [(List.cons.inj hdata).2]
            simp
          exact absurd hmem (by decide)

end IsLine

/-! ### The fragments of a line -/

/-- The fragments of a line are not cut, but at its start or in the white space it ends in. -/
def Uncut (g : List JsString) : Prop :=
  ∀ pre post, g = pre ++ post → pre.flatten = [] ∨ AllWhite post.flatten

/-- Behind a cut nothing is added. -/
theorem flatMap_late {line c x : JsString} {g : List JsString} (h : IsLine line c)
    (heq : line = x ++ g.flatten) (hx : x ≠ []) : g.flatMap (lineText text) = [] := by
  rw [List.flatMap_eq_nil_iff]
  intro f hf
  obtain ⟨pre, post, rfl⟩ := List.append_of_mem hf
  rw [List.flatten_append, List.flatten_cons, ← List.append_assoc] at heq
  exact h.late heq fun hnil => hx (List.append_eq_nil_iff.mp hnil).1

variable (text) in
/-- **The fragments of a line add its content if they are not cut, and nothing if they
are.** -/
theorem flatMap_fragments {line c : JsString} {g : List JsString} (h : IsLine line c)
    (hg : g.flatten = line) :
    (Uncut g ∧ g.flatMap (lineText text) = c) ∨ (¬ Uncut g ∧ g.flatMap (lineText text) = []) := by
  induction g with
  | nil =>
    have hcontent : lineText text [] = c :=
      h.whole (z := []) (by rw [← hg]; rfl) allWhite_nil
    refine Or.inl ⟨fun pre post heq => Or.inl ?_, hcontent⟩
    rw [(List.append_eq_nil_iff.mp heq.symm).1]
    rfl
  | cons f g ih =>
    by_cases hf : f = []
    · -- nothing of the line yet
      subst hf
      have huncut : Uncut ([] :: g) ↔ Uncut g := by
        constructor
        · rintro hu pre post rfl
          exact hu ([] :: pre) post rfl
        · intro hu pre post heq
          cases pre with
          | nil => exact Or.inl rfl
          | cons p pre =>
            obtain ⟨rfl, rfl⟩ := List.cons.inj heq
            exact hu pre post rfl
      have hempty : lineText text [] = [] := rfl
      rw [huncut, List.flatMap_cons, hempty, List.nil_append]
      exact ih hg
    · have hline : line = f ++ g.flatten := hg.symm
      rw [List.flatMap_cons, flatMap_late h hline hf, List.append_nil]
      by_cases hwhite : AllWhite g.flatten
      · refine Or.inl ⟨fun pre post heq => ?_, h.whole hline hwhite⟩
        cases pre with
        | nil => exact Or.inl rfl
        | cons p pre =>
          have hsplit : g = pre ++ post := (List.cons.inj heq).2
          rw [hsplit, List.flatten_append] at hwhite
          exact Or.inr hwhite.of_append_right
      · refine Or.inr ⟨fun hu => ?_, h.early hline hwhite⟩
        rcases hu [f] g rfl with hnil | hpost
        · exact hf (by rw [← hnil, List.flatten_singleton])
        · exact hwhite hpost

/-! ### The whole answer -/

variable (text) in
/-- The contents of a body are what its lines add. -/
theorem contents_eq {lines contents : List JsString} (h : List.Forall₂ IsLine lines contents) :
    contents = lines.map (lineText text) := by
  induction h with
  | nil => rfl
  | cons hline _ ih =>
    rw [List.map_cons, ← ih, hline.whole (List.append_nil _).symm allWhite_nil]

theorem isLine_of_mem {lines contents : List JsString} (h : List.Forall₂ IsLine lines contents)
    {line : JsString} (hline : line ∈ lines) : IsLine line (lineText text line) := by
  rw [contents_eq text h, List.forall₂_map_right_iff, List.forall₂_same] at h
  exact h line hline

section

variable {body : List UInt8} {contents : List JsString}

theorem map_flatten_chunks {reads : List (List UInt8)} (hreads : reads.flatten = body) :
    (fragments newline (chunks .new reads)).map List.flatten =
      split newline (TextDecoder.new.decode body).2 := by
  rw [map_flatten_fragments, flatten_chunks, hreads]
  rfl

theorem isLine_of_fragments (hbody : IsBody body contents) {reads : List (List UInt8)}
    (hreads : reads.flatten = body) {g : List JsString}
    (hg : g ∈ fragments newline (chunks .new reads)) :
    IsLine g.flatten (lineText text g.flatten) := by
  apply isLine_of_mem hbody
  rw [← map_flatten_chunks hreads]
  exact List.mem_map_of_mem hg

/-- What is shown is the whole answer exactly when the fragments of each line add its
content. -/
theorem handleSend_eq_iff (hbody : IsBody body contents) {reads : List (List UInt8)}
    (hreads : reads.flatten = body) :
    handleSend text reads = contents.flatten ↔
      ∀ g ∈ fragments newline (chunks .new reads),
        g.flatMap (lineText text) = lineText text g.flatten := by
  have hcontents : contents.flatten =
      (fragments newline (chunks .new reads)).flatMap fun g => lineText text g.flatten := by
    rw [contents_eq text hbody, ← map_flatten_chunks hreads, List.map_map,
      List.flatMap_def]
    rfl
  rw [handleSend_eq, hcontents]
  refine flatMap_eq_iff fun g hg => ?_
  rcases flatMap_fragments text (isLine_of_fragments hbody hreads hg) rfl with
    ⟨-, h⟩ | ⟨-, h⟩
  · exact Or.inl h
  · exact Or.inr h

variable (text) in
/-- The reads keep the lines with content exactly when the fragments of each are not cut. -/
theorem keepsLines_iff (hbody : IsBody body contents) {reads : List (List UInt8)}
    (hreads : reads.flatten = body) :
    KeepsLines reads ↔ ∀ g ∈ fragments newline (chunks .new reads),
      g.flatMap (lineText text) = lineText text g.flatten := by
  constructor
  · intro hkeeps g hg
    rcases flatMap_fragments text (isLine_of_fragments hbody hreads hg) rfl with
      ⟨-, h⟩ | ⟨hcut, hnil⟩
    · exact h
    · by_contra hne
      rw [hnil] at hne
      simp only [Uncut, not_forall, not_or] at hcut
      obtain ⟨pre, post, rfl, hpre, hpost⟩ := hcut
      obtain ⟨gs, hs, hsplit⟩ := List.append_of_mem hg
      -- a cut of the fragments is one between reads
      obtain ⟨us, vs, huv, hus, hvs⟩ := exists_cut hsplit (fun heq => hpre (by rw [heq]; rfl))
        (fun heq => hpost (by rw [heq]; exact allWhite_nil))
      obtain ⟨before, after, rfl, rfl, rfl⟩ := exists_reads huv
      refine hkeeps before after rfl ?_
      have hhead := lastLine_eq hus
      have htail := firstLine_eq hvs
      rw [flatten_chunks] at hhead htail
      rw [cutsContent_iff, hhead, htail, ← List.flatten_append]
      exact ⟨⟨_, Ne.symm hne, isLine_of_fragments hbody hreads hg⟩, hpre, hpost⟩
  · rintro hall before after rfl ⟨⟨c, hc, hline⟩, hhead, htail⟩
    obtain ⟨gs, g, h, hs, hsplit, hg, hh⟩ := fragments_cut newline
      (chunks .new before) (chunks (TextDecoder.new.decode before.flatten).1 after)
    rw [flatten_chunks] at hg hh
    rw [hg, hh, ← List.flatten_append] at hline
    rw [hg] at hhead
    rw [hh] at htail
    rw [← chunks_append] at hsplit
    have hsame := hall (g ++ h) (by rw [hsplit]; simp)
    rcases flatMap_fragments text hline rfl with ⟨huncut, -⟩ | ⟨-, hnil⟩
    · rcases huncut g h rfl with hnil | hwhite
      · exact hhead hnil
      · exact htail hwhite
    · rw [hnil, hline.whole (List.append_nil _).symm allWhite_nil] at hsame
      exact hc hsame.symm

/-- **What the playground shows**: of one body, however it is cut, the same text and the
whole answer, exactly when neither way cuts a line with content. -/
theorem assembles_iff_keepsLines (text : Value → JsString) {body : List UInt8}
    {contents : List JsString} (hbody : IsBody body contents) {reads reads' : List (List UInt8)}
    (hreads : reads.flatten = body) (hreads' : reads'.flatten = body) :
    (handleSend text reads = handleSend text reads' ∧
        handleSend text reads = contents.flatten) ↔
      KeepsLines reads ∧ KeepsLines reads' := by
  rw [keepsLines_iff text hbody hreads, keepsLines_iff text hbody hreads',
    ← handleSend_eq_iff hbody hreads, ← handleSend_eq_iff hbody hreads']
  constructor
  · rintro ⟨hsame, hall⟩
    exact ⟨hall, hsame.symm.trans hall⟩
  · rintro ⟨hall, hall'⟩
    exact ⟨hall.trans hall'.symm, hall⟩

end

/-! ### A greeting -/

/-- The text of a chunk that greets, and its members. -/
def greetingChunk : JsString :=
  lit "\x7b\"choices\":[\x7b\"delta\":\x7b\"content\":\"Hi\"\x7d\x7d]\x7d"

def greetingFields : List (JsString × Value) :=
  [(lit "choices", .arr [.obj [(lit "delta", .obj [(lit "content", .str (lit "Hi"))])]])]

/-- A body of that chunk and the end of the stream. -/
def greeting : List UInt8 :=
  (lit "data: " ++ greetingChunk ++ lit "\n\ndata: [DONE]\n").map UInt16.toUInt8

theorem isBody_greeting : IsBody greeting [lit "Hi", [], [], []] := by
  have hlines : split newline (TextDecoder.new.decode greeting).2 =
      [lit "data: " ++ ([] ++ (greetingChunk ++ [])), [],
        lit "data: " ++ ([] ++ (lit "[DONE]" ++ [])), []] := by decide +kernel
  have hparse : JSON.parse greetingChunk = some (.obj greetingFields) := rfl
  have hempty := allWhite_nil
  rw [IsBody, hlines]
  refine .cons ?_ (.cons (.blank hempty) (.cons (.done hempty hempty) (.cons (.blank hempty) .nil)))
  exact @IsLine.chunk [] greetingChunk.tail.dropLast [] greetingFields _ hempty hempty hparse
    (.content rfl rfl rfl)

/-- The greeting in one read, and cut between its lines. -/
theorem assembles_iff_keepsLines_greeting :
    KeepsLines [greeting] ∧ KeepsLines [greeting.take 47, greeting.drop 47] :=
  (assembles_iff_keepsLines (fun _ => []) isBody_greeting (by decide +kernel)
    (by decide +kernel)).mp (by decide +kernel)

/-- **A cut inside of the chunk loses the answer.** -/
theorem not_assembles_cutChunk :
    ¬ ∀ (text : Value → JsString) (body : List UInt8) (contents : List JsString),
      IsBody body contents → ∀ reads reads' : List (List UInt8),
        reads.flatten = body → reads'.flatten = body →
          handleSend text reads = handleSend text reads' ∧
            handleSend text reads = contents.flatten := by
  intro h
  have hsame := (h (fun _ => []) greeting _ isBody_greeting [greeting]
    [greeting.take 20, greeting.drop 20] (by decide +kernel) (by decide +kernel)).1
  exact absurd hsame (by decide +kernel)

end UniLLM.Web.Playground
