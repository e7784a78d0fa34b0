import UniLLM.Go.Strings

/-!
# Readers and `bufio.Scanner`

What a reader delivers until its first error is its bytes and how it ends
(`Source`); `io.EOF` is one way to end.  A `bufio.Scanner` with the default
`ScanLines` turns that into lines: the line end and one carriage return before it
are dropped, the bytes after the last line end are a line unless there are none,
and the scanner gives up with `ErrTooLong` when the line end is not among the
next `maxTokenSize` bytes.  A read error does not discard the line in progress.

`scanLines` is that function on a whole source.  Lines are handed out one by one,
but which lines there are does not depend on when they are asked for, nor on how
the reader cuts its bytes, with one exception that `endsWithData` stands for: an
unterminated last line that fills the buffer exactly is accepted only when the
same `Read` that filled the buffer reports the end.
-/

namespace Go

/-- Why a read stopped. -/
inductive ReadError where
  /-- `io.EOF`. -/
  | eof
  /-- `bufio.ErrTooLong`. -/
  | tooLong
  /-- Any other error, as its text. -/
  | failed (text : GoString)
  deriving DecidableEq

/-- What a reader delivers up to its first error. -/
structure Source where
  data : GoString
  fin : ReadError
  /-- The end is reported together with the last bytes. -/
  endsWithData : Bool := false

/-- `bufio.MaxScanTokenSize`. -/
def maxScanTokenSize : Nat := 64 * 1024

/-- The byte that ends a line. -/
def newline : UInt8 := 0x0A

/-- Drops one carriage return at the end. -/
def dropCR (line : GoString) : GoString :=
  if line.getLast? = some 0x0D then line.dropLast else line

/-- `Scanner.Err`: the end of file is no error. -/
def scannerErr : ReadError → Option ReadError
  | .eof => none
  | e => some e

/-- The lines in the remaining bytes, when `cur` has been read of the current one,
and the error the scanner ends with. -/
def scanFrom (max : Nat) (fin : ReadError) (endsWithData : Bool) :
    (cur rest : GoString) → List GoString × Option ReadError
  | cur, [] =>
    if cur = [] then ([], scannerErr fin)
    else if cur.length < max ∨ (cur.length = max ∧ endsWithData) then
      ([dropCR cur], scannerErr fin)
    else ([], some .tooLong)
  | cur, b :: rest =>
    if b = newline then
      if cur.length < max then
        let (lines, err) := scanFrom max fin endsWithData [] rest
        (dropCR cur :: lines, err)
      else ([], some .tooLong)
    else scanFrom max fin endsWithData (cur ++ [b]) rest

/-- The lines a scanner with the given buffer limit delivers, and what `Err`
reports afterwards. -/
def scanLines (max : Nat) (src : Source) : List GoString × Option ReadError :=
  scanFrom max src.fin src.endsWithData [] src.data

/-- The lines of a text, however long. -/
def splitLines : (cur rest : GoString) → List GoString
  | cur, [] => if cur = [] then [] else [dropCR cur]
  | cur, b :: rest =>
    if b = newline then dropCR cur :: splitLines [] rest else splitLines (cur ++ [b]) rest

/-- The lines of a text. -/
def lines (s : GoString) : List GoString := splitLines [] s

/-! ### Reading line by line -/

/-- A scanner that has not been read to its end: what `Scan` will still deliver
and what `Err` reports then. -/
structure Scanner where
  pending : List GoString
  err : Option ReadError

/-- `bufio.NewScanner` with a buffer limit. -/
def newScanner (max : Nat) (src : Source) : Scanner :=
  ⟨(scanLines max src).1, (scanLines max src).2⟩

/-! ### Lines of joined text -/

variable {max : Nat} {fin : ReadError} {flag : Bool}

theorem scanFrom_line {cur line rest : GoString} (h : newline ∉ line) :
    scanFrom max fin flag cur (line ++ newline :: rest) =
      if (cur ++ line).length < max then
        (dropCR (cur ++ line) :: (scanFrom max fin flag [] rest).1, (scanFrom max fin flag [] rest).2)
      else ([], some .tooLong) := by
  induction line generalizing cur with
  | nil => simp [scanFrom]
  | cons b line ih =>
    have hb : b ≠ newline := fun he => h (he ▸ List.mem_cons_self ..)
    rw [List.cons_append, scanFrom, if_neg hb, ih fun hm => h (List.mem_cons_of_mem b hm)]
    simp

/-- A terminated line that fits is delivered first. -/
theorem scanLines_line {line rest : GoString} (h : newline ∉ line) (hlen : line.length < max) :
    scanLines max ⟨line ++ newline :: rest, fin, flag⟩ =
      (dropCR line :: (scanLines max ⟨rest, fin, flag⟩).1, (scanLines max ⟨rest, fin, flag⟩).2) := by
  simp [scanLines, scanFrom_line h, hlen]

/-- A terminated line that does not fit ends the scan. -/
theorem scanLines_long {line rest : GoString} (h : newline ∉ line) (hlen : max ≤ line.length) :
    scanLines max ⟨line ++ newline :: rest, fin, flag⟩ = ([], some .tooLong) := by
  simp [scanLines, scanFrom_line h, Nat.not_lt.mpr hlen]

theorem splitLines_line {cur line rest : GoString} (h : newline ∉ line) :
    splitLines cur (line ++ newline :: rest) = dropCR (cur ++ line) :: splitLines [] rest := by
  induction line generalizing cur with
  | nil => simp [splitLines]
  | cons b line ih =>
    have hb : b ≠ newline := fun he => h (he ▸ List.mem_cons_self ..)
    rw [List.cons_append, splitLines, if_neg hb, ih fun hm => h (List.mem_cons_of_mem b hm)]
    simp

theorem lines_line {line rest : GoString} (h : newline ∉ line) :
    lines (line ++ newline :: rest) = dropCR line :: lines rest := by
  rw [lines, splitLines_line h]
  rfl

/-- **Scanned lines are the lines of the text**, up to the first that is too long. -/
theorem prefix_scanFrom (cur rest : GoString) :
    (scanFrom max fin flag cur rest).1 <+: splitLines cur rest := by
  induction rest generalizing cur with
  | nil =>
    rw [scanFrom, splitLines]
    split
    · exact List.nil_prefix
    · split
      · exact List.prefix_refl _
      · exact List.nil_prefix
  | cons b rest ih =>
    rw [scanFrom, splitLines]
    split
    · split
      · exact List.cons_prefix_cons.mpr ⟨rfl, ih []⟩
      · exact List.nil_prefix
    · exact ih _

/-! ### Text line by line -/

/-- **Text is lines and a last line without an end**: the induction principle for
what is done line by line. -/
theorem lineInduction {motive : GoString → Prop} (last : ∀ s, newline ∉ s → motive s)
    (line : ∀ l rest, newline ∉ l → motive rest → motive (l ++ newline :: rest)) (s : GoString) :
    motive s := by
  -- on the length of the text, which every line shortens
  suffices key : ∀ (k : Nat) (t : GoString), t.length ≤ k → motive t from
    key s.length s (Nat.le_refl _)
  intro k
  induction k with
  | zero =>
    intro t ht
    rw [List.eq_nil_of_length_eq_zero (Nat.le_zero.mp ht)]
    exact last [] List.not_mem_nil
  | succ k ih =>
    intro t ht
    by_cases hmem : newline ∈ t
    · obtain ⟨l, rest, rfl, hl⟩ := List.eq_append_cons_of_mem hmem
      refine line l rest hl (ih rest ?_)
      rw [List.length_append, List.length_cons] at ht
      omega
    · exact last t hmem

theorem splitLines_last {cur s : GoString} (h : newline ∉ s) :
    splitLines cur s = if cur ++ s = [] then [] else [dropCR (cur ++ s)] := by
  induction s generalizing cur with
  | nil => simp [splitLines]
  | cons b s ih =>
    have hb : b ≠ newline := fun he => h (he ▸ List.mem_cons_self ..)
    rw [splitLines, if_neg hb, ih fun hm => h (List.mem_cons_of_mem b hm)]
    simp

theorem scanFrom_last {cur s : GoString} (h : newline ∉ s) :
    scanFrom max fin flag cur s = scanFrom max fin flag (cur ++ s) [] := by
  induction s generalizing cur with
  | nil => simp
  | cons b s ih =>
    have hb : b ≠ newline := fun he => h (he ▸ List.mem_cons_self ..)
    rw [scanFrom.eq_2, if_neg hb, ih fun hm => h (List.mem_cons_of_mem b hm)]
    simp

/-- The lines of text without a line end. -/
theorem lines_last {s : GoString} (h : newline ∉ s) :
    lines s = if s = [] then [] else [dropCR s] := by
  rw [lines, splitLines_last h, List.nil_append]

theorem split_last {s : GoString} (h : newline ∉ s) : split newline s = [s] := by
  induction s with
  | nil => rfl
  | cons b s ih =>
    have hb : b ≠ newline := fun he => h (he ▸ List.mem_cons_self ..)
    rw [split, if_neg hb, ih fun hm => h (List.mem_cons_of_mem b hm)]

theorem split_line {l rest : GoString} (h : newline ∉ l) :
    split newline (l ++ newline :: rest) = l :: split newline rest := by
  induction l with
  | nil => simp [split]
  | cons b l ih =>
    have hb : b ≠ newline := fun he => h (he ▸ List.mem_cons_self ..)
    rw [List.cons_append, split, if_neg hb, ih fun hm => h (List.mem_cons_of_mem b hm)]

theorem split_ne_nil (s : GoString) : split newline s ≠ [] := by
  induction s using lineInduction with
  | last s hs => simp [split_last hs]
  | line l rest hl ih => simp [split_line hl]

theorem lines_eq_nil {s : GoString} : lines s = [] ↔ s = [] := by
  induction s using lineInduction with
  | last s hs => simp [lines_last hs]
  | line l rest hl ih => simp [lines_line hl]

/-- Lines of text that is cut at a line end. -/
theorem lines_append {s : GoString} (hs : s = [] ∨ s.getLast? = some newline) (t : GoString) :
    lines (s ++ t) = lines s ++ lines t := by
  induction s using lineInduction with
  | last s hnot =>
    rcases hs with rfl | hlast
    · rw [lines_last hnot]
      rfl
    · exact absurd (List.mem_of_getLast? hlast) hnot
  | line l rest hl ih =>
    have hrest : rest = [] ∨ rest.getLast? = some newline := by
      rcases hs with hnil | hlast
      · simp at hnil
      · cases rest with
        | nil => exact .inl rfl
        | cons b rest => simpa [List.getLast?_append] using hlast
    rw [List.append_assoc, List.cons_append, lines_line hl, lines_line hl, ih hrest,
      List.cons_append]

/-! ### When every line is delivered -/

/-- Every line has less than `max` bytes; the last, without an end, may have exactly
`max` if the end is reported with it. -/
def LinesFit (max : Nat) (src : Source) : Prop :=
  (∀ line ∈ (split newline src.data).dropLast, line.length < max) ∧
    ∀ line ∈ (split newline src.data).getLast?,
      line.length < max ∨ (line.length = max ∧ src.endsWithData = true)

/-- **A scanner delivers every line exactly when the lines fit.** -/
theorem scanLines_eq_lines_iff (hmax : 0 < max) {src : Source} :
    (scanLines max src).1 = lines src.data ↔ LinesFit max src := by
  obtain ⟨data, fin, flag⟩ := src
  simp only
  induction data using lineInduction with
  | last s hs =>
    rw [scanLines, scanFrom_last hs, lines_last hs, LinesFit, split_last hs, scanFrom]
    by_cases hnil : s = []
    · simp [hnil, hmax]
    · by_cases hfit : s.length < max ∨ (s.length = max ∧ flag = true)
      · simp [hnil, hfit]
      · simp [hnil, hfit]
  | line l rest hl ih =>
    rw [lines_line hl, LinesFit, split_line hl]
    simp only
    by_cases hlen : l.length < max
    · rw [scanLines_line hl hlen, List.cons_inj_right, ih, LinesFit]
      rw [List.dropLast_cons_of_ne_nil (split_ne_nil rest), List.getLast?_cons]
      cases hlast : (split newline rest).getLast? with
      | none => exact absurd (List.getLast?_eq_none_iff.mp hlast) (split_ne_nil rest)
      | some last => simp [hlen]
    · rw [scanLines_long hl (Nat.not_lt.mp hlen)]
      rw [List.dropLast_cons_of_ne_nil (split_ne_nil rest)]
      simp [hlen]

end Go
