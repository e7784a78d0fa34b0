import Mathlib.Data.List.DropRight

/-!
# JavaScript strings and the decoder of streamed bytes

A JavaScript string is a sequence of UTF-16 code units, and `JsString` is the list
of them.  `TextDecoder` is the decoder behind `decode(value, { stream: true })`: it
keeps the bytes of a character that has only begun between two calls, leaves out one
byte order mark at the start, and puts U+FFFD for what is not UTF-8.
-/

namespace Js

/-- A JavaScript string: its code units. -/
abbrev JsString := List UInt16

/-- An ASCII literal. -/
def lit (s : String) : JsString := s.toUTF8.data.toList.map UInt8.toUInt16

/-- `s.startsWith(p)`. -/
def startsWith (s p : JsString) : Bool := p.isPrefixOf s

/-- `s.split(sep)` for a separator of one unit. -/
def split (sep : UInt16) (s : JsString) : List JsString := s.splitOn sep

/-- What `trim` takes away: white space, line ends and the byte order mark. -/
def isWhite (u : UInt16) : Bool :=
  (0x09 ≤ u && u ≤ 0x0D) || u == 0x20 || u == 0xA0 || u == 0x1680 ||
    (0x2000 ≤ u && u ≤ 0x200A) || u == 0x2028 || u == 0x2029 || u == 0x202F || u == 0x205F ||
    u == 0x3000 || u == 0xFEFF

/-- `s.trim()`. -/
def trim (s : JsString) : JsString := (s.dropWhile isWhite).rdropWhile isWhite

/-- Nothing but white space. -/
def AllWhite (s : JsString) : Prop := ∀ u ∈ s, isWhite u = true

/-! ### Decoding -/

/-- The code units of a code point. -/
def utf16 (c : Nat) : JsString :=
  if c < 0x10000 then [.ofNat c]
  else [.ofNat (0xD800 + (c - 0x10000) / 0x400), .ofNat (0xDC00 + (c - 0x10000) % 0x400)]

/-- A decoder between two bytes. -/
structure TextDecoder where
  /-- The bits of the character that has begun. -/
  codePoint : Nat
  /-- How many of its bytes are still to come. -/
  bytesNeeded : Nat
  /-- The least and the greatest value of the next of them. -/
  lower : UInt8
  upper : UInt8
  /-- Something has been decoded, so a byte order mark is text. -/
  bomSeen : Bool
  deriving DecidableEq

namespace TextDecoder

/-- `new TextDecoder()`. -/
def new : TextDecoder := ⟨0, 0, 0x80, 0xBF, false⟩

/-- A character is complete. -/
def emit (d : TextDecoder) (c : Nat) : TextDecoder × JsString :=
  ({ new with bomSeen := true }, if c = 0xFEFF ∧ d.bomSeen = false then [] else utf16 c)

/-- A byte between characters. -/
def first (d : TextDecoder) (b : UInt8) : TextDecoder × JsString :=
  if b ≤ 0x7F then d.emit b.toNat
  else if 0xC2 ≤ b ∧ b ≤ 0xDF then
    ({ d with codePoint := b.toNat % 0x20, bytesNeeded := 1 }, [])
  else if 0xE0 ≤ b ∧ b ≤ 0xEF then
    ({ d with
        codePoint := b.toNat % 0x10
        bytesNeeded := 2
        lower := if b = 0xE0 then 0xA0 else 0x80
        upper := if b = 0xED then 0x9F else 0xBF }, [])
  else if 0xF0 ≤ b ∧ b ≤ 0xF4 then
    ({ d with
        codePoint := b.toNat % 0x08
        bytesNeeded := 3
        lower := if b = 0xF0 then 0x90 else 0x80
        upper := if b = 0xF4 then 0x8F else 0xBF }, [])
  else d.emit 0xFFFD

/-- A byte.  One that does not go on with the character ends it as U+FFFD and is read
again. -/
def step (d : TextDecoder) (b : UInt8) : TextDecoder × JsString :=
  if d.bytesNeeded = 0 then d.first b
  else if b < d.lower ∨ d.upper < b then
    let (d', s) := d.emit 0xFFFD
    let (d'', t) := d'.first b
    (d'', s ++ t)
  else if d.bytesNeeded = 1 then d.emit (d.codePoint * 0x40 + b.toNat % 0x40)
  else
    ({ d with
        codePoint := d.codePoint * 0x40 + b.toNat % 0x40
        bytesNeeded := d.bytesNeeded - 1
        lower := 0x80
        upper := 0xBF }, [])

/-- `decoder.decode(value, { stream: true })`. -/
def decode (d : TextDecoder) : List UInt8 → TextDecoder × JsString
  | [] => (d, [])
  | b :: bs =>
    let (d', s) := d.step b
    let (d'', t) := d'.decode bs
    (d'', s ++ t)

@[simp] theorem decode_nil (d : TextDecoder) : d.decode [] = (d, []) := rfl

theorem decode_cons (d : TextDecoder) (b : UInt8) (bs : List UInt8) :
    d.decode (b :: bs) =
      (((d.step b).1.decode bs).1, (d.step b).2 ++ ((d.step b).1.decode bs).2) := rfl

/-- **The decoder does not see how its bytes are cut.** -/
theorem decode_append (d : TextDecoder) (bs cs : List UInt8) :
    d.decode (bs ++ cs) =
      (((d.decode bs).1.decode cs).1, (d.decode bs).2 ++ ((d.decode bs).1.decode cs).2) := by
  induction bs generalizing d with
  | nil => rfl
  | cons b bs ih => rw [List.cons_append, decode_cons, ih, decode_cons, List.append_assoc]

/-- A euro sign that is cut arrives whole, with what follows it. -/
example : (new.decode [0xE2, 0x82]).2 = [] ∧
    ((new.decode [0xE2, 0x82]).1.decode [0xAC, 0x21]).2 = [0x20AC, 0x21] := by decide

end TextDecoder

/-! ### White space -/

theorem allWhite_nil : AllWhite [] := fun _ hu => by cases hu

theorem AllWhite.append {s t : JsString} (hs : AllWhite s) (ht : AllWhite t) :
    AllWhite (s ++ t) := by
  intro u hu
  rcases List.mem_append.mp hu with hu | hu
  · exact hs u hu
  · exact ht u hu

theorem AllWhite.of_append_left {s t : JsString} (h : AllWhite (s ++ t)) : AllWhite s :=
  fun u hu => h u (List.mem_append_left t hu)

theorem AllWhite.of_append_right {s t : JsString} (h : AllWhite (s ++ t)) : AllWhite t :=
  fun u hu => h u (List.mem_append_right s hu)

theorem trim_of_allWhite {s : JsString} (h : AllWhite s) : trim s = [] := by
  have hdrop : s.dropWhile isWhite = [] := List.dropWhile_eq_nil_iff.mpr h
  rw [trim, hdrop, List.rdropWhile_nil]

/-- White space in front goes. -/
theorem trim_lead {lead : JsString} (h : AllWhite lead) {u : UInt16} (hu : isWhite u = false)
    (s : JsString) : trim (lead ++ u :: s) = (u :: s).rdropWhile isWhite := by
  have hdrop : (lead ++ u :: s).dropWhile isWhite = u :: s := by
    rw [List.dropWhile_append_of_pos h, List.dropWhile_cons_of_neg (by rw [hu]; decide)]
  rw [trim, hdrop]

/-- White space at the end goes. -/
theorem rdropWhile_trail {trail : JsString} (h : AllWhite trail) {u : UInt16}
    (hu : isWhite u = false) (s : JsString) :
    (s ++ [u] ++ trail).rdropWhile isWhite = s ++ [u] := by
  have hrev : AllWhite trail.reverse := fun x hx => h x (List.mem_reverse.mp hx)
  rw [List.rdropWhile, List.reverse_append, List.dropWhile_append_of_pos hrev,
    List.reverse_append, List.reverse_singleton, List.singleton_append,
    List.dropWhile_cons_of_neg (by rw [hu]; decide)]
  simp

/-- A text between white space is what `trim` leaves, if it neither starts nor ends
with any. -/
theorem trim_between {lead trail : JsString} (hlead : AllWhite lead) (htrail : AllWhite trail)
    {a z : UInt16} (ha : isWhite a = false) (hz : isWhite z = false) (s : JsString) :
    trim (lead ++ (a :: (s ++ [z]) ++ trail)) = a :: (s ++ [z]) := by
  have hlead' := trim_lead hlead ha (s ++ [z] ++ trail)
  have htrail' := rdropWhile_trail htrail hz (a :: s)
  exact hlead'.trans htrail'

/-- White space is all that `trim` takes away. -/
theorem exists_trim (s : JsString) :
    ∃ lead trail, AllWhite lead ∧ AllWhite trail ∧ s = lead ++ (trim s ++ trail) := by
  refine ⟨s.takeWhile isWhite, (s.dropWhile isWhite).rtakeWhile isWhite, ?_, ?_, ?_⟩
  · exact fun u hu => List.mem_takeWhile_imp hu
  · exact fun u hu => List.mem_rtakeWhile_imp hu
  · rw [trim, List.rdropWhile_append_rtakeWhile, List.takeWhile_append_dropWhile]

/-- A cut that leaves only white space behind it comes after whatever is none. -/
theorem AllWhite.of_cut {s t f z : JsString} {u : UInt16} (hz : AllWhite z)
    (hu : isWhite u = false) (h : s ++ u :: t = f ++ z) : ∃ t', f = s ++ u :: t' ∧ t = t' ++ z := by
  rcases List.append_eq_append_iff.mp h with ⟨as, rfl, has⟩ | ⟨as, rfl, has⟩
  · cases as with
    | nil =>
      have hwhite := hz u (by rw [← List.nil_append z, ← has]; exact List.mem_cons_self ..)
      rw [hu] at hwhite
      cases hwhite
    | cons a as =>
      obtain ⟨rfl, rfl⟩ := List.cons.inj has
      exact ⟨as, rfl, rfl⟩
  · have hwhite := hz u (by rw [has]; simp)
    rw [hu] at hwhite
    cases hwhite

end Js
