import UniLLM.Go.JsonDecode
import UniLLM.Go.Scanner
import Mathlib.Data.List.TakeWhile

/-!
# JSON on a line

What `json.Marshal` writes has no control characters, so a marshalled value fits
on a line of a stream and a scanner hands it out as it was written.  A plain
string is one that is written as it is, so it can be put into JSON text without
being quoted.
-/

namespace Go

/-! ### No control characters -/

/-- Text without control characters. -/
def Printable (s : GoString) : Prop := ∀ b ∈ s, 0x20 ≤ b

instance (s : GoString) : Decidable (Printable s) := List.decidableBAll _ s

theorem Printable.append {s t : GoString} (hs : Printable s) (ht : Printable t) :
    Printable (s ++ t) := by
  intro b hb
  rcases List.mem_append.mp hb with h | h
  · exact hs b h
  · exact ht b h

theorem Printable.cons {b : UInt8} {s : GoString} (hb : 0x20 ≤ b) (hs : Printable s) :
    Printable (b :: s) := by
  intro c hc
  rcases List.mem_cons.mp hc with rfl | h
  · exact hb
  · exact hs c h

theorem printable_nil : Printable [] := fun _ hb => absurd hb List.not_mem_nil

theorem Printable.newline_not_mem {s : GoString} (h : Printable s) : newline ∉ s :=
  fun hm => absurd (h newline hm) (by decide)

theorem Printable.dropCR_eq {s : GoString} (h : Printable s) : dropCR s = s := by
  rw [dropCR, if_neg]
  intro hlast
  exact absurd (h 0x0D (List.mem_of_getLast? hlast)) (by decide)

theorem printable_quoteByte {b : UInt8} (h : b < 0x80) : Printable (quoteByte b) := by
  have hall : ∀ n, n < 0x80 → ∀ c ∈ quoteByte (.ofNat n), 0x20 ≤ c := by decide +kernel
  have hb := hall b.toNat h
  rwa [UInt8.ofNat_toNat] at hb

theorem printable_quoteRune {r : GoString} (h : IsRune r) : Printable (quoteRune (some r)) := by
  rcases quoteRune_cases r with ⟨b, rfl, hquote⟩ | ⟨-, hquote⟩ | ⟨-, hquote⟩ | ⟨hne, hquote⟩
  · rw [hquote]
    exact printable_quoteByte h.byte_lt
  · rw [hquote]
    decide
  · rw [hquote]
    decide
  · rw [hquote]
    exact fun b hb => UInt8.le_trans (by decide : (0x20 : UInt8) ≤ 0x80) (h.high hne b hb)

theorem printable_quoteBody (s : GoString) : Printable (quoteBody s) := by
  induction s using runeInduction with
  | nil => exact printable_nil
  | rune r s hr ih =>
    rw [quoteBody, runes_append hr, List.flatMap_cons]
    exact (printable_quoteRune hr).append ih
  | invalid b s hb ih =>
    rw [quoteBody, runes_cons_invalid hb, List.flatMap_cons]
    have hescape : Printable (quoteRune none) := by decide
    exact hescape.append ih

theorem printable_quote (s : GoString) : Printable (quote s) :=
  ((printable_quoteBody s).append (printable_nil.cons (by decide))).cons (by decide)

/-! ### Numbers -/

/-- The bytes number literals are made of. -/
def isNumberByte (b : UInt8) : Bool :=
  isDigit b || b == 0x2B || b == 0x2D || b == 0x2E || b == 0x65 || b == 0x45

def NumberBytes (s : GoString) : Prop := ∀ b ∈ s, isNumberByte b = true

theorem NumberBytes.append {s t : GoString} (hs : NumberBytes s) (ht : NumberBytes t) :
    NumberBytes (s ++ t) := by
  intro b hb
  rcases List.mem_append.mp hb with h | h
  · exact hs b h
  · exact ht b h

theorem NumberBytes.cons {b : UInt8} {s : GoString} (hb : isNumberByte b = true)
    (hs : NumberBytes s) :
    NumberBytes (b :: s) := by
  intro c hc
  rcases List.mem_cons.mp hc with rfl | h
  · exact hb
  · exact hs c h

theorem numberBytes_nil : NumberBytes [] := fun _ hb => absurd hb List.not_mem_nil

theorem isNumberByte_of_isDigit {b : UInt8} (h : isDigit b = true) : isNumberByte b = true := by
  simp [isNumberByte, h]

theorem numberBytes_takeWhile (s : GoString) : NumberBytes (s.takeWhile isDigit) :=
  fun _ hb => isNumberByte_of_isDigit (List.mem_takeWhile_imp hb)

theorem numberBytes_scanSign (s : GoString) : NumberBytes (scanSign s).1 := by
  unfold scanSign
  split
  · exact numberBytes_nil.cons (by decide)
  · exact numberBytes_nil

theorem numberBytes_scanInt {s t r : GoString} (h : scanInt s = some (t, r)) : NumberBytes t := by
  unfold scanInt at h
  split at h
  · cases h
  · rename_i b s
    split at h
    · rename_i hb
      obtain ⟨rfl, -⟩ := Prod.mk.inj (Option.some.inj h)
      exact numberBytes_nil.cons (by rw [hb]; decide)
    · split at h
      · rename_i hb
        obtain ⟨rfl, -⟩ := Prod.mk.inj (Option.some.inj h)
        exact (numberBytes_takeWhile s).cons (isNumberByte_of_isDigit hb)
      · cases h

theorem numberBytes_scanFrac {s t r : GoString} (h : scanFrac s = some (t, r)) : NumberBytes t := by
  unfold scanFrac at h
  split at h
  · split at h
    · cases h
    · obtain ⟨rfl, -⟩ := Prod.mk.inj (Option.some.inj h)
      exact (numberBytes_takeWhile _).cons (by decide)
  · obtain ⟨rfl, -⟩ := Prod.mk.inj (Option.some.inj h)
    exact numberBytes_nil

theorem numberBytes_scanExp {s t r : GoString} (h : scanExp s = some (t, r)) : NumberBytes t := by
  unfold scanExp at h
  split at h
  · obtain ⟨rfl, -⟩ := Prod.mk.inj (Option.some.inj h)
    exact numberBytes_nil
  · split at h
    · rename_i b s hb
      have hsign : NumberBytes (scanExpSign s).1 := by
        unfold scanExpSign
        split
        · exact numberBytes_nil.cons (by decide)
        · exact numberBytes_nil.cons (by decide)
        · exact numberBytes_nil
      have hb' : isNumberByte b = true := by rcases hb with rfl | rfl <;> decide
      simp only at h
      split at h
      · cases h
      · obtain ⟨rfl, -⟩ := Prod.mk.inj (Option.some.inj h)
        exact (hsign.cons hb').append (numberBytes_takeWhile _)
    · obtain ⟨rfl, -⟩ := Prod.mk.inj (Option.some.inj h)
      exact numberBytes_nil

theorem IsNumberText.numberBytes {text : GoString} (h : IsNumberText text) : NumberBytes text := by
  have hscan := h [] (by intro b hb; cases hb)
  rw [List.append_nil, scanNumber] at hscan
  simp only [Option.bind_eq_bind, Option.bind_eq_some_iff] at hscan
  obtain ⟨⟨int, s₁⟩, hint, ⟨frac, s₂⟩, hfrac, ⟨exp, s₃⟩, hexp, htext⟩ := hscan
  rw [← (Prod.mk.inj (Option.some.inj htext)).1]
  exact (((numberBytes_scanSign _).append (numberBytes_scanInt hint)).append
    (numberBytes_scanFrac hfrac)).append (numberBytes_scanExp hexp)

theorem IsNumberText.printable {text : GoString} (h : IsNumberText text) : Printable text := by
  intro b hb
  have hall : ∀ n, n < 256 → isNumberByte (.ofNat n) = true → (0x20 : UInt8) ≤ .ofNat n := by
    decide +kernel
  have hbyte := hall b.toNat b.toNat_lt
  rw [UInt8.ofNat_toNat] at hbyte
  exact hbyte (h.numberBytes b hb)

/-! ### Values -/

mutual

/-- **A marshalled value is one line.** -/
theorem Json.printable : ∀ v : Json, v.Clean → Printable v.encode
  | .null, _ => by rw [Json.encode]; decide
  | .bool true, _ => by rw [Json.encode]; decide
  | .bool false, _ => by rw [Json.encode]; decide
  | .num text, h => by
    rw [Json.Clean] at h
    rw [Json.encode]
    exact h.printable
  | .str s, _ => by
    rw [Json.encode]
    exact printable_quote s
  | .arr [], _ => by rw [Json.encode]; decide
  | .arr (v :: vs), h => by
    rw [Json.Clean, CleanElems] at h
    rw [Json.encode]
    exact ((Json.printable v h.1).append (printable_encodeElems vs h.2)).cons (by decide)
  | .obj [], _ => by rw [Json.encode]; decide
  | .obj ((k, v) :: fs), h => by
    rw [Json.Clean, CleanFields] at h
    rw [Json.encode]
    exact ((printable_quote k).append (((Json.printable v h.2.1).append
      (printable_encodeFields fs h.2.2)).cons (by decide))).cons (by decide)

theorem printable_encodeElems : ∀ vs : List Json, CleanElems vs → Printable (encodeElems vs)
  | [], _ => by rw [encodeElems]; decide
  | v :: vs, h => by
    rw [CleanElems] at h
    rw [encodeElems]
    exact ((Json.printable v h.1).append (printable_encodeElems vs h.2)).cons (by decide)

theorem printable_encodeFields : ∀ fs : List (GoString × Json), CleanFields fs →
    Printable (encodeFields fs)
  | [], _ => by rw [encodeFields]; decide
  | (k, v) :: fs, h => by
    rw [CleanFields] at h
    rw [encodeFields]
    exact ((printable_quote k).append (((Json.printable v h.2.1).append
      (printable_encodeFields fs h.2.2)).cons (by decide))).cons (by decide)

end

/-! ### Plain strings -/

/-- A string that JSON text contains as it is. -/
def Plain (s : GoString) : Prop := ∀ b ∈ s, b < 0x80 ∧ quoteByte b = [b] ∧ b ≠ 0x22

instance (s : GoString) : Decidable (Plain s) := List.decidableBAll _ s

theorem isRune_ascii {b : UInt8} (h : b < 0x80) : IsRune [b] :=
  ⟨List.cons_ne_nil _ _, runeWidth_ascii h []⟩

theorem Plain.runes_eq {s : GoString} (h : Plain s) : runes s = s.map fun b => some [b] := by
  induction s with
  | nil => rfl
  | cons b s ih =>
    have hb := isRune_ascii (h b (List.mem_cons_self ..)).1
    rw [← List.singleton_append, runes_append hb, ih fun c hc => h c (List.mem_cons_of_mem b hc)]
    rfl

theorem Plain.quoteBody_eq {s : GoString} (h : Plain s) : quoteBody s = s := by
  rw [quoteBody, h.runes_eq, List.flatMap_map]
  induction s with
  | nil => rfl
  | cons b s ih =>
    have hb : quoteRune (some [b]) = [b] := (h b (List.mem_cons_self ..)).2.1
    rw [List.flatMap_cons, hb, ih fun c hc => h c (List.mem_cons_of_mem b hc)]
    rfl

theorem Plain.validString {s : GoString} (h : Plain s) : validString s = true := by
  rw [Go.validString, h.runes_eq]
  simp

end Go
