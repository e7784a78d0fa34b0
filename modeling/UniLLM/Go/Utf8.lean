import UniLLM.Go.Strings

/-!
# UTF-8 as package `unicode/utf8` reads it

`utf8.DecodeRune` takes the longest valid encoding at the front of a string, or
one byte it reports as an error.  `runes` is the list of what repeated calls
take: the bytes of a rune, or `none` for a byte that is part of no valid
encoding.  Packages that must produce valid UTF-8 (`encoding/json` both ways)
put the replacement character where `runes` has `none`.
-/

namespace Go

/-- A continuation byte. -/
def isCont (b : UInt8) : Bool := 0x80 ≤ b && b ≤ 0xBF

/-- The first byte of a two-byte encoding. -/
def isLead2 (b : UInt8) : Bool := 0xC2 ≤ b && b ≤ 0xDF

/-- The first two bytes of a three-byte encoding: no overlong form and no
surrogate. -/
def isLead3 (b c : UInt8) : Bool :=
  (b == 0xE0 && 0xA0 ≤ c && c ≤ 0xBF) || (b == 0xED && 0x80 ≤ c && c ≤ 0x9F) ||
    (((0xE1 ≤ b && b ≤ 0xEC) || (0xEE ≤ b && b ≤ 0xEF)) && isCont c)

/-- The first two bytes of a four-byte encoding: no overlong form and nothing
above U+10FFFF. -/
def isLead4 (b c : UInt8) : Bool :=
  (b == 0xF0 && 0x90 ≤ c && c ≤ 0xBF) || (b == 0xF4 && 0x80 ≤ c && c ≤ 0x8F) ||
    (0xF1 ≤ b && b ≤ 0xF3 && isCont c)

/-- How many bytes the encoding at the front of the string takes; 0 when there is
no valid one (`DecodeRune` then reports an error of width 1). -/
def runeWidth : GoString → Nat
  | [] => 0
  | b :: s =>
    if b < 0x80 then 1
    else
      match s with
      | [] => 0
      | c :: s =>
        if isLead2 b && isCont c then 2
        else
          match s with
          | [] => 0
          | d :: s =>
            if isLead3 b c && isCont d then 3
            else
              match s with
              | [] => 0
              | e :: _ => if isLead4 b c && isCont d && isCont e then 4 else 0

/-- What `n` calls of `DecodeRune` take from the front, one after the other. -/
def runesFuel : Nat → GoString → List (Option GoString)
  | 0, _ => []
  | _ + 1, [] => []
  | n + 1, b :: s =>
    match runeWidth (b :: s) with
    | 0 => none :: runesFuel n s
    | w + 1 => some (b :: s.take w) :: runesFuel n (s.drop w)

/-- The runes of a string; `none` stands for a byte of no valid encoding. -/
def runes (s : GoString) : List (Option GoString) := runesFuel s.length s

/-- `utf8.ValidString`. -/
def validString (s : GoString) : Bool := (runes s).all Option.isSome

/-- The encoding of `utf8.RuneError`, U+FFFD. -/
def runeError : GoString := [0xEF, 0xBF, 0xBD]

/-- The string with every byte of no valid encoding replaced by U+FFFD. -/
def replaceInvalid (s : GoString) : GoString := (runes s).flatMap (·.getD runeError)

/-- `utf8.EncodeRune` for a code point that is no surrogate and at most U+10FFFF. -/
def encodeRune (r : Nat) : GoString :=
  if r < 0x80 then [.ofNat r]
  else if r < 0x800 then [.ofNat (0xC0 + r / 0x40), .ofNat (0x80 + r % 0x40)]
  else if r < 0x10000 then
    [.ofNat (0xE0 + r / 0x1000), .ofNat (0x80 + r / 0x40 % 0x40), .ofNat (0x80 + r % 0x40)]
  else
    [.ofNat (0xF0 + r / 0x40000), .ofNat (0x80 + r / 0x1000 % 0x40),
     .ofNat (0x80 + r / 0x40 % 0x40), .ofNat (0x80 + r % 0x40)]

/-- One encoded rune: what the encoder must not split. -/
def IsRune (r : GoString) : Prop := r ≠ [] ∧ runeWidth r = r.length

/-! ### The width depends on the front only -/

theorem runeWidth_ascii {b : UInt8} (h : b < 0x80) (s : GoString) : runeWidth (b :: s) = 1 := by
  rw [runeWidth.eq_def]
  simp [h]

/-- The width is at most what the string has. -/
theorem runeWidth_le (s : GoString) : runeWidth s ≤ s.length := by
  unfold runeWidth
  repeat' split
  all_goals simp

/-- The bytes that were read are a valid encoding by themselves. -/
theorem runeWidth_take {b : UInt8} {s : GoString} {w : Nat} (h : runeWidth (b :: s) = w + 1) :
    runeWidth (b :: s.take w) = w + 1 := by
  rw [runeWidth.eq_def] at h ⊢
  by_cases hb : b < 0x80
  · simp only [hb, if_true] at h ⊢
    exact h
  simp only [hb, if_false] at h ⊢
  match s with
  | [] => simp at h
  | c :: s =>
    simp only at h
    split at h
    · rename_i h2
      obtain rfl : w = 1 := by omega
      simp [h2]
    · rename_i h2
      match s with
      | [] => simp at h
      | d :: s =>
        simp only at h
        split at h
        · rename_i h3
          obtain rfl : w = 2 := by omega
          simp [h2, h3]
        · rename_i h3
          match s with
          | [] => simp at h
          | e :: s =>
            simp only at h
            split at h
            · rename_i h4
              obtain rfl : w = 3 := by omega
              simp [h2, h3, h4]
            · simp at h

/-- A valid encoding is read the same whatever follows it. -/
theorem IsRune.width_append {r : GoString} (h : IsRune r) (s : GoString) :
    runeWidth (r ++ s) = r.length := by
  obtain ⟨hne, hw⟩ := h
  match r with
  | [] => exact absurd rfl hne
  | [b] =>
    by_cases hb : b < 0x80
    · exact runeWidth_ascii hb s
    · simp [runeWidth, hb] at hw
  | [b, c] =>
    by_cases hb : b < 0x80
    · rw [runeWidth_ascii hb] at hw
      simp at hw
    · by_cases h2 : (isLead2 b && isCont c) = true
      · rw [List.cons_append, List.cons_append, runeWidth.eq_def]
        simp only [hb, if_false, h2, if_true]
        rfl
      · simp [runeWidth, hb, h2] at hw
  | [b, c, d] =>
    by_cases hb : b < 0x80
    · rw [runeWidth_ascii hb] at hw
      simp at hw
    · by_cases h2 : (isLead2 b && isCont c) = true
      · rw [runeWidth.eq_def] at hw
        simp only [hb, if_false, h2, if_true] at hw
        simp at hw
      · by_cases h3 : (isLead3 b c && isCont d) = true
        · simp only [List.cons_append]
          rw [runeWidth.eq_def]
          simp only [hb, if_false, h2, h3, if_true]
          rfl
        · rw [runeWidth.eq_def] at hw
          simp only [hb, if_false, h2, h3] at hw
          simp at hw
  | b :: c :: d :: e :: t =>
    simp only [List.cons_append]
    rw [runeWidth.eq_def] at hw ⊢
    exact hw

/-- Runes are the bytes below 0x80 and the sequences of bytes from 0x80 on. -/
theorem IsRune.ascii_or_high {r : GoString} (h : IsRune r) :
    (∃ b, b < 0x80 ∧ r = [b]) ∨ ∀ b ∈ r, 0x80 ≤ b := by
  obtain ⟨hne, hw⟩ := h
  have hcont : ∀ x, isCont x = true → 0x80 ≤ x := fun x hx => by
    simp only [isCont, Bool.and_eq_true, decide_eq_true_eq] at hx
    exact hx.1
  have hlead3 : ∀ x y, isLead3 x y = true → 0x80 ≤ y := fun x y hx => by
    have : ∀ z : UInt8, 0xA0 ≤ z → 0x80 ≤ z := fun z hz => UInt8.le_trans (by decide) hz
    simp only [isLead3, Bool.or_eq_true, Bool.and_eq_true, decide_eq_true_eq] at hx
    rcases hx with (⟨⟨-, h⟩, -⟩ | ⟨⟨-, h⟩, -⟩) | ⟨-, h⟩
    · exact this y h
    · exact h
    · exact hcont y h
  have hlead4 : ∀ x y, isLead4 x y = true → 0x80 ≤ y := fun x y hx => by
    have : ∀ z : UInt8, 0x90 ≤ z → 0x80 ≤ z := fun z hz => UInt8.le_trans (by decide) hz
    simp only [isLead4, Bool.or_eq_true, Bool.and_eq_true, decide_eq_true_eq] at hx
    rcases hx with (⟨⟨-, h⟩, -⟩ | ⟨⟨-, h⟩, -⟩) | ⟨-, h⟩
    · exact this y h
    · exact h
    · exact hcont y h
  match r with
  | [] => exact absurd rfl hne
  | b :: s =>
    by_cases hb : b < 0x80
    · rw [runeWidth_ascii hb] at hw
      left
      refine ⟨b, hb, ?_⟩
      rw [List.length_cons] at hw
      rw [List.eq_nil_of_length_eq_zero (by omega : s.length = 0)]
    · right
      have hb' : 0x80 ≤ b := UInt8.not_lt.mp hb
      rw [runeWidth.eq_def] at hw
      simp only [hb, if_false] at hw
      match s with
      | [] => simp at hw
      | c :: s =>
        simp only at hw
        split at hw
        · rename_i h2
          simp only [Bool.and_eq_true] at h2
          simp only [List.length_cons] at hw
          rw [List.eq_nil_of_length_eq_zero (by omega : s.length = 0)]
          simp [hb', hcont c h2.2]
        · match s with
          | [] => simp at hw
          | d :: s =>
            simp only at hw
            split at hw
            · rename_i h3
              simp only [Bool.and_eq_true] at h3
              simp only [List.length_cons] at hw
              rw [List.eq_nil_of_length_eq_zero (by omega : s.length = 0)]
              simp [hb', hlead3 b c h3.1, hcont d h3.2]
            · match s with
              | [] => simp at hw
              | e :: s =>
                simp only at hw
                split at hw
                · rename_i h4
                  simp only [Bool.and_eq_true] at h4
                  simp only [List.length_cons] at hw
                  rw [List.eq_nil_of_length_eq_zero (by omega : s.length = 0)]
                  simp [hb', hlead4 b c h4.1.1, hcont d h4.1.2, hcont e h4.2]
                · simp at hw

/-! ### The runes of a string -/

/-- More fuel than bytes changes nothing. -/
theorem runesFuel_eq {n : Nat} {s : GoString} (h : s.length ≤ n) : runesFuel n s = runes s := by
  suffices key : ∀ (k : Nat) (t : GoString), t.length ≤ k → ∀ m, t.length ≤ m →
      runesFuel m t = runesFuel t.length t from key s.length s (Nat.le_refl _) n h
  intro k
  induction k with
  | zero =>
    intro t ht m _
    rw [List.eq_nil_of_length_eq_zero (Nat.le_zero.mp ht)]
    cases m <;> rfl
  | succ k ih =>
    intro t ht m hm
    match t with
    | [] => cases m <;> rfl
    | b :: t =>
      simp only [List.length_cons] at ht hm ⊢
      obtain ⟨m, rfl⟩ := Nat.exists_eq_add_of_le' hm
      have hm' : t.length + m + 1 = m + (t.length + 1) := by omega
      rw [← hm', runesFuel, runesFuel]
      cases hw : runeWidth (b :: t) with
      | zero => simp only [ih t (by omega) (t.length + m) (by omega)]
      | succ w =>
        have hdrop : (t.drop w).length ≤ t.length := by simp
        simp only [ih (t.drop w) (by omega) (t.length + m) (by omega),
          ih (t.drop w) (by omega) t.length hdrop]

@[simp] theorem runes_nil : runes [] = [] := rfl

/-- A rune at the front is taken whole. -/
theorem runes_append {r : GoString} (h : IsRune r) (s : GoString) :
    runes (r ++ s) = some r :: runes s := by
  have hw := h.width_append s
  match r with
  | [] => exact absurd rfl h.1
  | b :: r =>
    rw [List.cons_append, List.length_cons] at hw
    rw [runes, List.cons_append, List.length_cons, runesFuel, hw]
    simp only [List.take_left, List.drop_left]
    rw [runesFuel_eq (by simp)]

/-- A byte of no valid encoding is taken alone. -/
theorem runes_cons_invalid {b : UInt8} {s : GoString} (h : runeWidth (b :: s) = 0) :
    runes (b :: s) = none :: runes s := by
  rw [runes, List.length_cons, runesFuel, h]
  simp only [runesFuel_eq (Nat.le_refl s.length)]

/-- **Every string starts with a rune or with an invalid byte**: the induction
principle for what is done rune by rune. -/
theorem runeInduction {motive : GoString → Prop} (nil : motive [])
    (rune : ∀ r s, IsRune r → motive s → motive (r ++ s))
    (invalid : ∀ b s, runeWidth (b :: s) = 0 → motive s → motive (b :: s)) (s : GoString) :
    motive s := by
  suffices key : ∀ (k : Nat) (t : GoString), t.length ≤ k → motive t from
    key s.length s (Nat.le_refl _)
  intro k
  induction k with
  | zero =>
    intro t ht
    rw [List.eq_nil_of_length_eq_zero (Nat.le_zero.mp ht)]
    exact nil
  | succ k ih =>
    intro t ht
    match t with
    | [] => exact nil
    | b :: t =>
      rw [List.length_cons] at ht
      cases hw : runeWidth (b :: t) with
      | zero => exact invalid b t hw (ih t (by omega))
      | succ w =>
        have hle := runeWidth_le (b :: t)
        rw [hw, List.length_cons] at hle
        have hsplit : b :: t = (b :: t.take w) ++ t.drop w := by simp
        have hlen : (b :: t.take w).length = w + 1 := by simp; omega
        have hrune : IsRune (b :: t.take w) := by
          refine ⟨List.cons_ne_nil _ _, ?_⟩
          rw [hlen]
          exact runeWidth_take hw
        rw [hsplit]
        exact rune _ _ hrune (ih _ (by simp; omega))

end Go
