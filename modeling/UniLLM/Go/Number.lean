import UniLLM.Go.Strings
import Mathlib.Data.Int.Log
import Mathlib.Data.Rat.Floor

/-!
# Numbers in text

JSON numbers as bytes: how `strconv` writes an integer and reads one back, what a
number literal denotes, and what becomes of it in a `float64`.  A `float64` is
modelled by the rational number it stands for, so `roundFloat64` is the only
place where precision is lost; the special values do not occur, because JSON
cannot write them and a literal out of range is an error.
-/

namespace Go

/-- A decimal digit. -/
def isDigit (b : UInt8) : Bool := 0x30 ≤ b && b ≤ 0x39

/-- The digit for a number below ten. -/
def digit (n : Nat) : UInt8 := .ofNat (0x30 + n)

/-- The decimal digits of `n`; `fuel` bounds how many. -/
def digitsFuel : Nat → Nat → GoString
  | 0, _ => []
  | fuel + 1, n => if n < 10 then [digit n] else digitsFuel fuel (n / 10) ++ [digit (n % 10)]

/-- A natural number in decimal. -/
def formatNat (n : Nat) : GoString := digitsFuel (n + 1) n

/-- `strconv.Itoa`. -/
def formatInt (i : Int) : GoString :=
  if i < 0 then 0x2D :: formatNat i.natAbs else formatNat i.natAbs

/-- What a string of digits denotes. -/
def digitsValue (ds : GoString) : Nat := ds.foldl (fun n b => 10 * n + (b.toNat - 0x30)) 0

/-- The integers of type `int` and `int64`. -/
def InInt64 (i : Int) : Prop := -2 ^ 63 ≤ i ∧ i < 2 ^ 63

instance (i : Int) : Decidable (InInt64 i) := inferInstanceAs (Decidable (_ ∧ _))

/-- `strconv.ParseInt(s, 10, 64)` on a literal without a plus sign. -/
def parseInt (s : GoString) : Option Int :=
  let neg := s.head? == some 0x2D
  let ds := if neg then s.tail else s
  let i : Int := if neg then -(digitsValue ds) else digitsValue ds
  if !ds.isEmpty && ds.all isDigit && decide (InInt64 i) then some i else none

/-- A minus sign, if there is one, and what follows it. -/
def scanSign : GoString → GoString × GoString
  | 0x2D :: s => ([0x2D], s)
  | s => ([], s)

/-- The integer part of a literal: no leading zeros. -/
def scanInt : GoString → Option (GoString × GoString)
  | [] => none
  | b :: s =>
    if b = 0x30 then some ([b], s)
    else if isDigit b then some (b :: s.takeWhile isDigit, s.dropWhile isDigit)
    else none

/-- The fraction, if there is a point. -/
def scanFrac : GoString → Option (GoString × GoString)
  | 0x2E :: s =>
    if (s.takeWhile isDigit).isEmpty then none
    else some (0x2E :: s.takeWhile isDigit, s.dropWhile isDigit)
  | s => some ([], s)

/-- The sign of an exponent, if there is one. -/
def scanExpSign : GoString → GoString × GoString
  | 0x2B :: s => ([0x2B], s)
  | 0x2D :: s => ([0x2D], s)
  | s => ([], s)

/-- The exponent, if there is an `e`. -/
def scanExp : GoString → Option (GoString × GoString)
  | [] => some ([], [])
  | b :: s =>
    if b = 0x65 ∨ b = 0x45 then
      let (sign, t) := scanExpSign s
      if (t.takeWhile isDigit).isEmpty then none
      else some (b :: sign ++ t.takeWhile isDigit, t.dropWhile isDigit)
    else some ([], b :: s)

/-- The longest number literal at the front, by the grammar of JSON, and what
follows it. -/
def scanNumber (s : GoString) : Option (GoString × GoString) := do
  let (sign, s) := scanSign s
  let (int, s) ← scanInt s
  let (frac, s) ← scanFrac s
  let (exp, s) ← scanExp s
  return (sign ++ int ++ frac ++ exp, s)

/-! ### Integers survive the text -/

theorem isDigit_digit {n : Nat} (h : n < 10) : isDigit (digit n) = true :=
  (by decide : ∀ n, n < 10 → isDigit (digit n) = true) n h

theorem digit_value {n : Nat} (h : n < 10) : (digit n).toNat - 0x30 = n :=
  (by decide : ∀ n, n < 10 → (digit n).toNat - 0x30 = n) n h

theorem digit_ne_zero {n : Nat} (h : n < 10) (hn : n ≠ 0) : digit n ≠ 0x30 :=
  (by decide : ∀ n, n < 10 → n ≠ 0 → digit n ≠ 0x30) n h hn

theorem digitsFuel_isDigit (fuel n : Nat) : ∀ b ∈ digitsFuel fuel n, isDigit b = true := by
  induction fuel generalizing n with
  | zero => intro b hb; cases hb
  | succ fuel ih =>
    intro b hb
    rw [digitsFuel] at hb
    split at hb
    · rw [List.mem_singleton.mp hb]
      exact isDigit_digit (by assumption)
    · rcases List.mem_append.mp hb with hb | hb
      · exact ih _ b hb
      · rw [List.mem_singleton.mp hb]
        exact isDigit_digit (Nat.mod_lt _ (by decide))

theorem digitsValue_concat (ds : GoString) (b : UInt8) :
    digitsValue (ds ++ [b]) = 10 * digitsValue ds + (b.toNat - 0x30) := by
  simp [digitsValue]

theorem digitsValue_digitsFuel {fuel n : Nat} (h : n < fuel) :
    digitsValue (digitsFuel fuel n) = n := by
  induction fuel generalizing n with
  | zero => exact absurd h (Nat.not_lt_zero n)
  | succ fuel ih =>
    rw [digitsFuel]
    split
    · have := digit_value (by assumption : n < 10)
      simpa [digitsValue] using this
    · rw [digitsValue_concat, ih (by omega), digit_value (Nat.mod_lt _ (by decide))]
      omega

/-- A number above zero is written without a leading zero. -/
theorem digitsFuel_head {fuel n : Nat} (h : n < fuel) (hn : n ≠ 0) :
    ∃ b ds, digitsFuel fuel n = b :: ds ∧ b ≠ 0x30 := by
  induction fuel generalizing n with
  | zero => exact absurd h (Nat.not_lt_zero n)
  | succ fuel ih =>
    rw [digitsFuel]
    split
    · exact ⟨digit n, [], rfl, digit_ne_zero (by assumption) hn⟩
    · obtain ⟨b, ds, hds, hb⟩ := ih (n := n / 10) (by omega) (by omega)
      exact ⟨b, ds ++ [digit (n % 10)], by rw [hds]; rfl, hb⟩

theorem formatNat_isDigit (n : Nat) : ∀ b ∈ formatNat n, isDigit b = true :=
  digitsFuel_isDigit _ _

theorem digitsValue_formatNat (n : Nat) : digitsValue (formatNat n) = n :=
  digitsValue_digitsFuel (Nat.lt_succ_self n)

theorem digitsValue_zeros (k : Nat) (ds : GoString) :
    digitsValue (List.replicate k 0x30 ++ ds) = digitsValue ds := by
  induction k with
  | zero => rfl
  | succ k ih => exact ih

theorem formatNat_eq_cons (n : Nat) : ∃ b ds, formatNat n = b :: ds ∧ (b = 0x30 → ds = []) := by
  by_cases hn : n = 0
  · subst hn
    exact ⟨0x30, [], rfl, fun _ => rfl⟩
  · obtain ⟨b, ds, hds, hb⟩ := digitsFuel_head (Nat.lt_succ_self n) hn
    exact ⟨b, ds, hds, fun h => absurd h hb⟩

/-- The text that may follow a number: it does not go on with it. -/
def NumberEnd (s : GoString) : Prop :=
  ∀ b ∈ s.head?, isDigit b = false ∧ b ≠ 0x2E ∧ b ≠ 0x65 ∧ b ≠ 0x45

/-- Digits up to where they end. -/
theorem takeWhile_isDigit_append {ds s : GoString} (hds : ∀ b ∈ ds, isDigit b = true)
    (hs : ∀ b ∈ s.head?, isDigit b = false) :
    (ds ++ s).takeWhile isDigit = ds ∧ (ds ++ s).dropWhile isDigit = s := by
  have hend : s.takeWhile isDigit = [] ∧ s.dropWhile isDigit = s := by
    cases s with
    | nil => exact ⟨rfl, rfl⟩
    | cons b s => simp [hs b rfl]
  rw [List.takeWhile_append_of_pos hds, List.dropWhile_append_of_pos hds, hend.1, hend.2]
  exact ⟨List.append_nil _, rfl⟩

theorem scanFrac_end {s : GoString} (hs : NumberEnd s) : scanFrac s = some ([], s) := by
  unfold scanFrac
  split
  · exact absurd rfl (hs 0x2E rfl).2.1
  · rfl

theorem scanExp_end {s : GoString} (hs : NumberEnd s) : scanExp s = some ([], s) := by
  cases s with
  | nil => rfl
  | cons b s =>
    obtain ⟨-, -, he, hE⟩ := hs b rfl
    simp [scanExp, he, hE]

theorem scanInt_formatNat (n : Nat) {s : GoString} (hs : NumberEnd s) :
    scanInt (formatNat n ++ s) = some (formatNat n, s) := by
  obtain ⟨b, ds, hds, hzero⟩ := formatNat_eq_cons n
  have hall := formatNat_isDigit n
  rw [hds] at hall ⊢
  rw [List.cons_append, scanInt]
  by_cases hb : b = 0x30
  · rw [hzero hb, if_pos hb]
    rfl
  · obtain ⟨htake, hdrop⟩ := takeWhile_isDigit_append
      (fun c hc => hall c (List.mem_cons_of_mem b hc)) fun c hc => (hs c hc).1
    rw [if_neg hb, if_pos (hall b (List.mem_cons_self ..)), htake, hdrop]

/-- Scanning what `formatInt` wrote takes all of it. -/
theorem scanNumber_formatInt (i : Int) {s : GoString} (hs : NumberEnd s) :
    scanNumber (formatInt i ++ s) = some (formatInt i, s) := by
  have hsign : ∀ n : Nat, scanSign (formatNat n ++ s) = ([], formatNat n ++ s) := by
    intro n
    obtain ⟨b, ds, hds, -⟩ := formatNat_eq_cons n
    have hb : isDigit b = true := formatNat_isDigit n b (by rw [hds]; exact List.mem_cons_self ..)
    rw [hds, List.cons_append, scanSign]
    intro t ht
    rw [(List.cons.inj ht).1] at hb
    simp [isDigit] at hb
  unfold formatInt
  split
  · simp [scanNumber, scanSign, scanInt_formatNat _ hs, scanFrac_end hs, scanExp_end hs]
  · simp [scanNumber, hsign, scanInt_formatNat _ hs, scanFrac_end hs, scanExp_end hs]

/-- **Integers survive the text.** -/
theorem parseInt_formatInt {i : Int} (h : InInt64 i) : parseInt (formatInt i) = some i := by
  obtain ⟨b, ds, hds, -⟩ := formatNat_eq_cons i.natAbs
  have hall : ∀ c ∈ formatNat i.natAbs, isDigit c = true := formatNat_isDigit _
  have hval : digitsValue (formatNat i.natAbs) = i.natAbs := digitsValue_formatNat _
  have hempty : (formatNat i.natAbs).isEmpty = false := by rw [hds]; rfl
  unfold formatInt
  split
  · rename_i hneg
    simp [parseInt, hval, hempty, List.all_eq_true.mpr hall, abs_of_neg hneg, h]
  · have hb : isDigit b = true := hall b (by rw [hds]; exact List.mem_cons_self ..)
    have hminus : ((formatNat i.natAbs).head? == some 0x2D) = false := by
      rw [hds]
      simp only [List.head?_cons, beq_eq_false_iff_ne, ne_eq, Option.some.injEq]
      rintro rfl
      simp [isDigit] at hb
    have hpos : (i.natAbs : Int) = i := by omega
    simp [parseInt, hminus, hval, hempty, List.all_eq_true.mpr hall, hpos, h]

theorem formatNat_injective {m n : Nat} (h : formatNat m = formatNat n) : m = n := by
  rw [← digitsValue_formatNat m, h, digitsValue_formatNat]

/-- A minus sign is not a digit. -/
theorem formatNat_ne_minus (m n : Nat) : formatNat m ≠ 0x2D :: formatNat n := by
  intro h
  have hdigit := formatNat_isDigit m 0x2D (by rw [h]; exact List.mem_cons_self)
  exact absurd hdigit (by decide)

theorem formatInt_injective {i j : Int} (h : formatInt i = formatInt j) : i = j := by
  unfold formatInt at h
  by_cases hi : i < 0
  · by_cases hj : j < 0
    · rw [if_pos hi, if_pos hj] at h
      have := formatNat_injective (List.cons.inj h).2
      omega
    · rw [if_pos hi, if_neg hj] at h
      exact absurd h.symm (formatNat_ne_minus _ _)
  · by_cases hj : j < 0
    · rw [if_neg hi, if_pos hj] at h
      exact absurd h (formatNat_ne_minus _ _)
    · rw [if_neg hi, if_neg hj] at h
      have := formatNat_injective h
      omega

/-! ### Floating point -/

/-- The rational number a JSON number literal denotes. -/
def numberValue (s : GoString) : Rat :=
  let neg := s.head? == some 0x2D
  let s := if neg then s.tail else s
  let int := s.takeWhile isDigit
  let s := s.dropWhile isDigit
  let frac := if s.head? == some 0x2E then s.tail.takeWhile isDigit else []
  let s := if s.head? == some 0x2E then s.tail.dropWhile isDigit else s
  let expNeg := s.tail.head? == some 0x2D
  let exp : Int := digitsValue (s.tail.filter isDigit)
  let scale := (if expNeg then -exp else exp) - frac.length
  let m : Rat := (digitsValue (int ++ frac) : Rat) * (10 : Rat) ^ scale
  if neg then -m else m

/-- The integer nearest to `q`, the even one of two equally near. -/
def roundHalfEven (q : Rat) : Int :=
  let f := q.floor
  if q - f < 1 / 2 then f
  else if 1 / 2 < q - f then f + 1
  else if f % 2 = 0 then f else f + 1

/-- The nearest number with 53 significant bits and an exponent from -1074 on. -/
def roundFloat64 (x : Rat) : Rat :=
  if x = 0 then 0
  else
    let e := max (Int.log 2 |x| - 52) (-1074)
    let n := roundHalfEven (|x| / (2 : Rat) ^ e)
    (if x < 0 then -1 else 1) * (n : Rat) * (2 : Rat) ^ e

/-- Rounding goes to infinity from half a unit above the largest `float64` on. -/
def float64Overflow (x : Rat) : Bool := decide ((2 : Rat) ^ 1024 - (2 : Rat) ^ 970 ≤ |x|)

/-- `strconv.ParseFloat(s, 64)`; `none` is its range error. -/
def parseFloat (s : GoString) : Option Rat :=
  let x := numberValue s
  if float64Overflow x then none else some (roundFloat64 x)

/-- The conversion `int(x)` of a `float64`: towards zero, and the least `int` for a
value no `int` can have (the language leaves that case to the machine). -/
def floatToInt (x : Rat) : Int :=
  let n := if x < 0 then -((-x).floor) else x.floor
  if InInt64 n then n else -2 ^ 63

/-- The shortest digits that read back as `x > 0`, as an integer and the power of
ten of its last digit: of the numbers with the fewest digits the nearest. -/
def shortestFuel (x : Rat) (top : Int) : Nat → Nat → Int × Int
  | 0, _ => (0, 0)
  | fuel + 1, n =>
    let e := top - n
    let q := x / (10 : Rat) ^ e
    let near := roundHalfEven q
    match [near, q.floor, q.floor + 1].find? fun (m : Int) =>
      roundFloat64 ((m : Rat) * (10 : Rat) ^ e) = x with
    | some m => (m, e)
    | none => shortestFuel x top fuel (n + 1)

/-- A `float64` as `encoding/json` writes it: the shortest digits, with an exponent
below 1e-6 and from 1e21 on. -/
def formatFloat (x : Rat) : GoString :=
  if x = 0 then [0x30]
  else
    let y := |x|
    let (m, e) := shortestFuel y (Int.log 10 y) 18 0
    let all := formatInt m
    let zeros := (all.reverse.takeWhile (· = 0x30)).length
    let ds := all.take (all.length - zeros)
    let point : Int := e + all.length   -- digits before the decimal point
    let body :=
      if y < roundFloat64 (1 / 10 ^ 6) ∨ (10 : Rat) ^ 21 ≤ y then
        let frac := if ds.length ≤ 1 then [] else 0x2E :: ds.drop 1
        let sign : GoString := if point - 1 < 0 then [] else [0x2B]
        ds.take 1 ++ frac ++ [0x65] ++ sign ++ formatInt (point - 1)
      else if point ≤ 0 then
        [0x30, 0x2E] ++ List.replicate (-point).toNat 0x30 ++ ds
      else if ds.length ≤ point.toNat then ds ++ List.replicate (point.toNat - ds.length) 0x30
      else ds.take point.toNat ++ [0x2E] ++ ds.drop point.toNat
    if x < 0 then 0x2D :: body else body

theorem formatFloat_ne_nil (x : Rat) : formatFloat x ≠ [] := by
  unfold formatFloat
  split
  · simp
  · simp only
    split
    · simp
    · split
      · simp
      · split
        · simp
        · split
          · -- with as many places before the point as there are digits, one of the two is there
            rename_i hpoint _
            rw [ne_eq, List.append_eq_nil_iff, List.replicate_eq_nil_iff]
            rintro ⟨hdigits, hzeros⟩
            rw [hdigits] at hzeros
            simp only [List.length_nil] at hzeros
            omega
          · simp

end Go
