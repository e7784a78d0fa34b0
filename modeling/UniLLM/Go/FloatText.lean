import UniLLM.Go.Float
import UniLLM.Go.JsonRoundTrip
import Mathlib.Data.List.Induction

/-!
# A `float64` survives the text

The four forms a number is printed in are literals of JSON, and denote the shortest digits at the
place of the point.  Those digits are rounded back to the number, so reading the text gives it
back.
-/

namespace Go

/-! ### Digits -/

theorem digitsValue_append (ds es : GoString) :
    digitsValue (ds ++ es) = digitsValue ds * 10 ^ es.length + digitsValue es := by
  induction es using List.reverseRecOn with
  | nil => simp [digitsValue]
  | append_singleton es b ih =>
    rw [← List.append_assoc, digitsValue_concat, digitsValue_concat, ih, List.length_append,
      List.length_singleton, Nat.pow_succ]
    ring

theorem digitsValue_append_zeros (ds : GoString) (k : Nat) :
    digitsValue (ds ++ List.replicate k 0x30) = digitsValue ds * 10 ^ k := by
  have hzero := digitsValue_zeros k []
  rw [List.append_nil] at hzero
  rw [digitsValue_append, hzero, List.length_replicate]
  rfl

theorem isDigit_zeros (k : Nat) : ∀ b ∈ List.replicate k (0x30 : UInt8), isDigit b = true := by
  intro b hb
  rw [(List.mem_replicate.mp hb).2]
  rfl

/-! ### Literals -/

/-- A literal without a sign, with its fraction and its exponent. -/
structure Literal where
  int : GoString
  frac : GoString
  exp : Option Int

namespace Literal

def expText : Option Int → GoString
  | none => []
  | some e => 0x65 :: ((if e < 0 then [] else [0x2B]) ++ formatInt e)

def fracText (frac : GoString) : GoString := if frac = [] then [] else 0x2E :: frac

def text (n : Literal) : GoString := n.int ++ (fracText n.frac ++ expText n.exp)

def value (n : Literal) : Rat :=
  (digitsValue (n.int ++ n.frac) : Rat) * (10 : Rat) ^ (n.exp.getD 0 - n.frac.length)

/-- Digits on both sides of the point, and no leading zero but a single one. -/
structure Wf (n : Literal) : Prop where
  int_digits : ∀ b ∈ n.int, isDigit b = true
  frac_digits : ∀ b ∈ n.frac, isDigit b = true
  lead : ∃ b ds, n.int = b :: ds ∧ (b = 0x30 → ds = [])

/-! #### What an exponent is read as -/

theorem formatInt_digits (e : Int) :
    formatInt e = (if e < 0 then [0x2D] else []) ++ formatNat e.natAbs := by
  unfold formatInt
  split <;> rfl

theorem filter_formatNat (n : Nat) : (formatNat n).filter isDigit = formatNat n :=
  List.filter_eq_self.mpr (formatNat_isDigit n)

/-- The sign of the exponent, as it is printed. -/
def expSign (e : Int) : UInt8 := if e < 0 then 0x2D else 0x2B

theorem expText_some (e : Int) : expText (some e) = 0x65 :: expSign e :: formatNat e.natAbs := by
  rw [expText, expSign, formatInt_digits]
  by_cases he : e < 0
  · rw [if_pos he, if_pos he, if_pos he]
    rfl
  · rw [if_neg he, if_neg he, if_neg he]
    rfl

theorem expText_value (exp : Option Int) :
    (if ((expText exp).tail.head? == some 0x2D) = true
      then -((digitsValue ((expText exp).tail.filter isDigit) : Nat) : Int)
      else ((digitsValue ((expText exp).tail.filter isDigit) : Nat) : Int)) = exp.getD 0 := by
  cases exp with
  | none => rfl
  | some e =>
    rw [expText_some, List.tail_cons, List.head?_cons]
    by_cases he : e < 0
    · have hsign : expSign e = 0x2D := if_pos he
      have hfilter : ((0x2D : UInt8) :: formatNat e.natAbs).filter isDigit = formatNat e.natAbs := by
        rw [List.filter_cons_of_neg (by decide), filter_formatNat]
      rw [hsign, hfilter, digitsValue_formatNat, if_pos (by decide), Option.getD_some]
      omega
    · have hsign : expSign e = 0x2B := if_neg he
      have hfilter : ((0x2B : UInt8) :: formatNat e.natAbs).filter isDigit = formatNat e.natAbs := by
        rw [List.filter_cons_of_neg (by decide), filter_formatNat]
      rw [hsign, hfilter, digitsValue_formatNat, if_neg (by decide), Option.getD_some]
      omega

/-- After the digits of the fraction there is no digit. -/
theorem expText_head (exp : Option Int) {s : GoString} (hs : ∀ b ∈ s.head?, isDigit b = false) :
    ∀ b ∈ (expText exp ++ s).head?, isDigit b = false := by
  cases exp with
  | none => exact hs
  | some e =>
    intro b hb
    rw [expText_some] at hb
    cases hb
    rfl

theorem fracText_head (frac : GoString) {s : GoString} (hs : ∀ b ∈ s.head?, isDigit b = false) :
    ∀ b ∈ (fracText frac ++ s).head?, isDigit b = false := by
  unfold fracText
  split
  · exact hs
  · intro b hb
    cases hb
    rfl

/-! #### The value -/

variable {n : Literal}

theorem Wf.head_ne (h : n.Wf) (s : GoString) : ((n.text ++ s).head? == some 0x2D) = false := by
  obtain ⟨b, ds, hint, -⟩ := h.lead
  have hb : isDigit b = true := h.int_digits b (by rw [hint]; exact List.mem_cons_self)
  rw [text, hint, List.cons_append, List.cons_append, List.head?_cons, beq_eq_false_iff_ne]
  intro heq
  rw [Option.some.inj heq] at hb
  exact absurd hb (by decide)

/-- The literal denotes its digits at the place of the point. -/
theorem Wf.numberValue_text (h : n.Wf) : numberValue n.text = n.value := by
  have hhead := h.head_ne []
  rw [List.append_nil] at hhead
  obtain ⟨hint, hrest⟩ := takeWhile_isDigit_append (s := fracText n.frac ++ expText n.exp)
    h.int_digits (fracText_head n.frac (by simpa using expText_head n.exp (s := []) (by simp)))
  have hend : ∀ b ∈ (expText n.exp).head?, isDigit b = false := by
    simpa using expText_head n.exp (s := []) (by simp)
  obtain ⟨hfrac, hexp⟩ := takeWhile_isDigit_append h.frac_digits hend
  have hvalue := expText_value n.exp
  unfold numberValue
  simp only [hhead, Bool.false_eq_true, if_false]
  rw [text, hint, hrest, value]
  by_cases hnil : n.frac = []
  · have hpoint : ((expText n.exp).head? == some 0x2E) = false := by
      cases n.exp with
      | none => rfl
      | some e =>
        rw [expText_some]
        rfl
    have htext : fracText n.frac ++ expText n.exp = expText n.exp := by
      rw [fracText, if_pos hnil, List.nil_append]
    rw [htext]
    simp only [hpoint, Bool.false_eq_true, if_false, hnil]
    rw [hvalue]
  · have htext : fracText n.frac ++ expText n.exp = 0x2E :: (n.frac ++ expText n.exp) := by
      rw [fracText, if_neg hnil, List.cons_append]
    rw [htext]
    simp only [List.head?_cons, BEq.rfl, if_true, List.tail_cons, hfrac, hexp]
    rw [hvalue]

/-! #### The grammar -/

theorem scanInt_text (h : n.Wf) {s : GoString} (hs : ∀ b ∈ s.head?, isDigit b = false) :
    scanInt (n.int ++ s) = some (n.int, s) := by
  obtain ⟨b, ds, hint, hzero⟩ := h.lead
  have hall := h.int_digits
  rw [hint] at hall ⊢
  rw [List.cons_append, scanInt]
  by_cases hb : b = 0x30
  · rw [hzero hb, if_pos hb]
    rfl
  · obtain ⟨htake, hdrop⟩ := takeWhile_isDigit_append
      (fun c hc => hall c (List.mem_cons_of_mem b hc)) hs
    rw [if_neg hb, if_pos (hall b List.mem_cons_self), htake, hdrop]

theorem scanFrac_text (h : n.Wf) {s : GoString} (hs : NumberEnd s) :
    scanFrac (fracText n.frac ++ (expText n.exp ++ s)) =
      some (fracText n.frac, expText n.exp ++ s) := by
  have hend := expText_head n.exp fun b hb => (hs b hb).1
  obtain ⟨hfrac, hexp⟩ := takeWhile_isDigit_append h.frac_digits hend
  by_cases hnil : n.frac = []
  · rw [fracText, if_pos hnil, List.nil_append]
    cases hcase : n.exp with
    | none => exact scanFrac_end hs
    | some e =>
      rw [expText_some]
      rfl
  · rw [fracText, if_neg hnil, List.cons_append, scanFrac, hfrac, hexp]
    rw [if_neg (by simpa using hnil)]

theorem scanExp_text (exp : Option Int) {s : GoString} (hs : NumberEnd s) :
    scanExp (expText exp ++ s) = some (expText exp, s) := by
  cases exp with
  | none => exact scanExp_end hs
  | some e =>
    obtain ⟨htake, hdrop⟩ := takeWhile_isDigit_append (formatNat_isDigit e.natAbs)
      fun b hb => (hs b hb).1
    obtain ⟨b, ds, hds, -⟩ := formatNat_eq_cons e.natAbs
    have hsign : scanExpSign (expSign e :: (formatNat e.natAbs ++ s)) =
        ([expSign e], formatNat e.natAbs ++ s) := by
      unfold expSign
      split <;> rfl
    have hsome : (formatNat e.natAbs).isEmpty = false := by
      rw [hds]
      rfl
    rw [expText_some, List.cons_append, List.cons_append, scanExp, if_pos (Or.inl rfl), hsign]
    simp only [htake, hdrop, hsome, Bool.false_eq_true, if_false]
    rfl

/-- **The text is a literal of JSON.** -/
theorem Wf.isNumberText (h : n.Wf) : IsNumberText n.text := by
  intro s hs
  have hsign : scanSign (n.text ++ s) = ([], n.text ++ s) := by
    have hhead := h.head_ne s
    unfold scanSign
    split
    · rename_i t heq
      rw [heq] at hhead
      simp at hhead
    · rfl
  have hint := scanInt_text h (s := fracText n.frac ++ (expText n.exp ++ s))
    (fracText_head n.frac (expText_head n.exp fun b hb => (hs b hb).1))
  have hassoc : n.text ++ s = n.int ++ (fracText n.frac ++ (expText n.exp ++ s)) := by
    rw [text, List.append_assoc, List.append_assoc]
  unfold scanNumber
  rw [hsign, hassoc]
  simp [hint, scanFrac_text h hs, scanExp_text n.exp hs, text]

end Literal

/-! ### The printed forms -/

/-- The digits of a number without the zeros at the end. -/
def significant (m : Int) : GoString :=
  (formatInt m).take
    ((formatInt m).length - ((formatInt m).reverse.takeWhile (· = 0x30)).length)

theorem take_zeros (all : GoString) : ∃ z,
    all = all.take (all.length - (all.reverse.takeWhile (· = 0x30)).length) ++
      List.replicate z 0x30 := by
  have hsplit : all.reverse.takeWhile (· = 0x30) ++ all.reverse.dropWhile (· = 0x30) =
      all.reverse := List.takeWhile_append_dropWhile
  have hzeros : all.reverse.takeWhile (· = (0x30 : UInt8)) =
      List.replicate (all.reverse.takeWhile (· = (0x30 : UInt8))).length 0x30 := by
    refine List.eq_replicate_of_mem fun b hb => ?_
    exact of_decide_eq_true (List.all_eq_true.mp List.all_takeWhile b hb)
  generalize all.reverse.takeWhile (· = (0x30 : UInt8)) = tail at hsplit hzeros ⊢
  generalize all.reverse.dropWhile (· = (0x30 : UInt8)) = front at hsplit
  have hall : all = front.reverse ++ tail.reverse := by
    rw [← List.reverse_append, hsplit, List.reverse_reverse]
  have htake : all.take (all.length - tail.length) = front.reverse := by
    rw [hall, List.length_append, List.length_reverse, List.length_reverse, Nat.add_sub_cancel]
    exact List.take_left' (List.length_reverse)
  refine ⟨tail.length, ?_⟩
  rw [htake, ← List.reverse_replicate, ← hzeros]
  exact hall

/-- Cutting the zeros off leaves the first digit. -/
theorem significant_spec {m : Int} (h : 0 < m) :
    (∃ z, formatInt m = significant m ++ List.replicate z 0x30) ∧
      (∀ b ∈ significant m, isDigit b = true) ∧
      ∃ b ds, significant m = b :: ds ∧ b ≠ 0x30 := by
  obtain ⟨z, hz⟩ := take_zeros (formatInt m)
  have hsame : formatInt m = formatNat m.natAbs := by
    unfold formatInt
    rw [if_neg (by omega)]
  obtain ⟨b, ds, hds, hb⟩ := digitsFuel_head (Nat.lt_succ_self m.natAbs) (by omega)
  have hhead : formatInt m = b :: ds := hsame.trans hds
  refine ⟨⟨z, hz⟩, ?_, ?_⟩
  · intro c hc
    exact formatNat_isDigit m.natAbs c (by rw [← hsame]; exact List.mem_of_mem_take hc)
  · cases hcut : significant m with
    | nil =>
      have hzeros : b :: ds = List.replicate z 0x30 := by
        rw [← hhead, hz]
        exact congrArg (· ++ _) hcut
      have hmem : b ∈ List.replicate z (0x30 : UInt8) := hzeros ▸ List.mem_cons_self
      exact absurd (List.mem_replicate.mp hmem).2 hb
    | cons c cs =>
      have hcons : b :: ds = c :: (cs ++ List.replicate z 0x30) := by
        rw [← hhead, hz]
        exact congrArg (· ++ _) hcut
      exact ⟨c, cs, rfl, (List.cons.inj hcons).1 ▸ hb⟩

/-- The digits with a point after `point` of them, or with an exponent. -/
def placed (exponent : Prop) [Decidable exponent] (ds : GoString) (point : Int) : Literal :=
  if exponent then ⟨ds.take 1, ds.drop 1, some (point - 1)⟩
  else if point ≤ 0 then ⟨[0x30], List.replicate (-point).toNat 0x30 ++ ds, none⟩
  else if ds.length ≤ point.toNat then
    ⟨ds ++ List.replicate (point.toNat - ds.length) 0x30, [], none⟩
  else ⟨ds.take point.toNat, ds.drop point.toNat, none⟩

section Placed
variable {exponent : Prop} [Decidable exponent] {ds : GoString} {point : Int}

theorem placed_wf (hdigits : ∀ b ∈ ds, isDigit b = true) (hlead : ∃ b cs, ds = b :: cs ∧ b ≠ 0x30) :
    (placed exponent ds point).Wf := by
  obtain ⟨b, cs, rfl, hb⟩ := hlead
  unfold placed
  split
  · exact ⟨fun c hc => hdigits c (List.mem_of_mem_take hc),
      fun c hc => hdigits c (List.mem_of_mem_drop hc), b, [], rfl, fun _ => rfl⟩
  · split
    · refine ⟨?_, ?_, 0x30, [], rfl, fun _ => rfl⟩
      · intro c hc
        rw [List.mem_singleton.mp hc]
        rfl
      · intro c hc
        rcases List.mem_append.mp hc with hc | hc
        · exact isDigit_zeros _ c hc
        · exact hdigits c hc
    · rename_i hpoint
      split
      · refine ⟨?_, fun c hc => absurd hc List.not_mem_nil, b, _, rfl, fun h => absurd h hb⟩
        intro c hc
        rcases List.mem_append.mp hc with hc | hc
        · exact hdigits c hc
        · exact isDigit_zeros _ c hc
      · refine ⟨fun c hc => hdigits c (List.mem_of_mem_take hc),
          fun c hc => hdigits c (List.mem_of_mem_drop hc), b, cs.take (point.toNat - 1), ?_,
          fun h => absurd h hb⟩
        obtain ⟨k, hk⟩ := Nat.exists_eq_succ_of_ne_zero (n := point.toNat) (by omega)
        rw [hk]
        rfl

/-- Wherever the point is put, the digits count the same. -/
theorem placed_value (hne : ds ≠ []) : (placed exponent ds point).value =
    (digitsValue ds : Rat) * (10 : Rat) ^ (point - ds.length) := by
  have hlen : 0 < ds.length := List.length_pos_iff.mpr hne
  unfold placed Literal.value
  split
  · simp only [List.take_append_drop, Option.getD_some, List.length_drop]
    congr 2
    omega
  · split
    · have hzero : digitsValue ([0x30] ++ (List.replicate (-point).toNat 0x30 ++ ds)) =
          digitsValue ds := by
        rw [← List.append_assoc]
        exact digitsValue_zeros ((-point).toNat + 1) ds
      simp only [hzero, Option.getD_none, List.length_append, List.length_replicate]
      congr 2
      push_cast
      omega
    · split
      · simp only [List.append_nil, digitsValue_append_zeros, Option.getD_none, List.length_nil]
        have hexp : point - ds.length = ((point.toNat - ds.length : Nat) : Int) := by omega
        rw [hexp, zpow_natCast]
        simp
      · simp only [List.take_append_drop, Option.getD_none, List.length_drop]
        congr 2
        omega

theorem placed_text (hne : ds ≠ []) : (placed exponent ds point).text =
    if exponent then
      ds.take 1 ++ (if ds.length ≤ 1 then [] else 0x2E :: ds.drop 1) ++ [0x65] ++
        (if point - 1 < 0 then [] else [0x2B]) ++ formatInt (point - 1)
    else if point ≤ 0 then [0x30, 0x2E] ++ List.replicate (-point).toNat 0x30 ++ ds
    else if ds.length ≤ point.toNat then ds ++ List.replicate (point.toNat - ds.length) 0x30
    else ds.take point.toNat ++ [0x2E] ++ ds.drop point.toNat := by
  have hfrac : Literal.fracText (ds.drop 1) =
      if ds.length ≤ 1 then [] else (0x2E : UInt8) :: ds.drop 1 := by
    unfold Literal.fracText
    by_cases hlen : ds.length ≤ 1
    · rw [if_pos hlen, if_pos (List.drop_eq_nil_iff.mpr hlen)]
    · rw [if_neg hlen, if_neg fun hnil => hlen (List.drop_eq_nil_iff.mp hnil)]
  unfold placed Literal.text
  split
  · simp only [hfrac, Literal.expText]
    simp
  · split
    · have hzeros : List.replicate (-point).toNat (0x30 : UInt8) ++ ds ≠ [] := by simp [hne]
      simp [Literal.expText, Literal.fracText, hzeros]
    · split
      · simp [Literal.expText, Literal.fracText]
      · rename_i hlen
        have hrest : ds.drop point.toNat ≠ [] := fun hnil => hlen (List.drop_eq_nil_iff.mp hnil)
        simp [Literal.expText, Literal.fracText, hrest]

end Placed

/-- How many places are before the decimal point. -/
def places (x : Rat) : Int := (shortest x).2 + (formatInt (shortest x).1).length

/-- The literal a positive number is printed as. -/
def printed (x : Rat) : Literal :=
  placed (x < roundFloat64 (1 / 10 ^ 6) ∨ (10 : Rat) ^ 21 ≤ x) (significant (shortest x).1)
    (places x)

section Printed
variable {x : Rat}

theorem formatFloat_of_pos (h : 0 < x) (hm : 0 < (shortest x).1) :
    formatFloat x = (printed x).text := by
  obtain ⟨-, -, b, ds, hds, -⟩ := significant_spec hm
  unfold printed
  rw [placed_text (by rw [hds]; exact List.cons_ne_nil b ds)]
  unfold formatFloat
  rw [if_neg h.ne', abs_of_pos h]
  simp only
  rw [if_neg (not_lt.mpr h.le)]
  rfl

theorem printed_wf (hm : 0 < (shortest x).1) : (printed x).Wf :=
  placed_wf (significant_spec hm).2.1 (significant_spec hm).2.2

/-- What is printed denotes the shortest digits. -/
theorem printed_value (hm : 0 < (shortest x).1) :
    (printed x).value = ((shortest x).1 : Rat) * 10 ^ (shortest x).2 := by
  obtain ⟨⟨z, hz⟩, -, b, ds, hds, -⟩ := significant_spec hm
  have hvalue : ((shortest x).1 : Rat) = (digitsValue (significant (shortest x).1) : Rat) * 10 ^ z := by
    have hint : digitsValue (formatInt (shortest x).1) = (shortest x).1.natAbs := by
      unfold formatInt
      rw [if_neg (by omega)]
      exact digitsValue_formatNat _
    rw [hz, digitsValue_append_zeros] at hint
    have hcast : ((shortest x).1 : Rat) = ((shortest x).1.natAbs : Rat) := by
      rw [Nat.cast_natAbs, abs_of_pos hm]
    rw [hcast, ← hint]
    push_cast
    rfl
  have hplaces : places x - (significant (shortest x).1).length = z + (shortest x).2 := by
    have hlen := congrArg List.length hz
    rw [List.length_append, List.length_replicate] at hlen
    unfold places
    rw [hlen]
    push_cast
    ring
  unfold printed
  rw [placed_value (by rw [hds]; exact List.cons_ne_nil b ds), hplaces, hvalue,
    zpow_add₀ (by norm_num : (10 : Rat) ≠ 0), zpow_natCast, mul_assoc]

end Printed

/-! ### Negative numbers -/

theorem formatFloat_neg {x : Rat} (h : 0 < x) : formatFloat (-x) = 0x2D :: formatFloat x := by
  unfold formatFloat
  rw [if_neg (neg_ne_zero.mpr h.ne'), if_neg h.ne', abs_neg]
  simp only
  rw [if_pos (neg_neg_of_pos h), if_neg h.not_gt]

theorem numberValue_neg {s : GoString} (h : (s.head? == some 0x2D) = false) :
    numberValue (0x2D :: s) = -numberValue s := by
  unfold numberValue
  simp [h]

theorem IsNumberText.neg {s : GoString} (h : IsNumberText s)
    (hhead : (s.head? == some 0x2D) = false) : IsNumberText (0x2D :: s) := by
  intro t ht
  have hscan := h t ht
  have hsign : scanSign (s ++ t) = ([], s ++ t) := by
    cases s with
    | nil => exact absurd rfl h.ne_nil
    | cons b s =>
      unfold scanSign
      split
      · rename_i heq
        rw [List.cons_append] at heq
        rw [(List.cons.inj heq).1] at hhead
        simp at hhead
      · rfl
  have hminus : scanSign (0x2D :: s ++ t) = ([0x2D], s ++ t) := rfl
  unfold scanNumber at hscan ⊢
  rw [hsign] at hscan
  rw [hminus]
  simp only [Option.bind_eq_bind, Option.bind_eq_some_iff, List.nil_append] at hscan ⊢
  obtain ⟨int, hint, frac, hfrac, exp, hexp, hsome⟩ := hscan
  refine ⟨int, hint, frac, hfrac, exp, hexp, ?_⟩
  obtain ⟨htext, hrest⟩ := Prod.mk.inj (Option.some.inj hsome)
  rw [hrest, ← htext]
  simp

/-! ### Reading back -/

/-- A positive number is printed as a literal that is rounded back to it. -/
theorem formatFloat_reads {x : Rat} (h : IsFloat64 x) (hpos : 0 < x) :
    IsNumberText (formatFloat x) ∧ ((formatFloat x).head? == some 0x2D) = false ∧
      roundFloat64 (numberValue (formatFloat x)) = x ∧
      float64Overflow (numberValue (formatFloat x)) = false := by
  have hm := shortest_pos hpos h.rounds
  have hround := shortest_rounds hpos h.rounds
  have hwf := printed_wf hm
  have hhead := hwf.head_ne []
  rw [List.append_nil] at hhead
  rw [formatFloat_of_pos hpos hm, hwf.numberValue_text, printed_value hm]
  refine ⟨hwf.isNumberText, hhead, hround, inRange_of_round ?_ (by rw [hround]; exact h.inRange)⟩
  exact mul_pos (by exact_mod_cast hm) (zpow_pos (by norm_num) _)

/-- **A `float64` is printed as a literal, and is what the literal is read as.** -/
theorem IsFloat64.roundTrip {x : Rat} (h : IsFloat64 x) :
    IsNumberText (formatFloat x) ∧ parseFloat (formatFloat x) = some x := by
  rcases lt_trichotomy x 0 with hneg | rfl | hpos
  · obtain ⟨htext, hhead, hround, hrange⟩ := formatFloat_reads h.neg (by linarith)
    have hprint := formatFloat_neg (x := -x) (by linarith)
    rw [neg_neg] at hprint
    refine ⟨hprint ▸ htext.neg hhead, ?_⟩
    unfold parseFloat
    simp only
    rw [hprint, numberValue_neg hhead, float64Overflow_neg, hrange, roundFloat64_neg, hround, neg_neg]
    rfl
  · exact ⟨isNumberText_formatInt 0, by decide +kernel⟩
  · obtain ⟨htext, -, hround, hrange⟩ := formatFloat_reads h hpos
    refine ⟨htext, ?_⟩
    unfold parseFloat
    simp only
    rw [hround, hrange]
    rfl

end Go
