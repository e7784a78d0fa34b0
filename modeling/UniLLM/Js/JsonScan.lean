import UniLLM.Js.Json

/-!
# Where a JSON text can be cut

A reader that looks only at quotes, backslashes and brackets knows how deep it is and
whether it is inside of a string.  A value takes it back to where it started and never
below (`Balanced`), so no text ends before the bracket that closes it.  From the two
sides of a quote such readers never agree (`Scan.opposite_run`), so where one text goes
on in the string of another, what is a literal there is bare text here.
-/

namespace Js

/-- Such a reader. -/
inductive Scan where
  | out (depth : Nat)
  | inString (depth : Nat)
  /-- After a backslash in a string. -/
  | escape (depth : Nat)
  /-- There was something outside of strings that no token has. -/
  | stuck
  deriving DecidableEq

/-- What stands outside of strings and is no bracket. -/
def isPlain (u : UInt16) : Bool :=
  isWhite u || isDigit u || (lit "+-.:,Eaeflnrstu").contains u

namespace Scan

def step : Scan → UInt16 → Scan
  | .out n, u =>
    if u = 0x22 then .inString n
    else if u = 0x7B ∨ u = 0x5B then .out (n + 1)
    else if u = 0x7D ∨ u = 0x5D then .out (n - 1)
    else if isPlain u then .out n
    else .stuck
  | .inString n, u => if u = 0x22 then .out n else if u = 0x5C then .escape n else .inString n
  | .escape n, _ => .inString n
  | .stuck, _ => .stuck

def run (q : Scan) (s : JsString) : Scan := s.foldl step q

/-- Not stuck, and at least that deep. -/
def Above (m : Nat) : Scan → Prop
  | .out n | .inString n | .escape n => m ≤ n
  | .stuck => False

@[simp] theorem run_nil (q : Scan) : q.run [] = q := rfl

@[simp] theorem run_cons (q : Scan) (u : UInt16) (s : JsString) :
    q.run (u :: s) = (q.step u).run s := rfl

theorem run_append (q : Scan) (s t : JsString) : q.run (s ++ t) = (q.run s).run t :=
  List.foldl_append ..

theorem run_stuck (s : JsString) : stuck.run s = stuck := by
  induction s with
  | nil => rfl
  | cons u s ih => exact ih

theorem Above.mono {m n : Nat} {q : Scan} (h : q.Above n) (hmn : m ≤ n) : q.Above m := by
  cases q with
  | stuck => exact h
  | _ => exact hmn.trans h

/-- Two readers on the two sides of a quote. -/
def Opposite : Scan → Scan → Prop
  | .out _, .inString _ => True
  | .inString _, .out _ => True
  | _, _ => False

/-- Outside of a string no token starts with a backslash. -/
theorem step_out_backslash (n : Nat) : (out n).step 0x5C = .stuck := by
  have hplain : isPlain 0x5C = false := by decide
  rw [step, if_neg (by decide), if_neg (by decide), if_neg (by decide), hplain]
  rfl

/-- A unit that is no quote leaves a reader outside, if it does not get stuck. -/
theorem step_out {n : Nat} {u : UInt16} (hquote : u ≠ 0x22) (h : (out n).step u ≠ .stuck) :
    u ≠ 0x5C ∧ ∃ m, (out n).step u = .out m := by
  constructor
  · rintro rfl
    exact h (step_out_backslash n)
  · rw [step, if_neg hquote] at h ⊢
    split
    · exact ⟨_, rfl⟩
    split
    · exact ⟨_, rfl⟩
    split
    · exact ⟨_, rfl⟩
    · rename_i hopen hclose hplain
      rw [if_neg hopen, if_neg hclose, if_neg hplain] at h
      exact absurd rfl h

theorem opposite_step {p q : Scan} (hpq : p.Opposite q) (u : UInt16) (hp : p.step u ≠ .stuck)
    (hq : q.step u ≠ .stuck) : (p.step u).Opposite (q.step u) := by
  cases p <;> cases q <;> try exact hpq.elim
  case out.inString n m =>
    by_cases hquote : u = 0x22
    · simp [step, hquote, Opposite]
    · obtain ⟨hescape, k, hk⟩ := step_out hquote hp
      rw [hk]
      simp [step, hquote, hescape, Opposite]
  case inString.out n m =>
    by_cases hquote : u = 0x22
    · simp [step, hquote, Opposite]
    · obtain ⟨hescape, k, hk⟩ := step_out hquote hq
      rw [hk]
      simp [step, hquote, hescape, Opposite]

theorem ne_stuck_of_run {q : Scan} {s : JsString} (h : q.run s ≠ .stuck) : q ≠ .stuck := by
  rintro rfl
  exact h (run_stuck s)

/-- **Readers on the two sides of a quote stay on two sides**, unless one gets stuck. -/
theorem opposite_run {p q : Scan} (hpq : p.Opposite q) (s : JsString) (hp : p.run s ≠ .stuck)
    (hq : q.run s ≠ .stuck) : (p.run s).Opposite (q.run s) := by
  induction s generalizing p q with
  | nil => exact hpq
  | cons u s ih => exact ih (opposite_step hpq u (ne_stuck_of_run hp) (ne_stuck_of_run hq)) hp hq

end Scan

/-! ### Balanced text -/

/-- Text that a reader outside of strings comes back from, never having been less deep. -/
structure Balanced (t : JsString) : Prop where
  run_eq : ∀ n, (Scan.out n).run t = .out n
  above : ∀ n q, q <+: t → ((Scan.out n).run q).Above n

/-- The inside of a literal, for a reader: it does not come to the closing quote. -/
structure Enclosed (t : JsString) : Prop where
  run_eq : ∀ n, (Scan.inString n).run t = .inString n
  above : ∀ n q, q <+: t → ((Scan.inString n).run q).Above n

/-- A prefix of two texts is one of the first or goes on into the second. -/
theorem isPrefix_append {q s t : JsString} (h : q <+: s ++ t) :
    q <+: s ∨ ∃ r, q = s ++ r ∧ r <+: t := by
  obtain ⟨w, hw⟩ := h
  rcases List.append_eq_append_iff.mp hw with ⟨r, hr, -⟩ | ⟨r, hr, hr'⟩
  · exact Or.inl ⟨r, hr.symm⟩
  · exact Or.inr ⟨r, hr, w, hr'.symm⟩

namespace Balanced

theorem nil : Balanced [] where
  run_eq _ := rfl
  above n q h := by
    rw [List.prefix_nil.mp h]
    exact Nat.le_refl n

theorem append {s t : JsString} (hs : Balanced s) (ht : Balanced t) : Balanced (s ++ t) where
  run_eq n := by rw [Scan.run_append, hs.run_eq, ht.run_eq]
  above n q h := by
    rcases isPrefix_append h with hq | ⟨r, rfl, hr⟩
    · exact hs.above n q hq
    · rw [Scan.run_append, hs.run_eq]
      exact ht.above n r hr

theorem step_plain {u : UInt16} (h : isPlain u = true) (n : Nat) :
    (Scan.out n).step u = .out n := by
  have hne : ∀ v, isPlain v = false → u ≠ v := by
    rintro v hv rfl
    rw [h] at hv
    cases hv
  have hquote := hne 0x22 (by decide)
  have hopen : ¬ (u = 0x7B ∨ u = 0x5B) := by
    rintro (hu | hu)
    · exact hne 0x7B (by decide) hu
    · exact hne 0x5B (by decide) hu
  have hclose : ¬ (u = 0x7D ∨ u = 0x5D) := by
    rintro (hu | hu)
    · exact hne 0x7D (by decide) hu
    · exact hne 0x5D (by decide) hu
  rw [Scan.step, if_neg hquote, if_neg hopen, if_neg hclose, if_pos h]

theorem plain {t : JsString} (h : ∀ u ∈ t, isPlain u = true) : Balanced t := by
  induction t with
  | nil => exact .nil
  | cons u t ih =>
    have hstep := step_plain (h u (List.mem_cons_self ..))
    have hone : Balanced [u] := by
      refine ⟨hstep, fun n q hq => ?_⟩
      rcases List.prefix_cons_iff.mp hq with rfl | ⟨r, rfl, hr⟩
      · exact Nat.le_refl n
      · rw [List.prefix_nil.mp hr, Scan.run_cons, hstep]
        exact Nat.le_refl n
    exact hone.append (ih fun v hv => h v (List.mem_cons_of_mem u hv))

/-- Between brackets text is one level deeper. -/
theorem bracketed {t : JsString} (h : Balanced t) {a z : UInt16} (ha : a = 0x7B ∨ a = 0x5B)
    (hz : z = 0x7D ∨ z = 0x5D) : Balanced (a :: (t ++ [z])) := by
  have hopen : ∀ n, (Scan.out n).step a = .out (n + 1) := by
    rcases ha with rfl | rfl <;> exact fun n => rfl
  have hclose : ∀ n, (Scan.out (n + 1)).step z = .out n := by
    rcases hz with rfl | rfl <;> exact fun n => rfl
  have hrun : ∀ n, (Scan.out n).run (a :: (t ++ [z])) = .out n := by
    intro n
    rw [Scan.run_cons, hopen, Scan.run_append, h.run_eq]
    exact hclose n
  refine ⟨hrun, fun n q hq => ?_⟩
  rcases List.prefix_cons_iff.mp hq with rfl | ⟨r, rfl, hr⟩
  · exact Nat.le_refl n
  rcases isPrefix_append hr with hr | ⟨w, rfl, hw⟩
  · rw [Scan.run_cons, hopen]
    exact (h.above (n + 1) r hr).mono (Nat.le_succ n)
  · rcases List.prefix_cons_iff.mp hw with rfl | ⟨x, rfl, hx⟩
    · rw [List.append_nil, Scan.run_cons, hopen, h.run_eq]
      exact Nat.le_succ n
    · rw [List.prefix_nil.mp hx, hrun]
      exact Nat.le_refl n

theorem of_allWhite {t : JsString} (h : AllWhite t) : Balanced t :=
  .plain fun u hu => by rw [isPlain, h u hu]; rfl

end Balanced

/-! ### String literals -/

namespace Enclosed

theorem nil : Enclosed [] where
  run_eq _ := rfl
  above n q h := by
    rw [List.prefix_nil.mp h]
    exact Nat.le_refl n

theorem cons {u : UInt16} {t : JsString} (h : Enclosed t) (hquote : u ≠ 0x22)
    (hescape : u ≠ 0x5C) : Enclosed (u :: t) := by
  have hstep : ∀ n, (Scan.inString n).step u = .inString n := by
    intro n
    rw [Scan.step, if_neg hquote, if_neg hescape]
  refine ⟨fun n => ?_, fun n q hq => ?_⟩
  · rw [Scan.run_cons, hstep]
    exact h.run_eq n
  · rcases List.prefix_cons_iff.mp hq with rfl | ⟨r, rfl, hr⟩
    · exact Nat.le_refl n
    · rw [Scan.run_cons, hstep]
      exact h.above n r hr

theorem escape {t : JsString} (h : Enclosed t) (u : UInt16) : Enclosed (0x5C :: u :: t) := by
  refine ⟨h.run_eq, fun n q hq => ?_⟩
  rcases List.prefix_cons_iff.mp hq with rfl | ⟨r, rfl, hr⟩
  · exact Nat.le_refl n
  rcases List.prefix_cons_iff.mp hr with rfl | ⟨w, rfl, hw⟩
  · exact Nat.le_refl n
  · exact h.above n w hw

theorem balanced {t : JsString} (h : Enclosed t) : Balanced (0x22 :: (t ++ [0x22])) := by
  have hrun : ∀ n, (Scan.out n).run (0x22 :: (t ++ [0x22])) = .out n := by
    intro n
    have hopen : (Scan.out n).step 0x22 = .inString n := rfl
    rw [Scan.run_cons, hopen, Scan.run_append, h.run_eq]
    rfl
  refine ⟨hrun, fun n q hq => ?_⟩
  rcases List.prefix_cons_iff.mp hq with rfl | ⟨r, rfl, hr⟩
  · exact Nat.le_refl n
  rcases isPrefix_append hr with hr | ⟨w, rfl, hw⟩
  · exact h.above n r hr
  · rcases List.prefix_cons_iff.mp hw with rfl | ⟨x, rfl, hx⟩
    · rw [List.append_nil]
      exact h.above n t (List.prefix_refl t)
    · rw [List.prefix_nil.mp hx, hrun]
      exact Nat.le_refl n

end Enclosed

theorem hexValue_ne {u v : UInt16} (h : hexValue u = some v) : u ≠ 0x22 ∧ u ≠ 0x5C := by
  constructor
  · rintro rfl
    cases h
  · rintro rfl
    cases h

theorem Enclosed.hex4 {a b c d e : UInt16} {t : JsString} (h : Enclosed t)
    (hhex : hex4 a b c d = some e) : Enclosed (a :: b :: c :: d :: t) := by
  simp only [Js.hex4, Option.bind_eq_bind, Option.bind_eq_some_iff] at hhex
  obtain ⟨x, hx, y, hy, z, hz, w, hw, -⟩ := hhex
  obtain ⟨⟨ha, ha'⟩, ⟨hb, hb'⟩⟩ := And.intro (hexValue_ne hx) (hexValue_ne hy)
  obtain ⟨⟨hc, hc'⟩, ⟨hd, hd'⟩⟩ := And.intro (hexValue_ne hz) (hexValue_ne hw)
  exact (((h.cons hd hd').cons hc hc').cons hb hb').cons ha ha'

/-- The reader of a string stops at its closing quote. -/
theorem enclosed_of_parseString {s v rest : JsString} (h : parseString s = some (v, rest)) :
    ∃ body, s = body ++ 0x22 :: rest ∧ Enclosed body := by
  fun_induction parseString s generalizing v with
  | case1 => cases h
  | case2 s =>
    obtain ⟨rfl, rfl⟩ := Prod.mk.inj (Option.some.inj h)
    exact ⟨[], rfl, .nil⟩
  | case3 => cases h
  | case4 u s hquote hcontrol hescape ih =>
    obtain ⟨⟨w, r⟩, hp, heq⟩ := Option.map_eq_some_iff.mp h
    obtain ⟨rfl, rfl⟩ := Prod.mk.inj heq
    obtain ⟨body, rfl, hbody⟩ := ih hp
    exact ⟨u :: body, rfl, hbody.cons hquote hescape⟩
  | case5 u hquote hcontrol hescape a b c d s e hhex ih =>
    obtain ⟨⟨w, r⟩, hp, heq⟩ := Option.map_eq_some_iff.mp h
    obtain ⟨rfl, rfl⟩ := Prod.mk.inj heq
    obtain ⟨body, rfl, hbody⟩ := ih hp
    rw [not_not.mp hescape]
    exact ⟨_, rfl, (hbody.hex4 hhex).escape 0x75⟩
  | case6 => cases h
  | case7 u hquote hcontrol hescape c s hunicode e he ih =>
    obtain ⟨⟨w, r⟩, hp, heq⟩ := Option.map_eq_some_iff.mp h
    obtain ⟨rfl, rfl⟩ := Prod.mk.inj heq
    obtain ⟨body, rfl, hbody⟩ := ih hp
    rw [not_not.mp hescape]
    exact ⟨_, rfl, hbody.escape c⟩
  | case8 => cases h
  | case9 => cases h

/-! ### Numbers -/

/-- The text read is the front of `s`, and a reader outside of strings goes on over it. -/
def ReadsPlain (s t rest : JsString) : Prop := s = t ++ rest ∧ ∀ u ∈ t, isPlain u = true

theorem ReadsPlain.trans {s t u v rest : JsString} (h : ReadsPlain s t u)
    (h' : ReadsPlain u v rest) : ReadsPlain s (t ++ v) rest := by
  refine ⟨by rw [h.1, h'.1, List.append_assoc], fun x hx => ?_⟩
  rcases List.mem_append.mp hx with hx | hx
  · exact h.2 x hx
  · exact h'.2 x hx

theorem ReadsPlain.cons {s t rest : JsString} (h : ReadsPlain s t rest) {u : UInt16}
    (hu : isPlain u = true) : ReadsPlain (u :: s) (u :: t) rest := by
  refine ⟨by rw [h.1, List.cons_append], fun x hx => ?_⟩
  rcases List.mem_cons.mp hx with rfl | hx
  · exact hu
  · exact h.2 x hx

theorem readsPlain_nil (s : JsString) : ReadsPlain s [] s :=
  ⟨rfl, fun _ hu => by cases hu⟩

theorem readsPlain_scanDigits {s t rest : JsString} (h : scanDigits s = some (t, rest)) :
    ReadsPlain s t rest := by
  unfold scanDigits at h
  split at h
  · cases h
  · obtain ⟨rfl, rfl⟩ := Prod.mk.inj (Option.some.inj h)
    refine ⟨List.takeWhile_append_dropWhile.symm, fun u hu => ?_⟩
    rw [isPlain, List.mem_takeWhile_imp hu, Bool.or_true, Bool.true_or]

theorem readsPlain_scanSign {signs : JsString} (hsigns : signs.all isPlain = true)
    (s : JsString) : ReadsPlain s (scanSign signs s).1 (scanSign signs s).2 := by
  unfold scanSign
  split
  · split
    · rename_i u s hu
      exact (readsPlain_nil s).cons (List.all_eq_true.mp hsigns u hu)
    · exact readsPlain_nil _
  · exact readsPlain_nil _

theorem readsPlain_scanInt {s t rest : JsString} (h : scanInt s = some (t, rest)) :
    ReadsPlain s t rest := by
  unfold scanInt at h
  split at h
  · obtain ⟨rfl, rfl⟩ := Prod.mk.inj (Option.some.inj h)
    exact (readsPlain_nil _).cons (by decide)
  · exact readsPlain_scanDigits h

theorem readsPlain_scanFrac {s t rest : JsString} (h : scanFrac s = some (t, rest)) :
    ReadsPlain s t rest := by
  unfold scanFrac at h
  split at h
  · obtain ⟨⟨w, r⟩, hp, heq⟩ := Option.map_eq_some_iff.mp h
    obtain ⟨rfl, rfl⟩ := Prod.mk.inj heq
    exact (readsPlain_scanDigits hp).cons (by decide)
  · obtain ⟨rfl, rfl⟩ := Prod.mk.inj (Option.some.inj h)
    exact readsPlain_nil _

theorem readsPlain_scanExp {s t rest : JsString} (h : scanExp s = some (t, rest)) :
    ReadsPlain s t rest := by
  unfold scanExp at h
  split at h
  · split at h
    · rename_i u s hu
      obtain ⟨⟨w, r⟩, hp, heq⟩ := Option.map_eq_some_iff.mp h
      obtain ⟨rfl, rfl⟩ := Prod.mk.inj heq
      have hplain : isPlain u = true := by rcases hu with rfl | rfl <;> decide
      exact ((readsPlain_scanSign (by decide) s).trans (readsPlain_scanDigits hp)).cons hplain
    · obtain ⟨rfl, rfl⟩ := Prod.mk.inj (Option.some.inj h)
      exact readsPlain_nil _
  · obtain ⟨rfl, rfl⟩ := Prod.mk.inj (Option.some.inj h)
    exact readsPlain_nil _

theorem readsPlain_scanNumber {s t rest : JsString} (h : scanNumber s = some (t, rest)) :
    ReadsPlain s t rest := by
  simp only [scanNumber, Option.bind_eq_bind, Option.bind_eq_some_iff] at h
  obtain ⟨⟨int, s₁⟩, hint, ⟨frac, s₂⟩, hfrac, ⟨exp, s₃⟩, hexp, heq⟩ := h
  obtain ⟨rfl, rfl⟩ := Prod.mk.inj (Option.some.inj heq)
  exact (readsPlain_scanSign (by decide) s).trans ((readsPlain_scanInt hint).trans
    ((readsPlain_scanFrac hfrac).trans (readsPlain_scanExp hexp)))

/-! ### Values -/

/-- What is read of `s` up to `rest` is balanced. -/
def Reads (s rest : JsString) : Prop := ∃ t, s = t ++ rest ∧ Balanced t

theorem Reads.trans {s t rest : JsString} (h : Reads s t) (h' : Reads t rest) :
    Reads s rest := by
  obtain ⟨u, rfl, hu⟩ := h
  obtain ⟨v, rfl, hv⟩ := h'
  exact ⟨u ++ v, (List.append_assoc u v rest).symm, hu.append hv⟩

theorem Reads.length_le {s rest : JsString} (h : Reads s rest) : rest.length ≤ s.length := by
  obtain ⟨t, rfl, -⟩ := h
  rw [List.length_append]
  omega

theorem ReadsPlain.reads {s t rest : JsString} (h : ReadsPlain s t rest) : Reads s rest :=
  ⟨t, h.1, .plain h.2⟩

theorem reads_cons {u : UInt16} (hu : isPlain u = true) (s : JsString) : Reads (u :: s) s :=
  ((readsPlain_nil s).cons hu).reads

theorem isPlain_of_isJsonSpace {u : UInt16} (h : isJsonSpace u = true) : isPlain u = true := by
  simp only [isJsonSpace, Bool.or_eq_true, beq_iff_eq] at h
  rcases h with ((rfl | rfl) | rfl) | rfl <;> decide

theorem reads_skipSpace (s : JsString) : Reads s (skipSpace s) := by
  refine ⟨s.takeWhile isJsonSpace, List.takeWhile_append_dropWhile.symm, .plain fun u hu => ?_⟩
  exact isPlain_of_isJsonSpace (List.mem_takeWhile_imp hu)

theorem reads_parseString {s v rest : JsString} (h : parseString s = some (v, rest)) :
    Reads (0x22 :: s) rest := by
  obtain ⟨body, rfl, hbody⟩ := enclosed_of_parseString h
  refine ⟨0x22 :: (body ++ [0x22]), ?_, hbody.balanced⟩
  simp

theorem reads_expect {p s rest : JsString} (hp : p.all isPlain = true)
    (h : expect p s = some rest) : Reads s rest := by
  obtain ⟨hstart, hrest⟩ := Option.ite_none_right_eq_some.mp h
  obtain ⟨t, rfl⟩ := List.isPrefixOf_iff_prefix.mp hstart
  obtain rfl := Option.some.inj hrest
  exact ⟨p, by rw [List.drop_left], .plain (List.all_eq_true.mp hp)⟩

theorem reads_word {u : UInt16} {p s rest : JsString} {v w : Value} (hu : isPlain u = true)
    (hp : p.all isPlain = true) (h : ((expect p s).map fun s => (v, s)) = some (w, rest)) :
    Reads (u :: s) rest := by
  obtain ⟨t, hword, heq⟩ := Option.map_eq_some_iff.mp h
  obtain ⟨-, rfl⟩ := Prod.mk.inj heq
  exact (reads_cons hu s).trans (reads_expect hp hword)

/-- Between brackets. -/
theorem Reads.bracketed {s rest : JsString} {a z : UInt16} (h : Reads s (z :: rest))
    (ha : a = 0x7B ∨ a = 0x5B) (hz : z = 0x7D ∨ z = 0x5D) : Reads (a :: s) rest := by
  obtain ⟨t, rfl, ht⟩ := h
  refine ⟨a :: (t ++ [z]), ?_, ht.bracketed ha hz⟩
  simp

/-- What the readers of values, elements and members have read. -/
structure ReadsAll (fuel : Nat) : Prop where
  value : ∀ s v rest, parseValue fuel s = some (v, rest) → Reads s rest
  elems : ∀ s vs rest, parseElems fuel s = some (vs, rest) → Reads s (0x5D :: rest)
  fields : ∀ s fs rest, parseFields fuel s = some (fs, rest) → Reads s (0x7D :: rest)

variable {fuel : Nat}

theorem reads_value (ih : ReadsAll fuel) {s rest : JsString} {v : Value}
    (h : parseValue (fuel + 1) s = some (v, rest)) : Reads s rest := by
  rw [parseValue] at h
  split at h
  · cases h
  rename_i u s' hskip
  refine (reads_skipSpace s).trans ?_
  rw [hskip]
  -- a string
  split at h
  · rename_i hu
    obtain ⟨⟨w, t⟩, hstr, heq⟩ := Option.map_eq_some_iff.mp h
    obtain ⟨rfl, rfl⟩ := Prod.mk.inj heq
    rw [hu]
    exact reads_parseString hstr
  -- an array
  split at h
  · rename_i hu
    split at h
    · rename_i t hclose
      obtain ⟨rfl, rfl⟩ := Prod.mk.inj (Option.some.inj h)
      have hspace := reads_skipSpace s'
      rw [hclose] at hspace
      exact hspace.bracketed (Or.inr hu) (Or.inr rfl)
    · obtain ⟨⟨vs, t⟩, helems, heq⟩ := Option.map_eq_some_iff.mp h
      obtain ⟨rfl, rfl⟩ := Prod.mk.inj heq
      exact ((reads_skipSpace s').trans (ih.elems _ _ _ helems)).bracketed (Or.inr hu) (Or.inr rfl)
  -- an object
  split at h
  · rename_i hu
    split at h
    · rename_i t hclose
      obtain ⟨rfl, rfl⟩ := Prod.mk.inj (Option.some.inj h)
      have hspace := reads_skipSpace s'
      rw [hclose] at hspace
      exact hspace.bracketed (Or.inl hu) (Or.inl rfl)
    · obtain ⟨⟨fs, t⟩, hfields, heq⟩ := Option.map_eq_some_iff.mp h
      obtain ⟨rfl, rfl⟩ := Prod.mk.inj heq
      exact ((reads_skipSpace s').trans (ih.fields _ _ _ hfields)).bracketed (Or.inl hu)
        (Or.inl rfl)
  -- `null`, `true` and `false`
  split at h
  · rename_i hu
    rw [hu]
    exact reads_word (by decide) (by decide) h
  split at h
  · rename_i hu
    rw [hu]
    exact reads_word (by decide) (by decide) h
  split at h
  · rename_i hu
    rw [hu]
    exact reads_word (by decide) (by decide) h
  -- a number
  obtain ⟨⟨text, t⟩, hnum, heq⟩ := Option.map_eq_some_iff.mp h
  obtain ⟨rfl, rfl⟩ := Prod.mk.inj heq
  exact (readsPlain_scanNumber hnum).reads

theorem reads_elems (ih : ReadsAll fuel) {s rest : JsString} {vs : List Value}
    (h : parseElems (fuel + 1) s = some (vs, rest)) : Reads s (0x5D :: rest) := by
  rw [parseElems] at h
  split at h
  · cases h
  rename_i v t hv
  have hread := (ih.value _ _ _ hv).trans (reads_skipSpace t)
  split at h
  · rename_i u hclose
    obtain ⟨rfl, rfl⟩ := Prod.mk.inj (Option.some.inj h)
    rw [hclose] at hread
    exact hread
  · rename_i u hcomma
    obtain ⟨⟨vs', u'⟩, helems, heq⟩ := Option.map_eq_some_iff.mp h
    obtain ⟨rfl, rfl⟩ := Prod.mk.inj heq
    rw [hcomma] at hread
    exact hread.trans ((reads_cons (by decide) u).trans (ih.elems _ _ _ helems))
  · cases h

/-- A member's name, colon and value, and what stands before the name. -/
theorem fields_cases {s rest : JsString} {fs : List (JsString × Value)}
    (h : parseFields (fuel + 1) s = some (fs, rest)) :
    ∃ k t u v w, skipSpace s = 0x22 :: t ∧ parseString t = some (k, u) ∧
      (∃ u', skipSpace u = 0x3A :: u' ∧ parseValue fuel u' = some (v, w)) ∧
      ((fs = [(k, v)] ∧ skipSpace w = 0x7D :: rest) ∨
        ∃ x fs', skipSpace w = 0x2C :: x ∧ parseFields fuel x = some (fs', rest) ∧
          fs = (k, v) :: fs') := by
  rw [parseFields] at h
  split at h
  case h_2 => cases h
  rename_i t hquote
  split at h
  · cases h
  rename_i k u hk
  split at h
  case h_2 => cases h
  rename_i u' hcolon
  split at h
  · cases h
  rename_i v w hv
  refine ⟨k, t, u, v, w, hquote, hk, ⟨u', hcolon, hv⟩, ?_⟩
  split at h
  · rename_i x hclose
    obtain ⟨rfl, rfl⟩ := Prod.mk.inj (Option.some.inj h)
    exact Or.inl ⟨rfl, hclose⟩
  · rename_i x hcomma
    obtain ⟨⟨fs', x'⟩, hfields, heq⟩ := Option.map_eq_some_iff.mp h
    obtain ⟨rfl, rfl⟩ := Prod.mk.inj heq
    exact Or.inr ⟨x, fs', hcomma, hfields, rfl⟩
  · cases h

theorem reads_fields (ih : ReadsAll fuel) {s rest : JsString} {fs : List (JsString × Value)}
    (h : parseFields (fuel + 1) s = some (fs, rest)) : Reads s (0x7D :: rest) := by
  obtain ⟨k, t, u, v, w, hquote, hk, ⟨u', hcolon, hv⟩, htail⟩ := fields_cases h
  have hkey := reads_skipSpace s
  rw [hquote] at hkey
  have hname := (hkey.trans (reads_parseString hk)).trans (reads_skipSpace u)
  rw [hcolon] at hname
  have hmember := hname.trans ((reads_cons (by decide) u').trans
    ((ih.value _ _ _ hv).trans (reads_skipSpace w)))
  rcases htail with ⟨rfl, hclose⟩ | ⟨x, fs', hcomma, hfields, rfl⟩
  · rw [hclose] at hmember
    exact hmember
  · rw [hcomma] at hmember
    exact hmember.trans ((reads_cons (by decide) x).trans (ih.fields _ _ _ hfields))

/-- **What is read as a value is balanced.** -/
theorem readsAll (fuel : Nat) : ReadsAll fuel := by
  induction fuel with
  | zero =>
    constructor
    · intro s v rest h
      cases h
    · intro s vs rest h
      cases h
    · intro s fs rest h
      cases h
  | succ fuel ih => exact ⟨fun _ _ _ => reads_value ih, fun _ _ _ => reads_elems ih,
      fun _ _ _ => reads_fields ih⟩

/-! ### Whole texts -/

theorem readsPlain_of_skipSpace {s : JsString} (h : (skipSpace s).isEmpty = true) :
    ∀ u ∈ s, isJsonSpace u = true :=
  List.dropWhile_eq_nil_iff.mp (List.isEmpty_iff.mp h)

theorem exists_parseValue {s : JsString} {v : Value} (h : JSON.parse s = some v) :
    ∃ rest, parseValue (2 * s.length + 1 + 1) s = some (v, rest) ∧
      ∀ u ∈ rest, isJsonSpace u = true := by
  unfold JSON.parse at h
  split at h
  · rename_i w rest hvalue
    obtain ⟨hspace, hw⟩ := Option.ite_none_right_eq_some.mp h
    obtain rfl := Option.some.inj hw
    exact ⟨rest, hvalue, readsPlain_of_skipSpace hspace⟩
  · cases h

/-- **A JSON text is balanced.** -/
theorem balanced_of_parse {s : JsString} {v : Value} (h : JSON.parse s = some v) :
    Balanced s := by
  obtain ⟨rest, hvalue, hspace⟩ := exists_parseValue h
  obtain ⟨t, rfl, ht⟩ := (readsAll _).value _ _ _ hvalue
  exact ht.append (.plain fun u hu => isPlain_of_isJsonSpace (hspace u hu))

/-- An object is read from a brace on. -/
theorem parseValue_obj {s rest : JsString} {fs : List (JsString × Value)}
    (h : parseValue (fuel + 1) s = some (.obj fs, rest)) :
    ∃ t, skipSpace s = 0x7B :: t ∧ ((fs = [] ∧ skipSpace t = 0x7D :: rest) ∨
      parseFields fuel (skipSpace t) = some (fs, rest)) := by
  have hmap : ∀ {α : Type} {o : Option (α × JsString)} {f : α → Value},
      (∀ a, f a ≠ .obj fs) → o.map (fun p => (f p.1, p.2)) ≠ some (.obj fs, rest) := by
    intro α o f hf heq
    obtain ⟨p, -, hp⟩ := Option.map_eq_some_iff.mp heq
    exact hf p.1 (Prod.mk.inj hp).1
  rw [parseValue] at h
  split at h
  · cases h
  rename_i u s' hskip
  split at h
  · exact absurd h (hmap fun _ heq => by cases heq)
  split at h
  · split at h
    · cases h
    · exact absurd h (hmap fun _ heq => by cases heq)
  split at h
  · rename_i hu
    rw [hu] at hskip
    refine ⟨s', hskip, ?_⟩
    split at h
    · rename_i t hclose
      obtain ⟨hfs, rfl⟩ := Prod.mk.inj (Option.some.inj h)
      cases hfs
      exact Or.inl ⟨rfl, hclose⟩
    · obtain ⟨⟨fs', t⟩, hfields, heq⟩ := Option.map_eq_some_iff.mp h
      obtain ⟨hfs, rfl⟩ := Prod.mk.inj heq
      cases hfs
      exact Or.inr hfields
  split at h
  · obtain ⟨t, -, heq⟩ := Option.map_eq_some_iff.mp h
    cases heq
  split at h
  · obtain ⟨t, -, heq⟩ := Option.map_eq_some_iff.mp h
    cases heq
  split at h
  · obtain ⟨t, -, heq⟩ := Option.map_eq_some_iff.mp h
    cases heq
  exact absurd h (hmap fun _ heq => by cases heq)

/-- **Between the braces of an object's text is balanced text.** -/
theorem balanced_inner {inner : JsString} {fs : List (JsString × Value)}
    (h : JSON.parse (0x7B :: (inner ++ [0x7D])) = some (.obj fs)) : Balanced inner := by
  obtain ⟨rest, hvalue, hspace⟩ := exists_parseValue h
  obtain ⟨t, ht, hread⟩ := parseValue_obj hvalue
  obtain rfl := (List.cons.inj ht).2
  have hreads : Reads (inner ++ [0x7D]) (0x7D :: rest) := by
    have hskip := reads_skipSpace (inner ++ [0x7D])
    rcases hread with ⟨-, hclose⟩ | hfields
    · rw [hclose] at hskip
      exact hskip
    · exact hskip.trans ((readsAll _).fields _ _ _ hfields)
  obtain ⟨t, hsplit, hbalanced⟩ := hreads
  -- after the brace there is only white space, so it is the last
  rcases List.eq_nil_or_concat rest with rfl | ⟨rest', u, rfl⟩
  · rw [List.append_cancel_right hsplit]
    exact hbalanced
  · rw [List.concat_eq_append, ← List.cons_append, ← List.append_assoc] at hsplit
    obtain ⟨-, hu⟩ := List.append_inj' hsplit rfl
    have hlast := hspace u (by simp)
    rw [← (List.cons.inj hu).1] at hlast
    cases hlast

/-- A member's name stands in the text, as a literal. -/
theorem exists_name_of_fields {s rest k : JsString} {v : Value} {fs : List (JsString × Value)}
    (h : parseFields fuel s = some (fs, rest)) (hmem : (k, v) ∈ fs) :
    ∃ x y z, s = x ++ 0x22 :: y ∧ Balanced x ∧ parseString y = some (k, z) := by
  induction fuel generalizing s fs with
  | zero => cases h
  | succ fuel ih =>
    obtain ⟨k', t, u, v', w, hquote, hk, ⟨u', hcolon, hv⟩, htail⟩ := fields_cases h
    obtain ⟨x, hx, hbx⟩ := reads_skipSpace s
    rw [hquote] at hx
    have hhere : k = k' → ∃ x y z, s = x ++ 0x22 :: y ∧ Balanced x ∧
        parseString y = some (k, z) := by
      rintro rfl
      exact ⟨x, t, u, hx, hbx, hk⟩
    rcases htail with ⟨rfl, -⟩ | ⟨s', fs', hcomma, hfields, rfl⟩
    · exact hhere (Prod.mk.inj (List.mem_singleton.mp hmem)).1
    · rcases List.mem_cons.mp hmem with heq | hmem
      · exact hhere (Prod.mk.inj heq).1
      · -- a later member: all up to the comma goes in front
        have hmember : Reads s s' := by
          have hcolon' := (reads_parseString hk).trans (reads_skipSpace u)
          rw [hcolon] at hcolon'
          have hcomma' := ((readsAll fuel).value _ _ _ hv).trans (reads_skipSpace w)
          rw [hcomma] at hcomma'
          have hfront : Reads s (0x22 :: t) := ⟨x, hx, hbx⟩
          exact hfront.trans (hcolon'.trans ((reads_cons (by decide) u').trans
            (hcomma'.trans (reads_cons (by decide) s'))))
        obtain ⟨p, rfl, hp⟩ := hmember
        obtain ⟨x', y, z, rfl, hx', hy⟩ := ih hfields hmem
        exact ⟨p ++ x', y, z, (List.append_assoc ..).symm, hp.append hx', hy⟩

/-- **A member's name stands in an object's text, as a literal that a reader comes to from
outside.** -/
theorem exists_name_of_parse {s k : JsString} {v : Value} {fs : List (JsString × Value)}
    (h : JSON.parse s = some (.obj fs)) (hmem : (k, v) ∈ fs) :
    ∃ x y z n, s = x ++ 0x22 :: y ∧ (Scan.out 0).run x = .out n ∧
      parseString y = some (k, z) := by
  obtain ⟨rest, hvalue, -⟩ := exists_parseValue h
  obtain ⟨t, hopen, ⟨rfl, -⟩ | hfields⟩ := parseValue_obj hvalue
  · cases hmem
  · obtain ⟨x, y, z, hxy, hx, hy⟩ := exists_name_of_fields hfields hmem
    obtain ⟨p, hp, hbp⟩ := reads_skipSpace s
    obtain ⟨q, hq, hbq⟩ := reads_skipSpace t
    rw [hopen] at hp
    rw [hxy] at hq
    refine ⟨p ++ 0x7B :: (q ++ x), y, z, 1, ?_, ?_, hy⟩
    · rw [hp, hq]
      simp
    · rw [Scan.run_append, hbp.run_eq]
      exact (hbq.append hx).run_eq 1

theorem Enclosed.of_allWhite {s : JsString} (h : AllWhite s) : Enclosed s := by
  induction s with
  | nil => exact .nil
  | cons u s ih =>
    have hne : ∀ v, isWhite v = false → u ≠ v := by
      rintro v hv rfl
      rw [h u (List.mem_cons_self ..)] at hv
      cases hv
    exact (ih fun v hv => h v (List.mem_cons_of_mem u hv)).cons (hne _ (by decide))
      (hne _ (by decide))

/-- A literal starts with what it denotes, or with an escape. -/
theorem head_of_parseString {y k z : JsString} {c : UInt16} (h : parseString y = some (c :: k, z)) :
    ∃ t, y = c :: t ∨ y = 0x5C :: t := by
  unfold parseString at h
  split at h
  · cases h
  rename_i u s
  split at h
  · cases h
  split at h
  · cases h
  split at h
  · obtain ⟨p, -, hp⟩ := Option.map_eq_some_iff.mp h
    exact ⟨s, Or.inl (by rw [(List.cons.inj (Prod.mk.inj hp).1).1])⟩
  · rename_i hescape
    exact ⟨s, Or.inr (by rw [not_not.mp hescape])⟩

/-- **The text of an object is no part of a string of another text**, if it has a member
whose name starts with a letter that no token has: read from inside of the string, that
letter or its escape stands outside. -/
theorem Scan.run_inString_of_parse {s k : JsString} {c : UInt16} {v : Value}
    {fs : List (JsString × Value)} (h : JSON.parse s = some (.obj fs)) (hmem : (c :: k, v) ∈ fs)
    (hc : ∀ n, (Scan.out n).step c = .stuck) (n : Nat) : (Scan.inString n).run s = .stuck := by
  obtain ⟨x, y, z, m, rfl, hx, hy⟩ := exists_name_of_parse h hmem
  by_contra hrun
  rw [Scan.run_append] at hrun
  have hfront := Scan.ne_stuck_of_run hrun
  have hout : (Scan.out 0).run x ≠ .stuck := by
    rw [hx]
    exact fun heq => by cases heq
  have hopposite := Scan.opposite_run (p := .out 0) (q := .inString n) trivial x hout hfront
  rw [hx] at hopposite
  generalize (Scan.inString n).run x = q at hrun hopposite
  cases q with
  | inString j =>
    obtain ⟨t, rfl | rfl⟩ := head_of_parseString hy
    · have hstuck : ((Scan.inString j).step 0x22).step c = .stuck := hc j
      rw [Scan.run_cons, Scan.run_cons, hstuck] at hrun
      exact hrun (Scan.run_stuck t)
    · have hstuck : ((Scan.inString j).step 0x22).step 0x5C = .stuck := Scan.step_out_backslash j
      rw [Scan.run_cons, Scan.run_cons, hstuck] at hrun
      exact hrun (Scan.run_stuck t)
  | _ => exact hopposite

/-! ### Fuel -/

/-- One more step of fuel changes nothing. -/
structure Settled (fuel : Nat) : Prop where
  value : ∀ s : JsString, 2 * s.length + 1 ≤ fuel → parseValue (fuel + 1) s = parseValue fuel s
  elems : ∀ s : JsString, 2 * s.length + 2 ≤ fuel → parseElems (fuel + 1) s = parseElems fuel s
  fields : ∀ s : JsString, 2 * s.length + 2 ≤ fuel → parseFields (fuel + 1) s = parseFields fuel s

theorem length_skipSpace (s : JsString) : (skipSpace s).length ≤ s.length :=
  (reads_skipSpace s).length_le

theorem settled_value (ih : Settled fuel) {s : JsString} (hs : 2 * s.length + 1 ≤ fuel + 1) :
    parseValue (fuel + 2) s = parseValue (fuel + 1) s := by
  have hlength := length_skipSpace s
  rw [parseValue, parseValue]
  split
  · rfl
  rename_i u s' hskip
  rw [hskip, List.length_cons] at hlength
  have hinner : 2 * (skipSpace s').length + 2 ≤ fuel := by
    have hle := length_skipSpace s'
    omega
  have helems := ih.elems _ hinner
  have hfields := ih.fields _ hinner
  generalize skipSpace s' = s'' at helems hfields ⊢
  congr 2
  · split
    · rfl
    · rw [helems]
  · congr 1
    split
    · rfl
    · rw [hfields]

theorem settled_elems (ih : Settled fuel) {s : JsString} (hs : 2 * s.length + 2 ≤ fuel + 1) :
    parseElems (fuel + 2) s = parseElems (fuel + 1) s := by
  rw [parseElems, parseElems, ih.value s (by omega)]
  split
  · rfl
  rename_i v t hv
  have hle := ((readsAll fuel).value _ _ _ hv).length_le
  have hskip := length_skipSpace t
  split
  · rfl
  · rename_i u hcomma
    rw [hcomma, List.length_cons] at hskip
    rw [ih.elems u (by omega)]
  · rfl

theorem settled_fields (ih : Settled fuel) {s : JsString} (hs : 2 * s.length + 2 ≤ fuel + 1) :
    parseFields (fuel + 2) s = parseFields (fuel + 1) s := by
  have hquote := length_skipSpace s
  rw [parseFields, parseFields]
  split
  case h_2 => rfl
  rename_i t hskip
  rw [hskip, List.length_cons] at hquote
  split
  · rfl
  rename_i k u hk
  have hname := (reads_parseString hk).length_le
  rw [List.length_cons] at hname
  have hcolon := length_skipSpace u
  split
  case h_2 => rfl
  rename_i u' hu
  rw [hu, List.length_cons] at hcolon
  rw [ih.value u' (by omega)]
  split
  · rfl
  rename_i v w hv
  have hle := ((readsAll fuel).value _ _ _ hv).length_le
  have hcomma := length_skipSpace w
  split
  · rfl
  · rename_i x hx
    rw [hx, List.length_cons] at hcomma
    rw [ih.fields x (by omega)]
  · rfl

theorem settled (fuel : Nat) : Settled fuel := by
  induction fuel with
  | zero =>
    constructor
    · intro s hs
      omega
    · intro s hs
      omega
    · intro s hs
      omega
  | succ fuel ih => exact ⟨fun _ => settled_value ih, fun _ => settled_elems ih,
      fun _ => settled_fields ih⟩

/-- **The reader does not run out of fuel**: more than `JSON.parse` gives it changes
nothing. -/
theorem parseValue_fuel (s : JsString) (more : Nat) :
    parseValue (2 * s.length + 2 + more) s = parseValue (2 * s.length + 2) s := by
  induction more with
  | zero => rfl
  | succ more ih => rw [← Nat.add_assoc, (settled _).value s (by omega), ih]

end Js
