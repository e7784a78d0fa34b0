import UniLLM.Go.JsonText

/-!
# Literals

The reader of a string literal takes bytes up to the closing quote.  What it makes of
them depends on nothing after the quote, so the inside of a literal has a meaning of
its own: `Denotes`.  Likewise a number literal ends by itself.
-/

namespace Go

/-! ### String literals -/

/-- The inside of a string literal and the bytes it denotes. -/
inductive Denotes : GoString → GoString → Prop
  | nil : Denotes [] []
  | plain {b : UInt8} {body v : GoString} (hquote : b ≠ 0x22) (hescape : b ≠ 0x5C)
      (hcontrol : ¬ b < 0x20)
      (h : Denotes body v) : Denotes (b :: body) (b :: v)
  | simple {c e : UInt8} {body v : GoString} (he : simpleEscape c = some e) (h : Denotes body v) :
      Denotes (0x5C :: c :: body) (e :: v)
  | rune {h₁ h₂ h₃ h₄ : UInt8} {r : Nat} {body v : GoString} (hhex : hex4 h₁ h₂ h₃ h₄ = some r)
      (hrune : isSurrogate r = false) (h : Denotes body v) :
      Denotes (0x5C :: 0x75 :: h₁ :: h₂ :: h₃ :: h₄ :: body) (encodeRune r ++ v)
  | pair {h₁ h₂ h₃ h₄ l₁ l₂ l₃ l₄ : UInt8} {r c : Nat} {body v : GoString}
      (hhex : hex4 h₁ h₂ h₃ h₄ = some r) (hhalf : isSurrogate r = true)
      (hpair : (hex4 l₁ l₂ l₃ l₄).bind (surrogatePair r) = some c) (h : Denotes body v) :
      Denotes (0x5C :: 0x75 :: h₁ :: h₂ :: h₃ :: h₄ :: 0x5C :: 0x75 :: l₁ :: l₂ :: l₃ :: l₄ :: body)
        (encodeRune c ++ v)
  /-- Half of a pair without the other half. -/
  | half {h₁ h₂ h₃ h₄ : UInt8} {r : Nat} {body v : GoString} (hhex : hex4 h₁ h₂ h₃ h₄ = some r)
      (hhalf : isSurrogate r = true)
      (hlone : ∀ l₁ l₂ l₃ l₄ t, body = 0x5C :: 0x75 :: l₁ :: l₂ :: l₃ :: l₄ :: t →
        (hex4 l₁ l₂ l₃ l₄).bind (surrogatePair r) = none)
      (h : Denotes body v) :
      Denotes (0x5C :: 0x75 :: h₁ :: h₂ :: h₃ :: h₄ :: body) (runeError ++ v)

/-- The reader stops at the closing quote. -/
theorem denotes_of_parseString {s v rest : GoString} (h : parseString s = some (v, rest)) :
    ∃ body, s = body ++ 0x22 :: rest ∧ Denotes body v := by
  fun_induction parseString s generalizing v with
  | case1 => cases h
  | case2 s =>
    obtain ⟨rfl, rfl⟩ := Prod.mk.inj (Option.some.inj h)
    exact ⟨[], rfl, .nil⟩
  | case3 => cases h
  | case4 b s hquote hcontrol hescape ih =>
    obtain ⟨⟨w, r⟩, hp, heq⟩ := Option.map_eq_some_iff.mp h
    obtain ⟨rfl, rfl⟩ := Prod.mk.inj heq
    obtain ⟨body, rfl, hbody⟩ := ih hp
    exact ⟨b :: body, rfl, .plain hquote hescape hcontrol hbody⟩
  | case5 => cases h
  | case6 b hquote hcontrol hescape h₁ h₂ h₃ h₄ r hhex hhalf l₁ l₂ l₃ l₄ t c hpair ih =>
    obtain ⟨⟨w, u⟩, hp, heq⟩ := Option.map_eq_some_iff.mp h
    obtain ⟨rfl, rfl⟩ := Prod.mk.inj heq
    obtain ⟨body, rfl, hbody⟩ := ih hp
    rw [not_not.mp hescape]
    exact ⟨_, rfl, .pair hhex hhalf hpair hbody⟩
  | case7 b hquote hcontrol hescape h₁ h₂ h₃ h₄ r hhex hhalf l₁ l₂ l₃ l₄ t hpair ih =>
    obtain ⟨⟨w, u⟩, hp, heq⟩ := Option.map_eq_some_iff.mp h
    obtain ⟨rfl, rfl⟩ := Prod.mk.inj heq
    obtain ⟨body, hsplit, hbody⟩ := ih hp
    rw [not_not.mp hescape, hsplit]
    refine ⟨_, rfl, .half hhex hhalf (fun m₁ m₂ m₃ m₄ t' hb => ?_) hbody⟩
    rw [hb] at hsplit
    simp only [List.cons_append, List.cons.injEq, true_and] at hsplit
    obtain ⟨rfl, rfl, rfl, rfl, -⟩ := hsplit
    exact hpair
  | case8 b hquote hcontrol hescape h₁ h₂ h₃ h₄ r hhex hhalf s hlone ih =>
    obtain ⟨⟨w, u⟩, hp, heq⟩ := Option.map_eq_some_iff.mp h
    obtain ⟨rfl, rfl⟩ := Prod.mk.inj heq
    obtain ⟨body, rfl, hbody⟩ := ih hp
    rw [not_not.mp hescape]
    refine ⟨_, rfl, .half hhex hhalf (fun l₁ l₂ l₃ l₄ t hb => ?_) hbody⟩
    exact absurd (by rw [hb]; rfl) (hlone l₁ l₂ l₃ l₄ (t ++ 0x22 :: u))
  | case9 b hquote hcontrol hescape h₁ h₂ h₃ h₄ s r hhex hrune ih =>
    obtain ⟨⟨w, u⟩, hp, heq⟩ := Option.map_eq_some_iff.mp h
    obtain ⟨rfl, rfl⟩ := Prod.mk.inj heq
    obtain ⟨body, rfl, hbody⟩ := ih hp
    rw [not_not.mp hescape]
    exact ⟨_, rfl, .rune hhex (Bool.eq_false_iff.mpr hrune) hbody⟩
  | case10 b hquote hcontrol hescape c s hunicode e he ih =>
    obtain ⟨⟨w, u⟩, hp, heq⟩ := Option.map_eq_some_iff.mp h
    obtain ⟨rfl, rfl⟩ := Prod.mk.inj heq
    obtain ⟨body, rfl, hbody⟩ := ih hp
    rw [not_not.mp hescape]
    exact ⟨_, rfl, .simple he hbody⟩
  | case11 => cases h
  | case12 => cases h

/-- An escape is not cut by the closing quote. -/
theorem Denotes.escape_of_append {body v rest : GoString} (h : Denotes body v) {l₁ l₂ l₃ l₄ : UInt8}
    {t : GoString} (hbody : body ++ 0x22 :: rest = 0x5C :: 0x75 :: l₁ :: l₂ :: l₃ :: l₄ :: t) :
    ∃ t', body = 0x5C :: 0x75 :: l₁ :: l₂ :: l₃ :: l₄ :: t' := by
  cases h with
  | nil => exact absurd (List.cons.inj hbody).1 (by decide)
  | plain _ hescape => exact absurd (List.cons.inj hbody).1 hescape
  | simple he =>
    simp only [List.cons_append, List.cons.injEq, true_and] at hbody
    rw [hbody.1, show simpleEscape 0x75 = none by decide] at he
    cases he
  | rune | pair | half =>
    simp only [List.cons_append, List.cons.injEq, true_and] at hbody
    obtain ⟨rfl, rfl, rfl, rfl, -⟩ := hbody
    exact ⟨_, rfl⟩

/-- **A literal is read whatever follows it.** -/
theorem Denotes.parseString_eq {body v : GoString} (h : Denotes body v) (rest : GoString) :
    parseString (body ++ 0x22 :: rest) = some (v, rest) := by
  induction h with
  | nil => rw [List.nil_append, parseString.eq_def]; rfl
  | plain hquote hescape hcontrol _ ih =>
    rw [List.cons_append, parseString.eq_def]
    simp [hquote, hescape, hcontrol, ih]
  | @simple c e body v he _ ih =>
    have hc : c ≠ 0x75 := by
      rintro rfl
      rw [show simpleEscape 0x75 = none by decide] at he
      cases he
    simp only [List.cons_append]
    rw [parseString.eq_def]
    simp [hc, he, ih]
  | rune hhex hrune _ ih =>
    simp only [List.cons_append]
    rw [parseString.eq_def]
    simp [hhex, hrune, ih]
  | pair hhex hhalf hpair _ ih =>
    simp only [List.cons_append]
    rw [parseString.eq_def]
    simp [hhex, hhalf, hpair, ih]
  | half hhex hhalf hlone hbody ih =>
    -- a lone half: the parser looks ahead for the other one, over the closing quote
    simp only [List.cons_append]
    rw [parseString.eq_def]
    simp only [hhex, hhalf, if_true, show (0x5C : UInt8) ≠ 0x22 by decide,
      show ¬ (0x5C : UInt8) < 0x20 by decide, if_false, ne_eq, not_true_eq_false]
    split
    · -- the other half would have to be in the literal
      rename_i l₁ l₂ l₃ l₄ t hsplit
      obtain ⟨t', ht'⟩ := hbody.escape_of_append hsplit
      rw [hlone l₁ l₂ l₃ l₄ t' ht']
      simp only
      rw [← hsplit, ih]
      rfl
    · rw [ih]
      rfl

/-- What a literal denotes is one string. -/
theorem Denotes.unique {body v w : GoString} (hv : Denotes body v) (hw : Denotes body w) :
    v = w := by
  have heq := (hv.parseString_eq []).symm.trans (hw.parseString_eq [])
  exact (Prod.mk.inj (Option.some.inj heq)).1

/-- Two readings of one text end at the same quote. -/
theorem Denotes.body_unique {body body' v v' rest rest' : GoString} (h : Denotes body v)
    (h' : Denotes body' v') (heq : body ++ 0x22 :: rest = body' ++ 0x22 :: rest') :
    body = body' ∧ rest = rest' := by
  have hread := h.parseString_eq rest
  rw [heq, h'.parseString_eq rest'] at hread
  obtain ⟨-, rfl⟩ := Prod.mk.inj (Option.some.inj hread)
  exact ⟨List.append_cancel_right heq, rfl⟩

/-! ### Quotes and backslashes -/

/-- Where a reader is that looks at nothing else. -/
inductive QuoteState where
  | outside
  | inside
  /-- After a backslash in a string. -/
  | escape
  /-- There was a backslash outside of a string. -/
  | stuck
  deriving DecidableEq

def QuoteState.step : QuoteState → UInt8 → QuoteState
  | .outside, b => if b = 0x22 then .inside else if b = 0x5C then .stuck else .outside
  | .inside, b => if b = 0x22 then .outside else if b = 0x5C then .escape else .inside
  | .escape, _ => .inside
  | .stuck, _ => .stuck

def QuoteState.run (q : QuoteState) (s : GoString) : QuoteState := s.foldl QuoteState.step q

namespace QuoteState

@[simp] theorem run_nil (q : QuoteState) : q.run [] = q := rfl

@[simp] theorem run_cons (q : QuoteState) (b : UInt8) (s : GoString) :
    q.run (b :: s) = (q.step b).run s := rfl

@[simp] theorem run_append (q : QuoteState) (s t : GoString) : q.run (s ++ t) = (q.run s).run t :=
  List.foldl_append ..

@[simp] theorem run_stuck (s : GoString) : stuck.run s = stuck := by
  induction s with
  | nil => rfl
  | cons b s ih => exact ih

/-- **No text ends outside of strings from either side of a quote**: each quote takes one
reader in and the other out. -/
theorem not_both_outside (s : GoString) : ¬ (outside.run s = outside ∧ inside.run s = outside) := by
  induction s with
  | nil =>
    rintro ⟨-, h⟩
    cases h
  | cons b s ih =>
    rintro ⟨hout, hin⟩
    simp only [run_cons, step] at hout hin
    by_cases hquote : b = 0x22
    · rw [if_pos hquote] at hout hin
      exact ih ⟨hin, hout⟩
    · rw [if_neg hquote] at hout hin
      by_cases hescape : b = 0x5C
      · rw [if_pos hescape, run_stuck] at hout
        cases hout
      · rw [if_neg hescape] at hout hin
        exact ih ⟨hout, hin⟩

end QuoteState

/-- The inside of a literal, for such a reader: it does not come to the closing quote. -/
structure Enclosed (body : GoString) : Prop where
  run_eq : QuoteState.inside.run body = .inside
  not_outside : ∀ p, p <+: body → QuoteState.inside.run p ≠ .outside

theorem Enclosed.nil : Enclosed [] where
  run_eq := rfl
  not_outside := by
    intro p hp
    rw [List.prefix_nil.mp hp]
    decide

theorem Enclosed.plain {b : UInt8} {body : GoString} (h : Enclosed body) (hquote : b ≠ 0x22)
    (hescape : b ≠ 0x5C) : Enclosed (b :: body) := by
  have hstep : QuoteState.inside.step b = .inside := by simp [QuoteState.step, hquote, hescape]
  refine ⟨by rw [QuoteState.run_cons, hstep, h.run_eq], fun p hp => ?_⟩
  rcases List.prefix_cons_iff.mp hp with rfl | ⟨t, rfl, ht⟩
  · decide
  · rw [QuoteState.run_cons, hstep]
    exact h.not_outside t ht

theorem Enclosed.escape {c : UInt8} {body : GoString} (h : Enclosed body) :
    Enclosed (0x5C :: c :: body) := by
  refine ⟨h.run_eq, fun p hp => ?_⟩
  rcases List.prefix_cons_iff.mp hp with rfl | ⟨t, rfl, ht⟩
  · decide
  · rcases List.prefix_cons_iff.mp ht with rfl | ⟨u, rfl, hu⟩
    · decide
    · exact h.not_outside u hu

theorem hexValue_ne {b : UInt8} {n : Nat} (h : hexValue b = some n) : b ≠ 0x22 ∧ b ≠ 0x5C := by
  constructor
  · rintro rfl
    cases h
  · rintro rfl
    cases h

/-- Four hexadecimal digits in a literal. -/
theorem Enclosed.hex4 {a b c d : UInt8} {r : Nat} {body : GoString} (h : Enclosed body)
    (hhex : Go.hex4 a b c d = some r) : Enclosed (a :: b :: c :: d :: body) := by
  simp only [Go.hex4, Option.bind_eq_bind, Option.bind_eq_some_iff] at hhex
  obtain ⟨_, ha, _, hb, _, hc, _, hd, -⟩ := hhex
  exact (((h.plain (hexValue_ne hd).1 (hexValue_ne hd).2).plain (hexValue_ne hc).1
    (hexValue_ne hc).2).plain (hexValue_ne hb).1 (hexValue_ne hb).2).plain (hexValue_ne ha).1
    (hexValue_ne ha).2

/-- **Quotes and backslashes tell where a literal ends.** -/
theorem Denotes.enclosed {body v : GoString} (h : Denotes body v) : Enclosed body := by
  induction h with
  | nil => exact .nil
  | plain hquote hescape _ _ ih => exact ih.plain hquote hescape
  | simple _ _ ih => exact ih.escape
  | rune hhex _ _ ih => exact (ih.hex4 hhex).escape
  | pair hhex _ hpair _ ih =>
    obtain ⟨_, hlow, -⟩ := Option.bind_eq_some_iff.mp hpair
    exact ((ih.hex4 hlow).escape.hex4 hhex).escape
  | half hhex _ _ _ ih => exact (ih.hex4 hhex).escape

/-- A whole literal takes such a reader in and out again. -/
theorem Denotes.run_literal {body v : GoString} (h : Denotes body v) :
    QuoteState.outside.run (0x22 :: (body ++ [0x22])) = .outside := by
  have hin : QuoteState.outside.step 0x22 = .inside := rfl
  rw [QuoteState.run_cons, hin, QuoteState.run_append, h.enclosed.run_eq]
  rfl

/-! ### Number literals -/

theorem isDigit_of_mem_takeWhile {s : GoString} : ∀ b ∈ s.takeWhile isDigit, isDigit b = true :=
  fun _ hb => List.mem_takeWhile_imp hb

theorem scanExpSign_append (s : GoString) : (scanExpSign s).1 ++ (scanExpSign s).2 = s := by
  unfold scanExpSign
  split <;> rfl

/-- A sign before digits is read again. -/
theorem scanExpSign_text (s : GoString) {ds : GoString} (hds : ∀ b ∈ ds, isDigit b = true)
    (hne : ds ≠ []) (u : GoString) :
    scanExpSign ((scanExpSign s).1 ++ (ds ++ u)) = ((scanExpSign s).1, ds ++ u) := by
  have hsign : (scanExpSign s).1 = [0x2B] ∨ (scanExpSign s).1 = [0x2D] ∨
      (scanExpSign s).1 = [] := by
    unfold scanExpSign
    split
    · exact Or.inl rfl
    · exact Or.inr (Or.inl rfl)
    · exact Or.inr (Or.inr rfl)
  rcases hsign with hsign | hsign | hsign
  · rw [hsign]
    rfl
  · rw [hsign]
    rfl
  · obtain ⟨d, ds, rfl⟩ := List.exists_cons_of_ne_nil hne
    have hd := hds d (List.mem_cons_self ..)
    rw [hsign, List.nil_append, List.cons_append, scanExpSign]
    · rintro t ht
      rw [(List.cons.inj ht).1] at hd
      cases hd
    · rintro t ht
      rw [(List.cons.inj ht).1] at hd
      cases hd

theorem scanExp_text {s e r : GoString} (h : scanExp s = some (e, r)) :
    s = e ++ r ∧ (∀ b ∈ e.head?, b = 0x65 ∨ b = 0x45) ∧
      ∀ u, NumberEnd u → scanExp (e ++ u) = some (e, u) := by
  unfold scanExp at h
  split at h
  · obtain ⟨rfl, rfl⟩ := Prod.mk.inj (Option.some.inj h)
    exact ⟨rfl, fun b hb => (by cases hb), fun u hu => scanExp_end hu⟩
  · rename_i b s
    split at h
    · rename_i hb
      simp only at h
      split at h
      · cases h
      · rename_i hempty
        obtain ⟨rfl, rfl⟩ := Prod.mk.inj (Option.some.inj h)
        refine ⟨?_, fun c hc => ?_, fun u hu => ?_⟩
        · rw [List.cons_append, List.cons_append, List.append_assoc, List.takeWhile_append_dropWhile,
            scanExpSign_append]
        · obtain rfl := Option.some.inj hc
          exact hb
        · have hne : (scanExpSign s).2.takeWhile isDigit ≠ [] := fun hnil =>
            hempty (by rw [hnil]; rfl)
          obtain ⟨htake, hdrop⟩ :=
            takeWhile_isDigit_append (isDigit_of_mem_takeWhile (s := (scanExpSign s).2))
            fun c hc => (hu c hc).1
          rw [List.cons_append, List.cons_append, List.append_assoc, scanExp, if_pos hb,
            scanExpSign_text s isDigit_of_mem_takeWhile hne u]
          simp only [htake, hdrop, hempty]
          rfl
    · obtain ⟨rfl, rfl⟩ := Prod.mk.inj (Option.some.inj h)
      exact ⟨rfl, fun b hb => (by cases hb), fun u hu => scanExp_end hu⟩

theorem scanFrac_text {s f r : GoString} (h : scanFrac s = some (f, r)) :
    s = f ++ r ∧ (∀ b ∈ f.head?, b = 0x2E) ∧
      ∀ u, (∀ b ∈ u.head?, isDigit b = false ∧ b ≠ 0x2E) → scanFrac (f ++ u) = some (f, u) := by
  unfold scanFrac at h
  split at h
  · rename_i s
    split at h
    · cases h
    · rename_i hempty
      obtain ⟨rfl, rfl⟩ := Prod.mk.inj (Option.some.inj h)
      refine ⟨?_, fun c hc => (Option.some.inj hc).symm, fun u hu => ?_⟩
      · rw [List.cons_append, List.takeWhile_append_dropWhile]
      · obtain ⟨htake, hdrop⟩ := takeWhile_isDigit_append (isDigit_of_mem_takeWhile (s := s))
          fun c hc => (hu c hc).1
        rw [List.cons_append, scanFrac, htake, hdrop, if_neg hempty]
  · obtain ⟨rfl, rfl⟩ := Prod.mk.inj (Option.some.inj h)
    refine ⟨rfl, fun b hb => (by cases hb), fun u hu => ?_⟩
    rw [List.nil_append, scanFrac]
    rintro t rfl
    exact (hu 0x2E rfl).2 rfl

theorem scanInt_text {s i r : GoString} (h : scanInt s = some (i, r)) :
    s = i ++ r ∧ (∃ b ds, i = b :: ds ∧ isDigit b = true) ∧
      ∀ u, (∀ b ∈ u.head?, isDigit b = false) → scanInt (i ++ u) = some (i, u) := by
  unfold scanInt at h
  split at h
  · cases h
  · rename_i b s
    split at h
    · rename_i hb
      obtain ⟨rfl, rfl⟩ := Prod.mk.inj (Option.some.inj h)
      refine ⟨rfl, ⟨b, [], rfl, by rw [hb]; rfl⟩, fun u _ => ?_⟩
      rw [List.singleton_append, scanInt, if_pos hb]
    · split at h
      · rename_i hb hdigit
        obtain ⟨rfl, rfl⟩ := Prod.mk.inj (Option.some.inj h)
        refine ⟨?_, ⟨b, _, rfl, hdigit⟩, fun u hu => ?_⟩
        · rw [List.cons_append, List.takeWhile_append_dropWhile]
        · obtain ⟨htake, hdrop⟩ := takeWhile_isDigit_append (isDigit_of_mem_takeWhile (s := s)) hu
          rw [List.cons_append, scanInt, if_neg hb, if_pos hdigit, htake, hdrop]
      · cases h

theorem scanSign_text {s : GoString} {b : UInt8} (hb : isDigit b = true) (u : GoString) :
    scanSign ((scanSign s).1 ++ b :: u) = ((scanSign s).1, b :: u) := by
  have hsign : (scanSign s).1 = [0x2D] ∨ (scanSign s).1 = [] := by
    unfold scanSign
    split
    · exact Or.inl rfl
    · exact Or.inr rfl
  rcases hsign with hsign | hsign
  · rw [hsign]
    rfl
  · rw [hsign, List.nil_append, scanSign]
    rintro t ht
    rw [(List.cons.inj ht).1] at hb
    cases hb

theorem scanSign_append (s : GoString) : (scanSign s).1 ++ (scanSign s).2 = s := by
  unfold scanSign
  split <;> rfl

/-- **A number that is read is a number literal.** -/
theorem isNumberText_of_scanNumber {s text r : GoString} (h : scanNumber s = some (text, r)) :
    s = text ++ r ∧ IsNumberText text := by
  simp only [scanNumber, Option.bind_eq_bind, Option.bind_eq_some_iff] at h
  obtain ⟨⟨int, s₁⟩, hint, ⟨frac, s₂⟩, hfrac, ⟨exp, s₃⟩, hexp, heq⟩ := h
  obtain ⟨rfl, rfl⟩ := Prod.mk.inj (Option.some.inj heq)
  obtain ⟨hsplit, ⟨b, ds, rfl, hb⟩, hreadInt⟩ := scanInt_text hint
  obtain ⟨rfl, hpoint, hreadFrac⟩ := scanFrac_text hfrac
  obtain ⟨rfl, hmark, hreadExp⟩ := scanExp_text hexp
  refine ⟨?_, fun u hu => ?_⟩
  · have hsign := scanSign_append s
    rw [hsplit] at hsign
    simp only [List.append_assoc]
    exact hsign.symm
  · -- each part ends where the next begins
    have hexpEnd : ∀ c ∈ (exp ++ u).head?, isDigit c = false ∧ c ≠ 0x2E := by
      intro c hc
      cases exp with
      | nil => exact ⟨(hu c hc).1, (hu c hc).2.1⟩
      | cons e exp =>
        obtain rfl := Option.some.inj hc
        rcases hmark e rfl with rfl | rfl <;> decide
    have hfracEnd : ∀ c ∈ (frac ++ (exp ++ u)).head?, isDigit c = false := by
      intro c hc
      cases frac with
      | nil => exact (hexpEnd c hc).1
      | cons p frac =>
        obtain rfl := Option.some.inj hc
        rw [hpoint p rfl]
        rfl
    have hi := hreadInt _ hfracEnd
    simp only [scanNumber, List.append_assoc, List.cons_append] at hi ⊢
    rw [scanSign_text hb]
    simp only [hi, hreadFrac _ hexpEnd, hreadExp u hu, Option.bind_eq_bind, Option.bind_some]
    rfl

end Go
