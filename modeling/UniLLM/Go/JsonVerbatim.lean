import UniLLM.Go.JsonLiteral

/-!
# Literals that denote themselves

A string can be put between quotes as it is exactly when it is UTF-8 without quotes,
backslashes and control characters.  For any other string the literal made that way
denotes something else, whatever follows it: escapes denote less than they take, and so
the first quote would have to stand before itself.
-/

namespace Go

/-- A string that is a literal as it is. -/
def Verbatim (s : GoString) : Prop :=
  validString s = true ∧ ∀ b ∈ s, b ≠ 0x22 ∧ b ≠ 0x5C ∧ ¬ b < 0x20

instance (s : GoString) : Decidable (Verbatim s) :=
  @instDecidableAnd _ _ _ (List.decidableBAll _ s)

theorem denotes_self {s : GoString} (h : ∀ b ∈ s, b ≠ 0x22 ∧ b ≠ 0x5C ∧ ¬ b < 0x20) :
    Denotes s s := by
  induction s with
  | nil => exact .nil
  | cons b s ih =>
    obtain ⟨hquote, hescape, hcontrol⟩ := h b (List.mem_cons_self ..)
    exact .plain hquote hescape hcontrol (ih fun c hc => h c (List.mem_cons_of_mem b hc))

/-- How many bytes are below 0x80. -/
def asciiCount (s : GoString) : Nat := s.countP (· < 0x80)

theorem asciiCount_append (s t : GoString) : asciiCount (s ++ t) = asciiCount s + asciiCount t :=
  List.countP_append ..

theorem asciiCount_cons_of_lt {b : UInt8} (h : b < 0x80) (s : GoString) :
    asciiCount (b :: s) = asciiCount s + 1 :=
  List.countP_cons_of_pos (by simpa using h)

theorem asciiCount_le_length (s : GoString) : asciiCount s ≤ s.length := List.countP_le_length

theorem asciiCount_replaceInvalid (s : GoString) :
    asciiCount (replaceInvalid s) = asciiCount s := by
  induction s using runeInduction with
  | nil => rfl
  | rune r s hr ih => rw [replaceInvalid_append hr, asciiCount_append, asciiCount_append, ih]
  | invalid b s hb ih =>
    have hhigh : ¬ b < 0x80 := by
      intro hlow
      rw [runeWidth_ascii hlow] at hb
      cases hb
    have hb' : asciiCount (b :: s) = asciiCount s := List.countP_cons_of_neg (by simpa using hhigh)
    rw [replaceInvalid_cons_invalid hb, asciiCount_append, ih, hb']
    exact Nat.zero_add _

theorem hexValue_ascii {b : UInt8} {n : Nat} (h : hexValue b = some n) : b < 0x80 := by
  have hall : ∀ n, n < 256 → (hexValue (.ofNat n)).isSome = true → (UInt8.ofNat n) < 0x80 := by
    decide +kernel
  have hb := hall b.toNat b.toNat_lt
  rw [UInt8.ofNat_toNat, h] at hb
  exact hb rfl

theorem simpleEscape_ascii {c e : UInt8} (h : simpleEscape c = some e) : c < 0x80 := by
  have hall : ∀ n, n < 256 → (simpleEscape (.ofNat n)).isSome = true → (UInt8.ofNat n) < 0x80 := by
    decide +kernel
  have hc := hall c.toNat c.toNat_lt
  rw [UInt8.ofNat_toNat, h] at hc
  exact hc rfl

theorem asciiCount_hex4 {a b c d : UInt8} {r : Nat} (h : hex4 a b c d = some r) (s : GoString) :
    asciiCount (a :: b :: c :: d :: s) = asciiCount s + 4 := by
  simp only [Go.hex4, Option.bind_eq_bind, Option.bind_eq_some_iff] at h
  obtain ⟨_, ha, _, hb, _, hc, _, hd, -⟩ := h
  rw [asciiCount_cons_of_lt (hexValue_ascii ha), asciiCount_cons_of_lt (hexValue_ascii hb),
    asciiCount_cons_of_lt (hexValue_ascii hc), asciiCount_cons_of_lt (hexValue_ascii hd)]

theorem asciiCount_encodeRune (r : Nat) : asciiCount (encodeRune r) ≤ 4 := by
  refine le_trans (asciiCount_le_length _) ?_
  unfold encodeRune
  split
  · simp
  split
  · simp
  split <;> simp

theorem asciiCount_escape (c : UInt8) (hc : c < 0x80) (s : GoString) :
    asciiCount (0x5C :: c :: s) = asciiCount s + 2 := by
  rw [asciiCount_cons_of_lt (by decide), asciiCount_cons_of_lt hc]

/-- An escape denotes less than it takes. -/
theorem Denotes.asciiCount_le {body v : GoString} (h : Denotes body v) :
    asciiCount v ≤ asciiCount body ∧ (asciiCount v = asciiCount body → 0x5C ∉ body) := by
  induction h with
  | nil => exact ⟨Nat.le_refl _, fun _ => List.not_mem_nil⟩
  | @plain b body v hquote hescape _ _ ih =>
    rw [← List.singleton_append, ← List.singleton_append (l := body),
      asciiCount_append, asciiCount_append]
    refine ⟨by omega, fun heq hm => ?_⟩
    rcases List.mem_append.mp hm with hm | hm
    · exact hescape (List.mem_singleton.mp hm).symm
    · exact ih.2 (by omega) hm
  | @simple c e body v he _ ih =>
    have he' : asciiCount (e :: v) ≤ asciiCount v + 1 := by
      rw [← List.singleton_append, asciiCount_append]
      have := asciiCount_le_length [e]
      rw [List.length_singleton] at this
      omega
    rw [asciiCount_escape c (simpleEscape_ascii he)]
    exact ⟨by omega, fun heq => by omega⟩
  | @rune h₁ h₂ h₃ h₄ r body v hhex _ _ ih =>
    have hr := asciiCount_encodeRune r
    rw [asciiCount_escape _ (by decide), asciiCount_hex4 hhex, asciiCount_append]
    exact ⟨by omega, fun heq => by omega⟩
  | @pair h₁ h₂ h₃ h₄ l₁ l₂ l₃ l₄ r c body v hhex _ hpair _ ih =>
    obtain ⟨_, hlow, -⟩ := Option.bind_eq_some_iff.mp hpair
    have hc := asciiCount_encodeRune c
    rw [asciiCount_escape _ (by decide), asciiCount_hex4 hhex, asciiCount_escape _ (by decide),
      asciiCount_hex4 hlow, asciiCount_append]
    exact ⟨by omega, fun heq => by omega⟩
  | @half h₁ h₂ h₃ h₄ r body v hhex _ _ _ ih =>
    have hr : asciiCount runeError = 0 := rfl
    rw [asciiCount_escape _ (by decide), asciiCount_hex4 hhex, asciiCount_append]
    exact ⟨by omega, fun heq => by omega⟩

theorem eq_cons_of_append {b : UInt8} {s u w : GoString}
    (h : u ++ 0x22 :: w = b :: s) (hb : b ≠ 0x22) :
    ∃ u', u = b :: u' ∧ u' ++ 0x22 :: w = s := by
  cases u with
  | nil => exact absurd (List.cons.inj h).1.symm hb
  | cons c u =>
    obtain ⟨rfl, htail⟩ := List.cons.inj h
    exact ⟨u, rfl, htail⟩

theorem eq_hex4_of_append {a b c d : UInt8} {r : Nat} {s u w : GoString}
    (hhex : hex4 a b c d = some r)
    (h : u ++ 0x22 :: w = a :: b :: c :: d :: s) :
    ∃ u', u = a :: b :: c :: d :: u' ∧ u' ++ 0x22 :: w = s := by
  simp only [Go.hex4, Option.bind_eq_bind, Option.bind_eq_some_iff] at hhex
  obtain ⟨_, ha, _, hb, _, hc, _, hd, -⟩ := hhex
  obtain ⟨u₁, rfl, h₁⟩ := eq_cons_of_append h (hexValue_ne ha).1
  obtain ⟨u₂, rfl, h₂⟩ := eq_cons_of_append h₁ (hexValue_ne hb).1
  obtain ⟨u₃, rfl, h₃⟩ := eq_cons_of_append h₂ (hexValue_ne hc).1
  obtain ⟨u₄, rfl, h₄⟩ := eq_cons_of_append h₃ (hexValue_ne hd).1
  exact ⟨u₄, rfl, h₄⟩

/-- A quote in a literal stands for a quote, further to the front than it is. -/
theorem Denotes.quote {u w v : GoString} (h : Denotes (u ++ 0x22 :: w) v) :
    ∃ v₁ v₂, v = v₁ ++ 0x22 :: v₂ ∧ asciiCount v₁ < asciiCount u := by
  generalize hs : u ++ 0x22 :: w = s at h
  induction h generalizing u with
  | nil => exact absurd hs (by simp)
  | @plain b body v hquote hescape _ _ ih =>
    obtain ⟨u₁, rfl, hs₁⟩ := eq_cons_of_append hs hquote
    obtain ⟨v₁, v₂, rfl, hlt⟩ := ih hs₁
    refine ⟨b :: v₁, v₂, rfl, ?_⟩
    rw [← List.singleton_append, ← List.singleton_append (l := u₁), asciiCount_append, asciiCount_append]
    omega
  | @simple c e body v he _ ih =>
    obtain ⟨u₁, rfl, hs₁⟩ := eq_cons_of_append hs (by decide)
    cases u₁ with
    | nil =>
      -- this is the escaped quote
      obtain ⟨rfl, -⟩ := List.cons.inj hs₁
      obtain rfl := Option.some.inj (he.symm.trans (show simpleEscape 0x22 = some 0x22 by decide))
      exact ⟨[], v, rfl, by decide⟩
    | cons c' u₂ =>
      obtain ⟨rfl, hs₂⟩ := List.cons.inj hs₁
      obtain ⟨v₁, v₂, rfl, hlt⟩ := ih hs₂
      refine ⟨e :: v₁, v₂, rfl, ?_⟩
      have hle := asciiCount_le_length [e]
      rw [List.length_singleton] at hle
      rw [asciiCount_escape _ (simpleEscape_ascii he), ← List.singleton_append, asciiCount_append]
      omega
  | @rune h₁ h₂ h₃ h₄ r body v hhex _ _ ih =>
    obtain ⟨u₁, rfl, hs₁⟩ := eq_cons_of_append hs (by decide)
    obtain ⟨u₂, rfl, hs₂⟩ := eq_cons_of_append hs₁ (by decide)
    obtain ⟨u₃, rfl, hs₃⟩ := eq_hex4_of_append hhex hs₂
    obtain ⟨v₁, v₂, rfl, hlt⟩ := ih hs₃
    refine ⟨encodeRune r ++ v₁, v₂, by rw [List.append_assoc], ?_⟩
    have hr := asciiCount_encodeRune r
    rw [asciiCount_escape _ (by decide), asciiCount_hex4 hhex, asciiCount_append]
    omega
  | @pair h₁ h₂ h₃ h₄ l₁ l₂ l₃ l₄ r c body v hhex _ hpair _ ih =>
    obtain ⟨_, hlow, -⟩ := Option.bind_eq_some_iff.mp hpair
    obtain ⟨u₁, rfl, hs₁⟩ := eq_cons_of_append hs (by decide)
    obtain ⟨u₂, rfl, hs₂⟩ := eq_cons_of_append hs₁ (by decide)
    obtain ⟨u₃, rfl, hs₃⟩ := eq_hex4_of_append hhex hs₂
    obtain ⟨u₄, rfl, hs₄⟩ := eq_cons_of_append hs₃ (by decide)
    obtain ⟨u₅, rfl, hs₅⟩ := eq_cons_of_append hs₄ (by decide)
    obtain ⟨u₆, rfl, hs₆⟩ := eq_hex4_of_append hlow hs₅
    obtain ⟨v₁, v₂, rfl, hlt⟩ := ih hs₆
    refine ⟨encodeRune c ++ v₁, v₂, by rw [List.append_assoc], ?_⟩
    have hc := asciiCount_encodeRune c
    rw [asciiCount_escape _ (by decide), asciiCount_hex4 hhex, asciiCount_escape _ (by decide),
      asciiCount_hex4 hlow, asciiCount_append]
    omega
  | @half h₁ h₂ h₃ h₄ r body v hhex _ _ _ ih =>
    obtain ⟨u₁, rfl, hs₁⟩ := eq_cons_of_append hs (by decide)
    obtain ⟨u₂, rfl, hs₂⟩ := eq_cons_of_append hs₁ (by decide)
    obtain ⟨u₃, rfl, hs₃⟩ := eq_hex4_of_append hhex hs₂
    obtain ⟨v₁, v₂, rfl, hlt⟩ := ih hs₃
    refine ⟨runeError ++ v₁, v₂, by rw [List.append_assoc], ?_⟩
    have hr : asciiCount runeError = 0 := rfl
    rw [asciiCount_escape _ (by decide), asciiCount_hex4 hhex, asciiCount_append]
    omega

/-- A quote is part of no longer rune. -/
theorem runeWidth_quote {b : UInt8} {s : GoString} (h : runeWidth (b :: s) = 0) (t : GoString) :
    runeWidth (b :: (s ++ 0x22 :: t)) = 0 := by
  cases hw : runeWidth (b :: (s ++ 0x22 :: t)) with
  | zero => rfl
  | succ w =>
    have hle := runeWidth_le (b :: (s ++ 0x22 :: t))
    rw [hw, List.length_cons] at hle
    have hrune : IsRune (b :: (s ++ 0x22 :: t).take w) := by
      refine ⟨List.cons_ne_nil _ _, ?_⟩
      rw [runeWidth_take hw, List.length_cons, List.length_take]
      omega
    rcases hrune.ascii_or_high with ⟨c, hc, heq⟩ | hhigh
    · rw [(List.cons.inj heq).1, runeWidth_ascii hc] at h
      cases h
    · have hshort : w ≤ s.length := by
        by_contra hlong
        have hmem : (0x22 : UInt8) ∈ (s ++ 0x22 :: t).take w := by
          rw [List.take_append, List.mem_append]
          right
          obtain ⟨n, hn⟩ : ∃ n, w - s.length = n + 1 := ⟨w - s.length - 1, by omega⟩
          rw [hn, List.take_succ_cons]
          exact List.mem_cons_self ..
        exact absurd (hhigh _ (List.mem_cons_of_mem b hmem)) (by decide)
      rw [List.take_append_of_le_length hshort] at hrune
      have hwidth := hrune.width_append (s.drop w)
      rw [List.cons_append, List.take_append_drop, h, List.length_cons] at hwidth
      cases hwidth

/-- Replacing bytes does not touch what is below 0x80. -/
theorem replaceInvalid_quote (s t : GoString) :
    replaceInvalid (s ++ 0x22 :: t) = replaceInvalid s ++ 0x22 :: replaceInvalid t := by
  induction s using runeInduction with
  | nil =>
    have hquote : IsRune [0x22] := isRune_ascii (by decide)
    rw [List.nil_append, ← List.singleton_append, replaceInvalid_append hquote]
    rfl
  | rune r s hr ih =>
    rw [List.append_assoc, replaceInvalid_append hr, ih, replaceInvalid_append hr,
      List.append_assoc]
  | invalid b s hb ih =>
    have hb' := runeWidth_quote hb t
    rw [List.cons_append, replaceInvalid_cons_invalid hb', ih,
      replaceInvalid_cons_invalid hb, List.append_assoc]

theorem Denotes.no_control {body v : GoString} (h : Denotes body v) (hescape : 0x5C ∉ body) :
    ∀ b ∈ body, ¬ b < 0x20 := by
  induction h with
  | nil => exact fun b hb => absurd hb List.not_mem_nil
  | plain _ _ hcontrol _ ih =>
    intro c hc
    rcases List.mem_cons.mp hc with rfl | hc
    · exact hcontrol
    · exact ih (fun hm => hescape (List.mem_cons_of_mem _ hm)) c hc
  | simple | rune | pair | half => exact absurd (List.mem_cons_self ..) hescape

/-- **Only a string that is a literal as it is denotes itself**, and nothing more of a
literal may follow it. -/
theorem verbatim_of_denotes {s t v : GoString} (h : Denotes (s ++ t) v)
    (ht : ∀ b ∈ t.head?, b = 0x22)
    (hv : replaceInvalid v = s) : t = [] ∧ Verbatim s := by
  -- the first quote of `s` would stand for one before it
  have hquote : 0x22 ∉ s := by
    intro hm
    obtain ⟨u, w, hs, hu⟩ := List.eq_append_cons_of_mem hm
    rw [hs, List.append_assoc, List.cons_append] at h
    obtain ⟨v₁, v₂, rfl, hlt⟩ := h.quote
    rw [replaceInvalid_quote, hs] at hv
    have hle : asciiCount u ≤ asciiCount (replaceInvalid v₁) := by
      rcases List.append_eq_append_iff.mp hv with ⟨a, ha, hb⟩ | ⟨a, ha, -⟩
      · cases a with
        | nil => rw [ha, List.append_nil]
        | cons b a =>
          refine absurd ?_ hu
          rw [ha, (List.cons.inj hb).1]
          exact List.mem_append_right _ (List.mem_cons_self ..)
      · rw [ha, asciiCount_append]
        omega
    rw [asciiCount_replaceInvalid] at hle
    omega
  have hnil : t = [] := by
    cases t with
    | nil => rfl
    | cons b t =>
      obtain rfl := ht b rfl
      obtain ⟨v₁, v₂, rfl, -⟩ := h.quote
      rw [replaceInvalid_quote] at hv
      rw [← hv] at hquote
      exact absurd (by simp) hquote
  subst hnil
  rw [List.append_nil] at h
  have hvalid : validString s = true := by
    rw [← hv]
    exact validString_replaceInvalid v
  have hcount : asciiCount v = asciiCount s := by rw [← hv, asciiCount_replaceInvalid]
  have hescape := h.asciiCount_le.2 hcount
  exact ⟨rfl, hvalid, fun b hb =>
    ⟨fun he => hquote (he ▸ hb), fun he => hescape (he ▸ hb), h.no_control hescape b hb⟩⟩

end Go
