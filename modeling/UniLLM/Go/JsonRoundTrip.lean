import UniLLM.Go.Json

/-!
# What `json.Marshal` writes, `json.Unmarshal` reads back

`parse_encode`: the text of a tree parses to the same tree, provided its strings
are UTF-8, its numbers are number literals and it is not nested too deeply
(`Json.Clean`, `Json.depth`).  The strings carry the work: `parseString_quoteBody`
goes through the string rune by rune, and each rune is either copied or escaped.
-/

namespace Go

/-! ### Valid UTF-8 -/

theorem replaceInvalid_append {r : GoString} (h : IsRune r) (s : GoString) :
    replaceInvalid (r ++ s) = r ++ replaceInvalid s := by
  rw [replaceInvalid, runes_append h]
  rfl

theorem replaceInvalid_cons_invalid {b : UInt8} {s : GoString} (h : runeWidth (b :: s) = 0) :
    replaceInvalid (b :: s) = runeError ++ replaceInvalid s := by
  rw [replaceInvalid, runes_cons_invalid h]
  rfl

theorem validString_append {r : GoString} (h : IsRune r) (s : GoString) :
    validString (r ++ s) = validString s := by
  rw [validString, runes_append h]
  rfl

theorem validString_cons_invalid {b : UInt8} {s : GoString} (h : runeWidth (b :: s) = 0) :
    validString (b :: s) = false := by
  rw [validString, runes_cons_invalid h]
  rfl

theorem validString_concat {s t : GoString} (hs : validString s = true)
    (ht : validString t = true) : validString (s ++ t) = true := by
  induction s using runeInduction with
  | nil => exact ht
  | rune r s hr ih =>
    rw [validString_append hr] at hs
    rw [List.append_assoc, validString_append hr]
    exact ih hs
  | invalid b s hb =>
    rw [validString_cons_invalid hb] at hs
    cases hs

theorem validString_flatten {ss : List GoString} (h : ∀ s ∈ ss, validString s = true) :
    validString ss.flatten = true := by
  induction ss with
  | nil => rfl
  | cons s ss ih =>
    rw [List.forall_mem_cons] at h
    exact validString_concat h.1 (ih h.2)

theorem isRune_runeError : IsRune runeError := ⟨by decide, by decide⟩

/-- Nothing is replaced in valid UTF-8. -/
theorem replaceInvalid_of_valid {s : GoString} (h : validString s = true) :
    replaceInvalid s = s := by
  induction s using runeInduction with
  | nil => rfl
  | rune r s hr ih =>
    rw [validString_append hr] at h
    rw [replaceInvalid_append hr, ih h]
  | invalid b s hb =>
    rw [validString_cons_invalid hb] at h
    cases h

/-- Replacing yields valid UTF-8. -/
theorem validString_replaceInvalid (s : GoString) : validString (replaceInvalid s) = true := by
  induction s using runeInduction with
  | nil => rfl
  | rune r s hr ih => rw [replaceInvalid_append hr, validString_append hr, ih]
  | invalid b s hb ih =>
    rw [replaceInvalid_cons_invalid hb, validString_append isRune_runeError, ih]

/-! ### Strings -/

theorem hexValue_hexDigit {n : Nat} (h : n < 16) : hexValue (hexDigit n) = some n :=
  (by decide : ∀ n, n < 16 → hexValue (hexDigit n) = some n) n h

/-- Bytes from 0x80 on are copied. -/
theorem parseString_high {r : GoString} (h : ∀ b ∈ r, 0x80 ≤ b) (s : GoString) :
    parseString (r ++ s) = (parseString s).map fun p => (r ++ p.1, p.2) := by
  induction r with
  | nil => simp
  | cons b r ih =>
    have hb : 0x80 ≤ b := h b (List.mem_cons_self ..)
    have hlow : ∀ c : UInt8, c < 0x80 → b ≠ c := by
      rintro c hc rfl
      exact absurd hb (UInt8.not_le.mpr hc)
    have hctl : ¬ b < 0x20 := UInt8.not_lt.mpr (UInt8.le_trans (by decide) hb)
    rw [List.cons_append, parseString.eq_def]
    simp only [hlow 0x22 (by decide), hlow 0x5C (by decide), hctl, if_false, ne_eq,
      not_false_eq_true, if_true]
    rw [ih fun c hc => h c (List.mem_cons_of_mem b hc)]
    simp [Function.comp_def]

/-- A byte below 0x80 is read back from the way it was written. -/
theorem parseString_quoteByte {b : UInt8} (h : b < 0x80) (s : GoString) :
    parseString (quoteByte b ++ s) = (parseString s).map fun p => (b :: p.1, p.2) := by
  have hnat : b.toNat < 128 := h
  unfold quoteByte
  split
  · subst b; rw [List.cons_append, parseString.eq_def]; rfl
  split
  · subst b; rw [List.cons_append, parseString.eq_def]; rfl
  split
  · subst b; rw [List.cons_append, parseString.eq_def]; rfl
  split
  · subst b; rw [List.cons_append, parseString.eq_def]; rfl
  split
  · subst b; rw [List.cons_append, parseString.eq_def]; rfl
  split
  · subst b; rw [List.cons_append, parseString.eq_def]; rfl
  split
  · subst b; rw [List.cons_append, parseString.eq_def]; rfl
  split
  · have hhex : hex4 0x30 0x30 (hexDigit (b.toNat / 16)) (hexDigit (b.toNat % 16))
        = some b.toNat := by
      have h0 : hexValue 0x30 = some 0 := by decide
      have hsum : b.toNat / 16 * 16 + b.toNat % 16 = b.toNat := by omega
      simp [hex4, h0, hexValue_hexDigit (by omega : b.toNat / 16 < 16),
        hexValue_hexDigit (by omega : b.toNat % 16 < 16), hsum]
    have hsur : isSurrogate b.toNat = false := by
      simp [isSurrogate]; omega
    have henc : encodeRune b.toNat = [b] := by simp [encodeRune, hnat]
    simp only [List.cons_append, List.nil_append]
    rw [parseString.eq_def]
    simp [hhex, hsur, henc]
  · rename_i hquote hback _ _ _ _ _ hplain
    have hctl : ¬ b < 0x20 := fun hc => hplain (Or.inl hc)
    rw [List.cons_append, parseString.eq_def]
    simp [hquote, hback, hctl]

/-- How a rune is written: a byte, one of the two line ends of JavaScript, or as it is. -/
theorem quoteRune_cases (r : GoString) :
    (∃ b, r = [b] ∧ quoteRune (some r) = quoteByte b) ∨
    (r = [0xE2, 0x80, 0xA8] ∧ quoteRune (some r) = [0x5C, 0x75, 0x32, 0x30, 0x32, 0x38]) ∨
    (r = [0xE2, 0x80, 0xA9] ∧ quoteRune (some r) = [0x5C, 0x75, 0x32, 0x30, 0x32, 0x39]) ∨
    ((∀ b, r ≠ [b]) ∧ quoteRune (some r) = r) := by
  by_cases hbyte : ∃ b, r = [b]
  · obtain ⟨b, rfl⟩ := hbyte
    exact .inl ⟨b, rfl, rfl⟩
  · have hne : ∀ b, r ≠ [b] := fun b hb => hbyte ⟨b, hb⟩
    have hrune : quoteRune (some r) =
        if r = [0xE2, 0x80, 0xA8] then [0x5C, 0x75, 0x32, 0x30, 0x32, 0x38]
        else if r = [0xE2, 0x80, 0xA9] then [0x5C, 0x75, 0x32, 0x30, 0x32, 0x39]
        else r := by
      unfold quoteRune
      split
      · rename_i he
        cases he
      · rename_i b he
        exact absurd (Option.some.inj he) (hne b)
      · rename_i r' _ he
        obtain rfl := Option.some.inj he
        rfl
    rw [hrune]
    by_cases hline : r = [0xE2, 0x80, 0xA8]
    · exact .inr (.inl ⟨hline, if_pos hline⟩)
    · by_cases hparagraph : r = [0xE2, 0x80, 0xA9]
      · exact .inr (.inr (.inl ⟨hparagraph, by rw [if_neg hline, if_pos hparagraph]⟩))
      · exact .inr (.inr (.inr ⟨hne, by rw [if_neg hline, if_neg hparagraph]⟩))

theorem IsRune.byte_lt {b : UInt8} (h : IsRune [b]) : b < 0x80 := by
  rcases h.ascii_or_high with ⟨c, hc, heq⟩ | hhigh
  · rwa [(List.cons.inj heq).1]
  · have hw := h.2
    have hb : ¬ b < 0x80 := UInt8.not_lt.mpr (hhigh b (List.mem_cons_self ..))
    simp [runeWidth, hb] at hw

/-- A rune that is no byte has high bytes only. -/
theorem IsRune.high {r : GoString} (h : IsRune r) (hne : ∀ b, r ≠ [b]) : ∀ b ∈ r, 0x80 ≤ b := by
  rcases h.ascii_or_high with ⟨b, -, rfl⟩ | hhigh
  · exact absurd rfl (hne b)
  · exact hhigh

/-- A rune is read back from the way it was written. -/
theorem parseString_quoteRune {r : GoString} (h : IsRune r) (s : GoString) :
    parseString (quoteRune (some r) ++ s) = (parseString s).map fun p => (r ++ p.1, p.2) := by
  rcases quoteRune_cases r with ⟨b, rfl, hquote⟩ | ⟨rfl, hquote⟩ | ⟨rfl, hquote⟩ | ⟨hne, hquote⟩
  · rw [hquote]
    exact parseString_quoteByte h.byte_lt s
  · rw [hquote, List.cons_append, parseString.eq_def]
    rfl
  · rw [hquote, List.cons_append, parseString.eq_def]
    rfl
  · rw [hquote]
    exact parseString_high (h.high hne) s

/-- **A string is read back from its literal**, with U+FFFD for what is not UTF-8. -/
theorem parseString_quoteBody (s t : GoString) :
    parseString (quoteBody s ++ 0x22 :: t) = some (replaceInvalid s, t) := by
  induction s using runeInduction with
  | nil =>
    rw [quoteBody, runes_nil, parseString.eq_def]
    rfl
  | rune r s hr ih =>
    rw [quoteBody, runes_append hr, List.flatMap_cons, List.append_assoc, parseString_quoteRune hr]
    rw [quoteBody] at ih
    rw [ih, replaceInvalid_append hr]
    rfl
  | invalid b s hb ih =>
    rw [quoteBody, runes_cons_invalid hb, List.flatMap_cons, List.append_assoc]
    rw [quoteBody] at ih
    simp only [quoteRune, List.cons_append, List.nil_append]
    rw [parseString.eq_def]
    have hhex : hex4 0x66 0x66 0x66 0x64 = some 0xFFFD := by decide
    have hsur : isSurrogate 0xFFFD = false := by decide
    have henc : encodeRune 0xFFFD = runeError := by decide
    simp [hhex, hsur, henc, ih, replaceInvalid_cons_invalid hb]

/-! ### Trees that survive -/

/-- A number literal, wherever it stands. -/
def IsNumberText (text : GoString) : Prop :=
  ∀ s, NumberEnd s → scanNumber (text ++ s) = some (text, s)

theorem isNumberText_formatInt (i : Int) : IsNumberText (formatInt i) :=
  fun _ hs => scanNumber_formatInt i hs

mutual

/-- Strings and keys are UTF-8 and numbers are literals. -/
def Json.Clean : Json → Prop
  | .null => True
  | .bool _ => True
  | .num text => IsNumberText text
  | .str s => validString s = true
  | .arr vs => CleanElems vs
  | .obj fs => CleanFields fs

/-- `Json.Clean` of every element. -/
def CleanElems : List Json → Prop
  | [] => True
  | v :: vs => v.Clean ∧ CleanElems vs

/-- `Json.Clean` of every member. -/
def CleanFields : List (GoString × Json) → Prop
  | [] => True
  | (k, v) :: fs => validString k = true ∧ v.Clean ∧ CleanFields fs

end

mutual

/-- How deep brackets are nested. -/
def Json.depth : Json → Nat
  | .arr vs => depthElems vs + 1
  | .obj fs => depthFields fs + 1
  | _ => 0

/-- The deepest element. -/
def depthElems : List Json → Nat
  | [] => 0
  | v :: vs => max v.depth (depthElems vs)

/-- The deepest member. -/
def depthFields : List (GoString × Json) → Nat
  | [] => 0
  | (_, v) :: fs => max v.depth (depthFields fs)

end

mutual

/-- The fuel the reader needs. -/
def Json.size : Json → Nat
  | .arr vs => sizeElems vs + 1
  | .obj fs => sizeFields fs + 1
  | _ => 1

/-- The fuel for a list of elements. -/
def sizeElems : List Json → Nat
  | [] => 0
  | v :: vs => v.size + sizeElems vs + 1

/-- The fuel for a list of members. -/
def sizeFields : List (GoString × Json) → Nat
  | [] => 0
  | (_, v) :: fs => v.size + sizeFields fs + 1

end

theorem one_le_length_quote (s : GoString) : 2 ≤ (quote s).length := by
  simp [quote]

theorem IsNumberText.ne_nil {text : GoString} (h : IsNumberText text) : text ≠ [] := by
  rintro rfl
  have hempty := h [] (by intro b hb; cases hb)
  simp [scanNumber, scanSign, scanInt] at hempty

mutual

/-- The fuel never exceeds the text. -/
theorem Json.size_le : ∀ v : Json, v.Clean → v.size ≤ v.encode.length
  | .null, _ => by simp [Json.size, Json.encode, show (lit "null").length = 4 by decide]
  | .bool true, _ => by simp [Json.size, Json.encode, show (lit "true").length = 4 by decide]
  | .bool false, _ => by simp [Json.size, Json.encode, show (lit "false").length = 5 by decide]
  | .num text, h => by
      rw [Json.Clean] at h
      simp only [Json.size, Json.encode]
      exact List.length_pos_iff.mpr h.ne_nil
  | .str s, _ => by
      have := one_le_length_quote s
      simp only [Json.size, Json.encode]
      omega
  | .arr [], _ => by simp [Json.size, sizeElems, Json.encode]
  | .arr (v :: vs), h => by
      rw [Json.Clean, CleanElems] at h
      have hv := Json.size_le v h.1
      have hvs := sizeElems_le vs h.2
      simp only [Json.size, sizeElems, Json.encode, List.length_cons, List.length_append]
      omega
  | .obj [], _ => by simp [Json.size, sizeFields, Json.encode]
  | .obj ((k, v) :: fs), h => by
      rw [Json.Clean, CleanFields] at h
      have hv := Json.size_le v h.2.1
      have hfs := sizeFields_le fs h.2.2
      simp only [Json.size, sizeFields, Json.encode, List.length_cons, List.length_append]
      omega

theorem sizeElems_le : ∀ vs : List Json, CleanElems vs → sizeElems vs + 1 ≤ (encodeElems vs).length
  | [], _ => by simp [sizeElems, encodeElems]
  | v :: vs, h => by
      rw [CleanElems] at h
      have hv := Json.size_le v h.1
      have hvs := sizeElems_le vs h.2
      simp only [sizeElems, encodeElems, List.length_cons, List.length_append]
      omega

theorem sizeFields_le : ∀ fs : List (GoString × Json), CleanFields fs →
    sizeFields fs + 1 ≤ (encodeFields fs).length
  | [], _ => by simp [sizeFields, encodeFields]
  | (k, v) :: fs, h => by
      rw [CleanFields] at h
      have hv := Json.size_le v h.2.1
      have hfs := sizeFields_le fs h.2.2
      simp only [sizeFields, encodeFields, List.length_cons, List.length_append]
      omega

end

/-! ### How values and their ends begin -/

/-- The bytes a value starts with are neither white space nor closing brackets. -/
def StartsValue (s : GoString) : Prop :=
  ∃ b t, s = b :: t ∧ isJsonSpace b = false ∧ b ≠ 0x5D ∧ b ≠ 0x7D

theorem StartsValue.append {s : GoString} (h : StartsValue s) (t : GoString) :
    StartsValue (s ++ t) := by
  obtain ⟨b, u, rfl, hb⟩ := h
  exact ⟨b, u ++ t, rfl, hb⟩

theorem skipSpace_of_startsValue {s : GoString} (h : StartsValue s) : skipSpace s = s := by
  obtain ⟨b, t, rfl, hb, -⟩ := h
  simp [skipSpace, hb]

/-- What a number literal starts with. -/
theorem IsNumberText.head {text : GoString} (h : IsNumberText text) :
    ∃ b t, text = b :: t ∧ (b = 0x2D ∨ isDigit b = true) := by
  have hscan := h [] (by intro b hb; cases hb)
  rw [List.append_nil] at hscan
  match text, h.ne_nil with
  | b :: t, _ =>
    refine ⟨b, t, rfl, ?_⟩
    by_cases hb : b = 0x2D
    · exact Or.inl hb
    · right
      have hsign : scanSign (b :: t) = ([], b :: t) := by
        rw [scanSign]
        intro s hs
        exact absurd (List.cons.inj hs).1 hb
      by_contra hdigit
      have hzero : b ≠ 0x30 := by
        rintro rfl
        exact hdigit (by decide)
      simp [scanNumber, hsign, scanInt, hzero, hdigit] at hscan

theorem digit_facts {b : UInt8} (h : b = 0x2D ∨ isDigit b = true) :
    isJsonSpace b = false ∧ b ≠ 0x22 ∧ b ≠ 0x5B ∧ b ≠ 0x5D ∧ b ≠ 0x7B ∧ b ≠ 0x7D ∧ b ≠ 0x6E ∧
      b ≠ 0x74 ∧ b ≠ 0x66 := by
  rcases h with rfl | h
  · decide
  · have hfalse : ∀ c : UInt8, isDigit c = false → b ≠ c := by
      rintro c hc rfl
      rw [hc] at h
      cases h
    refine ⟨?_, hfalse _ (by decide), hfalse _ (by decide), hfalse _ (by decide),
      hfalse _ (by decide), hfalse _ (by decide), hfalse _ (by decide), hfalse _ (by decide),
      hfalse _ (by decide)⟩
    simp [isJsonSpace, hfalse 0x20 (by decide), hfalse 0x09 (by decide), hfalse 0x0A (by decide),
      hfalse 0x0D (by decide)]

theorem Json.startsValue : ∀ v : Json, v.Clean → StartsValue v.encode
  | .null, _ => ⟨0x6E, lit "ull", by rw [Json.encode]; decide, by decide⟩
  | .bool true, _ => ⟨0x74, lit "rue", by rw [Json.encode]; decide, by decide⟩
  | .bool false, _ => ⟨0x66, lit "alse", by rw [Json.encode]; decide, by decide⟩
  | .num text, h => by
      rw [Json.Clean] at h
      obtain ⟨b, t, rfl, hb⟩ := h.head
      obtain ⟨hsp, -, -, hbr, -, hbc, -⟩ := digit_facts hb
      exact ⟨b, t, by rw [Json.encode], hsp, hbr, hbc⟩
  | .str s, _ => ⟨0x22, quoteBody s ++ [0x22], by rw [Json.encode, quote], by decide⟩
  | .arr [], _ => ⟨0x5B, [0x5D], by rw [Json.encode], by decide⟩
  | .arr (v :: vs), _ => ⟨0x5B, _, by rw [Json.encode], by decide⟩
  | .obj [], _ => ⟨0x7B, [0x7D], by rw [Json.encode], by decide⟩
  | .obj ((k, v) :: fs), _ => ⟨0x7B, _, by rw [Json.encode], by decide⟩

/-- Closing brackets and commas end a number. -/
theorem numberEnd_cons {b : UInt8} {s : GoString}
    (h : isDigit b = false ∧ b ≠ 0x2E ∧ b ≠ 0x65 ∧ b ≠ 0x45) : NumberEnd (b :: s) := by
  intro c hc
  obtain rfl := Option.some.inj hc
  exact h

theorem numberEnd_encodeElems (vs : List Json) (s : GoString) :
    NumberEnd (encodeElems vs ++ s) := by
  cases vs with
  | nil => rw [encodeElems]; exact numberEnd_cons (by decide)
  | cons v vs => rw [encodeElems]; exact numberEnd_cons (by decide)

theorem numberEnd_encodeFields (fs : List (GoString × Json)) (s : GoString) :
    NumberEnd (encodeFields fs ++ s) := by
  cases fs with
  | nil => rw [encodeFields]; exact numberEnd_cons (by decide)
  | cons f fs => obtain ⟨k, v⟩ := f; rw [encodeFields]; exact numberEnd_cons (by decide)

/-! ### The round trip -/

theorem expect_append (p s : GoString) : expect p (p ++ s) = some s := by
  simp [expect]

mutual

theorem parseValue_encode : ∀ (v : Json) (n d : Nat) (s : GoString), v.Clean → v.size ≤ n →
    v.depth ≤ d → NumberEnd s → parseValue n d (v.encode ++ s) = some (v, s)
  | v, 0, _, _, _, hn, _, _ => by
      cases v <;> simp [Json.size] at hn
  | .null, n + 1, d, s, _, _, _, _ => by
      have htext : (Json.null).encode ++ s = 0x6E :: (lit "ull" ++ s) := by
        rw [Json.encode, show lit "null" = 0x6E :: lit "ull" by decide]
        rfl
      rw [htext, parseValue, show skipSpace (0x6E :: (lit "ull" ++ s)) = 0x6E :: (lit "ull" ++ s) from
        skipSpace_of_startsValue ⟨_, _, rfl, by decide⟩]
      simp [expect_append]
  | .bool true, n + 1, d, s, _, _, _, _ => by
      have htext : (Json.bool true).encode ++ s = 0x74 :: (lit "rue" ++ s) := by
        rw [Json.encode, show lit "true" = 0x74 :: lit "rue" by decide]
        rfl
      rw [htext, parseValue, show skipSpace (0x74 :: (lit "rue" ++ s)) = 0x74 :: (lit "rue" ++ s) from
        skipSpace_of_startsValue ⟨_, _, rfl, by decide⟩]
      simp [expect_append]
  | .bool false, n + 1, d, s, _, _, _, _ => by
      have htext : (Json.bool false).encode ++ s = 0x66 :: (lit "alse" ++ s) := by
        rw [Json.encode, show lit "false" = 0x66 :: lit "alse" by decide]
        rfl
      rw [htext, parseValue, show skipSpace (0x66 :: (lit "alse" ++ s)) = 0x66 :: (lit "alse" ++ s) from
        skipSpace_of_startsValue ⟨_, _, rfl, by decide⟩]
      simp [expect_append]
  | .num text, n + 1, d, s, hc, _, _, hs => by
      have hclean := hc
      rw [Json.Clean] at hclean
      obtain ⟨b, t, rfl, hb⟩ := hclean.head
      obtain ⟨-, hq, ha, -, ho, -, hn, ht, hf⟩ := digit_facts hb
      have hskip := skipSpace_of_startsValue ((Json.startsValue _ hc).append s)
      rw [parseValue, hskip, Json.encode, List.cons_append]
      simp only [hq, ha, ho, hn, ht, hf, if_false]
      rw [← List.cons_append, hclean s hs]
      rfl
  | .str k, n + 1, d, s, hc, _, _, _ => by
      have hclean := hc
      rw [Json.Clean] at hclean
      have hskip := skipSpace_of_startsValue ((Json.startsValue _ hc).append s)
      rw [parseValue, hskip, Json.encode, quote, List.cons_append, List.append_assoc]
      simp [parseString_quoteBody, replaceInvalid_of_valid hclean]
  | .arr [], n + 1, d, s, hc, _, hd, _ => by
      have hskip := skipSpace_of_startsValue ((Json.startsValue _ hc).append s)
      obtain ⟨d, rfl⟩ := Nat.exists_eq_succ_of_ne_zero (by simp [Json.depth] at hd; omega : d ≠ 0)
      rw [parseValue, hskip, Json.encode]
      simp [skipSpace, isJsonSpace]
  | .arr (v :: vs), n + 1, d, s, hc, hn, hd, _ => by
      have hskip := skipSpace_of_startsValue ((Json.startsValue _ hc).append s)
      rw [Json.Clean] at hc
      obtain ⟨d, rfl⟩ := Nat.exists_eq_succ_of_ne_zero (by simp [Json.depth] at hd; omega : d ≠ 0)
      have hd' : depthElems (v :: vs) ≤ d := by simp only [Json.depth] at hd; omega
      have hn' : sizeElems (v :: vs) ≤ n := by simp only [Json.size] at hn; omega
      have hvs := parseElems_encode vs v n d s hc hn' hd'
      have hstart : StartsValue (v.encode ++ (encodeElems vs ++ s)) :=
        (Json.startsValue v (by rw [CleanElems] at hc; exact hc.1)).append _
      rw [parseValue, hskip, Json.encode, List.cons_append, List.append_assoc]
      simp only [if_true, show ((0x5B : UInt8) = 0x22) = False by decide, if_false,
        skipSpace_of_startsValue hstart]
      obtain ⟨b, t, ht, -, hb, -⟩ := hstart
      rw [ht] at hvs ⊢
      split
      · rename_i heq
        exact absurd (List.cons.inj heq).1 hb
      · rw [hvs]
        rfl
  | .obj [], n + 1, d, s, hc, _, hd, _ => by
      have hskip := skipSpace_of_startsValue ((Json.startsValue _ hc).append s)
      obtain ⟨d, rfl⟩ := Nat.exists_eq_succ_of_ne_zero (by simp [Json.depth] at hd; omega : d ≠ 0)
      rw [parseValue, hskip, Json.encode]
      simp [skipSpace, isJsonSpace]
  | .obj ((k, v) :: fs), n + 1, d, s, hc, hn, hd, _ => by
      have hskip := skipSpace_of_startsValue ((Json.startsValue _ hc).append s)
      rw [Json.Clean] at hc
      obtain ⟨d, rfl⟩ := Nat.exists_eq_succ_of_ne_zero (by simp [Json.depth] at hd; omega : d ≠ 0)
      have hd' : depthFields ((k, v) :: fs) ≤ d := by simp only [Json.depth] at hd; omega
      have hn' : sizeFields ((k, v) :: fs) ≤ n := by simp only [Json.size] at hn; omega
      have hfs := parseFields_encode fs k v n d s hc hn' hd'
      rw [parseValue, hskip, Json.encode, List.cons_append, List.append_assoc, List.cons_append,
        List.append_assoc]
      have hspace : skipSpace (quote k ++ 0x3A :: (v.encode ++ (encodeFields fs ++ s)))
          = quote k ++ 0x3A :: (v.encode ++ (encodeFields fs ++ s)) := by
        simp [quote, skipSpace, isJsonSpace]
      simp only [show ((0x7B : UInt8) = 0x22) = False by decide,
        show ((0x7B : UInt8) = 0x5B) = False by decide, if_false, if_true, hspace]
      rw [quote, List.cons_append] at hfs ⊢
      split
      · rename_i heq
        exact absurd (List.cons.inj heq).1 (by decide)
      · rw [hfs]
        rfl

theorem parseElems_encode : ∀ (vs : List Json) (v : Json) (n d : Nat) (s : GoString),
    CleanElems (v :: vs) → sizeElems (v :: vs) ≤ n → depthElems (v :: vs) ≤ d →
    parseElems n d (v.encode ++ (encodeElems vs ++ s)) = some (v :: vs, s)
  | vs, v, 0, _, _, _, hn, _ => by simp [sizeElems] at hn
  | [], v, n + 1, d, s, hc, hn, hd => by
      rw [CleanElems] at hc
      simp only [sizeElems] at hn
      simp only [depthElems] at hd
      have hv := parseValue_encode v n d (encodeElems [] ++ s) hc.1 (by omega) (by omega)
        (numberEnd_encodeElems [] s)
      rw [parseElems, hv]
      simp [encodeElems, skipSpace, isJsonSpace]
  | w :: vs, v, n + 1, d, s, hc, hn, hd => by
      rw [CleanElems] at hc
      simp only [sizeElems] at hn
      simp only [depthElems] at hd
      have hv := parseValue_encode v n d (encodeElems (w :: vs) ++ s) hc.1 (by omega) (by omega)
        (numberEnd_encodeElems (w :: vs) s)
      have hvs := parseElems_encode vs w n d s hc.2 (by simp only [sizeElems]; omega)
        (by simp only [depthElems]; omega)
      rw [parseElems, hv, encodeElems, List.cons_append, List.append_assoc]
      simp [skipSpace, isJsonSpace, hvs]

theorem parseFields_encode : ∀ (fs : List (GoString × Json)) (k : GoString) (v : Json)
    (n d : Nat) (s : GoString), CleanFields ((k, v) :: fs) → sizeFields ((k, v) :: fs) ≤ n →
    depthFields ((k, v) :: fs) ≤ d →
    parseFields n d (quote k ++ 0x3A :: (v.encode ++ (encodeFields fs ++ s)))
      = some ((k, v) :: fs, s)
  | fs, k, v, 0, _, _, _, hn, _ => by simp [sizeFields] at hn
  | [], k, v, n + 1, d, s, hc, hn, hd => by
      rw [CleanFields] at hc
      simp only [sizeFields] at hn
      simp only [depthFields] at hd
      have hv := parseValue_encode v n d (encodeFields [] ++ s) hc.2.1 (by omega) (by omega)
        (numberEnd_encodeFields [] s)
      rw [encodeFields, List.cons_append, List.nil_append] at hv
      rw [encodeFields, quote, List.cons_append, List.append_assoc, parseFields]
      simp only [skipSpace, isJsonSpace, List.dropWhile]
      simp [parseString_quoteBody, hv, replaceInvalid_of_valid hc.1, isJsonSpace]
  | (k', v') :: fs, k, v, n + 1, d, s, hc, hn, hd => by
      rw [CleanFields] at hc
      simp only [sizeFields] at hn
      simp only [depthFields] at hd
      have hv := parseValue_encode v n d (encodeFields ((k', v') :: fs) ++ s) hc.2.1 (by omega)
        (by omega) (numberEnd_encodeFields ((k', v') :: fs) s)
      have hfs := parseFields_encode fs k' v' n d s hc.2.2 (by simp only [sizeFields]; omega)
        (by simp only [depthFields]; omega)
      rw [encodeFields, List.cons_append, List.append_assoc, List.cons_append, List.append_assoc] at hv
      rw [encodeFields, quote, List.cons_append, List.append_assoc, parseFields]
      simp only [skipSpace, isJsonSpace, List.dropWhile]
      simp [parseString_quoteBody, hv, replaceInvalid_of_valid hc.1, hfs, isJsonSpace]

end

/-- **A written tree is read back**: `json.Unmarshal` of `json.Marshal`. -/
theorem parse_encode {v : Json} (hc : v.Clean) (hd : v.depth ≤ maxNestingDepth) :
    Json.parse v.encode = some v := by
  have hsize := Json.size_le v hc
  have hvalue := parseValue_encode v (2 * v.encode.length + 2) maxNestingDepth [] hc (by omega) hd
    (by intro b hb; cases hb)
  rw [List.append_nil] at hvalue
  simp [Json.parse, hvalue, skipSpace]

end Go
