import UniLLM.Go.JsonLiteral

/-!
# JSON text as tokens

JSON text is a list of tokens with white space around them, and the list is unique.  A
text can be cut wherever a string literal ends, and other tokens pasted there
(`Lexes.cut`); quotes and backslashes alone tell where that is.
-/

namespace Go

/-- What a token means. -/
inductive Lexeme where
  /-- A bracket, brace, colon or comma. -/
  | mark (b : UInt8)
  /-- `null`, `true` or `false`. -/
  | word (text : GoString)
  | num (text : GoString)
  | str (s : GoString)
  deriving DecidableEq

def isMark (b : UInt8) : Bool :=
  b == 0x5B || b == 0x5D || b == 0x7B || b == 0x7D || b == 0x3A || b == 0x2C

/-- The text of a token and what it means. -/
inductive IsToken : GoString → Lexeme → Prop
  | mark {b : UInt8} (hb : isMark b = true) : IsToken [b] (.mark b)
  | wordNull : IsToken (lit "null") (.word (lit "null"))
  | wordTrue : IsToken (lit "true") (.word (lit "true"))
  | wordFalse : IsToken (lit "false") (.word (lit "false"))
  | num {text : GoString} (htext : IsNumberText text) : IsToken text (.num text)
  | str {body v : GoString} (hbody : Denotes body v) :
    IsToken (0x22 :: (body ++ [0x22])) (.str (replaceInvalid v))

/-- Nothing but white space. -/
def AllSpace (s : GoString) : Prop := ∀ b ∈ s, isJsonSpace b = true

/-- A number must not go on in the text that follows. -/
def Lexeme.EndsBefore : Lexeme → GoString → Prop
  | .num _, rest => NumberEnd rest
  | _, _ => True

/-- Text that consists of the given tokens. -/
inductive Lexes : GoString → List (GoString × Lexeme) → Prop
  | nil {s : GoString} (hs : AllSpace s) : Lexes s []
  | cons {ws text rest : GoString} {l : Lexeme} {ts : List (GoString × Lexeme)} (hws : AllSpace ws)
      (htok : IsToken text l) (hend : l.EndsBefore rest) (hrest : Lexes rest ts) :
      Lexes (ws ++ (text ++ rest)) ((text, l) :: ts)

/-! ### Tokens one by one -/

theorem AllSpace.skipSpace_append {ws : GoString} (h : AllSpace ws) (s : GoString) :
    skipSpace (ws ++ s) = skipSpace s := by
  induction ws with
  | nil => rfl
  | cons b ws ih =>
    have hb := h b (List.mem_cons_self ..)
    rw [List.cons_append, skipSpace, List.dropWhile_cons_of_pos hb]
    exact ih fun c hc => h c (List.mem_cons_of_mem b hc)

theorem AllSpace.skipSpace_eq {s : GoString} (h : AllSpace s) : skipSpace s = [] := by
  have hskip := h.skipSpace_append []
  rwa [List.append_nil] at hskip

/-- White space and what follows it. -/
theorem exists_skipSpace (s : GoString) : ∃ ws, AllSpace ws ∧ s = ws ++ skipSpace s :=
  ⟨s.takeWhile isJsonSpace, fun _ hb => List.mem_takeWhile_imp hb,
    (List.takeWhile_append_dropWhile ..).symm⟩

theorem allSpace_of_skipSpace {s : GoString} (h : skipSpace s = []) : AllSpace s := by
  obtain ⟨ws, hws, heq⟩ := exists_skipSpace s
  rw [h, List.append_nil] at heq
  rw [heq]
  exact hws

theorem AllSpace.append {s t : GoString} (hs : AllSpace s) (ht : AllSpace t) :
    AllSpace (s ++ t) := by
  intro b hb
  rcases List.mem_append.mp hb with h | h
  · exact hs b h
  · exact ht b h

/-- White space in front changes nothing. -/
theorem Lexes.space {ws s : GoString} {ts : List (GoString × Lexeme)} (hws : AllSpace ws)
    (h : Lexes s ts) : Lexes (ws ++ s) ts := by
  cases h with
  | nil hs => exact .nil (hws.append hs)
  | cons hws' htok hend hrest =>
    rw [← List.append_assoc]
    exact .cons (hws.append hws') htok hend hrest

theorem Lexes.of_skipSpace {s : GoString} {ts : List (GoString × Lexeme)}
    (h : Lexes (skipSpace s) ts) :
    Lexes s ts := by
  obtain ⟨ws, hws, heq⟩ := exists_skipSpace s
  rw [heq]
  exact h.space hws

/-- The token at the front of the text. -/
def nextToken : GoString → Option (Lexeme × GoString)
  | [] => none
  | b :: s =>
    if b = 0x22 then (parseString s).map fun p => (.str (replaceInvalid p.1), p.2)
    else if isMark b then some (.mark b, s)
    else if b = 0x6E then (expect (lit "ull") s).map fun s => (.word (lit "null"), s)
    else if b = 0x74 then (expect (lit "rue") s).map fun s => (.word (lit "true"), s)
    else if b = 0x66 then (expect (lit "alse") s).map fun s => (.word (lit "false"), s)
    else (scanNumber (b :: s)).map fun p => (.num p.1, p.2)

/-- What a number literal starts with is no other token. -/
theorem isMark_digit {b : UInt8} (h : b = 0x2D ∨ isDigit b = true) : isMark b = false := by
  rcases h with rfl | h
  · decide
  · have hfalse : ∀ c : UInt8, isDigit c = false → (b == c) = false := by
      intro c hc
      rw [beq_eq_false_iff_ne]
      rintro rfl
      rw [hc] at h
      cases h
    simp [isMark, hfalse 0x5B (by decide), hfalse 0x5D (by decide), hfalse 0x7B (by decide),
      hfalse 0x7D (by decide), hfalse 0x3A (by decide), hfalse 0x2C (by decide)]

/-- **A token is read whatever follows it**, but for more of a number. -/
theorem IsToken.nextToken_eq {text rest : GoString} {l : Lexeme} (h : IsToken text l)
    (hend : l.EndsBefore rest) : nextToken (text ++ rest) = some (l, rest) := by
  cases h with
  | @mark b hb =>
    have hquote : b ≠ 0x22 := by
      rintro rfl
      cases hb
    rw [List.singleton_append, nextToken, if_neg hquote, if_pos hb]
  | wordNull => rfl
  | wordTrue => rfl
  | wordFalse => rfl
  | num htext =>
    have hread := htext rest hend
    obtain ⟨b, t, rfl, hb⟩ := htext.head
    obtain ⟨-, hquote, -, -, -, -, hn, ht, hf⟩ := digit_facts hb
    rw [List.cons_append] at hread ⊢
    rw [nextToken, if_neg hquote, isMark_digit hb, if_neg Bool.false_ne_true, if_neg hn,
      if_neg ht, if_neg hf,
      hread]
    rfl
  | str hbody =>
    rw [List.cons_append, List.append_assoc, List.singleton_append, nextToken, if_pos rfl,
      hbody.parseString_eq]
    rfl

/-- A token does not start with white space. -/
theorem IsToken.head {text : GoString} {l : Lexeme} (h : IsToken text l) :
    ∃ b t, text = b :: t ∧ isJsonSpace b = false := by
  cases h with
  | @mark b hb =>
    refine ⟨b, [], rfl, ?_⟩
    rw [Bool.eq_false_iff]
    intro hspace
    simp only [isJsonSpace, Bool.or_eq_true, beq_iff_eq] at hspace
    rcases hspace with ((rfl | rfl) | rfl) | rfl <;> cases hb
  | wordNull => exact ⟨0x6E, lit "ull", rfl, rfl⟩
  | wordTrue => exact ⟨0x74, lit "rue", rfl, rfl⟩
  | wordFalse => exact ⟨0x66, lit "alse", rfl, rfl⟩
  | num htext =>
    obtain ⟨b, t, rfl, hb⟩ := htext.head
    exact ⟨b, t, rfl, (digit_facts hb).1⟩
  | str => exact ⟨0x22, _, rfl, rfl⟩

theorem IsToken.skipSpace_eq {text : GoString} {l : Lexeme} (h : IsToken text l) (rest : GoString) :
    skipSpace (text ++ rest) = text ++ rest := by
  obtain ⟨b, t, rfl, hb⟩ := h.head
  simp [skipSpace, hb]

/-- The first token of a text and what follows it. -/
theorem Lexes.of_token {text rest : GoString} {l : Lexeme} {ts : List (GoString × Lexeme)}
    (htok : IsToken text l) (hend : l.EndsBefore rest) (h : Lexes (text ++ rest) ts) :
    ∃ ts', ts = (text, l) :: ts' ∧ Lexes rest ts' := by
  generalize hs : text ++ rest = s at h
  cases h with
  | nil hspace =>
    obtain ⟨b, t, rfl, hb⟩ := htok.head
    have hb' := hspace b (by rw [← hs]; exact List.mem_cons_self ..)
    rw [hb] at hb'
    cases hb'
  | @cons ws text' rest' l' ts' hws htok' hend' hrest =>
    have hskip := congrArg skipSpace hs
    rw [htok.skipSpace_eq, hws.skipSpace_append, htok'.skipSpace_eq] at hskip
    have hnext := htok.nextToken_eq hend
    rw [hskip, htok'.nextToken_eq hend'] at hnext
    obtain ⟨rfl, rfl⟩ := Prod.mk.inj (Option.some.inj hnext)
    obtain rfl := List.append_cancel_right hskip
    exact ⟨ts', rfl, hrest⟩

/-- A token at the front of a text. -/
theorem Lexes.token {text rest : GoString} {l : Lexeme} {ts : List (GoString × Lexeme)}
    (htok : IsToken text l) (hend : l.EndsBefore rest) (hrest : Lexes rest ts) :
    Lexes (text ++ rest) ((text, l) :: ts) := by
  have hnil : AllSpace [] := fun b hb => absurd hb List.not_mem_nil
  have hcons : Lexes ([] ++ (text ++ rest)) ((text, l) :: ts) := .cons hnil htok hend hrest
  exact hcons

theorem Lexes.unspace {ws s : GoString} {ts : List (GoString × Lexeme)} (hws : AllSpace ws)
    (h : Lexes (ws ++ s) ts) : Lexes s ts := by
  generalize hs : ws ++ s = s' at h
  cases h with
  | nil hspace =>
    refine .nil fun b hb => hspace b ?_
    rw [← hs]
    exact List.mem_append_right ws hb
  | @cons ws' text rest l ts' hws' htok hend hrest =>
    rcases List.append_eq_append_iff.mp hs with ⟨a, rfl, rfl⟩ | ⟨c, rfl, hc⟩
    · exact .cons (fun b hb => hws' b (List.mem_append_right ws hb)) htok hend hrest
    · cases c with
      | nil =>
        rw [List.nil_append] at hc
        rw [← hc]
        exact .token htok hend hrest
      | cons b c =>
        -- the token would start with white space
        obtain ⟨b', t, rfl, hb'⟩ := htok.head
        have hb := hws b (by simp)
        rw [(List.cons.inj hc).1, hb] at hb'
        cases hb'

/-- **The tokens of a text are unique.** -/
theorem Lexes.unique {s : GoString} {ts ts' : List (GoString × Lexeme)} (h : Lexes s ts)
    (h' : Lexes s ts') : ts = ts' := by
  induction h generalizing ts' with
  | nil hs =>
    cases h' with
    | nil => rfl
    | cons hws htok =>
      obtain ⟨b, t, rfl, hb⟩ := htok.head
      have hb' := hs b (by simp)
      rw [hb] at hb'
      cases hb'
  | @cons ws text rest l ts hws htok hend hrest ih =>
    obtain ⟨ts'', rfl, hrest'⟩ := (h'.unspace hws).of_token htok hend
    rw [ih hrest']

theorem Lexes.length_le {s : GoString} {ts : List (GoString × Lexeme)} (h : Lexes s ts) :
    ts.length ≤ s.length := by
  induction h with
  | nil => exact Nat.zero_le _
  | cons _ htok _ _ ih =>
    obtain ⟨b, t, rfl, -⟩ := htok.head
    simp only [List.length_cons, List.length_append]
    omega

/-! ### Cut and paste -/

/-- Text without quotes and backslashes leaves a reader where it is. -/
theorem QuoteState.run_of_not_mem {q : QuoteState} {s : GoString} (hq : q = outside ∨ q = inside)
    (hquote : 0x22 ∉ s) (hescape : 0x5C ∉ s) : q.run s = q := by
  induction s with
  | nil => rfl
  | cons b s ih =>
    have hb : b ≠ 0x22 := fun he => hquote (he ▸ List.mem_cons_self ..)
    have hb' : b ≠ 0x5C := fun he => hescape (he ▸ List.mem_cons_self ..)
    have hstep : q.step b = q := by rcases hq with rfl | rfl <;> simp [step, hb, hb']
    rw [run_cons, hstep]
    exact ih (fun hm => hquote (List.mem_cons_of_mem b hm)) fun hm =>
      hescape (List.mem_cons_of_mem b hm)

/-- Only string literals have quotes and backslashes. -/
theorem IsToken.quote_not_mem {text : GoString} {l : Lexeme} (h : IsToken text l)
    (hl : ∀ s, l ≠ .str s) : 0x22 ∉ text ∧ 0x5C ∉ text := by
  cases h with
  | @mark b hb =>
    constructor
    · intro hm
      rw [← List.mem_singleton.mp hm] at hb
      cases hb
    · intro hm
      rw [← List.mem_singleton.mp hm] at hb
      cases hb
  | wordNull => decide
  | wordTrue => decide
  | wordFalse => decide
  | num htext =>
    constructor
    · intro hm
      have hbyte := htext.numberBytes _ hm
      cases hbyte
    · intro hm
      have hbyte := htext.numberBytes _ hm
      cases hbyte
  | str => exact absurd rfl (hl _)

theorem IsToken.run_outside {text : GoString} {l : Lexeme} (h : IsToken text l) :
    QuoteState.outside.run text = .outside := by
  by_cases hl : ∀ s, l ≠ .str s
  · obtain ⟨hquote, hescape⟩ := h.quote_not_mem hl
    exact QuoteState.run_of_not_mem (Or.inl rfl) hquote hescape
  · cases h with
    | str hbody => exact hbody.run_literal
    | _ => exact absurd (fun _ => nofun) hl

theorem AllSpace.quote_not_mem {s : GoString} (h : AllSpace s) : 0x22 ∉ s ∧ 0x5C ∉ s := by
  constructor
  · intro hm
    cases h _ hm
  · intro hm
    cases h _ hm

/-- Outside of its tokens a text has no quotes. -/
theorem Lexes.run_outside {s : GoString} {ts : List (GoString × Lexeme)} (h : Lexes s ts) :
    QuoteState.outside.run s = .outside := by
  induction h with
  | nil hs => exact QuoteState.run_of_not_mem (Or.inl rfl) hs.quote_not_mem.1 hs.quote_not_mem.2
  | cons hws htok _ _ ih =>
    rw [QuoteState.run_append, QuoteState.run_append,
      QuoteState.run_of_not_mem (Or.inl rfl) hws.quote_not_mem.1 hws.quote_not_mem.2,
      htok.run_outside, ih]

/-- A token that has a closing quote in it ends there. -/
theorem IsToken.eq_nil_of_run {text z w : GoString} {l : Lexeme} (h : IsToken text l)
    (htext : text = z ++ w)
    (hout : QuoteState.outside.run z = .outside) (hlast : z.getLast? = some 0x22) :
    w = [] ∧ ∃ s, l = .str s := by
  have hmem : 0x22 ∈ text := by
    rw [htext]
    exact List.mem_append_left w (List.mem_of_getLast? hlast)
  by_cases hl : ∀ s, l ≠ .str s
  · exact absurd hmem (h.quote_not_mem hl).1
  · cases h with
    | @str body v hbody =>
      refine ⟨?_, _, rfl⟩
      cases z with
      | nil => cases hlast
      | cons b z =>
        rw [List.cons_append] at htext
        obtain ⟨rfl, hz⟩ := List.cons.inj htext
        have hin : QuoteState.inside.run z = .outside := hout
        rcases List.eq_nil_or_concat w with rfl | ⟨w', c, rfl⟩
        · rfl
        · -- the part up to `z` would be inside of the literal
          rw [List.concat_eq_append, ← List.append_assoc] at hz
          obtain ⟨hbody', -⟩ := List.append_inj' hz rfl
          exact absurd hin (hbody.enclosed.not_outside z ⟨w', hbody'.symm⟩)
    | _ => exact absurd (fun _ => nofun) hl

/-- Only the first byte that follows tells whether a number goes on. -/
theorem Lexeme.EndsBefore.append_congr {l : Lexeme} {b : UInt8} {s t : GoString}
    (h : l.EndsBefore (b :: s ++ t)) (t' : GoString) : l.EndsBefore (b :: s ++ t') := by
  cases l with
  | num text =>
    intro c hc
    exact h c hc
  | _ => trivial

/-- **Cut and paste.**  A text can be cut behind a string literal: what follows consists of
tokens of its own, and other tokens can be put there instead. -/
theorem Lexes.cut {z t : GoString} {ts : List (GoString × Lexeme)} (h : Lexes (z ++ t) ts)
    (hout : QuoteState.outside.run z = .outside) (hlast : z.getLast? = some 0x22) :
    ∃ ts₁ ts₂, ts = ts₁ ++ ts₂ ∧ ts₁ ≠ [] ∧ Lexes t ts₂ ∧
      ∀ t' ts', Lexes t' ts' → Lexes (z ++ t') (ts₁ ++ ts') := by
  generalize hs : z ++ t = s at h
  induction h generalizing z with
  | nil hspace =>
    have hmem : 0x22 ∈ z ++ t := List.mem_append_left t (List.mem_of_getLast? hlast)
    rw [hs] at hmem
    exact absurd hmem hspace.quote_not_mem.1
  | @cons ws text rest l ts hws htok hend hrest ih =>
    -- `z` goes beyond the white space
    rcases List.append_eq_append_iff.mp hs with ⟨a, hws', -⟩ | ⟨c, rfl, hc⟩
    · refine absurd ?_ hws.quote_not_mem.1
      rw [hws']
      exact List.mem_append_left a (List.mem_of_getLast? hlast)
    · have hne : c ≠ [] := by
        rintro rfl
        rw [List.append_nil] at hlast
        exact hws.quote_not_mem.1 (List.mem_of_getLast? hlast)
      have hclast : c.getLast? = some 0x22 := by
        rw [List.getLast?_append_of_ne_nil _ hne] at hlast
        exact hlast
      have hcout : QuoteState.outside.run c = .outside := by
        rw [QuoteState.run_append,
          QuoteState.run_of_not_mem (Or.inl rfl) hws.quote_not_mem.1 hws.quote_not_mem.2] at hout
        exact hout
      -- where the token ends with `z`, the rest goes
      have hcut : text = c → rest = t →
          ∃ ts₁ ts₂, (text, l) :: ts = ts₁ ++ ts₂ ∧ ts₁ ≠ [] ∧ Lexes t ts₂ ∧
          ∀ t' ts', Lexes t' ts' → Lexes (ws ++ c ++ t') (ts₁ ++ ts') := by
        rintro rfl rfl
        obtain ⟨-, s, rfl⟩ := htok.eq_nil_of_run (List.append_nil text).symm hcout hclast
        refine ⟨[(text, .str s)], ts, rfl, List.cons_ne_nil _ _, hrest, fun t' ts' ht' => ?_⟩
        rw [List.append_assoc]
        exact .cons hws htok trivial ht'
      rcases List.append_eq_append_iff.mp hc with ⟨a, rfl, rfl⟩ | ⟨b, htext, rfl⟩
      · cases a with
        | nil => exact hcut (List.append_nil text).symm rfl
        | cons x a =>
          have halast : (x :: a).getLast? = some 0x22 := by
            rw [List.getLast?_append_of_ne_nil _ (List.cons_ne_nil x a)] at hclast
            exact hclast
          rw [QuoteState.run_append, htok.run_outside] at hcout
          obtain ⟨ts₁, ts₂, rfl, -, ht, hpaste⟩ := ih hcout halast rfl
          refine ⟨(text, l) :: ts₁, ts₂, rfl, List.cons_ne_nil _ _, ht, fun t' ts' ht' => ?_⟩
          rw [List.append_assoc, List.append_assoc]
          exact .cons hws htok (hend.append_congr t') (hpaste t' ts' ht')
      · obtain ⟨rfl, -⟩ := htok.eq_nil_of_run htext hcout hclast
        rw [List.append_nil] at htext
        exact hcut htext rfl

/-! ### Literals in a text -/

theorem Lexes.uncons_quote {s : GoString} {ts : List (GoString × Lexeme)}
    (h : Lexes (0x22 :: s) ts) :
    ∃ body v rest ts', s = body ++ 0x22 :: rest ∧ Denotes body v ∧ Lexes rest ts' ∧
      ts = (0x22 :: (body ++ [0x22]), .str (replaceInvalid v)) :: ts' := by
  generalize hs : 0x22 :: s = s' at h
  cases h with
  | nil hspace =>
    have hquote := hspace 0x22 (by rw [← hs]; exact List.mem_cons_self ..)
    cases hquote
  | @cons ws text rest l ts' hws htok hend hrest =>
    cases ws with
    | cons b ws =>
      have hb := hws b (List.mem_cons_self ..)
      rw [← (List.cons.inj hs).1] at hb
      cases hb
    | nil =>
      -- the token starts with a quote
      rw [List.nil_append] at hs
      have hnext := htok.nextToken_eq hend
      rw [← hs, nextToken, if_pos rfl] at hnext
      obtain ⟨⟨v, rest'⟩, hread, heq⟩ := Option.map_eq_some_iff.mp hnext
      obtain ⟨rfl, rfl⟩ := Prod.mk.inj heq
      obtain ⟨body, rfl, hbody⟩ := denotes_of_parseString hread
      have htext : text = 0x22 :: (body ++ [0x22]) := by
        apply List.append_cancel_right
        rw [← hs, List.cons_append, List.append_assoc, List.singleton_append]
      exact ⟨body, v, rest', ts', rfl, hbody, hrest, by rw [htext]⟩

/-- Text that starts with what is no token. -/
theorem not_lexes_of_nextToken {b : UInt8} {s : GoString} {ts : List (GoString × Lexeme)}
    (hspace : isJsonSpace b = false) (hnext : nextToken (b :: s) = none) : ¬ Lexes (b :: s) ts := by
  intro h
  generalize hs : b :: s = s' at h
  cases h with
  | nil hall =>
    have hb := hall b (by rw [← hs]; exact List.mem_cons_self ..)
    rw [hspace] at hb
    cases hb
  | @cons ws text rest l ts' hws htok hend hrest =>
    cases ws with
    | cons c ws =>
      have hc := hws c (List.mem_cons_self ..)
      rw [← (List.cons.inj hs).1, hspace] at hc
      cases hc
    | nil =>
      rw [List.nil_append] at hs
      have hread := htok.nextToken_eq hend
      rw [← hs, hnext] at hread
      cases hread

/-- Where a reader is after a quote. -/
theorem QuoteState.run_quote (q : QuoteState) (s : GoString) :
    q.run (s ++ [0x22]) = outside ∨ q.run (s ++ [0x22]) = inside ∨ q.run (s ++ [0x22]) = stuck := by
  rw [run_append, run_cons, run_nil]
  cases q.run s
  · exact Or.inr (Or.inl rfl)
  · exact Or.inl rfl
  · exact Or.inr (Or.inl rfl)
  · exact Or.inr (Or.inr rfl)

/-- **A literal ends where the rest begins**: if text is read as one token more than what
follows a certain quote, then it starts with a string literal that ends at that quote. -/
theorem Lexes.str_of_length {c tail : GoString} {ts us : List (GoString × Lexeme)}
    (htail : Lexes tail ts)
    (h : Lexes (0x22 :: (c ++ 0x22 :: tail)) us) (hlength : us.length = ts.length + 1) :
    ∃ w, Denotes c w ∧ us = (0x22 :: (c ++ [0x22]), .str (replaceInvalid w)) :: ts := by
  obtain ⟨body, v, rest, us', hsplit, hbody, hrest, rfl⟩ := h.uncons_quote
  rw [List.length_cons] at hlength
  -- from inside of a string no reader gets through the rest
  have hnot : QuoteState.inside.run tail ≠ .outside := fun hin =>
    QuoteState.not_both_outside tail ⟨htail.run_outside, hin⟩
  have hsame : c = body → rest = tail →
      ∃ w, Denotes c w ∧ (0x22 :: (body ++ [0x22]), Lexeme.str (replaceInvalid v)) :: us' =
        (0x22 :: (c ++ [0x22]), .str (replaceInvalid w)) :: ts := by
    rintro rfl rfl
    exact ⟨v, hbody, by rw [hrest.unique htail]⟩
  rcases List.append_eq_append_iff.mp hsplit with ⟨z, rfl, hz⟩ | ⟨z, rfl, hz⟩
  · cases z with
    | nil => exact hsame (List.append_nil c).symm (List.cons.inj hz).2.symm
    | cons b z =>
      -- the literal would go on beyond the quote
      rw [List.cons_append] at hz
      obtain ⟨rfl, rfl⟩ := List.cons.inj hz
      have hrun := hbody.enclosed.run_eq
      have hprefix : c ++ [0x22] <+: c ++ 0x22 :: z := ⟨z, by simp⟩
      have hout := hbody.enclosed.not_outside _ hprefix
      rw [← List.singleton_append, ← List.append_assoc, QuoteState.run_append] at hrun
      rcases QuoteState.inside.run_quote c with hq | hq | hq
      · exact absurd hq hout
      · rw [hq] at hrun
        refine absurd ?_ hnot
        rw [QuoteState.run_append, hrun, QuoteState.run_cons]
        exact hrest.run_outside
      · rw [hq, QuoteState.run_stuck] at hrun
        cases hrun
  · cases z with
    | nil => exact hsame (List.append_nil body) (List.cons.inj hz).2
    | cons b z =>
      -- the literal would end before the quote
      rw [List.cons_append] at hz
      obtain ⟨rfl, rfl⟩ := List.cons.inj hz
      have hrun := hrest.run_outside
      rw [← List.singleton_append, ← List.append_assoc] at hrest hrun
      rw [QuoteState.run_append] at hrun
      rcases QuoteState.outside.run_quote z with hq | hq | hq
      · obtain ⟨ts₁, ts₂, rfl, hne, ht, -⟩ := hrest.cut hq List.getLast?_concat
        rw [ht.unique htail, List.length_append] at hlength
        exact absurd (List.length_eq_zero_iff.mp (by omega)) hne
      · rw [hq] at hrun
        exact absurd hrun hnot
      · rw [hq, QuoteState.run_stuck] at hrun
        cases hrun

/-- **A quoted word before a colon is a key.**  The first quote may be one in a longer key
and escaped there.  The word is such that it cannot stand outside of a string. -/
theorem Lexes.key_context {x k y : GoString} {ts : List (GoString × Lexeme)} (hquote : 0x22 ∉ k)
    (hescape : 0x5C ∉ k) (hno : ∀ s us, ¬ Lexes (k ++ s) us)
    (h : Lexes (x ++ 0x22 :: (k ++ 0x22 :: 0x3A :: y)) ts) :
    ∃ us vs, ts = us ++ ([0x3A], .mark 0x3A) :: vs ∧ Lexes y vs ∧
      ∀ t ts', Lexes t ts' → Lexes (x ++ 0x22 :: (k ++ 0x22 :: t)) (us ++ ts') := by
  have hrun := h.run_outside
  have hin : QuoteState.inside.run k = .inside :=
    QuoteState.run_of_not_mem (Or.inr rfl) hquote hescape
  -- the word is in a string
  have hkey : QuoteState.outside.run (x ++ 0x22 :: (k ++ [0x22])) = .outside := by
    cases hx : QuoteState.outside.run x with
    | outside =>
      rw [QuoteState.run_append, hx, QuoteState.run_cons]
      show QuoteState.inside.run (k ++ [0x22]) = .outside
      rw [QuoteState.run_append, hin]
      rfl
    | inside =>
      -- the quote would close a string
      have hclosed : QuoteState.outside.run (x ++ [0x22]) = .outside := by
        rw [QuoteState.run_append, hx]
        rfl
      rw [← List.singleton_append, ← List.append_assoc] at h
      obtain ⟨ts₁, ts₂, -, -, ht, -⟩ := h.cut hclosed List.getLast?_concat
      exact absurd ht (hno _ _)
    | escape =>
      rw [QuoteState.run_append, hx, QuoteState.run_cons]
      show QuoteState.inside.run (k ++ [0x22]) = .outside
      rw [QuoteState.run_append, hin]
      rfl
    | stuck =>
      rw [QuoteState.run_append, hx, QuoteState.run_stuck] at hrun
      cases hrun
  have hsplit : ∀ t : GoString, x ++ 0x22 :: (k ++ 0x22 :: t) =
      (x ++ 0x22 :: (k ++ [0x22])) ++ t := by
    intro t
    simp
  rw [hsplit] at h
  have hlast : (x ++ 0x22 :: (k ++ [0x22])).getLast? = some 0x22 := by
    rw [← List.cons_append, ← List.append_assoc]
    exact List.getLast?_concat
  obtain ⟨us, ts₂, rfl, -, ht, hpaste⟩ := h.cut hkey hlast
  obtain ⟨vs, rfl, hvalue⟩ := Lexes.of_token (.mark (b := 0x3A) rfl) trivial ht
  refine ⟨us, vs, rfl, hvalue, fun t ts' hts' => ?_⟩
  rw [hsplit]
  exact hpaste t ts' hts'

/-! ### Quoted words -/

/-- Only a string literal has a quote, and it ends with one. -/
theorem IsToken.getLast_of_quote {text : GoString} {l : Lexeme} (h : IsToken text l)
    (hm : 0x22 ∈ text) : text.getLast? = some 0x22 := by
  by_cases hl : ∀ s, l ≠ .str s
  · exact absurd hm (h.quote_not_mem hl).1
  · cases h with
    | str =>
      rw [← List.cons_append]
      exact List.getLast?_concat
    | _ => exact absurd (fun _ => nofun) hl

/-- A token stands in the text. -/
theorem Lexes.token_infix {s : GoString} {ts : List (GoString × Lexeme)} (h : Lexes s ts) :
    ∀ t ∈ ts, t.1 <:+: s := by
  induction h with
  | nil => exact fun t ht => absurd ht List.not_mem_nil
  | @cons ws text rest l ts _ _ _ _ ih =>
    intro t ht
    apply List.infix_append_of_infix_right
    rcases List.mem_cons.mp ht with rfl | ht
    · exact List.infix_append_left
    · exact List.infix_append_of_infix_right (ih t ht)

/-- A quoted word that begins in a token ends in it. -/
theorem IsToken.infix_of_append {text rest a c k y : GoString} {l : Lexeme} (h : IsToken text l)
    (hquote : 0x22 ∉ k) (htext : text = a ++ 0x22 :: c) (hc : c ≠ [])
    (hsplit : k ++ 0x22 :: y = c ++ rest) : 0x22 :: (k ++ [0x22]) <:+: text := by
  have hlast : c.getLast? = some 0x22 := by
    have hm : 0x22 ∈ text := by simp [htext]
    have htoken := h.getLast_of_quote hm
    rw [htext, List.append_cons, List.getLast?_append_of_ne_nil _ hc] at htoken
    exact htoken
  rcases List.append_eq_append_iff.mp hsplit with ⟨d, rfl, hd⟩ | ⟨d, rfl, -⟩
  · cases d with
    | nil =>
      rw [List.append_nil] at hlast
      exact absurd (List.mem_of_getLast? hlast) hquote
    | cons b d =>
      obtain rfl := (List.cons.inj hd).1
      exact ⟨a, d, by simp [htext]⟩
  · exact absurd (List.mem_append_left d (List.mem_of_getLast? hlast)) hquote

/-- **A quoted word stands in one token**, if it cannot stand outside of a string. -/
theorem Lexes.exists_token_infix {x k y : GoString}
    {ts : List (GoString × Lexeme)} (hquote : 0x22 ∉ k)
    (hno : ∀ s us, ¬ Lexes (k ++ s) us) (h : Lexes (x ++ 0x22 :: (k ++ 0x22 :: y)) ts) :
    ∃ t ∈ ts, 0x22 :: (k ++ [0x22]) <:+: t.1 := by
  generalize hs : x ++ 0x22 :: (k ++ 0x22 :: y) = s at h
  induction h generalizing x with
  | nil hspace =>
    cases hspace 0x22 (by rw [← hs]; simp)
  | @cons ws text rest l ts hws htok hend hrest ih =>
    have hafter : ∀ b, rest = b ++ 0x22 :: (k ++ 0x22 :: y) →
        ∃ t ∈ (text, l) :: ts, 0x22 :: (k ++ [0x22]) <:+: t.1 := by
      intro b hb
      obtain ⟨t, ht, hinfix⟩ := ih hb.symm
      exact ⟨t, List.mem_cons_of_mem _ ht, hinfix⟩
    have htoken : ∀ a, a ++ 0x22 :: (k ++ 0x22 :: y) = text ++ rest →
        ∃ t ∈ (text, l) :: ts, 0x22 :: (k ++ [0x22]) <:+: t.1 := by
      intro a ha
      rcases List.append_eq_append_iff.mp ha with ⟨c, rfl, hc⟩ | ⟨b, -, hb⟩
      · cases c with
        | nil => exact hafter [] hc.symm
        | cons q c =>
          obtain ⟨rfl, hsplit⟩ := List.cons.inj hc
          -- the first quote is not the last byte of the token
          have hne : c ≠ [] := by
            rintro rfl
            have hk : k ++ 0x22 :: y = rest := hsplit
            rw [← hk] at hrest
            exact hno _ _ hrest
          exact ⟨_, List.mem_cons_self .., htok.infix_of_append hquote rfl hne hsplit⟩
      · exact hafter b hb
    rcases List.append_eq_append_iff.mp hs with ⟨c, rfl, hc⟩ | ⟨a, -, ha⟩
    · cases c with
      | nil => exact htoken [] hc
      | cons q c =>
        -- no quote in white space
        obtain ⟨rfl, -⟩ := List.cons.inj hc
        cases hws 0x22 (by simp)
    · exact htoken a ha.symm

/-- Whether a text contains a quoted word is seen from its tokens. -/
theorem Lexes.contains_quoted_iff {s k : GoString} {ts : List (GoString × Lexeme)} (h : Lexes s ts)
    (hquote : 0x22 ∉ k) (hno : ∀ s us, ¬ Lexes (k ++ s) us) :
    contains s (0x22 :: (k ++ [0x22])) = true ↔ ∃ t ∈ ts, 0x22 :: (k ++ [0x22]) <:+: t.1 := by
  rw [contains_iff]
  constructor
  · rintro ⟨x, y, rfl⟩
    have hshape : x ++ 0x22 :: (k ++ [0x22]) ++ y = x ++ 0x22 :: (k ++ 0x22 :: y) := by simp
    rw [hshape] at h
    exact h.exists_token_infix hquote hno
  · rintro ⟨t, ht, hinfix⟩
    exact hinfix.trans (h.token_infix t ht)

end Go
