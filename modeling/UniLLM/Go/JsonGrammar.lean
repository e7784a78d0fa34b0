import UniLLM.Go.JsonTokens

/-!
# Trees and their tokens

A text is parsed to a tree exactly when its tokens are those of the tree
(`parse_eq_some_iff`).  So what becomes of a tree when its text is changed in one place
can be seen from the tokens.
-/

namespace Go

mutual

/-- The tokens of a tree. -/
def Json.lexemes : Json → List Lexeme
  | .null => [.word (lit "null")]
  | .bool true => [.word (lit "true")]
  | .bool false => [.word (lit "false")]
  | .num text => [.num text]
  | .str s => [.str s]
  | .arr [] => [.mark 0x5B, .mark 0x5D]
  | .arr (v :: vs) => .mark 0x5B :: (v.lexemes ++ lexemesElems vs)
  | .obj [] => [.mark 0x7B, .mark 0x7D]
  | .obj ((k, v) :: fs) => .mark 0x7B :: .str k :: .mark 0x3A :: (v.lexemes ++ lexemesFields fs)

/-- The rest of an array after an element. -/
def lexemesElems : List Json → List Lexeme
  | [] => [.mark 0x5D]
  | v :: vs => .mark 0x2C :: (v.lexemes ++ lexemesElems vs)

/-- The rest of an object after a member. -/
def lexemesFields : List (GoString × Json) → List Lexeme
  | [] => [.mark 0x7D]
  | (k, v) :: fs => .mark 0x2C :: .str k :: .mark 0x3A :: (v.lexemes ++ lexemesFields fs)

end

/-! ### Trees are read off their tokens -/

theorem Lexes.mark {b : UInt8} {rest : GoString} {ts : List (GoString × Lexeme)}
    (hb : isMark b = true)
    (hrest : Lexes rest ts) : Lexes (b :: rest) (([b], .mark b) :: ts) :=
  .token (.mark hb) trivial hrest

/-- Text that goes on with a mark, or ends, ends a number. -/
theorem numberEnd_of_skipSpace {s : GoString}
    (h : ∀ b ∈ (skipSpace s).head?, isMark b = true) : NumberEnd s := by
  intro b hb
  cases s with
  | nil => cases hb
  | cons c s =>
    obtain rfl := Option.some.inj hb
    by_cases hspace : isJsonSpace c = true
    · simp only [isJsonSpace, Bool.or_eq_true, beq_iff_eq] at hspace
      rcases hspace with ((rfl | rfl) | rfl) | rfl <;> decide
    · have hskip : skipSpace (c :: s) = c :: s := List.dropWhile_cons_of_neg hspace
      have hmark := h c (by rw [hskip]; rfl)
      simp only [isMark, Bool.or_eq_true, beq_iff_eq] at hmark
      rcases hmark with ((((rfl | rfl) | rfl) | rfl) | rfl) | rfl <;> decide

theorem expect_eq_some {p s rest : GoString} (h : expect p s = some rest) : s = p ++ rest := by
  unfold expect at h
  split at h
  · rename_i hp
    obtain ⟨t, rfl⟩ := hasPrefix_iff.mp hp
    rw [← Option.some.inj h, List.drop_left]
  · cases h

/-- What is read at the front of `s` up to `rest` are the given tokens. -/
def ReadsTokens (s rest : GoString) (ls : List Lexeme) : Prop :=
  ∀ ts, Lexes rest ts → ∃ us, us.map Prod.snd = ls ∧ Lexes s (us ++ ts)

theorem ReadsTokens.of_skipSpace {s rest : GoString} {ls : List Lexeme}
    (h : ReadsTokens (skipSpace s) rest ls) : ReadsTokens s rest ls := by
  intro ts hts
  obtain ⟨us, hus, hlex⟩ := h ts hts
  exact ⟨us, hus, hlex.of_skipSpace⟩

theorem ReadsTokens.trans {s t rest : GoString} {ls ls' : List Lexeme} (h : ReadsTokens s t ls)
    (h' : ReadsTokens t rest ls') : ReadsTokens s rest (ls ++ ls') := by
  intro ts hts
  obtain ⟨us', hus', hlex'⟩ := h' ts hts
  obtain ⟨us, hus, hlex⟩ := h _ hlex'
  exact ⟨us ++ us', by rw [List.map_append, hus, hus'], by rwa [List.append_assoc]⟩

theorem readsTokens_token {text rest : GoString} {l : Lexeme} (htok : IsToken text l)
    (hend : l.EndsBefore rest) : ReadsTokens (text ++ rest) rest [l] :=
  fun _ hts => ⟨[(text, l)], rfl, .token htok hend hts⟩

/-- A mark after white space. -/
theorem readsTokens_mark {b : UInt8} {s rest : GoString} (hb : isMark b = true)
    (hskip : skipSpace s = b :: rest) : ReadsTokens s rest [.mark b] := by
  apply ReadsTokens.of_skipSpace
  rw [hskip]
  exact readsTokens_token (.mark hb) trivial

theorem readsTokens_word {b : UInt8} {p s rest w : GoString} {v v' : Json} {depth : Nat}
    (htok : IsToken (b :: p) (.word w)) (hlex : v.lexemes = [.word w]) (hdepth : v.depth = 0)
    (h : ((expect p s).map fun s => (v, s)) = some (v', rest)) :
    ReadsTokens (b :: s) rest v'.lexemes ∧ v'.depth ≤ depth := by
  obtain ⟨t, hword, heq⟩ := Option.map_eq_some_iff.mp h
  obtain ⟨rfl, rfl⟩ := Prod.mk.inj heq
  rw [expect_eq_some hword, hlex, hdepth]
  exact ⟨readsTokens_token htok trivial, Nat.zero_le _⟩

theorem readsTokens_str {s rest v : GoString} (h : parseString s = some (v, rest)) :
    ReadsTokens (0x22 :: s) rest [.str (replaceInvalid v)] := by
  obtain ⟨body, rfl, hbody⟩ := denotes_of_parseString h
  have htok : ReadsTokens (0x22 :: (body ++ [0x22]) ++ rest) rest [.str (replaceInvalid v)] :=
    readsTokens_token (.str hbody) trivial
  rwa [List.cons_append, List.append_assoc, List.singleton_append] at htok

/-- The reader of values, with the given fuel, reads the tokens of the value. -/
def ReadsValues (fuel : Nat) : Prop :=
  ∀ depth s v rest, parseValue fuel depth s = some (v, rest) → NumberEnd rest →
    ReadsTokens s rest v.lexemes ∧ v.depth ≤ depth

def ReadsElems (fuel : Nat) : Prop :=
  ∀ depth s vs rest, parseElems fuel depth s = some (vs, rest) →
    ∃ v vs', vs = v :: vs' ∧ ReadsTokens s rest (v.lexemes ++ lexemesElems vs') ∧
      depthElems vs ≤ depth

def ReadsFields (fuel : Nat) : Prop :=
  ∀ depth s fs rest, parseFields fuel depth s = some (fs, rest) →
    ∃ k v fs', fs = (k, v) :: fs' ∧
      ReadsTokens s rest (.str k :: .mark 0x3A :: (v.lexemes ++ lexemesFields fs')) ∧
      depthFields fs ≤ depth

variable {fuel : Nat}

theorem readsValues_succ (hElems : ReadsElems fuel) (hFields : ReadsFields fuel) :
    ReadsValues (fuel + 1) := by
  intro depth s v rest h hend
  rw [parseValue] at h
  split at h
  · cases h
  rename_i b s' hskip
  suffices hread : ReadsTokens (b :: s') rest v.lexemes ∧ v.depth ≤ depth by
    refine ⟨?_, hread.2⟩
    apply ReadsTokens.of_skipSpace
    rw [hskip]
    exact hread.1
  -- a string
  split at h
  · rename_i hb
    obtain ⟨⟨w, t⟩, hstr, heq⟩ := Option.map_eq_some_iff.mp h
    obtain ⟨rfl, rfl⟩ := Prod.mk.inj heq
    rw [hb]
    exact ⟨readsTokens_str hstr, Nat.zero_le _⟩
  -- an array
  split at h
  · rename_i hb
    subst hb
    have hopen : ReadsTokens (0x5B :: s') s' [.mark 0x5B] := readsTokens_token (.mark rfl) trivial
    split at h
    · cases h
    split at h
    · rename_i t hclose
      obtain ⟨rfl, rfl⟩ := Prod.mk.inj (Option.some.inj h)
      exact ⟨hopen.trans (readsTokens_mark rfl hclose), Nat.succ_le_succ (Nat.zero_le _)⟩
    · obtain ⟨⟨vs, t⟩, helems, heq⟩ := Option.map_eq_some_iff.mp h
      obtain ⟨rfl, rfl⟩ := Prod.mk.inj heq
      obtain ⟨v, vs', rfl, hread, hdepth⟩ := hElems _ _ _ _ helems
      exact ⟨hopen.trans hread.of_skipSpace, Nat.succ_le_succ hdepth⟩
  -- an object
  split at h
  · rename_i hb
    subst hb
    have hopen : ReadsTokens (0x7B :: s') s' [.mark 0x7B] := readsTokens_token (.mark rfl) trivial
    split at h
    · cases h
    split at h
    · rename_i t hclose
      obtain ⟨rfl, rfl⟩ := Prod.mk.inj (Option.some.inj h)
      exact ⟨hopen.trans (readsTokens_mark rfl hclose), Nat.succ_le_succ (Nat.zero_le _)⟩
    · obtain ⟨⟨fs, t⟩, hfields, heq⟩ := Option.map_eq_some_iff.mp h
      obtain ⟨rfl, rfl⟩ := Prod.mk.inj heq
      obtain ⟨k, v, fs', rfl, hread, hdepth⟩ := hFields _ _ _ _ hfields
      exact ⟨hopen.trans hread.of_skipSpace, Nat.succ_le_succ hdepth⟩
  -- `null`, `true` and `false`
  split at h
  · rename_i hb
    rw [hb]
    exact readsTokens_word .wordNull rfl rfl h
  split at h
  · rename_i hb
    rw [hb]
    exact readsTokens_word .wordTrue rfl rfl h
  split at h
  · rename_i hb
    rw [hb]
    exact readsTokens_word .wordFalse rfl rfl h
  -- a number
  obtain ⟨⟨text, t⟩, hnum, heq⟩ := Option.map_eq_some_iff.mp h
  obtain ⟨rfl, rfl⟩ := Prod.mk.inj heq
  obtain ⟨htext, hnumber⟩ := isNumberText_of_scanNumber hnum
  rw [htext]
  exact ⟨readsTokens_token (.num hnumber) hend, Nat.zero_le _⟩

theorem readsElems_succ (hValues : ReadsValues fuel) (hElems : ReadsElems fuel) :
    ReadsElems (fuel + 1) := by
  intro depth s vs rest h
  rw [parseElems] at h
  split at h
  · cases h
  rename_i v t hv
  split at h
  · rename_i u hclose
    obtain ⟨rfl, rfl⟩ := Prod.mk.inj (Option.some.inj h)
    obtain ⟨hread, hdepth⟩ :=
      hValues _ _ _ _ hv (numberEnd_of_skipSpace (by rw [hclose]; simp [isMark]))
    exact ⟨v, [], rfl, hread.trans (readsTokens_mark rfl hclose), max_le hdepth (Nat.zero_le _)⟩
  · rename_i u hcomma
    obtain ⟨⟨vs', u'⟩, helems, heq⟩ := Option.map_eq_some_iff.mp h
    obtain ⟨rfl, rfl⟩ := Prod.mk.inj heq
    obtain ⟨hread, hdepth⟩ :=
      hValues _ _ _ _ hv (numberEnd_of_skipSpace (by rw [hcomma]; simp [isMark]))
    obtain ⟨w, ws, rfl, hreads, hdepths⟩ := hElems _ _ _ _ helems
    exact ⟨v, w :: ws, rfl, hread.trans ((readsTokens_mark rfl hcomma).trans hreads),
      max_le hdepth hdepths⟩
  · cases h

theorem readsFields_succ (hValues : ReadsValues fuel) (hFields : ReadsFields fuel) :
    ReadsFields (fuel + 1) := by
  intro depth s fs rest h
  rw [parseFields] at h
  split at h
  case h_2 => cases h
  rename_i s' hquote
  split at h
  · cases h
  rename_i k t hk
  split at h
  case h_2 => cases h
  rename_i u hcolon
  have hkey : ReadsTokens s u [.str (replaceInvalid k), .mark 0x3A] := by
    apply ReadsTokens.of_skipSpace
    rw [hquote]
    exact (readsTokens_str hk).trans (readsTokens_mark rfl hcolon)
  split at h
  · cases h
  rename_i v w hv
  split at h
  · rename_i x hclose
    obtain ⟨rfl, rfl⟩ := Prod.mk.inj (Option.some.inj h)
    obtain ⟨hread, hdepth⟩ :=
      hValues _ _ _ _ hv (numberEnd_of_skipSpace (by rw [hclose]; simp [isMark]))
    exact ⟨_, v, [], rfl, hkey.trans (hread.trans (readsTokens_mark rfl hclose)),
      max_le hdepth (Nat.zero_le _)⟩
  · rename_i x hcomma
    obtain ⟨⟨fs', x'⟩, hfields, heq⟩ := Option.map_eq_some_iff.mp h
    obtain ⟨rfl, rfl⟩ := Prod.mk.inj heq
    obtain ⟨hread, hdepth⟩ :=
      hValues _ _ _ _ hv (numberEnd_of_skipSpace (by rw [hcomma]; simp [isMark]))
    obtain ⟨k', v', fs'', rfl, hreads, hdepths⟩ := hFields _ _ _ _ hfields
    exact ⟨_, v, (k', v') :: fs'', rfl,
      hkey.trans (hread.trans ((readsTokens_mark rfl hcomma).trans hreads)), max_le hdepth hdepths⟩
  · cases h

/-- **What is read are tokens.** -/
theorem readsTokens_parse (fuel : Nat) : ReadsValues fuel ∧ ReadsElems fuel ∧ ReadsFields fuel := by
  induction fuel with
  | zero => refine ⟨?_, ?_, ?_⟩ <;> (intro _ _ _ _ h; cases h)
  | succ fuel ih =>
    obtain ⟨hValues, hElems, hFields⟩ := ih
    exact ⟨readsValues_succ hElems hFields, readsElems_succ hValues hElems,
      readsFields_succ hValues hFields⟩

/-! ### Tokens are read -/

/-- The first token, by what it means. -/
theorem Lexes.uncons {s : GoString} {us : List (GoString × Lexeme)} {l : Lexeme} {ls : List Lexeme}
    (h : Lexes s us) (hls : us.map Prod.snd = l :: ls) :
    ∃ text rest ts, skipSpace s = text ++ rest ∧ IsToken text l ∧ Lexes rest ts ∧
      ts.map Prod.snd = ls ∧ l.EndsBefore rest := by
  cases h with
  | nil => cases hls
  | @cons ws text rest l' ts hws htok hend hrest =>
    rw [List.map_cons] at hls
    obtain ⟨rfl, rfl⟩ := List.cons.inj hls
    exact ⟨text, rest, ts, by rw [hws.skipSpace_append, htok.skipSpace_eq], htok, hrest, rfl, hend⟩

theorem Lexes.uncons_mark {s : GoString} {us : List (GoString × Lexeme)} {b : UInt8}
    {ls : List Lexeme}
    (h : Lexes s us) (hls : us.map Prod.snd = .mark b :: ls) :
    ∃ rest ts, skipSpace s = b :: rest ∧ Lexes rest ts ∧ ts.map Prod.snd = ls := by
  obtain ⟨text, rest, ts, hskip, htok, hrest, hts, -⟩ := h.uncons hls
  cases htok with
  | mark hb => exact ⟨rest, ts, hskip, hrest, hts⟩

theorem Lexes.uncons_str {s : GoString} {us : List (GoString × Lexeme)}
    {v : GoString} {ls : List Lexeme}
    (h : Lexes s us) (hls : us.map Prod.snd = .str v :: ls) :
    ∃ w t rest ts, skipSpace s = 0x22 :: t ∧ parseString t = some (w, rest) ∧ v = replaceInvalid w ∧
      Lexes rest ts ∧ ts.map Prod.snd = ls := by
  obtain ⟨text, rest, ts, hskip, htok, hrest, hts, -⟩ := h.uncons hls
  cases htok with
  | @str body w hbody =>
    refine ⟨w, body ++ 0x22 :: rest, rest, ts, ?_, hbody.parseString_eq rest, rfl, hrest, hts⟩
    rw [hskip, List.cons_append, List.append_assoc, List.singleton_append]

theorem Lexes.skip {s : GoString} {ts : List (GoString × Lexeme)} (h : Lexes s ts) :
    Lexes (skipSpace s) ts := by
  obtain ⟨ws, hws, heq⟩ := exists_skipSpace s
  rw [heq] at h
  exact h.unspace hws

/-- A value does not start with a closing bracket or brace. -/
theorem Json.lexemes_eq_cons (v : Json) :
    ∃ l ls, v.lexemes = l :: ls ∧ l ≠ .mark 0x5D ∧ l ≠ .mark 0x7D := by
  unfold Json.lexemes
  split <;> exact ⟨_, _, rfl, by simp, by simp⟩

def Parses (s rest : GoString) (v : Json) : Prop :=
  ∀ fuel depth, v.size ≤ fuel → v.depth ≤ depth → parseValue fuel depth s = some (v, rest)

def ParsesElems (s rest : GoString) (vs : List Json) : Prop :=
  ∀ fuel depth, sizeElems vs ≤ fuel → depthElems vs ≤ depth →
    parseElems fuel depth s = some (vs, rest)

def ParsesFields (s rest : GoString) (fs : List (GoString × Json)) : Prop :=
  ∀ fuel depth, sizeFields fs ≤ fuel → depthFields fs ≤ depth →
    parseFields fuel depth s = some (fs, rest)

/-- After an element come the others, or the bracket. -/
def ElemsEnd (s rest : GoString) : List Json → Prop
  | [] => skipSpace s = 0x5D :: rest
  | vs => ∃ t, skipSpace s = 0x2C :: t ∧ ParsesElems t rest vs

/-- After a member come the others, or the brace. -/
def FieldsEnd (s rest : GoString) : List (GoString × Json) → Prop
  | [] => skipSpace s = 0x7D :: rest
  | fs => ∃ t, skipSpace s = 0x2C :: t ∧ ParsesFields t rest fs

theorem parsesElems_cons {s t rest : GoString} {v : Json} {vs : List Json} (hv : Parses s t v)
    (hend : ElemsEnd t rest vs) : ParsesElems s rest (v :: vs) := by
  intro fuel depth hsize hdepth
  rw [sizeElems] at hsize
  rw [depthElems] at hdepth
  obtain ⟨fuel, rfl⟩ : ∃ n, fuel = n + 1 := ⟨fuel - 1, by omega⟩
  rw [parseElems, hv fuel depth (by omega) (le_trans (le_max_left _ _) hdepth)]
  cases vs with
  | nil =>
    simp only [ElemsEnd] at hend
    simp only [hend]
  | cons w ws =>
    obtain ⟨u, hcomma, helems⟩ := hend
    simp only [hcomma, helems fuel depth (by omega) (le_trans (le_max_right _ _) hdepth),
      Option.map_some]

theorem parsesFields_cons {s t u w rest k : GoString} {v : Json} {fs : List (GoString × Json)}
    (hquote : skipSpace s = 0x22 :: t) (hk : parseString t = some (k, u))
    (hcolon : skipSpace u = 0x3A :: w)
    {x : GoString} (hv : Parses w x v) (hend : FieldsEnd x rest fs) :
    ParsesFields s rest ((replaceInvalid k, v) :: fs) := by
  intro fuel depth hsize hdepth
  rw [sizeFields] at hsize
  rw [depthFields] at hdepth
  obtain ⟨fuel, rfl⟩ : ∃ n, fuel = n + 1 := ⟨fuel - 1, by omega⟩
  rw [parseFields]
  simp only [hquote, hk, hcolon, hv fuel depth (by omega) (le_trans (le_max_left _ _) hdepth)]
  cases fs with
  | nil =>
    simp only [FieldsEnd] at hend
    simp only [hend]
  | cons f fs =>
    obtain ⟨y, hcomma, hfields⟩ := hend
    simp only [hcomma, hfields fuel depth (by omega) (le_trans (le_max_right _ _) hdepth),
      Option.map_some]

/-- The first token of a text that starts with another mark. -/
theorem Lexes.skipSpace_ne {s : GoString} {us : List (GoString × Lexeme)}
    {l : Lexeme} {ls : List Lexeme}
    (h : Lexes s us) (hls : us.map Prod.snd = l :: ls) {b : UInt8} (hb : isMark b = true)
    (hl : l ≠ .mark b) (t : GoString) : skipSpace s ≠ b :: t := by
  intro hskip
  obtain ⟨text, rest, ts, htext, htok, -, -, hend⟩ := h.uncons hls
  have hnext := htok.nextToken_eq hend
  have hmark : nextToken ([b] ++ t) = some (.mark b, t) := (IsToken.mark hb).nextToken_eq trivial
  rw [← htext, hskip] at hnext
  rw [List.singleton_append, hnext] at hmark
  exact hl (Prod.mk.inj (Option.some.inj hmark)).1

theorem parses_word {s rest text : GoString} {v : Json} (hskip : skipSpace s = text ++ rest)
    (h : text = lit "null" ∧ v = .null ∨ text = lit "true" ∧ v = .bool true ∨
      text = lit "false" ∧ v = .bool false) : Parses s rest v := by
  intro fuel depth hsize _
  have hpos : 1 ≤ v.size := by rcases h with ⟨-, rfl⟩ | ⟨-, rfl⟩ | ⟨-, rfl⟩ <;> exact Nat.le_refl 1
  obtain ⟨fuel, rfl⟩ : ∃ n, fuel = n + 1 := ⟨fuel - 1, by omega⟩
  rw [parseValue, hskip]
  rcases h with ⟨rfl, rfl⟩ | ⟨rfl, rfl⟩ | ⟨rfl, rfl⟩
  · rfl
  · rfl
  · rfl

theorem parses_num {s rest text : GoString} (hskip : skipSpace s = text ++ rest)
    (htext : IsNumberText text) (hend : NumberEnd rest) : Parses s rest (.num text) := by
  intro fuel depth hsize _
  have hpos : 1 ≤ fuel := hsize
  obtain ⟨fuel, rfl⟩ : ∃ n, fuel = n + 1 := ⟨fuel - 1, by omega⟩
  have hread := htext rest hend
  obtain ⟨b, t, rfl, hb⟩ := htext.head
  obtain ⟨-, hquote, hopen, -, hbrace, -, hn, ht, hf⟩ := digit_facts hb
  rw [parseValue, hskip]
  rw [List.cons_append] at hread ⊢
  simp only [hquote, hopen, hbrace, hn, ht, hf, if_false, hread, Option.map_some]

theorem parses_str {s t rest w : GoString} (hskip : skipSpace s = 0x22 :: t)
    (hread : parseString t = some (w, rest)) : Parses s rest (.str (replaceInvalid w)) := by
  intro fuel depth hsize _
  have hpos : 1 ≤ fuel := hsize
  obtain ⟨fuel, rfl⟩ : ∃ n, fuel = n + 1 := ⟨fuel - 1, by omega⟩
  rw [parseValue, hskip]
  simp only [if_true, hread, Option.map_some]

/-- An array or an object that is not empty, after its opening mark. -/
theorem parses_arr {s t rest : GoString} {vs : List Json} (hopen : skipSpace s = 0x5B :: t)
    (hne : ∀ u, skipSpace t ≠ 0x5D :: u) (helems : ParsesElems (skipSpace t) rest vs) :
    Parses s rest (.arr vs) := by
  intro fuel depth hsize hdepth
  rw [Json.size] at hsize
  rw [Json.depth] at hdepth
  obtain ⟨fuel, rfl⟩ : ∃ n, fuel = n + 1 := ⟨fuel - 1, by omega⟩
  obtain ⟨depth, rfl⟩ : ∃ n, depth = n + 1 := ⟨depth - 1, by omega⟩
  rw [parseValue, hopen]
  simp only [show (0x5B : UInt8) ≠ 0x22 by decide, if_false, if_true]
  rw [helems fuel depth (by omega) (by omega)]
  rfl

theorem parses_obj {s t rest : GoString} {fs : List (GoString × Json)}
    (hopen : skipSpace s = 0x7B :: t)
    (hne : ∀ u, skipSpace t ≠ 0x7D :: u) (hfields : ParsesFields (skipSpace t) rest fs) :
    Parses s rest (.obj fs) := by
  intro fuel depth hsize hdepth
  rw [Json.size] at hsize
  rw [Json.depth] at hdepth
  obtain ⟨fuel, rfl⟩ : ∃ n, fuel = n + 1 := ⟨fuel - 1, by omega⟩
  obtain ⟨depth, rfl⟩ : ∃ n, depth = n + 1 := ⟨depth - 1, by omega⟩
  rw [parseValue, hopen]
  simp only [show (0x7B : UInt8) ≠ 0x22 by decide, show (0x7B : UInt8) ≠ 0x5B by decide,
    if_false, if_true]
  rw [hfields fuel depth (by omega) (by omega)]
  rfl

theorem parses_nil {s t rest : GoString} {a b : UInt8} {v : Json} (hopen : skipSpace s = a :: t)
    (hclose : skipSpace t = b :: rest)
    (h : a = 0x5B ∧ b = 0x5D ∧ v = .arr [] ∨ a = 0x7B ∧ b = 0x7D ∧ v = .obj []) :
    Parses s rest v := by
  intro fuel depth hsize hdepth
  have hpos : 1 ≤ v.size ∧ 1 ≤ v.depth := by
    rcases h with ⟨-, -, rfl⟩ | ⟨-, -, rfl⟩ <;> exact ⟨Nat.le_refl 1, Nat.le_refl 1⟩
  obtain ⟨fuel, rfl⟩ : ∃ n, fuel = n + 1 := ⟨fuel - 1, by omega⟩
  obtain ⟨depth, rfl⟩ : ∃ n, depth = n + 1 := ⟨depth - 1, by omega⟩
  rw [parseValue, hopen]
  rcases h with ⟨rfl, rfl, rfl⟩ | ⟨rfl, rfl, rfl⟩
  · simp [hclose]
  · simp [hclose]

theorem IsToken.word_eq {text w : GoString} (h : IsToken text (.word w)) : text = w := by
  cases h <;> rfl

theorem IsToken.num_eq {text w : GoString} (h : IsToken text (.num w)) :
    text = w ∧ IsNumberText w := by
  cases h with
  | num htext => exact ⟨rfl, htext⟩

mutual

/-- **Tokens of a tree are read as the tree.** -/
theorem parses_lexemes :
    ∀ (v : Json) {s : GoString} {us : List (GoString × Lexeme)} {ls : List Lexeme},
    Lexes s us → us.map Prod.snd = v.lexemes ++ ls →
      ∃ rest ts, Lexes rest ts ∧ ts.map Prod.snd = ls ∧ Parses s rest v
  | .null, s, us, ls, h, hls => by
    obtain ⟨text, rest, ts, hskip, htok, hrest, hts, -⟩ := h.uncons hls
    exact ⟨rest, ts, hrest, hts, parses_word hskip (Or.inl ⟨htok.word_eq, rfl⟩)⟩
  | .bool true, s, us, ls, h, hls => by
    obtain ⟨text, rest, ts, hskip, htok, hrest, hts, -⟩ := h.uncons hls
    exact ⟨rest, ts, hrest, hts, parses_word hskip (Or.inr (Or.inl ⟨htok.word_eq, rfl⟩))⟩
  | .bool false, s, us, ls, h, hls => by
    obtain ⟨text, rest, ts, hskip, htok, hrest, hts, -⟩ := h.uncons hls
    exact ⟨rest, ts, hrest, hts, parses_word hskip (Or.inr (Or.inr ⟨htok.word_eq, rfl⟩))⟩
  | .num text, s, us, ls, h, hls => by
    obtain ⟨text', rest, ts, hskip, htok, hrest, hts, hend⟩ := h.uncons hls
    obtain ⟨rfl, htext⟩ := htok.num_eq
    exact ⟨rest, ts, hrest, hts, parses_num hskip htext hend⟩
  | .str w, s, us, ls, h, hls => by
    obtain ⟨w', t, rest, ts, hskip, hread, rfl, hrest, hts⟩ := h.uncons_str hls
    exact ⟨rest, ts, hrest, hts, parses_str hskip hread⟩
  | .arr [], s, us, ls, h, hls => by
    obtain ⟨t, ts, hopen, ht, hts⟩ := h.uncons_mark hls
    obtain ⟨rest, ts', hclose, hrest, hts'⟩ := ht.uncons_mark hts
    exact ⟨rest, ts', hrest, hts', parses_nil hopen hclose (Or.inl ⟨rfl, rfl, rfl⟩)⟩
  | .arr (v :: vs), s, us, ls, h, hls => by
    rw [Json.lexemes, List.cons_append, List.append_assoc] at hls
    obtain ⟨t, ts, hopen, ht, hts⟩ := h.uncons_mark hls
    obtain ⟨u, us', hu, hus', hv⟩ := parses_lexemes v ht.skip hts
    obtain ⟨rest, ts', hrest, hts', hend⟩ := elemsEnd_lexemes vs hu hus'
    obtain ⟨l, ls', hv', hne, -⟩ := v.lexemes_eq_cons
    rw [hv', List.cons_append] at hts
    exact ⟨rest, ts', hrest, hts',
      parses_arr hopen (ht.skipSpace_ne hts rfl hne) (parsesElems_cons hv hend)⟩
  | .obj [], s, us, ls, h, hls => by
    obtain ⟨t, ts, hopen, ht, hts⟩ := h.uncons_mark hls
    obtain ⟨rest, ts', hclose, hrest, hts'⟩ := ht.uncons_mark hts
    exact ⟨rest, ts', hrest, hts', parses_nil hopen hclose (Or.inr ⟨rfl, rfl, rfl⟩)⟩
  | .obj ((k, v) :: fs), s, us, ls, h, hls => by
    rw [Json.lexemes, List.cons_append, List.cons_append, List.cons_append, List.append_assoc] at hls
    obtain ⟨t, ts, hopen, ht, hts⟩ := h.uncons_mark hls
    obtain ⟨w, t', u, us', hquote, hk, rfl, hu, hus'⟩ := ht.skip.uncons_str hts
    obtain ⟨x, ts', hcolon, hx, hts'⟩ := hu.uncons_mark hus'
    obtain ⟨y, us'', hy, hus'', hv⟩ := parses_lexemes v hx hts'
    obtain ⟨rest, ts'', hrest, hts'', hend⟩ := fieldsEnd_lexemes fs hy hus''
    refine ⟨rest, ts'', hrest, hts'', parses_obj hopen (ht.skipSpace_ne hts rfl nofun) ?_⟩
    exact parsesFields_cons hquote hk hcolon hv hend

theorem elemsEnd_lexemes : ∀ (vs : List Json) {s : GoString} {us : List (GoString × Lexeme)}
    {ls : List Lexeme}, Lexes s us → us.map Prod.snd = lexemesElems vs ++ ls →
      ∃ rest ts, Lexes rest ts ∧ ts.map Prod.snd = ls ∧ ElemsEnd s rest vs
  | [], s, us, ls, h, hls => by
    rw [lexemesElems, List.singleton_append] at hls
    obtain ⟨rest, ts, hclose, hrest, hts⟩ := h.uncons_mark hls
    exact ⟨rest, ts, hrest, hts, hclose⟩
  | v :: vs, s, us, ls, h, hls => by
    rw [lexemesElems, List.cons_append, List.append_assoc] at hls
    obtain ⟨t, ts, hcomma, ht, hts⟩ := h.uncons_mark hls
    obtain ⟨u, us', hu, hus', hv⟩ := parses_lexemes v ht hts
    obtain ⟨rest, ts', hrest, hts', hend⟩ := elemsEnd_lexemes vs hu hus'
    exact ⟨rest, ts', hrest, hts', t, hcomma, parsesElems_cons hv hend⟩

theorem fieldsEnd_lexemes : ∀ (fs : List (GoString × Json)) {s : GoString}
    {us : List (GoString × Lexeme)} {ls : List Lexeme}, Lexes s us →
      us.map Prod.snd = lexemesFields fs ++ ls →
      ∃ rest ts, Lexes rest ts ∧ ts.map Prod.snd = ls ∧ FieldsEnd s rest fs
  | [], s, us, ls, h, hls => by
    rw [lexemesFields, List.singleton_append] at hls
    obtain ⟨rest, ts, hclose, hrest, hts⟩ := h.uncons_mark hls
    exact ⟨rest, ts, hrest, hts, hclose⟩
  | (k, v) :: fs, s, us, ls, h, hls => by
    rw [lexemesFields, List.cons_append, List.cons_append, List.cons_append, List.append_assoc] at hls
    obtain ⟨t, ts, hcomma, ht, hts⟩ := h.uncons_mark hls
    obtain ⟨w, t', u, us', hquote, hk, rfl, hu, hus'⟩ := ht.uncons_str hts
    obtain ⟨x, ts', hcolon, hx, hts'⟩ := hu.uncons_mark hus'
    obtain ⟨y, us'', hy, hus'', hv⟩ := parses_lexemes v hx hts'
    obtain ⟨rest, ts'', hrest, hts'', hend⟩ := fieldsEnd_lexemes fs hy hus''
    exact ⟨rest, ts'', hrest, hts'', t, hcomma, parsesFields_cons hquote hk hcolon hv hend⟩

end

/-! ### Whole texts -/

mutual

theorem Json.size_le_lexemes : ∀ v : Json, v.size ≤ v.lexemes.length
  | .null => Nat.le_refl 1
  | .bool true => Nat.le_refl 1
  | .bool false => Nat.le_refl 1
  | .num _ => Nat.le_refl 1
  | .str _ => Nat.le_refl 1
  | .arr [] => Nat.le_succ 1
  | .arr (v :: vs) => by
    have hv := v.size_le_lexemes
    have hvs := sizeElems_le_lexemes vs
    simp only [Json.size, sizeElems, Json.lexemes, List.length_cons, List.length_append]
    omega
  | .obj [] => Nat.le_succ 1
  | .obj ((k, v) :: fs) => by
    have hv := v.size_le_lexemes
    have hfs := sizeFields_le_lexemes fs
    simp only [Json.size, sizeFields, Json.lexemes, List.length_cons, List.length_append]
    omega

theorem sizeElems_le_lexemes : ∀ vs : List Json, sizeElems vs + 1 ≤ (lexemesElems vs).length
  | [] => Nat.le_refl 1
  | v :: vs => by
    have hv := v.size_le_lexemes
    have hvs := sizeElems_le_lexemes vs
    simp only [sizeElems, lexemesElems, List.length_cons, List.length_append]
    omega

theorem sizeFields_le_lexemes :
    ∀ fs : List (GoString × Json), sizeFields fs + 1 ≤ (lexemesFields fs).length
  | [] => Nat.le_refl 1
  | (k, v) :: fs => by
    have hv := v.size_le_lexemes
    have hfs := sizeFields_le_lexemes fs
    simp only [sizeFields, lexemesFields, List.length_cons, List.length_append]
    omega

end

/-- **A text is parsed to the tree whose tokens it consists of**, if that is not nested too
deeply. -/
theorem parse_eq_some_iff {s : GoString} {v : Json} :
    Json.parse s = some v ↔
      ∃ ts, Lexes s ts ∧ ts.map Prod.snd = v.lexemes ∧ v.depth ≤ maxNestingDepth := by
  constructor
  · intro h
    unfold Json.parse at h
    split at h
    · rename_i w rest hvalue
      obtain ⟨hempty, hw⟩ := Option.ite_none_right_eq_some.mp h
      obtain rfl := Option.some.inj hw
      have hskip : skipSpace rest = [] := List.isEmpty_iff.mp hempty
      have hend : NumberEnd rest := numberEnd_of_skipSpace (by rw [hskip]; nofun)
      obtain ⟨hread, hdepth⟩ := (readsTokens_parse _).1 _ _ _ _ hvalue hend
      obtain ⟨us, hus, hlex⟩ := hread [] (.nil (allSpace_of_skipSpace hskip))
      rw [List.append_nil] at hlex
      exact ⟨us, hlex, hus, hdepth⟩
    · cases h
  · rintro ⟨ts, hlex, hts, hdepth⟩
    have hls : ts.map Prod.snd = v.lexemes ++ [] := by rw [hts, List.append_nil]
    obtain ⟨rest, us, hrest, hus, hparses⟩ := parses_lexemes v hlex hls
    obtain rfl := List.map_eq_nil_iff.mp hus
    have hspace : skipSpace rest = [] := by
      cases hrest with
      | nil hs => exact hs.skipSpace_eq
    have hsize : v.size ≤ 2 * s.length + 2 := by
      have hlength := hlex.length_le
      have hle := v.size_le_lexemes
      rw [← hts, List.length_map] at hle
      omega
    unfold Json.parse
    rw [hparses _ _ hsize hdepth]
    simp only [hspace, List.isEmpty_nil, if_true]

end Go
