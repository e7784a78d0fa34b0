import UniLLM.Inference.StreamComplete
import UniLLM.Inference.StreamUsage
import UniLLM.Go.JsonGrammar
import UniLLM.Go.JsonRename

/-!
# The model name a client sees

Every line of a stream with `data: ` in front goes through `replaceModelName`, which puts
the public name in the place of the first text after `"model":"`, up to the next quote.
It does not read the JSON.  What it finds can be the member it is meant for, but also
one of a nested object, or an earlier member of the same name, or text in a line that is
no JSON object; a blank after the colon hides the member from it; a quote in the old name
or what would have to be escaped in the new one breaks the text.

This module says for every line and every public name whether what is relayed is right.
Tokens carry the argument: text around the place consists of the same tokens before and
after, so only the string at the place can differ.
-/

namespace UniLLM.Inference
open Go OpenAI

/-- A chunk with a model name: its last member `model` is a string, between the other
members. -/
structure NamesModel (line : GoString) (before : List (GoString × Json)) (model : GoString)
    (after : List (GoString × Json)) : Prop where
  parsed : ∃ payload, line = lit "data: " ++ payload ∧
    Json.parse payload = some (.obj (before ++ (lit "model", .str model) :: after))
  last : lit "model" ∉ after.map Prod.fst

/-- What must become of a line: a chunk names the public model and is the same otherwise;
any other line stays as it is. -/
structure RelayedRight (publicModel line relayed : GoString) : Prop where
  chunk : ∀ before model after, NamesModel line before model after →
    NamesModel relayed before publicModel after
  other : (∀ before model after, ¬ NamesModel line before model after) → relayed = line

/-! ### Where a name is replaced -/

/-- What stands in front of the name. -/
def modelKey : GoString := lit "\"model\":\""

theorem modelKey_eq : modelKey = 0x22 :: (lit "model" ++ [0x22, 0x3A, 0x22]) := by decide

theorem modelKey_append (s : GoString) :
    modelKey ++ s = 0x22 :: (lit "model" ++ 0x22 :: 0x3A :: 0x22 :: s) := by
  rw [modelKey_eq]
  simp

/-- The text before the first `"model":"`, the text up to the next quote, and what follows
the quote. -/
structure OldName (line before old rest : GoString) : Prop where
  line_eq : line = before ++ (modelKey ++ (old ++ 0x22 :: rest))
  first : index modelKey line = some before.length
  ends : 0x22 ∉ old

/-- The value that starts with the old name is that of the last member `model`, and what
follows it are the members after that one. -/
def IsOwnName (old rest model : GoString) (after : List (GoString × Json)) : Prop :=
  ∃ ts, Lexes (0x22 :: (old ++ 0x22 :: rest)) ts ∧
    ts.map Prod.snd = .str model :: lexemesFields after

/-- The literal that starts with the old name denotes the same when it starts with the public
name instead. -/
def SameString (publicModel old rest : GoString) : Prop :=
  ∃ more tail v v', 0x22 :: rest = more ++ 0x22 :: tail ∧ Denotes (old ++ more) v ∧
    Denotes (publicModel ++ more) v' ∧ replaceInvalid v' = replaceInvalid v

/-- A chunk that is relayed right: what is replaced is its own name, written without an
escaped quote, and the public name needs no escapes; or it has the public name already, and
the replacement changes no string. -/
def RewritableChunk (publicModel line model : GoString) (after : List (GoString × Json)) : Prop :=
  (∃ before old rest, OldName line before old rest ∧ IsOwnName old rest model after ∧
    (∃ v, Denotes old v) ∧ Verbatim publicModel) ∨
  (model = publicModel ∧ ∀ before old rest, OldName line before old rest →
    SameString publicModel old rest)

/-- A line that is relayed right. -/
structure Rewritable (publicModel line : GoString) : Prop where
  chunk : ∀ before model after, NamesModel line before model after →
    RewritableChunk publicModel line model after
  other : (∀ before model after, ¬ NamesModel line before model after) → isDataLine line = true →
    ∀ before old rest, OldName line before old rest → old = publicModel

section Place

variable {line before old rest : GoString} (publicModel : GoString)

theorem index_quote (h : 0x22 ∉ old) (rest : GoString) :
    index (lit "\"") (old ++ 0x22 :: rest) = some old.length := by
  have hquote : lit "\"" = [0x22] := by decide
  have hself := index_self_append [0x22] rest
  rw [List.singleton_append] at hself
  rw [hquote, index_append_of_not_mem h, hself, Option.map_some, Nat.zero_add]

theorem OldName.drop_eq (h : OldName line before old rest) :
    line.drop (before.length + modelKey.length) = old ++ 0x22 :: rest := by
  rw [h.line_eq, ← List.append_assoc, ← List.length_append, List.drop_left]

/-- **What is replaced.** -/
theorem OldName.replaceModelName_eq (h : OldName line before old rest) :
    replaceModelName line publicModel =
      before ++ (modelKey ++ (publicModel ++ 0x22 :: rest)) := by
  have hdrop := h.drop_eq
  have htake : line.take (before.length + modelKey.length) = before ++ modelKey := by
    rw [h.line_eq, ← List.append_assoc, ← List.length_append, List.take_left]
  have hrest : line.drop (before.length + modelKey.length + old.length) = 0x22 :: rest := by
    rw [← List.drop_drop, hdrop, List.drop_left]
  have hfirst := h.first
  unfold replaceModelName
  rw [modelKey] at hfirst hdrop htake hrest
  rw [hfirst]
  simp only [hdrop, index_quote h.ends, htake, hrest, List.append_assoc]
  rfl

example : replaceModelName (lit "data: \x7b\"model\":\"gpt-4o-mini\",\"choices\":[]\x7d")
    (lit "public-model") = lit "data: \x7b\"model\":\"public-model\",\"choices\":[]\x7d" := by
  decide +kernel

/-- Without a place no quote follows `"model":"`. -/
theorem index_quote_of_not (h : ∀ before old rest, ¬ OldName line before old rest) {idx : Nat}
    (hfirst : index modelKey line = some idx) :
    index (lit "\"") (line.drop (idx + modelKey.length)) = none := by
  obtain ⟨before, post, hline, rfl⟩ := index_eq_some hfirst
  have hdrop : line.drop (before.length + modelKey.length) = post := by
    rw [hline, ← List.append_assoc, ← List.length_append, List.drop_left]
  rw [hdrop]
  cases hq : index (lit "\"") post with
  | none => rfl
  | some n =>
    have hm : 0x22 ∈ post := by
      obtain ⟨p, q, rfl, -⟩ := index_eq_some hq
      have hquote : lit "\"" = [0x22] := by decide
      rw [hquote]
      simp
    obtain ⟨old, rest, rfl, hold⟩ := List.eq_append_cons_of_mem hm
    exact absurd ⟨hline, hfirst, hold⟩ (h before old rest)

/-- Without a place nothing is replaced. -/
theorem replaceModelName_of_not (h : ∀ before old rest, ¬ OldName line before old rest) :
    replaceModelName line publicModel = line := by
  unfold replaceModelName
  cases hfirst : index (lit "\"model\":\"") line with
  | none => rfl
  | some idx =>
    have hnone := index_quote_of_not h hfirst
    rw [modelKey] at hnone
    simp only [hnone]

/-- The place is the first one. -/
theorem OldName.unique {before' old' rest' : GoString} (h : OldName line before old rest)
    (h' : OldName line before' old' rest') : old = old' ∧ rest = rest' := by
  have hlength : before.length = before'.length := Option.some.inj (h.first.symm.trans h'.first)
  have heq := h.line_eq.symm.trans h'.line_eq
  obtain ⟨-, hafter⟩ := List.append_inj heq hlength
  have hname := List.append_cancel_left hafter
  have hfirst := index_quote h.ends rest
  rw [hname, index_quote h'.ends] at hfirst
  obtain ⟨hold, hrest⟩ := List.append_inj hname (Option.some.inj hfirst).symm
  exact ⟨hold, (List.cons.inj hrest).2⟩

/-- In a line with `data: ` in front the place is behind that. -/
theorem OldName.before_eq {payload : GoString}
    (h : OldName (lit "data: " ++ payload) before old rest) :
    ∃ x, before = lit "data: " ++ x ∧ payload = x ++ (modelKey ++ (old ++ 0x22 :: rest)) := by
  have hquote : 0x22 ∉ lit "data: " := by decide
  have hfirst := h.first
  rw [modelKey_eq, index_append_of_not_mem hquote] at hfirst
  obtain ⟨n, -, hn⟩ := Option.map_eq_some_iff.mp hfirst
  rcases List.append_eq_append_iff.mp h.line_eq with ⟨x, hx, hpayload⟩ | ⟨x, hx, -⟩
  · exact ⟨x, hx, hpayload⟩
  · have hlength := congrArg List.length hx
    rw [List.length_append] at hlength
    obtain rfl : x = [] := List.length_eq_zero_iff.mp (by omega)
    refine ⟨[], by rw [List.append_nil] at hx ⊢; exact hx.symm, ?_⟩
    have heq := h.line_eq
    rw [List.append_nil] at hx
    rw [← hx] at heq
    exact List.append_cancel_left heq

/-- A name is replaced by itself only. -/
theorem OldName.replaceModelName_eq_self_iff (h : OldName line before old rest) :
    replaceModelName line publicModel = line ↔ old = publicModel := by
  rw [h.replaceModelName_eq, h.line_eq]
  constructor
  · intro heq
    exact (List.append_cancel_right (List.append_cancel_left (List.append_cancel_left heq))).symm
  · rintro rfl
    rfl

end Place

/-! ### The tokens of a chunk -/

theorem not_lexes_model (s : GoString) (us : List (GoString × Lexeme)) :
    ¬ Lexes (lit "model" ++ s) us :=
  not_lexes_of_nextToken (b := 0x6D) (s := lit "odel" ++ s) rfl rfl

/-- The tokens around the value that starts with the old name.  There may be `more` of it, which
then starts with an escaped quote. -/
structure ValueAt (x old rest more v : GoString) (us ts : List (GoString × Lexeme)) : Prop where
  literal : Denotes (old ++ more) v
  split : ∃ tail, 0x22 :: rest = more ++ 0x22 :: tail ∧ Lexes tail ts
  /-- In front of the value the tokens are the same whatever the value is. -/
  paste : ∀ name vs, Lexes (0x22 :: (name ++ 0x22 :: rest)) vs →
    Lexes (x ++ (modelKey ++ (name ++ 0x22 :: rest))) (us ++ vs)

theorem exists_value {x name rest : GoString} {ts : List (GoString × Lexeme)}
    (h : Lexes (x ++ (modelKey ++ (name ++ 0x22 :: rest))) ts) :
    ∃ us vs, ts = us ++ vs ∧ Lexes (0x22 :: (name ++ 0x22 :: rest)) vs ∧
      ∀ name' vs', Lexes (0x22 :: (name' ++ 0x22 :: rest)) vs' →
        Lexes (x ++ (modelKey ++ (name' ++ 0x22 :: rest))) (us ++ vs') := by
  rw [modelKey_append] at h
  obtain ⟨us, vs, rfl, hvs, hpaste⟩ := h.key_context (by decide) (by decide) not_lexes_model
  refine ⟨us ++ [([0x3A], .mark 0x3A)], vs, List.append_cons .., hvs, fun name' vs' hvs' => ?_⟩
  rw [modelKey_append, ← List.append_cons]
  exact hpaste _ _ (.mark rfl hvs')

theorem exists_literal {name rest : GoString} {vs : List (GoString × Lexeme)} (hname : 0x22 ∉ name)
    (h : Lexes (0x22 :: (name ++ 0x22 :: rest)) vs) :
    ∃ more tail v ts, 0x22 :: rest = more ++ 0x22 :: tail ∧
      Denotes (name ++ more) v ∧ Lexes tail ts ∧
      vs.map Prod.snd = .str (replaceInvalid v) :: ts.map Prod.snd := by
  obtain ⟨body, v, tail, ts, hsplit, hbody, htail, rfl⟩ := h.uncons_quote
  rcases List.append_eq_append_iff.mp hsplit with ⟨more, rfl, hmore⟩ | ⟨z, hz, htext⟩
  · exact ⟨more, tail, v, ts, hmore, hbody, htail, rfl⟩
  · cases z with
    | nil =>
      rw [List.append_nil] at hz
      rw [List.nil_append] at htext
      exact ⟨[], tail, v, ts, htext.symm, by rwa [List.append_nil, hz], htail, rfl⟩
    | cons b z =>
      -- the literal would end in the name
      refine absurd ?_ hname
      rw [hz, (List.cons.inj htext).1]
      simp

/-- **The value at the place.** -/
theorem exists_valueAt {x old rest : GoString} {ts : List (GoString × Lexeme)} (hends : 0x22 ∉ old)
    (h : Lexes (x ++ (modelKey ++ (old ++ 0x22 :: rest))) ts) :
    ∃ us tl more v, ValueAt x old rest more v us tl ∧
      ts.map Prod.snd = us.map Prod.snd ++ .str (replaceInvalid v) :: tl.map Prod.snd := by
  obtain ⟨us, vs, rfl, hvs, hpaste⟩ := exists_value h
  obtain ⟨more, tail, v, tl, hsplit, hliteral, htail, hmap⟩ := exists_literal hends hvs
  refine ⟨us, tl, more, v, ⟨hliteral, ⟨tail, hsplit, htail⟩, hpaste⟩, ?_⟩
  rw [List.map_append, hmap]

section ValueAt

variable {x old rest more v : GoString} {us tl : List (GoString × Lexeme)}

/-- Another name that makes a literal with what follows it. -/
theorem ValueAt.lexes {name w : GoString} (h : ValueAt x old rest more v us tl)
    (hname : Denotes (name ++ more) w) :
    ∃ vs, Lexes (0x22 :: (name ++ 0x22 :: rest)) vs ∧
      vs.map Prod.snd = .str (replaceInvalid w) :: tl.map Prod.snd := by
  obtain ⟨tail, hsplit, htail⟩ := h.split
  refine ⟨(0x22 :: (name ++ more ++ [0x22]), .str (replaceInvalid w)) :: tl, ?_, rfl⟩
  rw [hsplit, ← List.append_assoc]
  have htoken := Lexes.token (.str hname) trivial htail
  rwa [List.cons_append, List.append_assoc, List.singleton_append] at htoken

/-- The literal is the one that the old name starts. -/
theorem ValueAt.unique {more' tail' v' : GoString} (h : ValueAt x old rest more v us tl)
    (hsplit' : 0x22 :: rest = more' ++ 0x22 :: tail') (hliteral' : Denotes (old ++ more') v') :
    more' = more ∧ v' = v := by
  obtain ⟨tail, hsplit, -⟩ := h.split
  obtain ⟨hmore, -⟩ : old ++ more' = old ++ more ∧ tail' = tail := by
    refine hliteral'.body_unique h.literal ?_
    rw [List.append_assoc, List.append_assoc, ← hsplit, ← hsplit']
  obtain rfl := List.append_cancel_left hmore
  exact ⟨rfl, hliteral'.unique h.literal⟩

/-- What may follow the old name in the literal is an escaped quote. -/
theorem ValueAt.head_eq (h : ValueAt x old rest more v us tl) : ∀ b ∈ more.head?, b = 0x22 := by
  obtain ⟨tail, hsplit, -⟩ := h.split
  intro b hb
  cases more with
  | nil => cases hb
  | cons c more =>
    obtain rfl := Option.some.inj hb
    exact (List.cons.inj hsplit).1.symm

/-- **The tokens with another name.**  If there are as many as before, the literal ends where it
did. -/
theorem ValueAt.renamed_iff (h : ValueAt x old rest more v us tl) (name : GoString)
    {ls : List Lexeme} (hlength : ls.length = us.length + tl.length + 1) :
    (∃ ts, Lexes (x ++ (modelKey ++ (name ++ 0x22 :: rest))) ts ∧ ts.map Prod.snd = ls) ↔
      ∃ w, Denotes (name ++ more) w ∧
        us.map Prod.snd ++ .str (replaceInvalid w) :: tl.map Prod.snd = ls := by
  constructor
  · rintro ⟨ts, hlex, rfl⟩
    obtain ⟨us', vs, rfl, hvs, -⟩ := exists_value hlex
    obtain rfl : us' = us := List.append_cancel_right (hlex.unique (h.paste name vs hvs))
    obtain ⟨tail, hsplit, htail⟩ := h.split
    rw [List.length_map, List.length_append] at hlength
    rw [hsplit, ← List.append_assoc] at hvs
    obtain ⟨w, hw, rfl⟩ := htail.str_of_length hvs (by omega)
    exact ⟨w, hw, by rw [List.map_append, List.map_cons]⟩
  · rintro ⟨w, hw, rfl⟩
    obtain ⟨vs, hvs, hmap⟩ := h.lexes hw
    exact ⟨us ++ vs, h.paste name vs hvs, by rw [List.map_append, hmap]⟩

end ValueAt

/-- Where a string is a member's value, the tokens before and after it do not depend on it. -/
theorem exists_lexemesFields (before : List (GoString × Json)) (key : GoString)
    (after : List (GoString × Json)) :
    ∃ ls, ∀ s, lexemesFields (before ++ (key, .str s) :: after) =
      ls ++ .str s :: lexemesFields after := by
  induction before with
  | nil => exact ⟨[.mark 0x2C, .str key, .mark 0x3A], fun s => by simp [lexemesFields, Json.lexemes]⟩
  | cons f before ih =>
    obtain ⟨k, v⟩ := f
    obtain ⟨ls, hls⟩ := ih
    refine ⟨.mark 0x2C :: .str k :: .mark 0x3A :: (v.lexemes ++ ls), fun s => ?_⟩
    rw [List.cons_append, lexemesFields, hls]
    simp

theorem exists_lexemes_obj (before : List (GoString × Json)) (key : GoString)
    (after : List (GoString × Json)) :
    ∃ ls, ∀ s, (Json.obj (before ++ (key, .str s) :: after)).lexemes =
      ls ++ .str s :: lexemesFields after := by
  cases before with
  | nil => exact ⟨[.mark 0x7B, .str key, .mark 0x3A], fun s => by simp [Json.lexemes]⟩
  | cons f before =>
    obtain ⟨k, v⟩ := f
    obtain ⟨ls, hls⟩ := exists_lexemesFields before key after
    refine ⟨.mark 0x7B :: .str k :: .mark 0x3A :: (v.lexemes ++ ls), fun s => ?_⟩
    rw [List.cons_append, Json.lexemes, hls]
    simp

theorem same_place_of_append {α : Type} {p a b f : List α} {x y : α}
    (h : p ++ x :: b = (p ++ a) ++ y :: f) :
    (a = [] ∧ x = y ∧ b = f) ∨ ∀ x' y', p ++ x' :: b = (p ++ a) ++ y' :: f → x' = x ∧ y' = y := by
  rw [List.append_assoc] at h
  have htail := List.append_cancel_left h
  cases a with
  | nil =>
    obtain ⟨rfl, rfl⟩ := List.cons.inj htail
    exact Or.inl ⟨rfl, rfl, rfl⟩
  | cons z a =>
    obtain ⟨rfl, rfl⟩ := List.cons.inj htail
    refine Or.inr fun x' y' heq => ?_
    rw [List.append_assoc] at heq
    obtain ⟨rfl, hrest⟩ := List.cons.inj (List.append_cancel_left heq)
    exact ⟨rfl, (List.cons.inj (List.append_cancel_left hrest)).1.symm⟩

/-- Two places in a list are the same place, or neither can be changed alone. -/
theorem same_place_or {α : Type} {p b q f : List α} {x y : α} (h : p ++ x :: b = q ++ y :: f) :
    (p = q ∧ x = y ∧ b = f) ∨ ∀ x' y', p ++ x' :: b = q ++ y' :: f → x' = x ∧ y' = y := by
  rcases List.append_eq_append_iff.mp h with ⟨a, rfl, -⟩ | ⟨a, rfl, -⟩
  · rcases same_place_of_append h with ⟨rfl, hx, hb⟩ | hother
    · exact Or.inl ⟨(List.append_nil p).symm, hx, hb⟩
    · exact Or.inr hother
  · rcases same_place_of_append h.symm with ⟨rfl, hx, hb⟩ | hother
    · exact Or.inl ⟨List.append_nil q, hx.symm, hb.symm⟩
    · exact Or.inr fun x' y' heq => (hother y' x' heq.symm).symm

/-! ### What a chunk becomes -/

/-- **A chunk becomes the chunk with the public name**, when its text is changed at the given
place, if its own name is replaced by one that is a literal as it is, or its name is the
public one already and the change does not show. -/
theorem parse_renamed_iff {publicModel x old rest model : GoString}
    {before after : List (GoString × Json)} (hends : 0x22 ∉ old)
    (hparse : Json.parse (x ++ (modelKey ++ (old ++ 0x22 :: rest))) =
      some (.obj (before ++ (lit "model", .str model) :: after))) :
    Json.parse (x ++ (modelKey ++ (publicModel ++ 0x22 :: rest))) =
        some (.obj (before ++ (lit "model", .str publicModel) :: after)) ↔
      (IsOwnName old rest model after ∧ (∃ v, Denotes old v) ∧ Verbatim publicModel) ∨
        (model = publicModel ∧ SameString publicModel old rest) := by
  obtain ⟨ts, hlex, hts, hdepth⟩ := parse_eq_some_iff.mp hparse
  obtain ⟨us, tl, more, v, hvalue, hmap⟩ := exists_valueAt hends hlex
  obtain ⟨ls, hls⟩ := exists_lexemes_obj before (lit "model") after
  rw [hls, hmap] at hts
  have hstr : (Json.str model).depth = (Json.str publicModel).depth := rfl
  rw [Json.depth, depthFields_append_congr before after hstr, ← Json.depth] at hdepth
  -- the chunk with the public name has as many tokens
  have hlength : (ls ++ Lexeme.str publicModel :: lexemesFields after).length =
      us.length + tl.length + 1 := by
    have hcount := congrArg List.length hts
    simp only [List.length_append, List.length_cons, List.length_map] at hcount ⊢
    omega
  have hrenamed := hvalue.renamed_iff publicModel hlength
  rw [parse_eq_some_iff, hls]
  constructor
  · rintro ⟨ts', hlex', hts', -⟩
    obtain ⟨w, hw, hplaces⟩ := hrenamed.mp ⟨ts', hlex', hts'⟩
    obtain ⟨tail, hsplit, -⟩ := hvalue.split
    rcases same_place_or hts with ⟨rfl, hname, hafter⟩ | hother
    · -- the place is that of the chunk's name
      obtain ⟨hpublic, -⟩ := List.cons.inj (List.append_cancel_left hplaces)
      obtain ⟨rfl, hverbatim⟩ := verbatim_of_denotes hw hvalue.head_eq (Lexeme.str.inj hpublic)
      have hold : Denotes old v := by
        have hliteral := hvalue.literal
        rwa [List.append_nil] at hliteral
      obtain ⟨vs, hvs, hmap'⟩ := hvalue.lexes hvalue.literal
      exact Or.inl ⟨⟨vs, hvs, by rw [hmap', hname, hafter]⟩, ⟨v, hold⟩, hverbatim⟩
    · obtain ⟨hsame, hpublic⟩ := hother _ _ hplaces
      exact Or.inr ⟨(Lexeme.str.inj hpublic).symm, more, tail, v, w, hsplit, hvalue.literal, hw,
        Lexeme.str.inj hsame⟩
  · rintro (⟨⟨vs, hvs, hown⟩, ⟨v', hold⟩, hvalid, hplain⟩ |
      ⟨rfl, more', tail, v', w, hsplit, hold, hw, hsame⟩)
    · -- the literal is the old name
      rw [← List.append_nil old] at hold
      obtain ⟨rfl, rfl⟩ := hvalue.unique (List.nil_append (0x22 :: rest)).symm hold
      obtain ⟨vs', hvs', hmap'⟩ := hvalue.lexes hvalue.literal
      rw [hvs'.unique hvs, hown] at hmap'
      rw [← hmap'] at hts
      obtain ⟨ts', hlex', hts'⟩ := hrenamed.mpr ⟨publicModel, by
        rw [List.append_nil]
        exact denotes_self hplain, by
        rw [replaceInvalid_of_valid hvalid, List.append_cancel_right hts, (List.cons.inj hmap').2]⟩
      exact ⟨ts', hlex', hts', hdepth⟩
    · -- the tokens are the same
      obtain ⟨rfl, rfl⟩ := hvalue.unique hsplit hold
      obtain ⟨ts', hlex', hts'⟩ := hrenamed.mpr ⟨w, hw, by rw [hsame, hts]⟩
      exact ⟨ts', hlex', hts', hdepth⟩

/-! ### Lines -/

variable {publicModel line : GoString}

/-- JSON is looked into. -/
theorem isDataLine_of_parse {payload : GoString} {t : Json} (hparse : Json.parse payload = some t) :
    isDataLine (lit "data: " ++ payload) = true := by
  have hne : lit "data: " ++ payload ≠ lit "data: [DONE]" := by
    intro heq
    have hdone : lit "data: [DONE]" = lit "data: " ++ lit "[DONE]" := by decide
    rw [hdone] at heq
    rw [List.append_cancel_left heq, show Json.parse (lit "[DONE]") = none by decide +kernel] at hparse
    cases hparse
  rw [isDataLine, hasPrefix_append, Bool.true_and]
  exact bne_iff_ne.mpr hne

/-- Every chunk is looked into. -/
theorem NamesModel.isDataLine_eq {before after : List (GoString × Json)} {model : GoString}
    (h : NamesModel line before model after) : isDataLine line = true := by
  obtain ⟨payload, rfl, hparse⟩ := h.parsed
  exact isDataLine_of_parse hparse

/-- A chunk and its members are one thing. -/
theorem NamesModel.parsed_append {payload model : GoString} {before after : List (GoString × Json)}
    (h : NamesModel (lit "data: " ++ payload) before model after) :
    Json.parse payload = some (.obj (before ++ (lit "model", .str model) :: after)) := by
  obtain ⟨payload', heq, hparse⟩ := h.parsed
  rwa [List.append_cancel_left heq]

theorem namesModel_append_iff {payload model : GoString} {before after : List (GoString × Json)}
    (hlast : lit "model" ∉ after.map Prod.fst) :
    NamesModel (lit "data: " ++ payload) before model after ↔
      Json.parse payload = some (.obj (before ++ (lit "model", .str model) :: after)) :=
  ⟨fun h => h.parsed_append, fun h => ⟨⟨payload, rfl, h⟩, hlast⟩⟩

theorem namesModel_rewriteLine_iff {before after : List (GoString × Json)} {model : GoString}
    (h : NamesModel line before model after) :
    NamesModel (rewriteLine publicModel line) before publicModel after ↔
      RewritableChunk publicModel line model after := by
  have hline : rewriteLine publicModel line = replaceModelName line publicModel :=
    if_pos h.isDataLine_eq
  obtain ⟨payload, rfl, hparse⟩ := h.parsed
  rw [hline]
  by_cases hplace : ∃ front old rest, OldName (lit "data: " ++ payload) front old rest
  · obtain ⟨front, old, rest, hold⟩ := hplace
    obtain ⟨x, rfl, rfl⟩ := hold.before_eq
    rw [hold.replaceModelName_eq, List.append_assoc, namesModel_append_iff h.last,
      parse_renamed_iff hold.ends hparse]
    constructor
    · rintro (⟨hown, hliteral, hpublic⟩ | ⟨rfl, hsame⟩)
      · exact Or.inl ⟨_, old, rest, hold, hown, hliteral, hpublic⟩
      · refine Or.inr ⟨rfl, fun front' old' rest' hold' => ?_⟩
        obtain ⟨rfl, rfl⟩ := hold.unique hold'
        exact hsame
    · rintro (⟨front', old', rest', hold', hown, hliteral, hpublic⟩ | ⟨rfl, hsame⟩)
      · obtain ⟨rfl, rfl⟩ := hold.unique hold'
        exact Or.inl ⟨hown, hliteral, hpublic⟩
      · exact Or.inr ⟨rfl, hsame _ _ _ hold⟩
  · have hnone : ∀ front old rest, ¬ OldName (lit "data: " ++ payload) front old rest :=
      fun front old rest hold => hplace ⟨front, old, rest, hold⟩
    rw [replaceModelName_of_not publicModel hnone, namesModel_append_iff h.last, hparse]
    constructor
    · intro heq
      have hfields := Json.obj.inj (Option.some.inj heq)
      obtain ⟨hname, -⟩ := List.cons.inj (List.append_cancel_left hfields)
      refine Or.inr ⟨?_, fun front old rest hold => absurd hold (hnone front old rest)⟩
      exact Json.str.inj (Prod.mk.inj hname).2
    · rintro (⟨front, old, rest, hold, -⟩ | ⟨rfl, -⟩)
      · exact absurd hold (hnone front old rest)
      · rfl

/-- **A line is relayed right exactly when it is rewritable.** -/
theorem relayedRight_iff :
    RelayedRight publicModel line (rewriteLine publicModel line) ↔ Rewritable publicModel line := by
  have hother : rewriteLine publicModel line = line ↔
      (isDataLine line = true → ∀ before old rest, OldName line before old rest → old = publicModel) := by
    by_cases hdata : isDataLine line = true
    · have hline : rewriteLine publicModel line = replaceModelName line publicModel := if_pos hdata
      rw [hline]
      constructor
      · intro heq _ before old rest hold
        exact (hold.replaceModelName_eq_self_iff publicModel).mp heq
      · intro hsame
        by_cases hplace : ∃ before old rest, OldName line before old rest
        · obtain ⟨before, old, rest, hold⟩ := hplace
          exact (hold.replaceModelName_eq_self_iff publicModel).mpr
            (hsame hdata before old rest hold)
        · exact replaceModelName_of_not publicModel
            fun before old rest hold => hplace ⟨before, old, rest, hold⟩
    · exact ⟨fun _ h => absurd h hdata, fun _ => if_neg hdata⟩
  constructor
  · intro h
    refine ⟨fun before model after hname => ?_, fun hnone => hother.mp (h.other hnone)⟩
    exact (namesModel_rewriteLine_iff hname).mp (h.chunk before model after hname)
  · intro h
    refine ⟨fun before model after hname => ?_, fun hnone => hother.mpr (h.other hnone)⟩
    exact (namesModel_rewriteLine_iff hname).mpr (h.chunk before model after hname)

/-! ### Streams -/

/-- The lines the writer delivers. -/
def linesDelivered : List WriterReply → List GoString → List GoString
  | _, [] => []
  | [], ls => ls
  | .ok :: writer, line :: rest => line :: linesDelivered writer rest
  | .writeFails :: _, _ => []
  | .flushFails :: _, line :: _ => [line]

theorem scanLoop_linesDelivered (writer : List WriterReply) (t : Tally) (ls : List GoString) :
    (scanLoop publicModel writer t ls).1 =
      (linesDelivered writer ls).map (rewriteLine publicModel) := by
  induction ls generalizing writer t with
  | nil => cases writer <;> rfl
  | cons line rest ih =>
    cases writer with
    | nil => exact scanLoop_delivered publicModel t (line :: rest)
    | cons reply writer =>
      cases reply with
      | ok => rw [scanLoop, linesDelivered, List.map_cons, ih]
      | writeFails => rfl
      | flushFails => rfl

theorem prefix_linesDelivered (writer : List WriterReply) (ls : List GoString) :
    linesDelivered writer ls <+: ls := by
  induction ls generalizing writer with
  | nil => cases writer <;> exact List.prefix_refl _
  | cons line rest ih =>
    cases writer with
    | nil => exact List.prefix_refl _
    | cons reply writer =>
      cases reply with
      | ok => exact List.prefix_cons_inj line |>.mpr (ih writer)
      | writeFails => exact List.nil_prefix
      | flushFails => exact ⟨rest, rfl⟩

variable {W : Type}

/-- Every line that is delivered is the upstream's line at its place, relayed right. -/
def RelaysRight (s : Service W) (call : CallContext) (req : ChatCompletionRequest)
    (writer : List WriterReply) (latency : Rat) (w : W) : Prop :=
  ∀ route stream, s.Opens req w route stream → ∀ (n : Nat) (relayed : GoString),
    (s.chatCompletionStream call req writer latency w).1.delivered[n]? = some relayed →
      ∃ line, (lines stream.data)[n]? = some line ∧ RelayedRight req.model line relayed

/-- A chunk with a blank after the colon of its member `model`. -/
def spacedChunk : GoString := lit "\x7b\"model\": \"gpt-4o-mini\"\x7d"

theorem parse_spacedChunk :
    Json.parse spacedChunk = some (.obj [(lit "model", .str (lit "gpt-4o-mini"))]) :=
  rfl

/-- The blank hides the name. -/
theorem not_relaysRight_spaced :
    ¬ RelaysRight
      (oneRoute (.direct ⟨lit "data: " ++ (spacedChunk ++ lit "\n"), .eof, false⟩)) ⟨1, 1⟩
      { model := lit "fast", messages := [] } [] 0 () := by
  intro h
  have hdelivered := h _ _ (oneRoute_opens _ _) 0 (lit "data: " ++ spacedChunk)
  rw [chatCompletionStream_of_opens (oneRoute_opens _ _)] at hdelivered
  obtain ⟨line, hline, hright⟩ := hdelivered (by decide +kernel)
  obtain rfl : lit "data: " ++ spacedChunk = line := by
    apply Option.some.inj
    rw [← hline]
    decide +kernel
  have hchunk := (hright.chunk [] (lit "gpt-4o-mini") []
    ⟨⟨spacedChunk, rfl, parse_spacedChunk⟩, List.not_mem_nil⟩).parsed_append
  rw [parse_spacedChunk] at hchunk
  obtain ⟨hmember, -⟩ := List.cons.inj (Json.obj.inj (Option.some.inj hchunk))
  exact absurd (Json.str.inj (Prod.mk.inj hmember).2) (by decide)

/-- **A call relays everything right exactly when the lines it delivers are rewritable.** -/
theorem relaysRight_iff (s : Service W) (call : CallContext) (req : ChatCompletionRequest)
    (writer : List WriterReply) (latency : Rat) (w : W) :
    RelaysRight s call req writer latency w ↔
      ∀ route stream, s.Opens req w route stream →
        ∀ line ∈ linesDelivered writer (scanLines maxScanTokenSize stream).1,
          Rewritable req.model line := by
  refine forall₃_congr fun route stream hopens => ?_
  have hdelivered : (s.chatCompletionStream call req writer latency w).1.delivered =
      (linesDelivered writer (scanLines maxScanTokenSize stream).1).map
        (rewriteLine req.model) := by
    rw [chatCompletionStream_of_opens hopens]
    exact scanLoop_linesDelivered ..
  have hprefix : linesDelivered writer (scanLines maxScanTokenSize stream).1 <+:
      lines stream.data :=
    (prefix_linesDelivered ..).trans (prefix_scanFrom [] stream.data)
  have hnth : ∀ (n : Nat) (line : GoString),
      (linesDelivered writer (scanLines maxScanTokenSize stream).1)[n]? = some line →
        (lines stream.data)[n]? = some line := by
    intro n line hn
    obtain ⟨hlength, rfl⟩ := List.getElem?_eq_some_iff.mp hn
    exact List.prefix_iff_getElem?.mp hprefix n hlength
  rw [hdelivered]
  constructor
  · intro h line hline
    obtain ⟨n, hn⟩ := List.mem_iff_getElem?.mp hline
    obtain ⟨line', hline', hright⟩ := h n _ (by rw [List.getElem?_map, hn, Option.map_some])
    obtain rfl := Option.some.inj ((hnth n line hn).symm.trans hline')
    exact relayedRight_iff.mp hright
  · intro h n relayed hrelayed
    rw [List.getElem?_map] at hrelayed
    obtain ⟨line, hn, rfl⟩ := Option.map_eq_some_iff.mp hrelayed
    exact ⟨line, hnth n line hn, relayedRight_iff.mpr (h line (List.mem_of_getElem? hn))⟩

end UniLLM.Inference
