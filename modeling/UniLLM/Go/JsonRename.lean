import UniLLM.Go.JsonDecode
import UniLLM.Go.JsonGrammar
import UniLLM.Go.JsonVerbatim

/-!
# Changes that a decoder does not see

A text is changed inside of one string literal.  Where that is the value of a member for which
a decoder has no field, the decoder reads what it did before.  `Renamed` relates the two
trees, for any set of such keys; `exists_renamed` finds the second from the tokens of the
first.

In a text the key before the literal is known by its end only: it may be a longer key with
an escaped quote in it (`Lexes.last_token`).
-/

namespace Go

/-! ### Trees with another string in one place -/

/-- One string differs, and it is the value of a member with a hidden key. -/
inductive Renamed (hidden : GoString → Prop) : Json → Json → Prop
  | here {before after : List (GoString × Json)} {k s s' : GoString} (hk : hidden k) :
      Renamed hidden (.obj (before ++ (k, .str s) :: after))
        (.obj (before ++ (k, .str s') :: after))
  | member {before after : List (GoString × Json)} {k : GoString} {v v' : Json}
      (h : Renamed hidden v v') :
      Renamed hidden (.obj (before ++ (k, v) :: after)) (.obj (before ++ (k, v') :: after))
  | elem {before after : List Json} {v v' : Json} (h : Renamed hidden v v') :
      Renamed hidden (.arr (before ++ v :: after)) (.arr (before ++ v' :: after))

variable {hidden : GoString → Prop}

/-- The two values are both objects or both arrays. -/
theorem Renamed.obj_or_arr {v v' : Json} (h : Renamed hidden v v') :
    (∃ fs fs', v = .obj fs ∧ v' = .obj fs') ∨
      ∃ before after x x', v = .arr (before ++ x :: after) ∧ v' = .arr (before ++ x' :: after) ∧
        Renamed hidden x x' := by
  cases h with
  | here => exact Or.inl ⟨_, _, rfl, rfl⟩
  | member => exact Or.inl ⟨_, _, rfl, rfl⟩
  | elem h => exact Or.inr ⟨_, _, _, _, rfl, rfl, h⟩

theorem depthFields_append_congr (before after : List (GoString × Json)) {k : GoString}
    {v v' : Json} (h : v.depth = v'.depth) :
    depthFields (before ++ (k, v) :: after) = depthFields (before ++ (k, v') :: after) := by
  induction before with
  | nil => rw [List.nil_append, List.nil_append, depthFields, depthFields, h]
  | cons f before ih =>
    obtain ⟨k₁, v₁⟩ := f
    rw [List.cons_append, List.cons_append, depthFields, depthFields, ih]

theorem depthElems_append_congr (before after : List Json) {v v' : Json} (h : v.depth = v'.depth) :
    depthElems (before ++ v :: after) = depthElems (before ++ v' :: after) := by
  induction before with
  | nil => rw [List.nil_append, List.nil_append, depthElems, depthElems, h]
  | cons v₁ before ih => rw [List.cons_append, List.cons_append, depthElems, depthElems, ih]

theorem Renamed.depth_eq {v v' : Json} (h : Renamed hidden v v') : v.depth = v'.depth := by
  induction h with
  | @here before after k s s' _ =>
    have hstr : (Json.str s).depth = (Json.str s').depth := rfl
    rw [Json.depth, Json.depth, depthFields_append_congr _ _ hstr]
  | member _ ih => rw [Json.depth, Json.depth, depthFields_append_congr _ _ ih]
  | elem _ ih => rw [Json.depth, Json.depth, depthElems_append_congr _ _ ih]

/-! ### The place among the tokens -/

/-- The tokens from a member on whose value is a string. -/
def memberTokens (k s : GoString) (back : List Lexeme) : List Lexeme :=
  .str k :: .mark 0x3A :: .str s :: back

/-- What follows a value starts with a mark, and not with a colon. -/
def EndsValue (ls : List Lexeme) : Prop := ∀ l ∈ ls.head?, l ≠ .mark 0x3A ∧ ∀ s, l ≠ .str s

theorem endsValue_elems (vs : List Json) : EndsValue (lexemesElems vs) := by
  intro l hl
  cases vs <;>
    simp only [lexemesElems, List.head?_cons, Option.mem_def, Option.some.injEq] at hl <;>
    subst hl <;> simp

theorem endsValue_fields (fs : List (GoString × Json)) : EndsValue (lexemesFields fs) := by
  intro l hl
  rcases fs with _ | ⟨⟨k, v⟩, fs⟩ <;>
    simp only [lexemesFields, List.head?_cons, Option.mem_def, Option.some.injEq] at hl <;>
    subst hl <;> simp

/-- **The place is in the value or behind it.** -/
theorem place_in_value_or_behind {xs ls front back : List Lexeme} {k s : GoString}
    (hls : EndsValue ls) (h : xs ++ ls = front ++ memberTokens k s back) :
    (∃ back', back = back' ++ ls ∧ xs = front ++ memberTokens k s back') ∨
      ∃ front', front = xs ++ front' ∧ ls = front' ++ memberTokens k s back := by
  rcases List.append_eq_append_iff.mp h with ⟨front', hfront, hbehind⟩ | ⟨c, rfl, hc⟩
  · exact Or.inr ⟨front', hfront, hbehind⟩
  · -- no value ends within the three tokens
    rcases c with _ | ⟨l₁, _ | ⟨l₂, _ | ⟨l₃, back'⟩⟩⟩ <;>
      simp only [memberTokens, List.cons_append, List.nil_append, List.cons.injEq] at hc
    · exact Or.inr ⟨[], by simp, hc.symm⟩
    · obtain ⟨-, rfl⟩ := hc
      exact absurd rfl (hls _ rfl).1
    · obtain ⟨-, -, rfl⟩ := hc
      exact absurd rfl ((hls _ rfl).2 s)
    · obtain ⟨rfl, rfl, rfl, rfl⟩ := hc
      exact Or.inl ⟨back', rfl, rfl⟩

/-- A value that starts with a string is a string. -/
theorem eq_str_of_lexemes {v : Json} {ls back : List Lexeme} {s : GoString}
    (h : v.lexemes ++ ls = .str s :: back) : v = .str s ∧ ls = back := by
  cases v with
  | str s' =>
    obtain ⟨hs, hls⟩ := List.cons.inj h
    exact ⟨congrArg Json.str (Lexeme.str.inj hs), hls⟩
  | null | num => cases (List.cons.inj h).1
  | bool b => cases b <;> cases (List.cons.inj h).1
  | arr vs => cases vs <;> cases (List.cons.inj h).1
  | obj fs => rcases fs with _ | ⟨⟨k, v⟩, fs⟩ <;> cases (List.cons.inj h).1

/-- A place in the tokens of a value is one in the value. -/
def ValueRenames (hidden : GoString → Prop) (k s s' : GoString) (v : Json) : Prop :=
  ∀ front back, v.lexemes = front ++ memberTokens k s back →
    ∃ v', Renamed hidden v v' ∧ v'.lexemes = front ++ memberTokens k s' back

def ElemsRename (hidden : GoString → Prop) (k s s' : GoString) (vs : List Json) : Prop :=
  ∀ front back, lexemesElems vs = front ++ memberTokens k s back →
    ∃ vs', (∀ before, Renamed hidden (.arr (before ++ vs)) (.arr (before ++ vs'))) ∧
      lexemesElems vs' = front ++ memberTokens k s' back

def FieldsRename (hidden : GoString → Prop) (k s s' : GoString) (fs : List (GoString × Json)) :
    Prop :=
  ∀ front back, lexemesFields fs = front ++ memberTokens k s back →
    ∃ fs', (∀ before, Renamed hidden (.obj (before ++ fs)) (.obj (before ++ fs'))) ∧
      lexemesFields fs' = front ++ memberTokens k s' back

section Places

variable {k s : GoString} (s' : GoString)

/-- A value and what follows it in an array. -/
theorem rename_elems {v : Json} {vs : List Json} (hv : ValueRenames hidden k s s' v)
    (hvs : ElemsRename hidden k s s' vs) {front back : List Lexeme}
    (h : v.lexemes ++ lexemesElems vs = front ++ memberTokens k s back) :
    ∃ v' vs', (∀ before, Renamed hidden (.arr (before ++ v :: vs)) (.arr (before ++ v' :: vs'))) ∧
      v'.lexemes ++ lexemesElems vs' = front ++ memberTokens k s' back := by
  rcases place_in_value_or_behind (endsValue_elems vs) h with
    ⟨back', rfl, hin⟩ | ⟨front', rfl, hbehind⟩
  · obtain ⟨v', hrenamed, hlex⟩ := hv _ _ hin
    exact ⟨v', vs, fun _ => .elem hrenamed, by rw [hlex]; simp [memberTokens]⟩
  · obtain ⟨vs', hrenamed, hlex⟩ := hvs _ _ hbehind
    refine ⟨v, vs', fun before => ?_, by rw [hlex, List.append_assoc]⟩
    rw [List.append_cons, List.append_cons before v vs']
    exact hrenamed _

/-- A member and what follows it in an object. -/
theorem rename_fields (hk : hidden k) {k₁ : GoString} {v : Json} {fs : List (GoString × Json)}
    (hv : ValueRenames hidden k s s' v) (hfs : FieldsRename hidden k s s' fs)
    {front back : List Lexeme}
    (h : .str k₁ :: .mark 0x3A :: (v.lexemes ++ lexemesFields fs) =
      front ++ memberTokens k s back) :
    ∃ v' fs', (∀ before, Renamed hidden (.obj (before ++ (k₁, v) :: fs))
        (.obj (before ++ (k₁, v') :: fs'))) ∧
      .str k₁ :: .mark 0x3A :: (v'.lexemes ++ lexemesFields fs') =
        front ++ memberTokens k s' back := by
  rcases front with _ | ⟨l₁, _ | ⟨l₂, front⟩⟩ <;>
    simp only [memberTokens, List.cons_append, List.nil_append, List.cons.injEq, Lexeme.str.injEq,
      true_and] at h
  · obtain ⟨rfl, h⟩ := h
    obtain ⟨rfl, rfl⟩ := eq_str_of_lexemes h
    exact ⟨.str s', fs, fun _ => .here hk, rfl⟩
  · obtain ⟨-, hcolon, -⟩ := h
    cases hcolon
  · obtain ⟨rfl, rfl, h⟩ := h
    rcases place_in_value_or_behind (endsValue_fields fs) h with
      ⟨back', rfl, hin⟩ | ⟨front', rfl, hbehind⟩
    · obtain ⟨v', hrenamed, hlex⟩ := hv _ _ hin
      exact ⟨v', fs, fun _ => .member hrenamed, by rw [hlex]; simp [memberTokens]⟩
    · obtain ⟨fs', hrenamed, hlex⟩ := hfs _ _ hbehind
      refine ⟨v, fs', fun before => ?_, by rw [hlex]; simp⟩
      rw [List.append_cons, List.append_cons before _ fs']
      exact hrenamed _

/-- One or two tokens are no place. -/
theorem not_place_of_short {ls front back : List Lexeme} (hls : ls.length ≤ 2) :
    ¬ ls = front ++ memberTokens k s back := by
  rintro rfl
  simp only [memberTokens, List.length_append, List.length_cons] at hls
  omega

/-- A mark in front of the place is one in front of the tokens. -/
theorem front_of_mark {b : UInt8} {ls front back : List Lexeme}
    (h : .mark b :: ls = front ++ memberTokens k s back) :
    ∃ front', front = .mark b :: front' ∧ ls = front' ++ memberTokens k s back := by
  cases front with
  | nil => cases (List.cons.inj h).1
  | cons l front' =>
    obtain ⟨rfl, hls⟩ := List.cons.inj h
    exact ⟨front', rfl, hls⟩

mutual

/-- **A tree with another string.**  The tokens of a value may be changed at a place. -/
theorem exists_renamed (hk : hidden k) : ∀ v : Json, ValueRenames hidden k s s' v
  | .null => fun _ _ h => absurd h (not_place_of_short (Nat.le_succ 1))
  | .bool true => fun _ _ h => absurd h (not_place_of_short (Nat.le_succ 1))
  | .bool false => fun _ _ h => absurd h (not_place_of_short (Nat.le_succ 1))
  | .num _ => fun _ _ h => absurd h (not_place_of_short (Nat.le_succ 1))
  | .str _ => fun _ _ h => absurd h (not_place_of_short (Nat.le_succ 1))
  | .arr [] => fun _ _ h => absurd h (not_place_of_short (Nat.le_refl 2))
  | .arr (v :: vs) => by
    intro front back h
    rw [Json.lexemes] at h
    obtain ⟨front, rfl, htail⟩ := front_of_mark h
    obtain ⟨v', vs', hrenamed, hlex⟩ :=
      rename_elems s' (exists_renamed hk v) (elemsRename hk vs) htail
    exact ⟨.arr (v' :: vs'), hrenamed [], by rw [Json.lexemes, hlex, List.cons_append]⟩
  | .obj [] => fun _ _ h => absurd h (not_place_of_short (Nat.le_refl 2))
  | .obj ((k₁, v) :: fs) => by
    intro front back h
    rw [Json.lexemes] at h
    obtain ⟨front, rfl, htail⟩ := front_of_mark h
    obtain ⟨v', fs', hrenamed, hlex⟩ :=
      rename_fields s' hk (exists_renamed hk v) (fieldsRename hk fs) htail
    exact ⟨.obj ((k₁, v') :: fs'), hrenamed [], by rw [Json.lexemes, hlex, List.cons_append]⟩

theorem elemsRename (hk : hidden k) : ∀ vs : List Json, ElemsRename hidden k s s' vs
  | [] => fun _ _ h => absurd h (not_place_of_short (Nat.le_succ 1))
  | v :: vs => by
    intro front back h
    rw [lexemesElems] at h
    obtain ⟨front, rfl, htail⟩ := front_of_mark h
    obtain ⟨v', vs', hrenamed, hlex⟩ :=
      rename_elems s' (exists_renamed hk v) (elemsRename hk vs) htail
    exact ⟨v' :: vs', hrenamed, by rw [lexemesElems, hlex, List.cons_append]⟩

theorem fieldsRename (hk : hidden k) :
    ∀ fs : List (GoString × Json), FieldsRename hidden k s s' fs
  | [] => fun _ _ h => absurd h (not_place_of_short (Nat.le_succ 1))
  | (k₁, v) :: fs => by
    intro front back h
    rw [lexemesFields] at h
    obtain ⟨front, rfl, htail⟩ := front_of_mark h
    obtain ⟨v', fs', hrenamed, hlex⟩ :=
      rename_fields s' hk (exists_renamed hk v) (fieldsRename hk fs) htail
    exact ⟨(k₁, v') :: fs', hrenamed, by rw [lexemesFields, hlex, List.cons_append]⟩

end

end Places

/-! ### What decoders see -/

/-- The values of the members that set a field. -/
def membersFor (name : GoString) (fs : List (GoString × Json)) : List Json :=
  (fs.filter fun f => setsField name f.1).map Prod.snd

theorem decodeFields_append {σ : Type} (member : σ → GoString → Json → Option σ) (x : σ)
    (fs gs : List (GoString × Json)) :
    decodeFields member x (fs ++ gs) =
      (decodeFields member x fs).bind fun x => decodeFields member x gs := by
  induction fs generalizing x with
  | nil => rfl
  | cons f fs ih =>
    obtain ⟨k, v⟩ := f
    rw [List.cons_append, decodeFields, decodeFields]
    cases member x k v with
    | none => rfl
    | some y => exact ih y

/-- A struct with one field is decoded from the members that set it. -/
theorem decodeFields_membersFor {σ : Type} (name : GoString) (f : σ → Json → Option σ) (x : σ)
    (fs : List (GoString × Json)) :
    decodeFields (fun x k v => if setsField name k then f x v else some x) x fs =
      (membersFor name fs).foldlM f x := by
  induction fs generalizing x with
  | nil => rfl
  | cons field fs ih =>
    obtain ⟨k, v⟩ := field
    rw [decodeFields, membersFor, List.filter_cons]
    by_cases hk : setsField name k = true
    · rw [if_pos hk, if_pos hk, List.map_cons, List.foldlM_cons]
      cases f x v with
      | none => rfl
      | some y => exact ih y
    · rw [if_neg hk, if_neg hk]
      exact ih x

/-- **A struct is decoded alike**, if it has no field for the hidden keys and its fields are
decoded alike. -/
theorem Renamed.decodeFields_eq {σ : Type} {member : σ → GoString → Json → Option σ}
    (hhidden : ∀ x k v, hidden k → member x k v = some x)
    (hmember : ∀ x k v v', Renamed hidden v v' → member x k v = member x k v')
    {fs fs' : List (GoString × Json)} (h : Renamed hidden (.obj fs) (.obj fs')) (x : σ) :
    decodeFields member x fs = decodeFields member x fs' := by
  cases h with
  | here hk =>
    rw [decodeFields_append, decodeFields_append]
    simp only [decodeFields, hhidden _ _ _ hk]
  | member h =>
    rw [decodeFields_append, decodeFields_append]
    simp only [decodeFields, hmember _ _ _ _ h]

/-- A struct with one field. -/
theorem Renamed.decodeField_eq {σ : Type} {name : GoString} {f : σ → Json → Option σ}
    (hhidden : ∀ k, hidden k → setsField name k = false)
    (hf : ∀ x v v', Renamed hidden v v' → f x v = f x v')
    {fs fs' : List (GoString × Json)} (h : Renamed hidden (.obj fs) (.obj fs')) (x : σ) :
    decodeFields (fun x k v => if setsField name k then f x v else some x) x fs =
      decodeFields (fun x k v => if setsField name k then f x v else some x) x fs' := by
  refine h.decodeFields_eq (fun x k v hk => ?_) (fun x k v v' hv => ?_) x
  · rw [hhidden k hk, if_neg Bool.false_ne_true]
  · rw [hf x v v' hv]

theorem Renamed.decodeString_eq {v v' : Json} (h : Renamed hidden v v') (old : GoString) :
    decodeString old v = decodeString old v' := by
  cases h <;> rfl

theorem Renamed.decodeInt_eq {v v' : Json} (h : Renamed hidden v v') (old : Int) :
    decodeInt old v = decodeInt old v' := by
  cases h <;> rfl

/-! ### The key in front of a literal -/

theorem mem_foldName {s : GoString} (h : 0x22 ∈ s) : 0x22 ∈ foldName s := by
  induction s using foldName.induct with
  | case1 s ih => exact List.mem_cons_of_mem _ (ih (by simpa using h))
  | case2 s ih => exact List.mem_cons_of_mem _ (ih (by simpa using h))
  | case3 b s _ _ ih =>
    rw [foldName]
    rcases List.mem_cons.mp h with rfl | h
    · exact List.mem_cons_self ..
    · exact List.mem_cons_of_mem _ (ih h)
    all_goals assumption
  | case4 => cases h

/-- A key with a quote in it sets no field. -/
theorem setsField_of_quote {name key : GoString} (hname : 0x22 ∉ foldName name)
    (hkey : 0x22 ∈ key) : setsField name key = false := by
  rw [setsField, beq_eq_false_iff_ne]
  intro heq
  exact hname (heq ▸ mem_foldName hkey)

/-- A token that ends with a quoted word. -/
theorem IsToken.str_of_quoted {a k : GoString} {l : Lexeme} (hk : Verbatim k)
    (h : IsToken (a ++ 0x22 :: (k ++ [0x22])) l) :
    ∃ key, l = .str key ∧ (key = k ∨ 0x22 ∈ key) := by
  generalize htext : a ++ 0x22 :: (k ++ [0x22]) = text at h
  by_cases hl : ∀ s, l ≠ .str s
  · exact absurd (by rw [← htext]; simp) (h.quote_not_mem hl).1
  · cases h with
    | @str body v hbody =>
      refine ⟨_, rfl, ?_⟩
      cases a with
      | nil =>
        obtain ⟨-, hbodies⟩ := List.cons.inj htext
        obtain rfl : k = body := List.append_cancel_right hbodies
        obtain rfl := hbody.unique (denotes_self hk.2)
        exact Or.inl (replaceInvalid_of_valid hk.1)
      | cons b a =>
        obtain ⟨-, hbodies⟩ := List.cons.inj htext
        have hshape : a ++ 0x22 :: (k ++ [0x22]) = (a ++ 0x22 :: k) ++ [0x22] := by simp
        obtain rfl : a ++ 0x22 :: k = body :=
          List.append_cancel_right (hshape.symm.trans hbodies)
        obtain ⟨v₁, v₂, rfl, -⟩ := hbody.quote
        right
        rw [replaceInvalid_quote]
        simp
    | _ => exact absurd (by simp) hl

/-- **The last token of a text that ends with a quoted word** is that word, or a longer one
with a quote in it. -/
theorem Lexes.last_token {x k : GoString} {us : List (GoString × Lexeme)} (hk : Verbatim k)
    (hno : ∀ s us, ¬ Lexes (k ++ s) us) (h : Lexes (x ++ 0x22 :: (k ++ [0x22])) us) :
    ∃ us' text key, us = us' ++ [(text, .str key)] ∧ (key = k ∨ 0x22 ∈ key) := by
  have hquote : 0x22 ∉ k := fun hm => (hk.2 _ hm).1 rfl
  generalize hs : x ++ 0x22 :: (k ++ [0x22]) = s at h
  induction h generalizing x with
  | nil hspace =>
    cases hspace 0x22 (by rw [← hs]; simp)
  | @cons ws text rest l ts hws htok hend hrest ih =>
    have hbehind : ∀ b, rest = b ++ 0x22 :: (k ++ [0x22]) →
        ∃ us' text' key, (text, l) :: ts = us' ++ [(text', .str key)] ∧ (key = k ∨ 0x22 ∈ key) := by
      intro b hb
      obtain ⟨us', text', key, rfl, hkey⟩ := ih hb.symm
      exact ⟨(text, l) :: us', text', key, rfl, hkey⟩
    have htoken : ∀ a, a ++ 0x22 :: (k ++ [0x22]) = text ++ rest →
        ∃ us' text' key, (text, l) :: ts = us' ++ [(text', .str key)] ∧ (key = k ∨ 0x22 ∈ key) := by
      intro a ha
      rcases List.append_eq_append_iff.mp ha with ⟨c, rfl, hc⟩ | ⟨b, -, hb⟩
      · cases c with
        | nil => exact hbehind [] hc.symm
        | cons q c =>
          obtain ⟨rfl, hsplit⟩ := List.cons.inj hc
          -- the first quote is not the last byte of the token
          have hne : c ≠ [] := by
            rintro rfl
            have hrest' : k ++ [0x22] = rest := hsplit
            rw [← hrest'] at hrest
            exact hno _ _ hrest
          have hlast : c.getLast? = some 0x22 := by
            have htoken := htok.getLast_of_quote (by simp)
            rw [List.append_cons, List.getLast?_append_of_ne_nil _ hne] at htoken
            exact htoken
          -- so the token ends with the text
          rcases List.append_eq_append_iff.mp hsplit with ⟨d, rfl, hd⟩ | ⟨d, rfl, -⟩
          · rcases List.cons_eq_append_iff.mp hd with ⟨rfl, -⟩ | ⟨d', rfl, hd'⟩
            · rw [List.append_nil] at hlast
              exact absurd (List.mem_of_getLast? hlast) hquote
            · obtain ⟨rfl, rfl⟩ := List.append_eq_nil_iff.mp hd'.symm
              obtain rfl := hrest.unique (.nil fun b hb => absurd hb List.not_mem_nil)
              obtain ⟨key, rfl, hkey⟩ := htok.str_of_quoted hk
              exact ⟨[], _, key, rfl, hkey⟩
          · exact absurd (List.mem_append_left d (List.mem_of_getLast? hlast)) hquote
      · exact hbehind b hb
    rcases List.append_eq_append_iff.mp hs with ⟨c, rfl, hc⟩ | ⟨a, -, ha⟩
    · cases c with
      | nil => exact htoken [] hc
      | cons q c =>
        -- no quote in white space
        obtain ⟨rfl, -⟩ := List.cons.inj hc
        cases hws 0x22 (by simp)
    · exact htoken a ha.symm

/-! ### A literal that loses its beginning -/

/-- What follows an escaped quote in a literal is inside of it. -/
theorem Denotes.run_after_quote {old m v : GoString} (h : Denotes (old ++ 0x22 :: m) v) :
    QuoteState.inside.run old = .escape ∧ QuoteState.inside.run m = .inside := by
  have hrun := h.enclosed.run_eq
  have hprefix : old ++ [0x22] <+: old ++ 0x22 :: m := ⟨m, by simp⟩
  have hout := h.enclosed.not_outside _ hprefix
  have hnot := h.enclosed.not_outside old (List.prefix_append ..)
  rw [QuoteState.run_append, QuoteState.run_cons] at hrun
  rw [QuoteState.run_append, QuoteState.run_cons, QuoteState.run_nil] at hout
  cases hstate : QuoteState.inside.run old with
  | outside => exact absurd hstate hnot
  | inside =>
    rw [hstate] at hout
    exact absurd rfl hout
  | escape =>
    rw [hstate] at hrun
    exact ⟨rfl, hrun⟩
  | stuck =>
    rw [hstate] at hrun
    have hstuck : QuoteState.stuck.step 0x22 = .stuck := rfl
    rw [hstuck, QuoteState.run_stuck] at hrun
    cases hrun

/-- **No reader gets through** when the beginning of a literal, up to an escaped quote, is
replaced by text that escapes nothing: the quote closes the string, and from there on inside
and outside are exchanged. -/
theorem Lexes.not_cut {name old m v tail : GoString} {ts us : List (GoString × Lexeme)}
    (hname : ∀ b ∈ name, b ≠ 0x22 ∧ b ≠ 0x5C) (hliteral : Denotes (old ++ 0x22 :: m) v)
    (htail : Lexes tail ts) :
    ¬ Lexes (0x22 :: (name ++ 0x22 :: (m ++ 0x22 :: tail))) us := by
  intro h
  obtain ⟨-, hinside⟩ := hliteral.run_after_quote
  have hplain : QuoteState.inside.run name = .inside :=
    QuoteState.run_of_not_mem (Or.inr rfl) (fun hm => (hname _ hm).1 rfl)
      fun hm => (hname _ hm).2 rfl
  have hopen : QuoteState.outside.step 0x22 = .inside := rfl
  have hclose : QuoteState.inside.step 0x22 = .outside := rfl
  have hrun := h.run_outside
  rw [QuoteState.run_cons, hopen, QuoteState.run_append, hplain, QuoteState.run_cons,
    hclose] at hrun
  refine QuoteState.not_both_outside (m ++ 0x22 :: tail) ⟨hrun, ?_⟩
  rw [QuoteState.run_append, hinside, QuoteState.run_cons, hclose]
  exact htail.run_outside

end Go
