import UniLLM.Go.JsonValues
import Mathlib.Data.List.Pairwise

/-!
# Go types with a JSON form

How `json.Marshal` writes a value of a type and `json.Unmarshal` reads one, with the laws that the
two obey: what has been read can be written, within the brackets it was read in, and what has been
written is read into a fresh variable as the same value.  The types of a program are put together
from the basic ones with slices, pointers and structs, and obey the laws by construction.

A slice that is nil is not told from an empty one.  Where a member is repeated, a slice is read
into the elements it has; what its array holds behind them is not modelled.
-/

namespace Go

/-- A type with its JSON form. -/
structure JsonType (α : Type) where
  zero : α
  toJson : α → Json
  /-- Reads into a variable that holds a value. -/
  decode : α → Json → Option α
  /-- The value can be written within so many brackets. -/
  Fits : Nat → α → Prop
  /-- The brackets of a zero value. -/
  levels : Nat
  zero_fits : ∀ {d}, levels ≤ d → Fits d zero
  decode_fits : ∀ {d old v x}, levels ≤ d → Fits d old → v.Clean → v.depth ≤ d →
    decode old v = some x → Fits d x
  toJson_clean : ∀ {d x}, Fits d x → (toJson x).Clean
  toJson_depth : ∀ {d x}, Fits d x → (toJson x).depth ≤ d
  decode_toJson : ∀ {d x}, Fits d x → decode zero (toJson x) = some x

namespace JsonType

/-! ### Basic types -/

theorem decodeString_fits {old s : GoString} {v : Json} (hold : validString old = true)
    (hclean : v.Clean) (h : decodeString old v = some s) : validString s = true := by
  cases v <;> cases h
  · exact hold
  · exact hclean

def string : JsonType GoString where
  zero := []
  toJson := .str
  decode := decodeString
  Fits _ s := validString s = true
  levels := 0
  zero_fits _ := rfl
  decode_fits _ hold hclean _ h := decodeString_fits hold hclean h
  toJson_clean h := h
  toJson_depth _ := Nat.zero_le _
  decode_toJson _ := rfl

theorem inInt64_of_parseInt {s : GoString} {i : Int} (h : parseInt s = some i) : InInt64 i := by
  unfold parseInt at h
  obtain ⟨hfits, heq⟩ := Option.ite_none_right_eq_some.mp h
  rw [Bool.and_eq_true] at hfits
  rw [← Option.some.inj heq]
  exact of_decide_eq_true hfits.2

theorem decodeInt_fits {old i : Int} {v : Json} (hold : InInt64 old)
    (h : decodeInt old v = some i) : InInt64 i := by
  unfold decodeInt at h
  split at h
  · rwa [← Option.some.inj h]
  · exact inInt64_of_parseInt h
  · cases h

theorem inInt64_zero : InInt64 0 := by decide

def int : JsonType Int where
  zero := 0
  toJson i := .num (formatInt i)
  decode := decodeInt
  Fits _ i := InInt64 i
  levels := 0
  zero_fits _ := inInt64_zero
  decode_fits _ hold _ _ h := decodeInt_fits hold h
  toJson_clean {_ i} _ := isNumberText_formatInt i
  toJson_depth _ := Nat.zero_le _
  decode_toJson h := parseInt_formatInt h

theorem decodeFloat_fits {old x : Rat} {v : Json} (hold : IsFloat64 old)
    (h : decodeFloat old v = some x) : IsFloat64 x := by
  unfold decodeFloat at h
  split at h
  · rwa [← Option.some.inj h]
  · exact isFloat64_of_parseFloat h
  · cases h

def float64 : JsonType Rat where
  zero := 0
  toJson x := .num (formatFloat x)
  decode := decodeFloat
  Fits _ x := IsFloat64 x
  levels := 0
  zero_fits _ := isFloat64_zero
  decode_fits _ hold _ _ h := decodeFloat_fits hold h
  toJson_clean h := h.roundTrip.1
  toJson_depth _ := Nat.zero_le _
  decode_toJson h := h.roundTrip.2

def bool : JsonType Bool where
  zero := false
  toJson := .bool
  decode := decodeBool
  Fits _ _ := True
  levels := 0
  zero_fits _ := trivial
  decode_fits _ _ _ _ _ := trivial
  toJson_clean _ := trivial
  toJson_depth _ := Nat.zero_le _
  decode_toJson _ := rfl

/-! ### `interface{}` -/

/-- Into an `interface{}`: whatever it holds is replaced. -/
def decodeAny (v : Json) : Option Json := if v.floatsFit then some v.canonical else none

/-- A value, as its tree. -/
def IsValue (d : Nat) (v : Json) : Prop := v.canonical = v ∧ v.Clean ∧ v.depth ≤ d

theorem decodeAny_isValue {d : Nat} {v w : Json} (hclean : v.Clean) (hdepth : v.depth ≤ d)
    (h : decodeAny v = some w) : IsValue d w := by
  unfold decodeAny at h
  split at h
  · rw [← Option.some.inj h]
    exact ⟨v.canonical_canonical, v.canonical_clean hclean, le_trans v.depth_canonical hdepth⟩
  · cases h

theorem isValue_null (d : Nat) : IsValue d .null := ⟨rfl, trivial, Nat.zero_le d⟩

theorem toJson_value {d : Nat} {v : Json} (h : IsValue d v) :
    v.canonical.Clean ∧ v.canonical.depth ≤ d := by
  rw [h.1]
  exact h.2

theorem decodeAny_toJson {d : Nat} {v : Json} (h : IsValue d v) :
    decodeAny v.canonical = some v := by
  unfold decodeAny
  rw [v.floatsFit_canonical, if_pos rfl, v.canonical_canonical, h.1]

def any : JsonType Json where
  zero := .null
  toJson := Json.canonical
  decode _ := decodeAny
  Fits := IsValue
  levels := 0
  zero_fits {d} _ := isValue_null d
  decode_fits _ _ hclean hdepth h := decodeAny_isValue hclean hdepth h
  toJson_clean h := (toJson_value h).1
  toJson_depth h := (toJson_value h).2
  decode_toJson h := decodeAny_toJson h

/-! ### Slices -/

section Slice
variable {α : Type} (t : JsonType α)

/-- Reads elements, into those that are there and then into fresh ones. -/
def decodeElems : List α → List Json → Option (List α)
  | _, [] => some []
  | [], v :: vs => (t.decode t.zero v).bind fun x => (decodeElems [] vs).map (x :: ·)
  | old :: olds, v :: vs => (t.decode old v).bind fun x => (decodeElems olds vs).map (x :: ·)

def decodeSlice (old : List α) : Json → Option (List α)
  | .null => some []
  | .arr vs => t.decodeElems old vs
  | _ => none

/-- A bracket, and what its elements take. -/
def SliceFits (d : Nat) (xs : List α) : Prop := 1 ≤ d ∧ ∀ x ∈ xs, t.Fits (d - 1) x

variable {t}

theorem decodeElems_fits {d : Nat} (hlevels : t.levels ≤ d) {olds xs : List α} {vs : List Json}
    (holds : ∀ x ∈ olds, t.Fits d x) (hclean : CleanElems vs) (hdepth : depthElems vs ≤ d)
    (h : t.decodeElems olds vs = some xs) : ∀ x ∈ xs, t.Fits d x := by
  induction vs generalizing olds xs with
  | nil =>
    cases olds <;> cases h <;> exact fun x hx => absurd hx List.not_mem_nil
  | cons v vs ih =>
    obtain ⟨hv, hvs⟩ := max_le_iff.mp hdepth
    have hstep : ∃ old olds', t.Fits d old ∧ (∀ x ∈ olds', t.Fits d x) ∧
        (t.decode old v).bind (fun x => (t.decodeElems olds' vs).map (x :: ·)) = some xs := by
      cases olds with
      | nil =>
        exact ⟨t.zero, [], t.zero_fits hlevels, fun x hx => absurd hx List.not_mem_nil, h⟩
      | cons old olds =>
        exact ⟨old, olds, holds old List.mem_cons_self,
          fun x hx => holds x (List.mem_cons_of_mem _ hx), h⟩
    obtain ⟨old, olds', hold, holds', hread⟩ := hstep
    obtain ⟨x, hx, hrest⟩ := Option.bind_eq_some_iff.mp hread
    obtain ⟨ys, hys, rfl⟩ := Option.map_eq_some_iff.mp hrest
    exact List.forall_mem_cons.mpr ⟨t.decode_fits hlevels hold hclean.1 hv hx,
      ih holds' hclean.2 hvs hys⟩

theorem decodeSlice_fits {d : Nat} {old xs : List α} {v : Json} (hlevels : t.levels + 1 ≤ d)
    (hold : t.SliceFits d old) (hclean : v.Clean) (hdepth : v.depth ≤ d)
    (h : t.decodeSlice old v = some xs) : t.SliceFits d xs := by
  unfold decodeSlice at h
  split at h
  · rw [← Option.some.inj h]
    exact ⟨by omega, fun x hx => absurd hx List.not_mem_nil⟩
  · rename_i vs
    have hinner : depthElems vs ≤ d - 1 := Nat.le_sub_of_add_le hdepth
    exact ⟨by omega, decodeElems_fits (by omega) hold.2 hclean hinner h⟩
  · cases h

theorem slice_clean {d : Nat} {xs : List α} (h : t.SliceFits d xs) :
    CleanElems (xs.map t.toJson) ∧ depthElems (xs.map t.toJson) ≤ d - 1 := by
  obtain ⟨-, hall⟩ := h
  induction xs with
  | nil => exact ⟨trivial, Nat.zero_le _⟩
  | cons x xs ih =>
    obtain ⟨hx, hxs⟩ := List.forall_mem_cons.mp hall
    obtain ⟨hclean, hdepth⟩ := ih hxs
    exact ⟨⟨t.toJson_clean hx, hclean⟩, max_le (t.toJson_depth hx) hdepth⟩

theorem slice_depth {d : Nat} {xs : List α} (h : t.SliceFits d xs) :
    depthElems (xs.map t.toJson) + 1 ≤ d := by
  have hdepth := (slice_clean h).2
  have hone := h.1
  omega

theorem decodeElems_toJson {d : Nat} {xs : List α} (h : ∀ x ∈ xs, t.Fits d x) :
    t.decodeElems [] (xs.map t.toJson) = some xs := by
  induction xs with
  | nil => rfl
  | cons x xs ih =>
    obtain ⟨hx, hxs⟩ := List.forall_mem_cons.mp h
    rw [List.map_cons, decodeElems, t.decode_toJson hx, ih hxs]
    rfl

variable (t) in
def slice : JsonType (List α) where
  zero := []
  toJson xs := .arr (xs.map t.toJson)
  decode := t.decodeSlice
  Fits := t.SliceFits
  levels := t.levels + 1
  zero_fits h := ⟨Nat.le_of_add_left_le h, fun _ hx => absurd hx List.not_mem_nil⟩
  decode_fits hlevels hold hclean hdepth h := decodeSlice_fits hlevels hold hclean hdepth h
  toJson_clean h := (slice_clean h).1
  toJson_depth h := slice_depth h
  decode_toJson h := decodeElems_toJson h.2

end Slice

/-! ### Pointers -/

section Pointer
variable {α : Type} (t : JsonType α)

/-- A pointer to what is never written as `null`. -/
def writePointer : Option α → Json
  | none => .null
  | some x => t.toJson x

/-- `null` clears the pointer; anything else is read into what it points to. -/
def decodePointer (old : Option α) : Json → Option (Option α)
  | .null => some none
  | v => (t.decode (old.getD t.zero) v).map some

variable {t}

theorem decodePointer_fits {d : Nat} {old x : Option α} {v : Json} (hlevels : t.levels ≤ d)
    (hold : ∀ y ∈ old, t.Fits d y) (hclean : v.Clean) (hdepth : v.depth ≤ d)
    (h : t.decodePointer old v = some x) : ∀ y ∈ x, t.Fits d y := by
  have hvar : t.Fits d (old.getD t.zero) := by
    cases old with
    | none => exact t.zero_fits hlevels
    | some y => exact hold y rfl
  unfold decodePointer at h
  split at h
  · rw [← Option.some.inj h]
    exact fun y hy => by cases hy
  · obtain ⟨y, hy, rfl⟩ := Option.map_eq_some_iff.mp h
    rintro _ ⟨⟩
    exact t.decode_fits hlevels hvar hclean hdepth hy

theorem writePointer_clean {d : Nat} {x : Option α} (h : ∀ y ∈ x, t.Fits d y) :
    (t.writePointer x).Clean ∧ (t.writePointer x).depth ≤ d := by
  cases x with
  | none => exact ⟨trivial, Nat.zero_le d⟩
  | some y => exact ⟨t.toJson_clean (h y rfl), t.toJson_depth (h y rfl)⟩

theorem decodePointer_write (hnull : ∀ y, t.toJson y ≠ .null) {d : Nat} {x : Option α}
    (h : ∀ y ∈ x, t.Fits d y) : t.decodePointer none (t.writePointer x) = some x := by
  cases x with
  | none => rfl
  | some y =>
    have hread := t.decode_toJson (h y rfl)
    unfold decodePointer writePointer
    split
    · rename_i heq
      exact absurd heq (hnull y)
    · rw [Option.getD_none, hread]
      rfl

variable (t) in
def pointer (hnull : ∀ y, t.toJson y ≠ .null) : JsonType (Option α) where
  zero := none
  toJson := t.writePointer
  decode := t.decodePointer
  Fits d x := ∀ y ∈ x, t.Fits d y
  levels := t.levels
  zero_fits _ := fun y hy => absurd hy (Option.not_mem_none y)
  decode_fits hlevels hold hclean hdepth h := decodePointer_fits hlevels hold hclean hdepth h
  toJson_clean h := (writePointer_clean h).1
  toJson_depth h := (writePointer_clean h).2
  decode_toJson h := decodePointer_write hnull h

end Pointer

end JsonType

/-! ### Structs -/

/-- A field of a struct with its tag. -/
structure StructField (σ : Type) where
  {α : Type}
  name : String
  type : JsonType α
  /-- The field has `omitempty`, and its value is empty. -/
  omits : α → Bool
  get : σ → α
  set : σ → α → σ

namespace StructField
variable {σ : Type}

/-- The member the field is written as. -/
def member (f : StructField σ) (x : σ) : List (GoString × Json) :=
  if f.omits (f.get x) then [] else [(lit f.name, f.type.toJson (f.get x))]

def decode (f : StructField σ) (x : σ) (v : Json) : Option σ :=
  (f.type.decode (f.get x) v).map (f.set x)

/-- A field without `omitempty`. -/
@[simp] def always {α : Type} (name : String) (type : JsonType α) (get : σ → α)
    (set : σ → α → σ) : StructField σ :=
  ⟨name, type, fun _ => false, get, set⟩

/-- A pointer with `omitempty`. -/
@[simp] def omitNil {α : Type} (name : String) (type : JsonType (Option α))
    (get : σ → Option α) (set : σ → Option α → σ) : StructField σ :=
  ⟨name, type, Option.isNone, get, set⟩

/-- Neither field touches the other. -/
@[simp] def Apart (f g : StructField σ) : Prop :=
  ∀ x, (∀ a, g.get (f.set x a) = g.get x) ∧ ∀ b, f.get (g.set x b) = f.get x

end StructField

/-- StructFields that make up a struct. -/
structure StructFields {σ : Type} (zero : σ) (fields : List (StructField σ)) : Prop where
  names : ∀ f ∈ fields, validString (lit f.name) = true
  distinct : fields.Pairwise fun f g => setsField (lit f.name) (lit g.name) = false
  apart : fields.Pairwise StructField.Apart
  get_set : ∀ f ∈ fields, ∀ x a, f.get (f.set x a) = a
  get_zero : ∀ f ∈ fields, f.get zero = f.type.zero
  omits_zero : ∀ f ∈ fields, ∀ a, f.omits a = true → a = f.type.zero
  ext : ∀ x y, (∀ f ∈ fields, f.get x = f.get y) → x = y

section Struct
variable {σ : Type}

/-- A member sets the field it names; others are ignored. -/
def decodeMember (fields : List (StructField σ)) (x : σ) (key : GoString) (v : Json) :
    Option σ :=
  match fields.find? fun f => setsField (lit f.name) key with
  | none => some x
  | some f => f.decode x v

def decodeStruct (fields : List (StructField σ)) (old : σ) : Json → Option σ
  | .null => some old
  | .obj fs => decodeFields (decodeMember fields) old fs
  | _ => none

def structMembers (fields : List (StructField σ)) (x : σ) : List (GoString × Json) :=
  fields.flatMap fun f => f.member x

def StructFits (fields : List (StructField σ)) (d : Nat) (x : σ) : Prop :=
  1 ≤ d ∧ ∀ f ∈ fields, f.type.Fits (d - 1) (f.get x)

def structLevels (fields : List (StructField σ)) : Nat :=
  (fields.map fun f => f.type.levels).foldr max 0

variable {zero : σ} {fields : List (StructField σ)}

theorem setsField_self (name : GoString) : setsField name name = true := beq_self_eq_true _

theorem levels_le {f : StructField σ} (hf : f ∈ fields) :
    f.type.levels ≤ structLevels fields := by
  unfold structLevels
  induction fields with
  | nil => exact absurd hf List.not_mem_nil
  | cons g fields ih =>
    rcases List.mem_cons.mp hf with rfl | hf
    · exact le_max_left ..
    · exact le_trans (ih hf) (le_max_right ..)

instance : Std.Symm (StructField.Apart (σ := σ)) where
  symm _ _ h x := ⟨(h x).2, (h x).1⟩

/-- Two fields are the same or apart. -/
theorem StructFields.eq_or_apart (h : StructFields zero fields) {f g : StructField σ}
    (hf : f ∈ fields) (hg : g ∈ fields) : f = g ∨ f.Apart g := by
  by_cases hsame : f = g
  · exact Or.inl hsame
  · exact Or.inr (h.apart.forall hf hg hsame)

/-- A field that is set to what fits. -/
theorem StructFields.set_fits (h : StructFields zero fields) {d : Nat} {f : StructField σ}
    (hf : f ∈ fields) {x : σ} {a : f.α} (hx : ∀ g ∈ fields, g.type.Fits d (g.get x))
    (ha : f.type.Fits d a) : ∀ g ∈ fields, g.type.Fits d (g.get (f.set x a)) := by
  intro g hg
  rcases h.eq_or_apart hf hg with rfl | hapart
  · rwa [h.get_set f hf]
  · rw [(hapart x).1 a]
    exact hx g hg

/-- What one member leaves. -/
theorem decodeMember_fits (h : StructFields zero fields) {d : Nat}
    (hlevels : structLevels fields ≤ d) {x y : σ} {key : GoString} {v : Json}
    (hx : ∀ f ∈ fields, f.type.Fits d (f.get x))
    (hclean : v.Clean) (hdepth : v.depth ≤ d) (hread : decodeMember fields x key v = some y) :
    ∀ f ∈ fields, f.type.Fits d (f.get y) := by
  unfold decodeMember at hread
  split at hread
  · rwa [← Option.some.inj hread]
  · rename_i f hfind
    have hf := List.mem_of_find?_eq_some hfind
    obtain ⟨a, ha, rfl⟩ := Option.map_eq_some_iff.mp hread
    exact h.set_fits hf hx
      (f.type.decode_fits (le_trans (levels_le hf) hlevels) (hx f hf) hclean hdepth ha)

theorem decodeStruct_fits (h : StructFields zero fields) {d : Nat} {old x : σ} {v : Json}
    (hlevels : structLevels fields + 1 ≤ d) (hold : StructFits fields d old) (hclean : v.Clean)
    (hdepth : v.depth ≤ d) (hread : decodeStruct fields old v = some x) :
    StructFits fields d x := by
  unfold decodeStruct at hread
  split at hread
  · rwa [← Option.some.inj hread]
  · rename_i fs
    have hinner : depthFields fs ≤ d - 1 := Nat.le_sub_of_add_le hdepth
    refine ⟨hold.1, ?_⟩
    have hcleans : CleanFields fs := hclean
    replace hold := hold.2
    clear hclean hdepth
    induction fs generalizing old with
    | nil => rwa [← Option.some.inj hread]
    | cons m fs ih =>
      obtain ⟨k, v⟩ := m
      obtain ⟨hv, hfs⟩ := max_le_iff.mp hinner
      obtain ⟨y, hy, hrest⟩ := Option.bind_eq_some_iff.mp hread
      exact ih hrest hfs hcleans.2.2
        (decodeMember_fits h (by omega) hold hcleans.2.1 hv hy)
  · cases hread

theorem structMembers_clean (h : StructFields zero fields) {d : Nat} {x : σ}
    (hx : StructFits fields d x) :
    CleanFields (structMembers fields x) ∧ depthFields (structMembers fields x) ≤ d - 1 := by
  have hall : ∀ m ∈ structMembers fields x,
      (validString m.1 = true ∧ m.2.Clean) ∧ m.2.depth ≤ d - 1 := by
    intro m hm
    obtain ⟨f, hf, hmem⟩ := List.mem_flatMap.mp hm
    unfold StructField.member at hmem
    split at hmem
    · exact absurd hmem List.not_mem_nil
    · rw [List.mem_singleton.mp hmem]
      have hfits := hx.2 f hf
      exact ⟨⟨h.names f hf, f.type.toJson_clean hfits⟩, f.type.toJson_depth hfits⟩
  exact ⟨cleanFields_iff.mpr fun m hm => (hall m hm).1,
    depthFields_le_iff.mpr fun m hm => (hall m hm).2⟩

theorem struct_depth (h : StructFields zero fields) {d : Nat} {x : σ}
    (hx : StructFits fields d x) :
    depthFields (structMembers fields x) + 1 ≤ d := by
  have hdepth := (structMembers_clean h hx).2
  have hone := hx.1
  omega

/-- The name of a field leads to it. -/
theorem decodeMember_name {before after : List (StructField σ)} {f : StructField σ}
    (h : StructFields zero (before ++ f :: after)) (x : σ) (v : Json) :
    decodeMember (before ++ f :: after) x (lit f.name) v = f.decode x v := by
  have hnone : before.find? (fun g => setsField (lit g.name) (lit f.name)) = none := by
    rw [List.find?_eq_none]
    intro g hg
    have := (List.pairwise_append.mp h.distinct).2.2 g hg f List.mem_cons_self
    rw [this]
    exact Bool.false_ne_true
  unfold decodeMember
  rw [List.find?_append, hnone, Option.none_or]
  simp only [List.find?_cons, setsField_self]

/-- The members of the fields that are left, read into what the others were read into. -/
theorem decodeFields_members {x : σ} (rest : List (StructField σ)) :
    ∀ (before : List (StructField σ)) (y : σ), StructFields zero (before ++ rest) →
      (∀ f ∈ before, f.get y = f.get x) → (∀ f ∈ rest, f.get y = f.type.zero) →
      (∃ d, ∀ f ∈ rest, f.type.Fits d (f.get x)) →
      decodeFields (decodeMember (before ++ rest)) y (structMembers rest x) = some x := by
  induction rest with
  | nil =>
    intro before y h hbefore _ _
    rw [List.append_nil] at h
    have hsame : y = x := h.ext y x hbefore
    rw [hsame]
    rfl
  | cons f rest ih =>
    intro before y h hbefore hrest hfits
    obtain ⟨d, hd⟩ := hfits
    have hassoc : before ++ f :: rest = (before ++ [f]) ++ rest := by
      rw [List.append_assoc, List.singleton_append]
    have hmem : f ∈ before ++ f :: rest := List.mem_append_right _ List.mem_cons_self
    have hzero : f.get y = f.type.zero := hrest f List.mem_cons_self
    have hnext : ∃ d, ∀ g ∈ rest, g.type.Fits d (g.get x) :=
      ⟨d, fun g hg => hd g (List.mem_cons_of_mem _ hg)⟩
    have hmembers : structMembers (f :: rest) x = f.member x ++ structMembers rest x := rfl
    rw [hmembers, StructField.member]
    split
    · -- an empty field is left out, and stays what it is
      rename_i hempty
      have hget : f.get y = f.get x := hzero.trans (h.omits_zero f hmem _ hempty).symm
      rw [List.nil_append, hassoc]
      refine ih (before ++ [f]) y (hassoc ▸ h) ?_
        (fun g hg => hrest g (List.mem_cons_of_mem _ hg)) hnext
      intro g hg
      rcases List.mem_append.mp hg with hg | hg
      · exact hbefore g hg
      · rwa [List.mem_singleton.mp hg]
    · have hread : f.decode y (f.type.toJson (f.get x)) = some (f.set y (f.get x)) := by
        unfold StructField.decode
        rw [hzero, f.type.decode_toJson (hd f List.mem_cons_self)]
        rfl
      rw [List.singleton_append, decodeFields, decodeMember_name h, hread, Option.bind_some,
        hassoc]
      have hpairs := List.pairwise_append.mp h.apart
      refine ih (before ++ [f]) _ (hassoc ▸ h) ?_ ?_ hnext
      · intro g hg
        rcases List.mem_append.mp hg with hg | hg
        · rw [((hpairs.2.2 g hg f List.mem_cons_self) y).2]
          exact hbefore g hg
        · rw [List.mem_singleton.mp hg, h.get_set f hmem]
      · intro g hg
        rw [(List.rel_of_pairwise_cons hpairs.2.1 hg y).1]
        exact hrest g (List.mem_cons_of_mem _ hg)

theorem decodeStruct_members (h : StructFields zero fields) {d : Nat} {x : σ}
    (hx : StructFits fields d x) :
    decodeStruct fields zero (.obj (structMembers fields x)) = some x :=
  decodeFields_members fields [] zero h (fun _ hf => absurd hf List.not_mem_nil)
    h.get_zero ⟨d - 1, hx.2⟩

theorem zero_structFits (h : StructFields zero fields) {d : Nat}
    (hlevels : structLevels fields + 1 ≤ d) : StructFits fields d zero := by
  refine ⟨by omega, fun f hf => ?_⟩
  rw [h.get_zero f hf]
  exact f.type.zero_fits (le_trans (levels_le hf) (by omega))

def JsonType.struct (zero : σ) (fields : List (StructField σ)) (h : StructFields zero fields) :
    JsonType σ where
  zero := zero
  toJson x := .obj (structMembers fields x)
  decode := decodeStruct fields
  Fits := StructFits fields
  levels := structLevels fields + 1
  zero_fits hlevels := zero_structFits h hlevels
  decode_fits hlevels hold hclean hdepth hread :=
    decodeStruct_fits h hlevels hold hclean hdepth hread
  toJson_clean hx := (structMembers_clean h hx).1
  toJson_depth hx := struct_depth h hx
  decode_toJson hx := decodeStruct_members h hx

/-- **Setting a field** of what can be written to what fits. -/
theorem JsonType.struct_set_fits (h : StructFields zero fields) {d : Nat} {x : σ}
    (hx : (JsonType.struct zero fields h).Fits d x) {f : StructField σ} (hf : f ∈ fields)
    {a : f.α} (ha : f.type.Fits (d - 1) a) :
    (JsonType.struct zero fields h).Fits d (f.set x a) :=
  ⟨hx.1, h.set_fits hf hx.2 ha⟩

end Struct

/-! ### Zero values, and what is written -/

@[simp] theorem structMembers_nil {σ : Type} (x : σ) : structMembers [] x = [] := rfl

@[simp] theorem structMembers_cons {σ : Type} (f : StructField σ) (fields : List (StructField σ))
    (x : σ) : structMembers (f :: fields) x = f.member x ++ structMembers fields x :=
  rfl

namespace JsonType

@[simp] theorem string_zero : string.zero = [] := rfl

@[simp] theorem int_zero : int.zero = 0 := rfl

@[simp] theorem float64_zero : float64.zero = 0 := rfl

@[simp] theorem bool_zero : bool.zero = false := rfl

@[simp] theorem any_zero : any.zero = .null := rfl

@[simp] theorem slice_zero {α : Type} (t : JsonType α) : (slice t).zero = [] := rfl

@[simp] theorem pointer_zero {α : Type} (t : JsonType α) (hnull : ∀ y, t.toJson y ≠ .null) :
    (pointer t hnull).zero = none :=
  rfl

@[simp] theorem struct_zero {σ : Type} (zero : σ) (fields : List (StructField σ))
    (h : StructFields zero fields) : (struct zero fields h).zero = zero :=
  rfl

@[simp] theorem string_toJson (s : GoString) : string.toJson s = .str s := rfl

@[simp] theorem int_toJson (i : Int) : int.toJson i = .num (formatInt i) := rfl

@[simp] theorem float64_toJson (x : Rat) : float64.toJson x = .num (formatFloat x) := rfl

@[simp] theorem bool_toJson (b : Bool) : bool.toJson b = .bool b := rfl

@[simp] theorem any_toJson (v : Json) : any.toJson v = v.canonical := rfl

@[simp] theorem slice_toJson {α : Type} (t : JsonType α) (xs : List α) :
    (slice t).toJson xs = .arr (xs.map t.toJson) :=
  rfl

@[simp] theorem pointer_toJson {α : Type} (t : JsonType α) (hnull : ∀ y, t.toJson y ≠ .null)
    (x : Option α) : (pointer t hnull).toJson x = t.writePointer x :=
  rfl

@[simp] theorem struct_toJson {σ : Type} (zero : σ) (fields : List (StructField σ))
    (h : StructFields zero fields) (x : σ) :
    (struct zero fields h).toJson x = .obj (structMembers fields x) :=
  rfl

@[simp] theorem string_fits {d : Nat} {s : GoString} :
    string.Fits d s ↔ validString s = true :=
  Iff.rfl

@[simp] theorem int_fits {d : Nat} {i : Int} : int.Fits d i ↔ InInt64 i := Iff.rfl

@[simp] theorem float64_fits {d : Nat} {x : Rat} : float64.Fits d x ↔ IsFloat64 x := Iff.rfl

@[simp] theorem bool_fits {d : Nat} {b : Bool} : bool.Fits d b ↔ True := Iff.rfl

@[simp] theorem any_fits {d : Nat} {v : Json} : any.Fits d v ↔ IsValue d v := Iff.rfl

@[simp] theorem slice_fits {α : Type} {t : JsonType α} {d : Nat} {xs : List α} :
    (slice t).Fits d xs ↔ 1 ≤ d ∧ ∀ x ∈ xs, t.Fits (d - 1) x :=
  Iff.rfl

@[simp] theorem pointer_fits {α : Type} {t : JsonType α} {hnull : ∀ y, t.toJson y ≠ .null}
    {d : Nat} {x : Option α} : (pointer t hnull).Fits d x ↔ ∀ y ∈ x, t.Fits d y :=
  Iff.rfl

@[simp] theorem struct_fits {σ : Type} {zero : σ} {fields : List (StructField σ)}
    {h : StructFields zero fields} {d : Nat} {x : σ} :
    (struct zero fields h).Fits d x ↔ 1 ≤ d ∧ ∀ f ∈ fields, f.type.Fits (d - 1) (f.get x) :=
  Iff.rfl

/-- A text is a value. -/
@[simp] theorem isValue_str {d : Nat} {s : GoString} :
    IsValue d (.str s) ↔ validString s = true := by
  simp [IsValue, Json.canonical, Json.Clean, Json.depth]

@[simp] theorem isValue_nil {d : Nat} : IsValue d .null := isValue_null d

/-- Numbers and structs are not written as `null`. -/
theorem float64_ne_null (x : Rat) : float64.toJson x ≠ .null := Json.noConfusion

theorem struct_ne_null {σ : Type} {zero : σ} {fields : List (StructField σ)}
    (h : StructFields zero fields) (x : σ) : (struct zero fields h).toJson x ≠ .null :=
  Json.noConfusion

end JsonType

@[simp] theorem Json.isNull_iff {v : Json} : v.isNull = true ↔ v = .null := by
  cases v <;> simp [Json.isNull]

/-! ### Texts -/

namespace JsonType
variable {α : Type} (t : JsonType α)

/-- `json.Marshal`. -/
def marshal (x : α) : GoString := (t.toJson x).encode

/-- `json.NewDecoder(r).Decode`: the value at the front; what follows it is not read. -/
def decodeReader (s : GoString) : Option α :=
  (parseValue (2 * s.length + 2) maxNestingDepth s).bind fun p => t.decode t.zero p.1

variable {t}

theorem decodeReader_of_parse {s : GoString} {v : Json} (h : Json.parse s = some v) :
    t.decodeReader s = t.decode t.zero v := by
  unfold Json.parse at h
  unfold decodeReader
  split at h
  · rename_i w rest hvalue
    split at h
    · rw [hvalue, Option.bind_some, Option.some.inj h]
    · cases h
  · cases h

/-- **What has been read can be written.** -/
theorem fits_of_decodeReader (hlevels : t.levels ≤ maxNestingDepth) {s : GoString} {x : α}
    (h : t.decodeReader s = some x) : t.Fits maxNestingDepth x := by
  obtain ⟨⟨v, rest⟩, hvalue, hread⟩ := Option.bind_eq_some_iff.mp h
  obtain ⟨hclean, hdepth⟩ := (clean_of_parse _).1 _ _ _ _ hvalue
  exact t.decode_fits hlevels (t.zero_fits hlevels) hclean hdepth hread

/-- **What has been written is read as the same value.** -/
theorem decodeReader_marshal {x : α} (h : t.Fits maxNestingDepth x) :
    t.decodeReader (t.marshal x) = some x := by
  rw [marshal, decodeReader_of_parse (parse_encode (t.toJson_clean h) (t.toJson_depth h))]
  exact t.decode_toJson h

end JsonType
end Go
