import Mathlib.Data.List.Basic

/-!
# Go strings

A Go string is a sequence of bytes that need not be UTF-8, so `GoString` is the
list of its bytes and `len` is the length of the list.  The functions below are
the part of package `strings` that servers use on header lines and settings:
prefixes, the first occurrence of a substring, splitting at a separator byte and
trimming white space.
-/

namespace Go

/-- A Go string: its bytes. -/
abbrev GoString := List UInt8

/-- A string literal, as the bytes of its UTF-8 source text. -/
def lit (s : String) : GoString := s.toUTF8.data.toList

/-- `strings.HasPrefix`. -/
def hasPrefix (s p : GoString) : Bool := p.isPrefixOf s

/-- `strings.TrimPrefix`. -/
def trimPrefix (s p : GoString) : GoString := if hasPrefix s p then s.drop p.length else s

/-- `strings.Index`: where `sub` first occurs. -/
def index (sub : GoString) : GoString → Option Nat
  | [] => if sub.isEmpty then some 0 else none
  | b :: s => if hasPrefix (b :: s) sub then some 0 else (index sub s).map (· + 1)

/-- `strings.Contains`. -/
def contains (s sub : GoString) : Bool := (index sub s).isSome

/-- `strings.Split` at a separator of one byte. -/
def split (sep : UInt8) : GoString → List GoString
  | [] => [[]]
  | b :: s =>
    if b = sep then [] :: split sep s
    else
      match split sep s with
      | [] => [[b]]
      | part :: parts => (b :: part) :: parts

/-- The UTF-8 encodings of the runes `unicode.IsSpace` holds of. -/
def spaceRunes : List GoString :=
  [[0x09], [0x0A], [0x0B], [0x0C], [0x0D], [0x20], [0xC2, 0x85], [0xC2, 0xA0], [0xE1, 0x9A, 0x80],
   [0xE2, 0x80, 0x80], [0xE2, 0x80, 0x81], [0xE2, 0x80, 0x82], [0xE2, 0x80, 0x83],
   [0xE2, 0x80, 0x84], [0xE2, 0x80, 0x85], [0xE2, 0x80, 0x86], [0xE2, 0x80, 0x87],
   [0xE2, 0x80, 0x88], [0xE2, 0x80, 0x89], [0xE2, 0x80, 0x8A], [0xE2, 0x80, 0xA8],
   [0xE2, 0x80, 0xA9], [0xE2, 0x80, 0xAF], [0xE2, 0x81, 0x9F], [0xE3, 0x80, 0x80]]

/-- Drops runes of `cut` from the front; `fuel` bounds how many. -/
def trimLeftRunes (cut : List GoString) : Nat → GoString → GoString
  | 0, s => s
  | fuel + 1, s =>
    match cut.find? (·.isPrefixOf s) with
    | some r => trimLeftRunes cut fuel (s.drop r.length)
    | none => s

/-- `strings.TrimSpace`.  The encoding of a rune can be told from its last bytes
as well as from its first, so the right end is trimmed on the reversed bytes. -/
def trimSpace (s : GoString) : GoString :=
  let left := trimLeftRunes spaceRunes s.length s
  (trimLeftRunes (spaceRunes.map List.reverse) left.length left.reverse).reverse

/-! ### Prefixes -/

@[simp] theorem hasPrefix_append (p s : GoString) : hasPrefix (p ++ s) p = true := by
  simp [hasPrefix]

@[simp] theorem trimPrefix_append (p s : GoString) : trimPrefix (p ++ s) p = s := by
  simp [trimPrefix]

theorem hasPrefix_iff {s p : GoString} : hasPrefix s p = true ↔ ∃ t, s = p ++ t := by
  rw [hasPrefix, List.isPrefixOf_iff_prefix]
  exact ⟨fun ⟨t, ht⟩ => ⟨t, ht.symm⟩, fun ⟨t, ht⟩ => ⟨t, ht.symm⟩⟩

/-! ### First occurrences -/

/-- Going past bytes none of which is the first byte of the pattern. -/
theorem index_append_of_not_mem {b : UInt8} {sub pre s : GoString} (h : b ∉ pre) :
    index (b :: sub) (pre ++ s) = (index (b :: sub) s).map (· + pre.length) := by
  induction pre with
  | nil => simp
  | cons c pre ih =>
    have hne : b ≠ c := fun he => h (he ▸ List.mem_cons_self ..)
    have hpre : b ∉ pre := fun hm => h (List.mem_cons_of_mem _ hm)
    have hno : hasPrefix (c :: (pre ++ s)) (b :: sub) = false := by
      simp [hasPrefix, List.isPrefixOf, hne]
    rw [List.cons_append, index, hno, ih hpre]
    cases index (b :: sub) s with
    | none => rfl
    | some n => simp [Nat.add_assoc]

theorem index_self_append (sub s : GoString) : index sub (sub ++ s) = some 0 := by
  cases hs : sub ++ s with
  | nil =>
    obtain ⟨rfl, rfl⟩ := List.append_eq_nil_iff.mp hs
    rfl
  | cons b t => rw [index, ← hs, hasPrefix_append]; rfl

theorem index_eq_some {sub s : GoString} {n : Nat} (h : index sub s = some n) :
    ∃ pre post, s = pre ++ (sub ++ post) ∧ pre.length = n := by
  induction s generalizing n with
  | nil =>
    rw [index] at h
    split at h
    · rename_i hempty
      exact ⟨[], [], by rw [List.isEmpty_iff.mp hempty]; rfl, Option.some.inj h⟩
    · cases h
  | cons b s ih =>
    rw [index] at h
    split at h
    · rename_i hprefix
      obtain ⟨t, ht⟩ := hasPrefix_iff.mp hprefix
      exact ⟨[], t, ht, Option.some.inj h⟩
    · obtain ⟨m, hm, rfl⟩ := Option.map_eq_some_iff.mp h
      obtain ⟨pre, post, rfl, rfl⟩ := ih hm
      exact ⟨b :: pre, post, rfl, rfl⟩

/-- Text that is contained. -/
theorem contains_iff {s sub : GoString} : contains s sub = true ↔ sub <:+: s := by
  unfold contains
  induction s with
  | nil =>
    rw [index, List.infix_nil, ← List.isEmpty_iff]
    split <;> simp [*]
  | cons b s ih =>
    rw [index, List.infix_cons_iff, ← ih, ← List.isPrefixOf_iff_prefix, ← hasPrefix]
    split <;> simp [*]

end Go
