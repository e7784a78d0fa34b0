import UniLLM.Go.FloatText
import UniLLM.Go.JsonDecode
import UniLLM.Go.JsonLiteral

/-!
# Values of type `interface{}`

What a text is read as has whole runes in its strings and literals for its numbers.  Decoded into
an `interface{}` it becomes a value, and the tree that value is written as is the same for all
texts of the value: sorted keys, each once, and the shortest digits.  Written and read again it is
the same value.
-/

namespace Go

/-! ### What is read is clean -/

/-- What the reader of values yields, with the given fuel. -/
def CleanValues (fuel : Nat) : Prop :=
  ∀ depth s v rest, parseValue fuel depth s = some (v, rest) → v.Clean ∧ v.depth ≤ depth

def CleanElements (fuel : Nat) : Prop :=
  ∀ depth s vs rest, parseElems fuel depth s = some (vs, rest) →
    CleanElems vs ∧ depthElems vs ≤ depth

def CleanMembers (fuel : Nat) : Prop :=
  ∀ depth s fs rest, parseFields fuel depth s = some (fs, rest) →
    CleanFields fs ∧ depthFields fs ≤ depth

section Read
variable {fuel : Nat}

theorem cleanValues_succ (hElems : CleanElements fuel) (hFields : CleanMembers fuel) :
    CleanValues (fuel + 1) := by
  intro depth s v rest h
  rw [parseValue] at h
  split at h
  · cases h
  -- a string
  split at h
  · obtain ⟨⟨w, t⟩, -, heq⟩ := Option.map_eq_some_iff.mp h
    obtain ⟨rfl, rfl⟩ := Prod.mk.inj heq
    exact ⟨validString_replaceInvalid w, Nat.zero_le _⟩
  -- an array
  split at h
  · split at h
    · cases h
    split at h
    · obtain ⟨rfl, rfl⟩ := Prod.mk.inj (Option.some.inj h)
      exact ⟨trivial, Nat.succ_le_succ (Nat.zero_le _)⟩
    · obtain ⟨⟨vs, t⟩, helems, heq⟩ := Option.map_eq_some_iff.mp h
      obtain ⟨rfl, rfl⟩ := Prod.mk.inj heq
      obtain ⟨hclean, hdepth⟩ := hElems _ _ _ _ helems
      exact ⟨hclean, Nat.succ_le_succ hdepth⟩
  -- an object
  split at h
  · split at h
    · cases h
    split at h
    · obtain ⟨rfl, rfl⟩ := Prod.mk.inj (Option.some.inj h)
      exact ⟨trivial, Nat.succ_le_succ (Nat.zero_le _)⟩
    · obtain ⟨⟨fs, t⟩, hfields, heq⟩ := Option.map_eq_some_iff.mp h
      obtain ⟨rfl, rfl⟩ := Prod.mk.inj heq
      obtain ⟨hclean, hdepth⟩ := hFields _ _ _ _ hfields
      exact ⟨hclean, Nat.succ_le_succ hdepth⟩
  -- `null`, `true` and `false`
  split at h
  · obtain ⟨t, -, heq⟩ := Option.map_eq_some_iff.mp h
    obtain ⟨rfl, rfl⟩ := Prod.mk.inj heq
    exact ⟨trivial, Nat.zero_le _⟩
  split at h
  · obtain ⟨t, -, heq⟩ := Option.map_eq_some_iff.mp h
    obtain ⟨rfl, rfl⟩ := Prod.mk.inj heq
    exact ⟨trivial, Nat.zero_le _⟩
  split at h
  · obtain ⟨t, -, heq⟩ := Option.map_eq_some_iff.mp h
    obtain ⟨rfl, rfl⟩ := Prod.mk.inj heq
    exact ⟨trivial, Nat.zero_le _⟩
  -- a number
  obtain ⟨⟨text, t⟩, hnum, heq⟩ := Option.map_eq_some_iff.mp h
  obtain ⟨rfl, rfl⟩ := Prod.mk.inj heq
  exact ⟨(isNumberText_of_scanNumber hnum).2, Nat.zero_le _⟩

theorem cleanElements_succ (hValues : CleanValues fuel) (hElems : CleanElements fuel) :
    CleanElements (fuel + 1) := by
  intro depth s vs rest h
  rw [parseElems] at h
  split at h
  · cases h
  rename_i v t hv
  obtain ⟨hclean, hdepth⟩ := hValues _ _ _ _ hv
  split at h
  · obtain ⟨rfl, rfl⟩ := Prod.mk.inj (Option.some.inj h)
    exact ⟨⟨hclean, trivial⟩, max_le hdepth (Nat.zero_le _)⟩
  · obtain ⟨⟨vs', u⟩, helems, heq⟩ := Option.map_eq_some_iff.mp h
    obtain ⟨rfl, rfl⟩ := Prod.mk.inj heq
    obtain ⟨hcleans, hdepths⟩ := hElems _ _ _ _ helems
    exact ⟨⟨hclean, hcleans⟩, max_le hdepth hdepths⟩
  · cases h

theorem cleanMembers_succ (hValues : CleanValues fuel) (hFields : CleanMembers fuel) :
    CleanMembers (fuel + 1) := by
  intro depth s fs rest h
  rw [parseFields] at h
  split at h
  case h_2 => cases h
  split at h
  · cases h
  rename_i k t hk
  split at h
  case h_2 => cases h
  split at h
  · cases h
  rename_i v w hv
  obtain ⟨hclean, hdepth⟩ := hValues _ _ _ _ hv
  split at h
  · obtain ⟨rfl, rfl⟩ := Prod.mk.inj (Option.some.inj h)
    exact ⟨⟨validString_replaceInvalid k, hclean, trivial⟩, max_le hdepth (Nat.zero_le _)⟩
  · obtain ⟨⟨fs', x⟩, hfields, heq⟩ := Option.map_eq_some_iff.mp h
    obtain ⟨rfl, rfl⟩ := Prod.mk.inj heq
    obtain ⟨hcleans, hdepths⟩ := hFields _ _ _ _ hfields
    exact ⟨⟨validString_replaceInvalid k, hclean, hcleans⟩, max_le hdepth hdepths⟩
  · cases h

/-- **What is read is clean**, and no deeper than was allowed. -/
theorem clean_of_parse (fuel : Nat) :
    CleanValues fuel ∧ CleanElements fuel ∧ CleanMembers fuel := by
  induction fuel with
  | zero => refine ⟨?_, ?_, ?_⟩ <;> (intro _ _ _ _ h; cases h)
  | succ fuel ih =>
    obtain ⟨hValues, hElems, hFields⟩ := ih
    exact ⟨cleanValues_succ hElems hFields, cleanElements_succ hValues hElems,
      cleanMembers_succ hValues hFields⟩

end Read

/-! ### Sorted maps -/

/-- The keys of a sorted map. -/
def SortedKeys (m : List (GoString × Json)) : Prop := m.Pairwise fun f g => f.1 < g.1

theorem mapSet_keys (key : GoString) (v : Json) :
    ∀ (m : List (GoString × Json)), ∀ f ∈ mapSet key v m, f.1 = key ∨ ∃ g ∈ m, f.1 = g.1
  | [], f, hf => by
    rw [mapSet, List.mem_singleton] at hf
    exact Or.inl (congrArg Prod.fst hf)
  | (k, w) :: m, f, hf => by
    rw [mapSet] at hf
    split at hf
    · rcases List.mem_cons.mp hf with rfl | hf
      · exact Or.inr ⟨(k, w), List.mem_cons_self, rfl⟩
      · exact Or.inr ⟨f, List.mem_cons_of_mem _ hf, rfl⟩
    · split at hf
      · rcases List.mem_cons.mp hf with rfl | hf
        · exact Or.inl rfl
        · exact Or.inr ⟨f, hf, rfl⟩
      · rcases List.mem_cons.mp hf with rfl | hf
        · exact Or.inr ⟨(k, w), List.mem_cons_self, rfl⟩
        · rcases mapSet_keys key v m f hf with hkey | ⟨g, hg, hkey⟩
          · exact Or.inl hkey
          · exact Or.inr ⟨g, List.mem_cons_of_mem _ hg, hkey⟩

theorem SortedKeys.mapSet {m : List (GoString × Json)} (h : SortedKeys m) (key : GoString)
    (v : Json) : SortedKeys (mapSet key v m) := by
  induction m with
  | nil => exact List.pairwise_singleton _ _
  | cons f m ih =>
    obtain ⟨k, w⟩ := f
    obtain ⟨hfirst, hrest⟩ := List.pairwise_cons.mp h
    rw [Go.mapSet]
    split
    · exact List.pairwise_cons.mpr ⟨hfirst, hrest⟩
    · rename_i hne
      split
      · rename_i hlt
        refine List.pairwise_cons.mpr ⟨fun g hg => ?_, h⟩
        rcases List.mem_cons.mp hg with rfl | hg
        · exact hlt
        · exact List.lt_trans hlt (hfirst g hg)
      · rename_i hge
        refine List.pairwise_cons.mpr ⟨fun g hg => ?_, ih hrest⟩
        rcases mapSet_keys key v m g hg with hkey | ⟨f, hf, hkey⟩
        · rw [hkey]
          rcases Std.lt_trichotomy k key with hlt | heq | hgt
          · exact hlt
          · exact absurd heq.symm hne
          · exact absurd hgt hge
        · rw [hkey]
          exact hfirst f hf

/-- A key above all others is put at the end. -/
theorem mapSet_last {m : List (GoString × Json)} {key : GoString} (h : ∀ f ∈ m, f.1 < key)
    (v : Json) : mapSet key v m = m ++ [(key, v)] := by
  induction m with
  | nil => rfl
  | cons f m ih =>
    obtain ⟨k, w⟩ := f
    have hlt : k < key := h (k, w) List.mem_cons_self
    rw [mapSet, if_neg, if_neg, ih fun f hf => h f (List.mem_cons_of_mem _ hf), List.cons_append]
    · exact List.lt_asymm hlt
    · rintro rfl
      exact List.lt_irrefl _ hlt

theorem mapSet_forall {p : GoString × Json → Prop} {m : List (GoString × Json)} {key : GoString}
    {v : Json} (hm : ∀ f ∈ m, p f) (hv : p (key, v)) : ∀ f ∈ mapSet key v m, p f := by
  induction m with
  | nil =>
    intro f hf
    rw [mapSet, List.mem_singleton] at hf
    rwa [hf]
  | cons g m ih =>
    obtain ⟨k, w⟩ := g
    intro f hf
    have hrest : ∀ f ∈ m, p f := fun f hf => hm f (List.mem_cons_of_mem _ hf)
    rw [mapSet] at hf
    split at hf
    · rename_i heq
      rcases List.mem_cons.mp hf with rfl | hf
      · rwa [← heq]
      · exact hrest f hf
    · split at hf
      · rcases List.mem_cons.mp hf with rfl | hf
        · exact hv
        · exact hm f hf
      · rcases List.mem_cons.mp hf with rfl | hf
        · exact hm _ List.mem_cons_self
        · exact ih hrest f hf

/-! ### The tree of a value -/

theorem sortedKeys_canonicalFields (fs : List (GoString × Json)) {m : List (GoString × Json)}
    (h : SortedKeys m) : SortedKeys (canonicalFields fs m) := by
  induction fs generalizing m with
  | nil => exact h
  | cons f fs ih =>
    obtain ⟨k, v⟩ := f
    rw [canonicalFields]
    exact ih (h.mapSet k v.canonical)

theorem canonicalFields_forall {p : GoString × Json → Prop} {fs m : List (GoString × Json)}
    (hm : ∀ f ∈ m, p f) (hfs : ∀ f ∈ fs, p (f.1, f.2.canonical)) :
    ∀ f ∈ canonicalFields fs m, p f := by
  induction fs generalizing m with
  | nil => exact hm
  | cons f fs ih =>
    obtain ⟨k, v⟩ := f
    rw [canonicalFields]
    exact ih (mapSet_forall hm (hfs (k, v) List.mem_cons_self))
      fun f hf => hfs f (List.mem_cons_of_mem _ hf)

/-- A sorted map of values is written as it is. -/
theorem canonicalFields_of_sorted {fs m : List (GoString × Json)} (h : SortedKeys (m ++ fs))
    (hfs : ∀ f ∈ fs, f.2.canonical = f.2) : canonicalFields fs m = m ++ fs := by
  induction fs generalizing m with
  | nil => rw [canonicalFields, List.append_nil]
  | cons f fs ih =>
    obtain ⟨k, v⟩ := f
    have hlast : ∀ f ∈ m, f.1 < k := fun f hf =>
      (List.pairwise_append.mp h).2.2 f hf (k, v) List.mem_cons_self
    have hv : v.canonical = v := hfs (k, v) List.mem_cons_self
    have hsplit : m ++ (k, v) :: fs = (m ++ [(k, v)]) ++ fs := by
      rw [List.append_assoc, List.singleton_append]
    rw [canonicalFields, hv, mapSet_last hlast, hsplit]
    exact ih (hsplit ▸ h) fun f hf => hfs f (List.mem_cons_of_mem _ hf)

theorem isFloat64_getD (text : GoString) : IsFloat64 ((parseFloat text).getD 0) := by
  cases h : parseFloat text with
  | none => exact isFloat64_zero
  | some x => exact isFloat64_of_parseFloat h

mutual

/-- **The tree of a value is its own.** -/
theorem Json.canonical_canonical : ∀ v : Json, v.canonical.canonical = v.canonical
  | .null => rfl
  | .bool _ => rfl
  | .str _ => rfl
  | .num text => by
    rw [Json.canonical, Json.canonical, (isFloat64_getD text).roundTrip.2, Option.getD_some]
  | .arr vs => by
    rw [Json.canonical, Json.canonical, canonicalElems_canonicalElems vs]
  | .obj fs => by
    rw [Json.canonical, Json.canonical]
    congr 1
    have hvalues : ∀ f ∈ canonicalFields fs [], f.2.canonical = f.2 :=
      canonicalFields_forall (fun f hf => by cases hf) (canonical_canonicalFields fs)
    exact canonicalFields_of_sorted (sortedKeys_canonicalFields fs List.Pairwise.nil) hvalues

theorem canonicalElems_canonicalElems : ∀ vs : List Json,
    canonicalElems (canonicalElems vs) = canonicalElems vs
  | [] => rfl
  | v :: vs => by
    rw [canonicalElems, canonicalElems, v.canonical_canonical, canonicalElems_canonicalElems vs]

theorem canonical_canonicalFields : ∀ fs : List (GoString × Json), ∀ f ∈ fs,
    f.2.canonical.canonical = f.2.canonical
  | [], _, hf => absurd hf List.not_mem_nil
  | (k, v) :: fs, f, hf => by
    rcases List.mem_cons.mp hf with rfl | hf
    · exact v.canonical_canonical
    · exact canonical_canonicalFields fs f hf

end

theorem cleanFields_iff {fs : List (GoString × Json)} :
    CleanFields fs ↔ ∀ f ∈ fs, validString f.1 = true ∧ f.2.Clean := by
  induction fs with
  | nil => simp [CleanFields]
  | cons f fs ih =>
    obtain ⟨k, v⟩ := f
    rw [CleanFields, ih, List.forall_mem_cons, and_assoc]

theorem floatsFitFields_iff {fs : List (GoString × Json)} :
    floatsFitFields fs = true ↔ ∀ f ∈ fs, f.2.floatsFit = true := by
  induction fs with
  | nil => simp [floatsFitFields]
  | cons f fs ih =>
    obtain ⟨k, v⟩ := f
    rw [floatsFitFields, Bool.and_eq_true, ih, List.forall_mem_cons]

theorem depthFields_le_iff {fs : List (GoString × Json)} {d : Nat} :
    depthFields fs ≤ d ↔ ∀ f ∈ fs, f.2.depth ≤ d := by
  induction fs with
  | nil => simp [depthFields]
  | cons f fs ih =>
    obtain ⟨k, v⟩ := f
    rw [depthFields, max_le_iff, ih, List.forall_mem_cons]

mutual

/-- It is clean, and no deeper than the text. -/
theorem Json.canonical_clean : ∀ v : Json, v.Clean → v.canonical.Clean
  | .null, h => h
  | .bool _, h => h
  | .str _, h => h
  | .num text, _ => (isFloat64_getD text).roundTrip.1
  | .arr vs, h => canonicalElems_clean vs h
  | .obj fs, h => cleanFields_iff.mpr (canonicalFields_forall (fun f hf => by cases hf)
      (canonicalFields_clean fs h))

theorem canonicalElems_clean : ∀ vs : List Json, CleanElems vs → CleanElems (canonicalElems vs)
  | [], h => h
  | v :: vs, h => ⟨v.canonical_clean h.1, canonicalElems_clean vs h.2⟩

theorem canonicalFields_clean : ∀ fs : List (GoString × Json), CleanFields fs →
    ∀ f ∈ fs, validString f.1 = true ∧ f.2.canonical.Clean
  | [], _, _, hf => absurd hf List.not_mem_nil
  | (k, v) :: fs, h, f, hf => by
    rcases List.mem_cons.mp hf with rfl | hf
    · exact ⟨h.1, v.canonical_clean h.2.1⟩
    · exact canonicalFields_clean fs h.2.2 f hf

end

mutual

theorem Json.depth_canonical : ∀ v : Json, v.canonical.depth ≤ v.depth
  | .null => le_refl _
  | .bool _ => le_refl _
  | .str _ => le_refl _
  | .num _ => le_refl _
  | .arr vs => Nat.succ_le_succ (depth_canonicalElems vs)
  | .obj fs => by
    have hfields : ∀ f ∈ canonicalFields fs [], f.2.depth ≤ depthFields fs :=
      canonicalFields_forall (fun f hf => by cases hf) (depth_canonicalFields fs)
    exact Nat.succ_le_succ (depthFields_le_iff.mpr hfields)

theorem depth_canonicalElems : ∀ vs : List Json, depthElems (canonicalElems vs) ≤ depthElems vs
  | [] => le_refl _
  | v :: vs => max_le_max v.depth_canonical (depth_canonicalElems vs)

theorem depth_canonicalFields : ∀ fs : List (GoString × Json), ∀ f ∈ fs,
    f.2.canonical.depth ≤ depthFields fs
  | [], _, hf => absurd hf List.not_mem_nil
  | (k, v) :: fs, f, hf => by
    rw [depthFields]
    rcases List.mem_cons.mp hf with rfl | hf
    · exact le_trans v.depth_canonical (le_max_left ..)
    · exact le_trans (depth_canonicalFields fs f hf) (le_max_right ..)

end

mutual

/-- What has been read fits. -/
theorem Json.floatsFit_canonical : ∀ v : Json, v.canonical.floatsFit = true
  | .null => rfl
  | .bool _ => rfl
  | .str _ => rfl
  | .num text => by
    rw [Json.canonical, Json.floatsFit, (isFloat64_getD text).roundTrip.2]
    rfl
  | .arr vs => floatsFit_canonicalElems vs
  | .obj fs => floatsFitFields_iff.mpr (canonicalFields_forall (fun f hf => by cases hf)
      (floatsFit_canonicalFields fs))

theorem floatsFit_canonicalElems : ∀ vs : List Json, floatsFitElems (canonicalElems vs) = true
  | [] => rfl
  | v :: vs => by
    rw [canonicalElems, floatsFitElems, v.floatsFit_canonical, floatsFit_canonicalElems vs]
    rfl

theorem floatsFit_canonicalFields : ∀ fs : List (GoString × Json), ∀ f ∈ fs,
    f.2.canonical.floatsFit = true
  | [], _, hf => absurd hf List.not_mem_nil
  | (k, v) :: fs, f, hf => by
    rcases List.mem_cons.mp hf with rfl | hf
    · exact v.floatsFit_canonical
    · exact floatsFit_canonicalFields fs f hf

end

end Go
