import Mathlib.Data.List.Basic

/-!
# Lines of a text that arrives in parts

A text is cut into parts anywhere, and each part is split into lines by itself.  What a
part sees as a line is a fragment of a line of the text: `fragments` collects, for each
line of the text, the fragments of it in order.  A cut between two parts is a cut in one
of these collections, and the other way round (`fragments_append`, `exists_cut`).
-/

namespace Fragments

variable {α : Type*}

/-- One list after the other, where the last entry of the first goes on in the first entry
of the second. -/
def glue (ls ms : List (List α)) : List (List α) :=
  ls.dropLast ++ ms.modifyHead (ls.getLastD [] ++ ·)

@[simp] theorem glue_concat_cons (ls ms : List (List α)) (l m : List α) :
    glue (ls ++ [l]) (m :: ms) = ls ++ (l ++ m) :: ms := by
  simp [glue]

theorem exists_concat {ls : List (List α)} (h : ls ≠ []) : ∃ ls' l, ls = ls' ++ [l] :=
  ⟨ls.dropLast, ls.getLast h, (List.dropLast_concat_getLast h).symm⟩

theorem glue_ne_nil {ls ms : List (List α)} (hl : ls ≠ []) (hm : ms ≠ []) :
    glue ls ms ≠ [] := by
  obtain ⟨ls', l, rfl⟩ := exists_concat hl
  obtain ⟨m, ms', rfl⟩ := List.exists_cons_of_ne_nil hm
  rw [glue_concat_cons]
  exact List.append_ne_nil_of_right_ne_nil _ (List.cons_ne_nil _ _)

theorem glue_assoc {ls ms ns : List (List α)} (hl : ls ≠ []) (hm : ms ≠ []) (hn : ns ≠ []) :
    glue (glue ls ms) ns = glue ls (glue ms ns) := by
  obtain ⟨ls', l, rfl⟩ := exists_concat hl
  obtain ⟨n, ns', rfl⟩ := List.exists_cons_of_ne_nil hn
  obtain ⟨ms', m, rfl⟩ := exists_concat hm
  cases ms' with
  | nil =>
    rw [glue_concat_cons, List.nil_append, glue_concat_cons, glue_concat_cons,
      List.nil_append, glue_concat_cons, List.append_assoc]
  | cons m' ms' =>
    have hleft : ls' ++ (l ++ m') :: (ms' ++ [m]) = (ls' ++ (l ++ m') :: ms') ++ [m] := by simp
    rw [glue_concat_cons, List.cons_append, glue_concat_cons, hleft, glue_concat_cons,
      List.cons_append, glue_concat_cons, List.append_assoc, List.cons_append]

theorem glue_nil_left {ms : List (List α)} (h : ms ≠ []) : glue [[]] ms = ms := by
  obtain ⟨m, ms', rfl⟩ := List.exists_cons_of_ne_nil h
  exact glue_concat_cons [] ms' [] m

theorem flatten_glue {ls ms : List (List α)} (hm : ms ≠ []) :
    (glue ls ms).flatten = ls.flatten ++ ms.flatten := by
  obtain ⟨m, ms', rfl⟩ := List.exists_cons_of_ne_nil hm
  rcases List.eq_nil_or_concat ls with rfl | ⟨ls', l, rfl⟩
  · simp [glue]
  · rw [List.concat_eq_append, glue_concat_cons]
    simp

/-! ### Splitting -/

variable [BEq α] {sep : α}

theorem splitOn_append (t u : List α) :
    (t ++ u).splitOn sep = glue (t.splitOn sep) (u.splitOn sep) := by
  induction t with
  | nil => exact (glue_nil_left (List.splitOn_ne_nil sep u)).symm
  | cons x t ih =>
    obtain ⟨ls, l, hls⟩ := exists_concat (List.splitOn_ne_nil sep t)
    obtain ⟨m, ms, hms⟩ := List.exists_cons_of_ne_nil (List.splitOn_ne_nil sep u)
    rw [hls, hms, glue_concat_cons] at ih
    rw [List.cons_append, List.splitOn_cons_eq_if_modifyHead, ih,
      List.splitOn_cons_eq_if_modifyHead, hls, hms]
    split
    · exact (glue_concat_cons ([] :: ls) ms l m).symm
    · cases ls with
      | nil => exact (glue_concat_cons [] ms (x :: l) m).symm
      | cons l' ls => exact (glue_concat_cons ((x :: l') :: ls) ms l m).symm

variable (sep)

/-- The line a text ends in. -/
def lastLine (t : List α) : List α := (t.splitOn sep).getLastD []

/-- The line a text begins with. -/
def firstLine (t : List α) : List α := (t.splitOn sep).headD []

/-- For each line of the text that the parts are cut from, the fragments of it. -/
def fragments : List (List α) → List (List (List α))
  | [] => [[]]
  | t :: ts => glue ((t.splitOn sep).map fun l => [l]) (fragments ts)

variable {sep}

theorem map_splitOn_ne_nil (t : List α) : ((t.splitOn sep).map fun l => [l]) ≠ [] :=
  fun h => List.splitOn_ne_nil sep t (List.map_eq_nil_iff.mp h)

variable (sep) in
theorem fragments_ne_nil (ts : List (List α)) : fragments sep ts ≠ [] := by
  induction ts with
  | nil => exact List.cons_ne_nil _ _
  | cons t ts ih => exact glue_ne_nil (map_splitOn_ne_nil t) ih

/-- **The fragments are the lines of the parts.** -/
theorem flatten_fragments (ts : List (List α)) :
    (fragments sep ts).flatten = ts.flatMap (List.splitOn sep) := by
  induction ts with
  | nil => rfl
  | cons t ts ih =>
    rw [fragments, flatten_glue (fragments_ne_nil sep ts), ih, List.flatMap_cons]
    congr 1
    exact List.flatMap_singleton' ..

/-- **The fragments of a line are the line, cut.** -/
theorem map_flatten_fragments (ts : List (List α)) :
    (fragments sep ts).map List.flatten = ts.flatten.splitOn sep := by
  induction ts with
  | nil => rfl
  | cons t ts ih =>
    obtain ⟨ls, l, hls⟩ := exists_concat (List.splitOn_ne_nil sep t)
    obtain ⟨g, gs, hgs⟩ := List.exists_cons_of_ne_nil (fragments_ne_nil sep ts)
    rw [hgs, List.map_cons] at ih
    rw [fragments, hls, List.map_append, List.map_singleton, hgs, glue_concat_cons,
      List.flatten_cons, splitOn_append, hls, ← ih, glue_concat_cons]
    simp [Function.comp_def]

theorem fragments_append (ts us : List (List α)) :
    fragments sep (ts ++ us) = glue (fragments sep ts) (fragments sep us) := by
  induction ts with
  | nil => exact (glue_nil_left (fragments_ne_nil sep us)).symm
  | cons t ts ih =>
    rw [List.cons_append, fragments, ih, fragments,
      glue_assoc (map_splitOn_ne_nil t) (fragments_ne_nil sep ts) (fragments_ne_nil sep us)]

theorem lastLine_eq {ts : List (List α)} {gs : List (List (List α))} {g : List (List α)}
    (h : fragments sep ts = gs ++ [g]) : lastLine sep ts.flatten = g.flatten := by
  rw [lastLine, ← map_flatten_fragments, h]
  simp

theorem firstLine_eq {ts : List (List α)} {gs : List (List (List α))} {g : List (List α)}
    (h : fragments sep ts = g :: gs) : firstLine sep ts.flatten = g.flatten := by
  rw [firstLine, ← map_flatten_fragments, h]
  rfl

variable (sep) in
/-- A cut between two parts is a cut in the fragments of a line. -/
theorem fragments_cut (ts us : List (List α)) :
    ∃ gs g h hs, fragments sep (ts ++ us) = gs ++ (g ++ h) :: hs ∧
      lastLine sep ts.flatten = g.flatten ∧ firstLine sep us.flatten = h.flatten := by
  obtain ⟨gs, g, hg⟩ := exists_concat (fragments_ne_nil sep ts)
  obtain ⟨h, hs, hh⟩ := List.exists_cons_of_ne_nil (fragments_ne_nil sep us)
  refine ⟨gs, g, h, hs, ?_, lastLine_eq hg, firstLine_eq hh⟩
  rw [fragments_append, hg, hh, glue_concat_cons]

omit [BEq α] in
/-- A single line is not cut in two. -/
theorem not_singleton_append {g h : List (List α)} {l : List α} (hg : g ≠ []) (hh : h ≠ []) :
    [l] ≠ g ++ h := by
  intro heq
  have hlength := congrArg List.length heq
  have hgpos := List.length_pos_of_ne_nil hg
  have hhpos := List.length_pos_of_ne_nil hh
  rw [List.length_singleton, List.length_append] at hlength
  omega

/-- **A cut in the fragments of a line is a cut between two parts.** -/
theorem exists_cut {ts : List (List α)} {gs hs : List (List (List α))} {g h : List (List α)}
    (heq : fragments sep ts = gs ++ (g ++ h) :: hs) (hg : g ≠ []) (hh : h ≠ []) :
    ∃ us vs, ts = us ++ vs ∧ fragments sep us = gs ++ [g] ∧ fragments sep vs = h :: hs := by
  induction ts generalizing gs g with
  | nil =>
    have hflat := congrArg List.flatten heq
    rw [flatten_fragments, List.flatMap_nil, List.flatten_append, List.flatten_cons,
      List.append_assoc] at hflat
    exact absurd (List.append_eq_nil_iff.mp (List.append_eq_nil_iff.mp hflat.symm).2).1 hg
  | cons t ts ih =>
    obtain ⟨ls, l, hls⟩ := exists_concat (List.splitOn_ne_nil sep t)
    obtain ⟨f, fs, hfs⟩ := List.exists_cons_of_ne_nil (fragments_ne_nil sep ts)
    have hfront : ∀ us k ks, fragments sep us = k :: ks →
        fragments sep (t :: us) = ls.map (fun l => [l]) ++ (l :: k) :: ks := by
      intro us k ks hus
      rw [fragments, hls, List.map_append, List.map_singleton, hus, glue_concat_cons,
        List.singleton_append]
    rw [hfront ts f fs hfs] at heq
    -- the line that `t` ends in
    have hhere : gs = ls.map (fun l => [l]) → g ++ h = l :: f → hs = fs →
        ∃ us vs, t :: ts = us ++ vs ∧ fragments sep us = gs ++ [g] ∧
          fragments sep vs = h :: hs := by
      rintro rfl hcut rfl
      cases g with
      | nil => exact absurd rfl hg
      | cons x g =>
        rw [List.cons_append] at hcut
        obtain ⟨rfl, rfl⟩ := List.cons.inj hcut
        by_cases hempty : g = []
        · subst hempty
          exact ⟨[t], ts, rfl, hfront [] [] [] rfl, hfs⟩
        · obtain ⟨us, vs, rfl, hus, hvs⟩ := @ih [] g hfs hempty
          exact ⟨t :: us, vs, rfl, hfront us g [] hus, hvs⟩
    rcases List.append_eq_append_iff.mp heq with ⟨as, rfl, has⟩ | ⟨as, has, has'⟩
    · cases as with
      | nil =>
        obtain ⟨hcut, hrest⟩ := List.cons.inj has
        exact hhere (List.append_nil _) hcut.symm hrest.symm
      | cons a as =>
        -- a line behind it
        obtain ⟨rfl, rfl⟩ := List.cons.inj has
        obtain ⟨us, vs, rfl, hus, hvs⟩ := @ih (f :: as) g hfs hg
        refine ⟨t :: us, vs, rfl, ?_, hvs⟩
        rw [hfront us f (as ++ [g]) hus, List.append_assoc, List.cons_append]
    · cases as with
      | nil =>
        obtain ⟨hcut, hrest⟩ := List.cons.inj has'
        exact hhere (by rw [has, List.append_nil]) hcut hrest
      | cons a as =>
        -- a line in front of it, in one piece
        obtain ⟨rfl, -⟩ := List.cons.inj has'
        have hmem : g ++ h ∈ ls.map (fun l => [l]) := by rw [has]; simp
        obtain ⟨l', -, hl'⟩ := List.mem_map.mp hmem
        exact absurd hl' (not_singleton_append hg hh)


/-! ### What is kept of a list of texts -/

variable {β γ : Type*} {F H : β → List γ}

omit [BEq α] in
theorem length_flatMap_le {gs : List β} (h : ∀ g ∈ gs, F g = H g ∨ F g = []) :
    (gs.flatMap F).length ≤ (gs.flatMap H).length := by
  induction gs with
  | nil => exact Nat.le_refl 0
  | cons g gs ih =>
    have hrest := ih fun g' hg' => h g' (List.mem_cons_of_mem g hg')
    rw [List.flatMap_cons, List.flatMap_cons, List.length_append, List.length_append]
    rcases h g (List.mem_cons_self ..) with hg | hg
    · rw [hg]
      omega
    · rw [hg, List.length_nil]
      omega

/-- **Where each text is kept or dropped, all is kept if each is.** -/
theorem flatMap_eq_iff {gs : List β} (h : ∀ g ∈ gs, F g = H g ∨ F g = []) :
    gs.flatMap F = gs.flatMap H ↔ ∀ g ∈ gs, F g = H g := by
  constructor
  · induction gs with
    | nil =>
      intro _ g hg
      cases hg
    | cons g gs ih =>
      intro heq
      have htail : ∀ g' ∈ gs, F g' = H g' ∨ F g' = [] := fun g' hg' =>
        h g' (List.mem_cons_of_mem g hg')
      have hle := length_flatMap_le htail
      have hlength := congrArg List.length heq
      simp only [List.flatMap_cons, List.length_append] at heq hlength
      have hg : F g = H g := by
        rcases h g (List.mem_cons_self ..) with hg | hg
        · exact hg
        · rw [hg, List.length_nil] at hlength
          rw [hg, List.eq_nil_of_length_eq_zero (by omega : (H g).length = 0)]
      rw [hg] at heq
      intro g' hg'
      rcases List.mem_cons.mp hg' with rfl | hg'
      · exact hg
      · exact ih htail (List.append_cancel_left heq) g' hg'
  · intro hall
    rw [List.flatMap_congr hall]

end Fragments
