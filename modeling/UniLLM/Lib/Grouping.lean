import Mathlib.Data.Finmap
import Mathlib.Algebra.BigOperators.Group.Finset.Piecewise

/-!
# Grouping by a key

A loop puts each element into the bucket of its key, and makes the bucket if there is none.
The buckets are then those of the keys that occur, and each has what its own elements add up
to, in their order.
-/

namespace Grouping

variable {α κ σ : Type*} [DecidableEq κ] (key : α → κ) (init : σ) (add : σ → α → σ)

/-- One element. -/
def collectOne (buckets : Finmap fun _ : κ => σ) (x : α) : Finmap fun _ : κ => σ :=
  buckets.insert (key x) (add ((buckets.lookup (key x)).getD init) x)

def collect (l : List α) : Finmap fun _ : κ => σ := l.foldl (collectOne key init add) ∅

/-- The elements with a key. -/
def group (l : List α) (k : κ) : List α := l.filter fun x => key x = k

variable {key init add} {l : List α} {k : κ}

theorem lookup_foldl (buckets : Finmap fun _ : κ => σ) (l : List α) (k : κ) :
    (l.foldl (collectOne key init add) buckets).lookup k =
      (group key l k).foldl (fun b x => some (add (b.getD init) x)) (buckets.lookup k) := by
  induction l generalizing buckets with
  | nil => rfl
  | cons x l ih =>
    rw [List.foldl_cons, ih, group, group]
    by_cases h : key x = k
    · subst h
      rw [List.filter_cons_of_pos (by simp), List.foldl_cons, collectOne, Finmap.lookup_insert]
    · rw [List.filter_cons_of_neg (by simpa using h), collectOne,
        Finmap.lookup_insert_of_ne _ (Ne.symm h)]

theorem foldl_some (b : σ) (l : List α) :
    l.foldl (fun b x => some (add (b.getD init) x)) (some b) = some (l.foldl add b) := by
  induction l generalizing b with
  | nil => rfl
  | cons x l ih => exact ih (add b x)

theorem group_eq_nil : group key l k = [] ↔ k ∉ l.map key := by
  rw [group, List.filter_eq_nil_iff, List.mem_map]
  simp

/-- The bucket of a key. -/
theorem lookup_collect {b : σ} :
    (collect key init add l).lookup k = some b ↔
      k ∈ l.map key ∧ (group key l k).foldl add init = b := by
  rw [collect, lookup_foldl, Finmap.lookup_empty]
  by_cases h : k ∈ l.map key
  · have hne : group key l k ≠ [] := fun hnil => group_eq_nil.mp hnil h
    obtain ⟨x, rest, hgroup⟩ := List.exists_cons_of_ne_nil hne
    rw [hgroup, List.foldl_cons, Option.getD_none, foldl_some, Option.some.injEq]
    exact (and_iff_right h).symm
  · rw [group_eq_nil.mpr h]
    constructor
    · intro hnone
      cases hnone
    · intro hmem
      exact absurd hmem.1 h

/-- **The buckets are the groups.** -/
theorem entries_collect (l : List α) :
    (collect key init add l).entries =
      (l.map key).toFinset.val.map fun k => ⟨k, (group key l k).foldl add init⟩ := by
  have hnodup : ((l.map key).toFinset.val.map fun k =>
      (⟨k, (group key l k).foldl add init⟩ : Sigma fun _ : κ => σ)).Nodup := by
    refine Multiset.Nodup.map ?_ (l.map key).toFinset.nodup
    intro k k' h
    exact congrArg Sigma.fst h
  refine (Multiset.Nodup.ext (Finmap.nodup_entries _) hnodup).mpr ?_
  rintro ⟨k, b⟩
  rw [← Finmap.lookup_eq_some_iff, lookup_collect, Multiset.mem_map]
  constructor
  · rintro ⟨hk, rfl⟩
    exact ⟨k, List.mem_toFinset.mpr hk, rfl⟩
  · rintro ⟨k', hk', heq⟩
    cases heq
    exact ⟨List.mem_toFinset.mp hk', rfl⟩

/-- The groups have all elements. -/
theorem sum_length_group (l : List α) :
    (((l.map key).toFinset.val.map fun k => (group key l k).length).sum) = l.length := by
  have hcount : ∀ k, (group key l k).length = (l.map key : Multiset κ).count k := by
    intro k
    rw [Multiset.coe_count, List.count, List.countP_map, List.countP_eq_length_filter, group]
    rfl
  have hsum := Multiset.toFinset_sum_count_eq (l.map key : Multiset κ)
  rw [Multiset.coe_card, List.length_map] at hsum
  rw [← hsum]
  exact congrArg Multiset.sum (Multiset.map_congr rfl fun k _ => hcount k)

/-- What the elements add up to is what the groups of a set of keys add up to, if it has all
keys. -/
theorem sum_group_of_subset {M : Type*} [AddCommMonoid M] (f : α → M) {s : Finset κ}
    (h : ∀ x ∈ l, key x ∈ s) : ∑ k ∈ s, ((group key l k).map f).sum = (l.map f).sum := by
  induction l with
  | nil => simp [group]
  | cons x l ih =>
    have hgroup : ∀ k, ((group key (x :: l) k).map f).sum =
        (if key x = k then f x else 0) + ((group key l k).map f).sum := by
      intro k
      by_cases hk : key x = k
      · rw [group, List.filter_cons_of_pos (by simpa using hk), if_pos hk, List.map_cons,
          List.sum_cons]
        rfl
      · rw [group, List.filter_cons_of_neg (by simpa using hk), if_neg hk, zero_add]
        rfl
    have hx : key x ∈ s := h x List.mem_cons_self
    rw [Finset.sum_congr rfl fun k _ => hgroup k, Finset.sum_add_distrib, Finset.sum_ite_eq,
      if_pos hx, ih fun y hy => h y (List.mem_cons_of_mem _ hy), List.map_cons, List.sum_cons]

variable (key) in
/-- **The groups add up to the whole.** -/
theorem sum_group {M : Type*} [AddCommMonoid M] (f : α → M) (l : List α) :
    ((l.map key).dedup.map fun k => ((group key l k).map f).sum).sum = (l.map f).sum := by
  rw [← List.sum_toFinset _ (List.nodup_dedup _)]
  refine sum_group_of_subset f fun x hx => ?_
  rw [List.mem_toFinset, List.mem_dedup]
  exact List.mem_map_of_mem hx

variable (key) in
/-- A key of another form that tells the same keys apart makes the same groups. -/
theorem group_map_injective {κ' : Type*} [DecidableEq κ'] {f : κ → κ'} (hf : Function.Injective f)
    (l : List α) (k : κ) : group (fun x => f (key x)) l (f k) = group key l k := by
  unfold group
  exact List.filter_congr fun x _ => by simp [hf.eq_iff]

end Grouping
