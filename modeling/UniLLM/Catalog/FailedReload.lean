import UniLLM.Catalog.Service
import Mathlib.Data.List.Nodup

/-!
# Reloads with failing reads

A reload makes one query for the providers and one more for the keys of each.  If the first
fails the pool stays as it is.  A provider whose keys cannot be read is skipped, and as the
pool is replaced as a whole, it comes out without the keys it had.
-/

namespace UniLLM.Catalog
open Go

/-- What a query answers. -/
abbrev Answer (α : Type) := Except GoString α

/-- What the repository answers to a reload: the providers, each with the answer to the
query for its keys. -/
abbrev Reads := Answer (List (Provider × Answer (List GoString)))

/-- The keys of a provider join those collected, if they could be read. -/
def collectRead (keys : GoString → List GoString) (r : Provider × Answer (List GoString)) :
    GoString → List GoString :=
  match r.2 with
  | .error _ => keys
  | .ok providerKeys => collectKeys keys r.1 providerKeys

/-- `Reload`: the error it returns, and the pool after it. -/
def Pool.reload (s : Pool) : Reads → Option GoString × Pool
  | .error e => (some e, s)
  | .ok found => (none, install (found.foldl collectRead fun _ => []))

/-- The keys of the provider could not be read. -/
def Unread (r : Provider × Answer (List GoString)) : Prop := ∃ e, r.2 = .error e

/-- No failed read has shrunk the pool: every provider whose keys could not be read has
those it had, or the reload has returned an error and nothing has changed. -/
def KeepsUnread (s : Pool) (reads : Reads) : Prop :=
  (∃ found, reads = .ok found ∧ ∀ r ∈ found, Unread r →
      (s.reload reads).2.providerKeys r.1.name = s.providerKeys r.1.name) ∨
    (s.reload reads).1 ≠ none ∧ (s.reload reads).2 = s

/-- The keys that are read for a name. -/
def readKeys (found : List (Provider × Answer (List GoString))) (name : GoString) : List GoString :=
  found.flatMap fun r => if r.1.name = name then r.2.toOption.getD [] else []

/-! ### What a reload collects -/

theorem collectRead_apply (keys : GoString → List GoString) (r : Provider × Answer (List GoString))
    (name : GoString) :
    collectRead keys r name =
      keys name ++ if r.1.name = name then r.2.toOption.getD [] else [] := by
  obtain ⟨p, e | providerKeys⟩ := r
  · simp [collectRead, Except.toOption]
  · by_cases hnil : providerKeys = []
    · simp [collectRead, collectKeys, hnil, Except.toOption]
    · by_cases hname : p.name = name
      · subst hname
        simp [collectRead, collectKeys, hnil, Except.toOption]
      · have hne : name ≠ p.name := fun h => hname h.symm
        simp [collectRead, collectKeys, hnil, hname, hne]

theorem foldl_collectRead (found : List (Provider × Answer (List GoString)))
    (keys : GoString → List GoString) (name : GoString) :
    found.foldl collectRead keys name = keys name ++ readKeys found name := by
  induction found generalizing keys with
  | nil => exact (List.append_nil _).symm
  | cons r found ih =>
    rw [List.foldl_cons, ih, collectRead_apply, List.append_assoc]
    rfl

/-- **The pool after a reload** has what was read. -/
theorem reload_providerKeys (s : Pool) (found : List (Provider × Answer (List GoString)))
    (name : GoString) : (s.reload (.ok found)).2.providerKeys name = readKeys found name :=
  foldl_collectRead found (fun _ => []) name

/-- Without failures this is the reload of the service. -/
theorem reload_eq (protector : KeyProtector) (db : Database) (s : Pool) :
    (s.reload (.ok ((listActiveProviders db).map fun p =>
      (p, .ok (listActiveKeys protector db p.id))))).2 = reload protector db := by
  rw [Pool.reload, List.foldl_map]
  rfl

/-! ### Failed reads -/

/-- A provider with a key. -/
def openaiPool : Pool := ⟨fun name => if name = lit "openai" then [lit "sk-1"] else [], fun _ => 0⟩

/-- The query for the keys of a provider times out. -/
def timedOut : Reads :=
  .ok [(⟨1, lit "openai", lit "https://api.openai.com/v1"⟩, .error (lit "timeout"))]

/-- The provider comes out without its key, and the reload without an error. -/
theorem not_keepsUnread_timedOut :
    (openaiPool.reload timedOut).1 = none ∧ ¬ KeepsUnread openaiPool timedOut := by
  refine ⟨rfl, ?_⟩
  rintro (⟨found, hfound, hkeeps⟩ | ⟨herror, -⟩)
  · obtain rfl := Except.ok.inj hfound
    have hkeys := hkeeps _ (List.mem_singleton_self _) ⟨_, rfl⟩
    rw [timedOut, reload_providerKeys] at hkeys
    exact absurd hkeys (by decide)
  · exact herror rfl

/-- **When no failed read shrinks the pool**: each provider whose keys cannot be read had just
the keys that are read for others of its name. -/
theorem keepsUnread_iff (s : Pool) (reads : Reads) :
    KeepsUnread s reads ↔
      ∀ found, reads = .ok found → ∀ r ∈ found, Unread r →
        s.providerKeys r.1.name = readKeys found r.1.name := by
  constructor
  · rintro (⟨found, rfl, hkeeps⟩ | ⟨herror, -⟩) found' hfound r hr hunread
    · obtain rfl := Except.ok.inj hfound
      rw [← hkeeps r hr hunread, reload_providerKeys]
    · subst hfound
      exact absurd rfl herror
  · intro h
    cases reads with
    | error e => exact Or.inr ⟨Option.some_ne_none e, rfl⟩
    | ok found =>
      refine Or.inl ⟨found, rfl, fun r hr hunread => ?_⟩
      rw [reload_providerKeys, h found rfl r hr hunread]

/-- As names are unique, such a provider had no keys at all. -/
theorem keepsUnread_iff_of_nodup (s : Pool) {found : List (Provider × Answer (List GoString))}
    (hnames : (found.map fun r => r.1.name).Nodup) :
    KeepsUnread s (.ok found) ↔ ∀ r ∈ found, Unread r → s.providerKeys r.1.name = [] := by
  have hnone : ∀ r ∈ found, Unread r → readKeys found r.1.name = [] := by
    intro r hr hunread
    rw [readKeys, List.flatMap_eq_nil_iff]
    intro r' hr'
    split
    · rename_i hname
      obtain rfl := List.inj_on_of_nodup_map hnames hr' hr hname
      obtain ⟨e, he⟩ := hunread
      rw [he]
      rfl
    · rfl
  rw [keepsUnread_iff]
  constructor
  · intro h r hr hunread
    rw [h found rfl r hr hunread, hnone r hr hunread]
  · rintro h found' hfound r hr hunread
    obtain rfl := Except.ok.inj hfound
    rw [h r hr hunread, hnone r hr hunread]

end UniLLM.Catalog
