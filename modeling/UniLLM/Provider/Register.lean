import UniLLM.Provider.Upstream
import UniLLM.Catalog.Service

/-!
# The provider registry

`RegisterAll` registers a provider with retries and a circuit breaker for each
active row it has an implementation for, and then, if `FALLBACK_CHAIN` says so, a
group of them under a name of its own, which may be a name that is taken.
-/

namespace UniLLM.Provider
open Go

/-- What a registry holds. -/
inductive Registered where
  | resilient (p : Resilient)
  | fallback (f : Fallback)

def Registered.name : Registered → GoString
  | .resilient p => p.name
  | .fallback f => f.name

/-- Holds all registered providers. -/
abbrev Registry := GoString → Option Registered

def Registry.register (r : Registry) (p : Registered) : Registry :=
  Function.update r p.name (some p)

/-- The names of the providers that speak the OpenAI API. -/
def openAINames : List GoString :=
  [lit "openai", lit "deepseek", lit "alibaba", lit "bytedance", lit "geneasy"]

def buildProvider (p : Catalog.ProviderRow) : Option Direct :=
  if openAINames.contains p.name then some (.openAI p.name p.baseURL)
  else if p.name = lit "anthropic" then some (.anthropic p.baseURL)
  else if p.name = lit "google" then some (.google p.baseURL)
  else none

/-- The registry and the providers by the names of their rows. -/
structure Registration where
  registry : Registry
  byName : GoString → Option Resilient

/-- One turn of the loop over the rows. -/
def registerRow (r : Registration) (p : Catalog.ProviderRow) : Registration :=
  match buildProvider p with
  | none => r
  | some inner =>
    let wrapped := newResilientProvider inner
    { registry := r.registry.register (.resilient wrapped)
      byName := Function.update r.byName p.name (some wrapped) }

/-- Registers the chain that `FALLBACK_CHAIN` describes as `name:p1,p2`. -/
def registerFallbackChains (registry : Registry) (byName : GoString → Option Resilient)
    (chainSpec : GoString) : Registry :=
  if chainSpec = [] then registry
  else
    match split 0x3A chainSpec with
    | groupName :: names :: _ =>
      let chain := (split 0x2C names).filterMap fun name => byName (trimSpace name)
      if chain = [] then registry
      else registry.register
        (.fallback { name := groupName, providers := chain, apiKeys := fun _ => none })
    | _ => registry

/-- Registers upstream providers with resilience and optional fallback chains. -/
def registerAll (db : Catalog.Database) (chainSpec : GoString) : Registry :=
  let r := (db.providers.filter (·.isActive)).foldl registerRow ⟨fun _ => none, fun _ => none⟩
  registerFallbackChains r.registry r.byName chainSpec

/-! ### What is registered -/

theorem buildProvider_name {p : Catalog.ProviderRow} {inner : Direct}
    (h : buildProvider p = some inner) :
    inner.name = p.name := by
  unfold buildProvider at h
  split at h
  · obtain rfl := Option.some.inj h
    rfl
  · split at h
    · rename_i hname
      obtain rfl := Option.some.inj h
      exact hname.symm
    · split at h
      · rename_i hname
        obtain rfl := Option.some.inj h
        exact hname.symm
      · cases h

/-- Every provider is found under its own name, in both maps. -/
structure Registration.Consistent (r : Registration) : Prop where
  registry_eq : ∀ name, r.registry name = (r.byName name).map .resilient
  byName_name : ∀ name p, r.byName name = some p → p.name = name

theorem registerRow_consistent {r : Registration} (h : r.Consistent) (p : Catalog.ProviderRow) :
    (registerRow r p).Consistent := by
  unfold registerRow
  split
  · exact h
  · rename_i inner hinner
    have hname : (newResilientProvider inner).name = p.name := buildProvider_name hinner
    constructor
    · intro name
      simp only [Registry.register, Registered.name, hname]
      by_cases heq : name = p.name
      · subst heq
        simp
      · rw [Function.update_of_ne heq, Function.update_of_ne heq]
        exact h.registry_eq name
    · intro name q hq
      simp only at hq
      by_cases heq : name = p.name
      · subst heq
        rw [Function.update_self] at hq
        obtain rfl := Option.some.inj hq
        exact hname
      · rw [Function.update_of_ne heq] at hq
        exact h.byName_name name q hq

theorem foldl_registerRow_consistent (ps : List Catalog.ProviderRow) {r : Registration}
    (h : r.Consistent) : (ps.foldl registerRow r).Consistent := by
  induction ps generalizing r with
  | nil => exact h
  | cons p ps ih => exact ih (registerRow_consistent h p)

/-- What a registry may have under a name: the provider of that name, or a group of
providers without keys of their own, in which a name stands for one provider. -/
def Registered.Fits (name : GoString) : Registered → Prop
  | .resilient p => p.name = name
  | .fallback f =>
    (∀ provider, f.apiKeys provider = none) ∧
      ∀ p ∈ f.providers, ∀ q ∈ f.providers, p.name = q.name → p = q

/-- **What `RegisterAll` registers.** -/
theorem registerAll_fits {db : Catalog.Database} {chainSpec name : GoString} {p : Registered}
    (h : registerAll db chainSpec name = some p) : p.Fits name := by
  have hconsistent := foldl_registerRow_consistent (db.providers.filter (·.isActive))
    (r := ⟨fun _ => none, fun _ => none⟩) ⟨fun _ => rfl, nofun⟩
  rw [registerAll] at h
  generalize (db.providers.filter (·.isActive)).foldl registerRow ⟨fun _ => none, fun _ => none⟩ = r
    at h hconsistent
  have hdirect : r.registry name = some p → p.Fits name := by
    intro hp
    rw [hconsistent.registry_eq] at hp
    obtain ⟨q, hq, rfl⟩ := Option.map_eq_some_iff.mp hp
    exact hconsistent.byName_name name q hq
  unfold registerFallbackChains at h
  by_cases hspec : chainSpec = []
  · rw [if_pos hspec] at h
    exact hdirect h
  rw [if_neg hspec] at h
  match hsplit : split 0x3A chainSpec with
  | [] | [_] =>
    simp only [hsplit] at h
    exact hdirect h
  | groupName :: names :: _ =>
    simp only [hsplit] at h
    split at h
    · exact hdirect h
    · by_cases heq : name = groupName
      · subst heq
        rw [Registry.register, Registered.name, Function.update_self] at h
        obtain rfl := Option.some.inj h
        refine ⟨fun _ => rfl, fun a ha b hb hab => ?_⟩
        obtain ⟨na, -, hna⟩ := List.mem_filterMap.mp ha
        obtain ⟨nb, -, hnb⟩ := List.mem_filterMap.mp hb
        have hsame : trimSpace na = trimSpace nb := by
          rw [← hconsistent.byName_name _ _ hna, ← hconsistent.byName_name _ _ hnb, hab]
        rw [hsame, hnb] at hna
        exact (Option.some.inj hna).symm
      · rw [Registry.register, Registered.name, Function.update_of_ne heq] at h
        exact hdirect h

end UniLLM.Provider
