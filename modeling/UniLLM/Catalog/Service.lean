import UniLLM.Go.Strings
import Mathlib.Logic.Function.Basic
import Mathlib.Data.Rat.Defs

/-!
# The catalog

Providers, their keys and the models routed to them live in database tables; the
catalog service keeps the active keys in memory, by provider name, and hands them
out in turn.  A Go map is a function here: what is absent is the zero value, which
is what a lookup of an absent name yields.

Stored keys are encrypted.  How is left open: `KeyProtector` has the two directions
as functions, the encrypting one with the random bytes it draws.
-/

namespace UniLLM.Catalog
open Go

/-! ### Tables -/

/-- A row of the provider table. -/
structure ProviderRow where
  id : Int
  name : GoString
  baseURL : GoString
  isActive : Bool

/-- A row of the key table.  The value is encrypted. -/
structure ProviderKey where
  providerID : Int
  keyValue : GoString
  isActive : Bool

/-- A row of the model table. -/
structure ModelRow where
  id : Int
  publicName : GoString
  providerID : Int
  upstreamModel : GoString
  inputPricePer1M : Rat
  outputPricePer1M : Rat
  isActive : Bool

/-- The tables, in the order of their ids. -/
structure Database where
  providers : List ProviderRow
  keys : List ProviderKey
  models : List ModelRow

/-- Encrypts and decrypts provider keys at rest. -/
structure KeyProtector where
  encrypt : (random plaintext : GoString) → Option GoString
  decrypt : GoString → GoString

/-! ### The repository -/

/-- Describes an upstream provider. -/
structure Provider where
  id : Int
  name : GoString
  baseURL : GoString

/-- Maps a public model name to upstream routing and pricing. -/
structure ModelConfig where
  id : Int
  publicName : GoString
  providerID : Int
  upstreamModel : GoString
  inputPricePer1M : Rat
  outputPricePer1M : Rat

/-- The resolved routing for a public model name. -/
structure ModelRoute where
  model : ModelConfig
  provider : Provider

def ProviderRow.toProvider (p : ProviderRow) : Provider := ⟨p.id, p.name, p.baseURL⟩

def toModelConfig (m : ModelRow) : ModelConfig :=
  ⟨m.id, m.publicName, m.providerID, m.upstreamModel, m.inputPricePer1M, m.outputPricePer1M⟩

def listActiveProviders (db : Database) : List Provider :=
  (db.providers.filter (·.isActive)).map ProviderRow.toProvider

def listActiveKeys (protector : KeyProtector) (db : Database) (providerID : Int) : List GoString :=
  (db.keys.filter fun k => k.providerID == providerID && k.isActive).map fun k =>
    protector.decrypt k.keyValue

def findModelByPublicName (db : Database) (name : GoString) : Option ModelConfig :=
  (db.models.find? fun m => m.publicName == name && m.isActive).map toModelConfig

def findProviderByID (db : Database) (id : Int) : Option Provider :=
  (db.providers.find? fun p => p.id == id).map ProviderRow.toProvider

/-! ### The service -/

/-- The keys in memory. -/
structure Pool where
  providerKeys : GoString → List GoString
  keyIndex : GoString → Nat

/-- A service that has not loaded anything. -/
def newService : Pool := ⟨fun _ => [], fun _ => 0⟩

def noKeys (providerName : GoString) : GoString :=
  lit "no API keys configured for provider " ++ providerName

/-- How many values a `uint64` has. -/
def uint64Size : Nat := 18446744073709551616

/-- Returns the next key for a provider, in turn.  The index is a `uint64`. -/
def Pool.nextKey (s : Pool) (providerName : GoString) : Except GoString GoString × Pool :=
  let keys := s.providerKeys providerName
  let index := s.keyIndex providerName
  -- without keys the source returns before it takes the remainder
  match keys[index % keys.length]? with
  | none => (.error (noKeys providerName), s)
  | some key =>
    (.ok key,
      { s with keyIndex := Function.update s.keyIndex providerName ((index + 1) % uint64Size) })

/-- Returns the first configured key. -/
def Pool.firstKey (s : Pool) (providerName : GoString) : Except GoString GoString :=
  match s.providerKeys providerName with
  | [] => .error (noKeys providerName)
  | key :: _ => .ok key

/-- Returns routing information for a public model name. -/
def resolveModel (db : Database) (publicName : GoString) : Except GoString ModelRoute :=
  match findModelByPublicName db publicName with
  | none => .error (lit "record not found")
  | some model =>
    match findProviderByID db model.providerID with
    | none => .error (lit "record not found")
    | some provider => .ok ⟨model, provider⟩

/-- Adds the keys of a provider to those collected. -/
def collectKeys (keys : GoString → List GoString) (p : Provider) (providerKeys : List GoString) :
    GoString → List GoString :=
  if providerKeys = [] then keys
  else Function.update keys p.name (keys p.name ++ providerKeys)

/-- What happens under the mutex at the end of a reload. -/
def install (keys : GoString → List GoString) : Pool := ⟨keys, fun _ => 0⟩

/-- Loads the active provider keys, when nothing else goes on.  `KeyAddition` takes the
same steps one at a time. -/
def reload (protector : KeyProtector) (db : Database) : Pool :=
  install ((listActiveProviders db).foldl
    (fun keys p => collectKeys keys p (listActiveKeys protector db p.id)) fun _ => [])

/-! ### Keys come from the pool -/

/-- A key that is handed out is one of the provider's. -/
theorem Pool.nextKey_mem {s s' : Pool} {providerName key : GoString}
    (h : s.nextKey providerName = (.ok key, s')) :
    key ∈ s.providerKeys providerName ∧ s'.providerKeys = s.providerKeys := by
  unfold Pool.nextKey at h
  simp only at h
  split at h
  · cases h
  · rename_i k hk
    obtain ⟨hkey, rfl⟩ := Prod.mk.inj h
    exact ⟨Except.ok.inj hkey ▸ List.mem_of_getElem? hk, rfl⟩

theorem mem_collectKeys {keys : GoString → List GoString} {p : Provider}
    {providerKeys : List GoString} {name key : GoString} :
    key ∈ collectKeys keys p providerKeys name ↔
      key ∈ keys name ∨ (name = p.name ∧ key ∈ providerKeys) := by
  unfold collectKeys
  split
  · simp [*]
  · by_cases hname : name = p.name
    · subst hname
      simp
    · simp [hname]

end UniLLM.Catalog
