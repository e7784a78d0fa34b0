import UniLLM.Catalog.Service
import UniLLM.Lib.Cyclic

/-!
# Keys in turn

`NextKey` hands out the keys of a provider in turn, from the first one on after each
reload.  Calls for other providers, calls that fail and calls of `FirstKey` come between
and change nothing.  The index is a `uint64`, so the turns are even as long as it does not
overflow.
-/

namespace UniLLM.Catalog
open Go

/-- What happens to the pool. -/
inductive PoolCall where
  | nextKey (providerName : GoString)
  | firstKey (providerName : GoString)
  /-- The end of a `Reload` that has collected these keys. -/
  | reload (keys : GoString → List GoString)

def Pool.call (s : Pool) : PoolCall → Pool
  | .nextKey providerName => (s.nextKey providerName).2
  | .firstKey _ => s
  | .reload keys => install keys

/-- The position `NextKey` looks at. -/
def Pool.position (s : Pool) (providerName : GoString) : Nat :=
  s.keyIndex providerName % (s.providerKeys providerName).length

/-- What a call hands out for a provider: the position of the key, and the key. -/
def Pool.served (s : Pool) (providerName : GoString) : PoolCall → List (Nat × GoString)
  | .nextKey name =>
    if name = providerName then
      match (s.nextKey name).1 with
      | .ok key => [(s.position name, key)]
      | .error _ => []
    else []
  | _ => []

/-- The successful calls of `NextKey` for a provider, in order. -/
def handedOut (providerName : GoString) : Pool → List PoolCall → List (Nat × GoString)
  | _, [] => []
  | s, c :: calls => s.served providerName c ++ handedOut providerName (s.call c) calls

/-- A call of `NextKey` for the provider. -/
def PoolCall.asksFor (providerName : GoString) : PoolCall → Bool
  | .nextKey name => name = providerName
  | _ => false

/-- Not a reload. -/
def PoolCall.isCall : PoolCall → Bool
  | .reload _ => false
  | _ => true

/-- Keys in turn, from the `i`-th turn on. -/
def inTurn (keys : List GoString) (i turns : Nat) : List (Nat × GoString) :=
  (List.range' i turns).filterMap fun j =>
    (keys[j % keys.length]?).map fun key => (j % keys.length, key)

/-- The provider's keys are handed out in turn, one for each call, and in any run of calls
two positions are used equally often, up to one. -/
structure RoundRobin (keys : List GoString) (turns : Nat) (handed : List (Nat × GoString)) :
    Prop where
  inTurn_eq : handed = inTurn keys 0 turns
  length_eq : keys ≠ [] → handed.length = turns
  fair : ∀ run, run <:+: handed → ∀ p < keys.length, ∀ q < keys.length,
    (run.map Prod.fst).count p ≤ (run.map Prod.fst).count q + 1

/-! ### One call -/

variable {providerName : GoString} {s : Pool} {c : PoolCall}

/-- A call that is not for the provider leaves its keys and its index alone. -/
theorem call_of_not_asksFor (hcall : c.isCall = true) (hnot : c.asksFor providerName = false) :
    s.served providerName c = [] ∧
      (s.call c).providerKeys providerName = s.providerKeys providerName ∧
      (s.call c).keyIndex providerName = s.keyIndex providerName := by
  cases c with
  | nextKey name =>
    have hname : name ≠ providerName := of_decide_eq_false hnot
    refine ⟨if_neg hname, ?_, ?_⟩
    · rw [Pool.call, Pool.nextKey]
      split <;> rfl
    · rw [Pool.call, Pool.nextKey]
      split
      · rfl
      · exact Function.update_of_ne hname.symm _ _
  | firstKey name => exact ⟨rfl, rfl, rfl⟩
  | reload keys => cases hcall

/-- A call for a provider that has no keys fails and changes nothing. -/
theorem call_of_no_keys (hkeys : s.providerKeys providerName = []) :
    s.served providerName (.nextKey providerName) = [] ∧ s.call (.nextKey providerName) = s := by
  have hfails : s.nextKey providerName = (.error (noKeys providerName), s) := by
    rw [Pool.nextKey]
    simp only [hkeys, List.getElem?_nil]
  exact ⟨by rw [Pool.served, if_pos rfl, hfails], by rw [Pool.call, hfails]⟩

/-- A call for a provider with keys takes the next position. -/
theorem call_of_keys (hkeys : s.providerKeys providerName ≠ [])
    (hindex : s.keyIndex providerName + 1 < uint64Size) :
    s.served providerName (.nextKey providerName) =
        inTurn (s.providerKeys providerName) (s.keyIndex providerName) 1 ∧
      (s.call (.nextKey providerName)).providerKeys providerName = s.providerKeys providerName ∧
      (s.call (.nextKey providerName)).keyIndex providerName = s.keyIndex providerName + 1 := by
  have hlt : s.position providerName < (s.providerKeys providerName).length :=
    Nat.mod_lt _ (List.length_pos_iff.mpr hkeys)
  have hkey := List.getElem?_eq_getElem hlt
  have hnext : s.nextKey providerName =
      (.ok (s.providerKeys providerName)[s.position providerName],
        { s with
          keyIndex := Function.update s.keyIndex providerName (s.keyIndex providerName + 1) }) := by
    rw [Pool.nextKey]
    rw [← Pool.position, hkey, Nat.mod_eq_of_lt hindex]
  refine ⟨?_, ?_, ?_⟩
  · rw [Pool.served, if_pos rfl, hnext]
    simp only [inTurn, List.range'_one, List.filterMap_cons, List.filterMap_nil]
    rw [← Pool.position, hkey]
    rfl
  · rw [Pool.call, hnext]
  · rw [Pool.call, hnext]
    exact Function.update_self ..

/-! ### Runs -/

theorem inTurn_nil (i turns : Nat) : inTurn [] i turns = [] := by
  simp [inTurn]

theorem inTurn_succ (keys : List GoString) (i turns : Nat) :
    inTurn keys i (turns + 1) = inTurn keys i 1 ++ inTurn keys (i + 1) turns := by
  rw [inTurn, inTurn, inTurn, ← List.filterMap_append, List.range'_succ]
  rfl

/-- **The run lemma**: what is handed out are the keys in turn, from the index on. -/
theorem handedOut_eq_inTurn {calls : List PoolCall} (hcalls : ∀ c ∈ calls, c.isCall = true)
    (hindex : s.keyIndex providerName + calls.countP (PoolCall.asksFor providerName) < uint64Size) :
    handedOut providerName s calls =
      inTurn (s.providerKeys providerName) (s.keyIndex providerName)
        (calls.countP (PoolCall.asksFor providerName)) := by
  induction calls generalizing s with
  | nil => rfl
  | cons c calls ih =>
    obtain ⟨hc, hrest⟩ := List.forall_mem_cons.mp hcalls
    rw [handedOut]
    cases hasks : c.asksFor providerName with
    | false =>
      rw [List.countP_cons_of_neg (by simp [hasks])] at hindex ⊢
      obtain ⟨hserved, hkeys, hsame⟩ := call_of_not_asksFor (s := s) hc hasks
      rw [hserved, List.nil_append, ih hrest (by rw [hsame]; exact hindex), hkeys, hsame]
    | true =>
      rw [List.countP_cons_of_pos hasks] at hindex ⊢
      obtain rfl : c = .nextKey providerName := by
        cases c with
        | nextKey name => rw [of_decide_eq_true hasks]
        | firstKey name => cases hasks
        | reload keys => cases hasks
      by_cases hkeys : s.providerKeys providerName = []
      · obtain ⟨hserved, hsame⟩ := call_of_no_keys hkeys
        rw [hserved, hsame, List.nil_append, ih hrest (by omega), hkeys, inTurn_nil, inTurn_nil]
      · obtain ⟨hserved, hsame, hnext⟩ := call_of_keys hkeys (by omega)
        rw [hserved, ih hrest (by rw [hnext]; omega), hsame, hnext, ← inTurn_succ]

/-- The positions of keys in turn are positions in turn. -/
theorem inTurn_positions {keys : List GoString} (hkeys : keys ≠ []) (i turns : Nat) :
    (inTurn keys i turns).map Prod.fst = Cyclic.window keys.length i turns := by
  have hkey : ∀ j, ∃ key, keys[j % keys.length]? = some key := fun j =>
    ⟨_, List.getElem?_eq_getElem (Nat.mod_lt j (List.length_pos_iff.mpr hkeys))⟩
  rw [inTurn, Cyclic.window, List.map_filterMap, ← List.filterMap_eq_map]
  refine List.filterMap_congr fun j _ => ?_
  obtain ⟨key, hkey⟩ := hkey j
  rw [hkey]
  rfl

theorem inTurn_roundRobin (keys : List GoString) (turns : Nat) :
    RoundRobin keys turns (inTurn keys 0 turns) := by
  refine ⟨rfl, fun hkeys => ?_, ?_⟩
  · have hlength := congrArg List.length (inTurn_positions hkeys 0 turns)
    simpa [Cyclic.window] using hlength
  · intro run hrun p hp q hq
    have hkeys : keys ≠ [] := List.length_pos_iff.mp (Nat.zero_lt_of_lt hp)
    have hwindow := hrun.map Prod.fst
    rw [inTurn_positions hkeys] at hwindow
    obtain ⟨a, w, heq⟩ := Cyclic.eq_window_of_infix hwindow
    rw [heq]
    exact Cyclic.count_le hp hq

variable (providerName) in
/-- **Keys are handed out in turn** from each reload on, whatever was called before it and
whoever else calls. -/
theorem handedOut_roundRobin (s : Pool) (before : List PoolCall)
    (keys : GoString → List GoString) (calls : List PoolCall)
    (hcalls : ∀ c ∈ calls, c.isCall = true)
    (hfew : calls.countP (PoolCall.asksFor providerName) < uint64Size) :
    RoundRobin (keys providerName) (calls.countP (PoolCall.asksFor providerName))
      (handedOut providerName ((before.foldl Pool.call s).call (.reload keys)) calls) := by
  have hindex : ((before.foldl Pool.call s).call (.reload keys)).keyIndex providerName = 0 := rfl
  rw [handedOut_eq_inTurn hcalls (by rw [hindex, Nat.zero_add]; exact hfew)]
  exact inTurn_roundRobin _ _

/-- Two providers. -/
def threeKeys (providerName : GoString) : List GoString :=
  if providerName = lit "openai" then [lit "k1", lit "k2"] else [lit "k3"]

/-- Calls for both. -/
def mixedCalls : List PoolCall :=
  [.nextKey (lit "openai"), .firstKey (lit "openai"), .nextKey (lit "google"),
    .nextKey (lit "openai"), .nextKey (lit "openai")]

theorem handedOut_roundRobin_mixedCalls :
    RoundRobin (threeKeys (lit "openai")) (mixedCalls.countP (PoolCall.asksFor (lit "openai")))
      (handedOut (lit "openai") ((List.foldl Pool.call newService []).call (.reload threeKeys))
        mixedCalls) :=
  handedOut_roundRobin (lit "openai") newService [] threeKeys mixedCalls (by decide) (by decide)

end UniLLM.Catalog
