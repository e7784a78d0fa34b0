import UniLLM.Catalog.DisabledProviders
import UniLLM.Catalog.Encryption

/-!
# Which strings are handed out as keys

Rows are stored under the `ENCRYPTION_KEY` of the server that inserts them, and read under
that of a later one, which may be another, none, or no key at all.  A value that does not
decrypt is taken for a key that is stored as it is, so the pool cannot tell a ciphertext it
has no key for from a key.

Admins add providers and keys, reloads list and install, any of their queries may fail, and
the server restarts with any setting.  What is handed out for a provider is a value that an
admin entered for it, or comes from one that was stored under another key.
-/

namespace UniLLM.Catalog
open Go Transition

namespace KeyHistory

/-- A value that an admin enters, and the `ENCRYPTION_KEY` of the server at that time. -/
structure Submission where
  input : KeyInput
  random : GoString
  encryptionKey : GoString

structure State where
  db : Database
  /-- The server's `ENCRYPTION_KEY`: any text, and empty if it is not set. -/
  encryptionKey : GoString
  pool : Pool
  additions : List Request
  submissions : List Submission

inductive Action where
  /-- With the id that the database draws. -/
  | createProvider (id : Int) (name baseURL : GoString)
  | toggleProvider (id : Int) (isActive : Bool)
  | addProviderKey (input : KeyInput) (random : GoString)
  /-- Request `i` of `AddProviderKey` takes its next step. -/
  | advance (i : Nat)
  /-- The next query of request `i` fails. -/
  | fail (i : Nat)
  | nextKey (providerName : GoString)
  | restart (encryptionKey : GoString)

/-- A request whose next query fails. -/
def failed : Request → Option Request
  -- the handler answers 500
  | .start _ _ => some .returned
  -- the pool stays as it is
  | .inserted => some .returned
  -- the provider is skipped
  | .listing (_ :: todo) keys => some (.listing todo keys)
  | .listing [] _ => none
  | .returned => none

variable (gcm : GCM)

def step (s : State) : Action → Option State
  | .createProvider id name baseURL =>
    if name = [] ∨ baseURL = [] ∨
      (s.db.providers.any fun p => p.id = id ∨ p.name = name) = true then
      none
    else
      some { s with
        db := { s.db with providers := s.db.providers ++ [⟨id, name, baseURL, true⟩] } }
  | .toggleProvider id isActive =>
    if id = 0 then none else some { s with db := s.db.setActive id isActive }
  | .addProviderKey input random =>
    some { s with
      additions := s.additions ++ [.start input random]
      submissions := s.submissions ++ [⟨input, random, s.encryptionKey⟩] }
  | .advance i =>
    (s.additions[i]?).bind fun r =>
      (Catalog.advance (newKeyProtector gcm s.encryptionKey) s.db s.pool r).map fun next =>
        { s with db := next.1, pool := next.2.1, additions := s.additions.set i next.2.2 }
  | .fail i =>
    (s.additions[i]?).bind fun r => (failed r).map fun r' =>
      { s with additions := s.additions.set i r' }
  | .nextKey providerName => some { s with pool := (s.pool.nextKey providerName).2 }
  -- the reload of the start is what is left of a request that has inserted its key
  | .restart encryptionKey =>
    some { s with encryptionKey := encryptionKey, pool := newService, additions := [.inserted] }

/-- An empty database. -/
def start (encryptionKey : GoString) : State :=
  ⟨⟨[], [], []⟩, encryptionKey, newService, [], []⟩

/-- The string was entered for the provider, or comes from what was: from a value that was
stored under another key than the server's, it is the stored text, or what that is a
ciphertext of under the server's key. -/
def Entered (s : State) (providerName key : GoString) : Prop :=
  ∃ sub ∈ s.submissions, ∃ q ∈ s.db.known, q.id = sub.input.providerID ∧ q.name = providerName ∧
    ∃ stored, (newKeyProtector gcm sub.encryptionKey).encrypt sub.random sub.input.keyValue =
        some stored ∧
      (key = sub.input.keyValue ∨
        keyBytes sub.encryptionKey ≠ keyBytes s.encryptionKey ∧
          (key = stored ∨ IsCiphertext gcm s.encryptionKey stored key))

/-! ### Where keys come from -/

/-- The key is what the server reads of a value that was entered for the provider. -/
def Read (s : State) (providerName key : GoString) : Prop :=
  ∃ sub ∈ s.submissions, ∃ q ∈ s.db.known, q.id = sub.input.providerID ∧ q.name = providerName ∧
    ∃ stored, (newKeyProtector gcm sub.encryptionKey).encrypt sub.random sub.input.keyValue =
        some stored ∧
      key = (newKeyProtector gcm s.encryptionKey).decrypt stored

/-- The row is what became of a submission. -/
def Stored (s : State) (k : ProviderKey) : Prop :=
  ∃ sub ∈ s.submissions, k.providerID = sub.input.providerID ∧
    (newKeyProtector gcm sub.encryptionKey).encrypt sub.random sub.input.keyValue = some k.keyValue

/-- What a request works with. -/
def Sound (s : State) : Request → Prop
  | .start input random => ⟨input, random, s.encryptionKey⟩ ∈ s.submissions
  | .listing todo keys =>
    (∀ q ∈ todo, q ∈ s.db.known) ∧ ∀ providerName, ∀ key ∈ keys providerName, Read gcm s providerName key
  | _ => True

/-- The invariant. -/
structure Inv (s : State) : Prop where
  rows : ∀ k ∈ s.db.keys, Stored gcm s k
  additions : ∀ r ∈ s.additions, Sound gcm s r
  pool : ∀ providerName, ∀ key ∈ s.pool.providerKeys providerName, Read gcm s providerName key

variable {gcm} {s s' : State}

theorem inv_start (encryptionKey : GoString) : Inv gcm (start encryptionKey) where
  rows := fun _ h => by cases h
  additions := fun _ h => by cases h
  pool := fun _ _ h => by cases h

theorem Read.entered {providerName key : GoString} (h : Read gcm s providerName key) :
    Entered gcm s providerName key := by
  obtain ⟨sub, hsub, q, hq, hid, hname, stored, hstored, rfl⟩ := h
  exact ⟨sub, hsub, q, hq, hid, hname, stored, hstored, protector_decrypt_encrypt hstored⟩

/-- Submissions and providers are only added, and the key stays. -/
structure Grows (s s' : State) : Prop where
  submissions : ∀ sub ∈ s.submissions, sub ∈ s'.submissions
  known : ∀ q ∈ s.db.known, q ∈ s'.db.known
  encryptionKey : s'.encryptionKey = s.encryptionKey

theorem Read.mono {providerName key : GoString} (h : Read gcm s providerName key)
    (hgrows : Grows s s') : Read gcm s' providerName key := by
  obtain ⟨sub, hsub, q, hq, hid, hname, stored, hstored, hkey⟩ := h
  exact ⟨sub, hgrows.submissions sub hsub, q, hgrows.known q hq, hid, hname, stored, hstored,
    by rw [hgrows.encryptionKey]; exact hkey⟩

theorem Stored.mono {k : ProviderKey} (h : Stored gcm s k)
    (hsub : ∀ sub ∈ s.submissions, sub ∈ s'.submissions) : Stored gcm s' k := by
  obtain ⟨sub, hmem, hid, hstored⟩ := h
  exact ⟨sub, hsub sub hmem, hid, hstored⟩

theorem Sound.mono {r : Request} (h : Sound gcm s r) (hgrows : Grows s s') : Sound gcm s' r := by
  cases r with
  | start input random =>
    unfold Sound at h ⊢
    rw [hgrows.encryptionKey]
    exact hgrows.submissions _ h
  | listing todo keys =>
    exact ⟨fun q hq => hgrows.known q (h.1 q hq), fun name key hkey => (h.2 name key hkey).mono hgrows⟩
  | inserted => trivial
  | returned => trivial

/-- What is listed for a known provider is read. -/
theorem read_of_mem_listActiveKeys (hrows : ∀ k ∈ s.db.keys, Stored gcm s k) {q : Provider}
    (hq : q ∈ s.db.known) {key : GoString}
    (h : key ∈ listActiveKeys (newKeyProtector gcm s.encryptionKey) s.db q.id) :
    Read gcm s q.name key := by
  obtain ⟨k, hk, rfl⟩ := List.mem_map.mp h
  obtain ⟨hmem, hactive⟩ := List.mem_filter.mp hk
  obtain ⟨sub, hsub, hid, hstored⟩ := hrows k hmem
  have hprovider : k.providerID = q.id := by
    simp only [Bool.and_eq_true, beq_iff_eq] at hactive
    exact hactive.1
  exact ⟨sub, hsub, q, hq, hprovider.symm.trans hid, rfl, k.keyValue, hstored, rfl⟩

/-! ### One step -/

/-- A step that touches neither rows nor pool. -/
theorem Inv.of_grows (h : Inv gcm s) (hgrows : Grows s s') (hkeys : s'.db.keys = s.db.keys)
    (hpool : s'.pool.providerKeys = s.pool.providerKeys)
    (hadditions : ∀ r ∈ s'.additions, r ∈ s.additions ∨ Sound gcm s' r) : Inv gcm s' where
  rows := fun k hk => (h.rows k (hkeys ▸ hk)).mono hgrows.submissions
  additions := fun r hr => (hadditions r hr).elim (fun hold => (h.additions r hold).mono hgrows) id
  pool := fun name key hkey => by
    rw [hpool] at hkey
    exact (h.pool name key hkey).mono hgrows

theorem Grows.refl_of (hsub : s'.submissions = s.submissions) (hdb : s'.db.known = s.db.known)
    (hkey : s'.encryptionKey = s.encryptionKey) : Grows s s' :=
  ⟨fun _ h => hsub ▸ h, fun _ h => hdb ▸ h, hkey⟩

theorem inv_advance {i : Nat} {r : Request} {next : Database × Pool × Request} (h : Inv gcm s)
    (hr : s.additions[i]? = some r)
    (hnext : Catalog.advance (newKeyProtector gcm s.encryptionKey) s.db s.pool r = some next) :
    Inv gcm { s with db := next.1, pool := next.2.1, additions := s.additions.set i next.2.2 } := by
  have hsound := h.additions r (List.mem_of_getElem? hr)
  have hadditions : ∀ r' ∈ s.additions.set i next.2.2, r' ∈ s.additions ∨ r' = next.2.2 :=
    fun r' hr' => List.mem_or_eq_of_mem_set hr'
  rcases advance_cases hnext with ⟨input, random, rfl, -, rfl⟩ | ⟨input, random, stored, rfl, henc, rfl⟩ |
    ⟨rfl, rfl⟩ | ⟨keys, rfl, rfl⟩ | ⟨q, todo, keys, rfl, rfl⟩
  · refine h.of_grows (.refl_of rfl rfl rfl) rfl rfl fun r' hr' => (hadditions r' hr').imp_right ?_
    rintro rfl
    trivial
  · -- the row is inserted
    have hgrows : Grows s { s with
        db := { s.db with keys := s.db.keys ++ [⟨input.providerID, stored, true⟩] }
        additions := s.additions.set i .inserted } := .refl_of rfl rfl rfl
    refine ⟨fun k hk => ?_, fun r' hr' => ?_, fun name key hkey => (h.pool name key hkey).mono hgrows⟩
    · rcases List.mem_append.mp hk with hold | hnew
      · exact (h.rows k hold).mono hgrows.submissions
      · obtain rfl := List.mem_singleton.mp hnew
        exact ⟨_, hsound, rfl, henc⟩
    · rcases hadditions r' hr' with hold | rfl
      · exact (h.additions r' hold).mono hgrows
      · trivial
  · refine h.of_grows (.refl_of rfl rfl rfl) rfl rfl fun r' hr' => (hadditions r' hr').imp_right ?_
    rintro rfl
    exact ⟨fun q hq => mem_known_of_active hq, fun _ _ hkey => by cases hkey⟩
  · -- what was collected is installed
    have hgrows : Grows s { s with
        pool := install keys
        additions := s.additions.set i .returned } := .refl_of rfl rfl rfl
    refine ⟨h.rows, fun r' hr' => ?_, fun name key hkey => (hsound.2 name key hkey).mono hgrows⟩
    rcases hadditions r' hr' with hold | rfl
    · exact (h.additions r' hold).mono hgrows
    · trivial
  · refine h.of_grows (.refl_of rfl rfl rfl) rfl rfl fun r' hr' => (hadditions r' hr').imp_right ?_
    rintro rfl
    refine ⟨fun q' hq' => hsound.1 q' (List.mem_cons_of_mem _ hq'), fun name key hkey => ?_⟩
    rcases mem_collectKeys.mp hkey with hold | ⟨rfl, hlisted⟩
    · exact hsound.2 name key hold
    · exact read_of_mem_listActiveKeys h.rows (hsound.1 q List.mem_cons_self) hlisted

theorem inv_fail {i : Nat} {r r' : Request} (h : Inv gcm s) (hr : s.additions[i]? = some r)
    (hfailed : failed r = some r') : Inv gcm { s with additions := s.additions.set i r' } := by
  have hsound := h.additions r (List.mem_of_getElem? hr)
  refine h.of_grows (.refl_of rfl rfl rfl) rfl rfl fun r₁ hr₁ =>
    (List.mem_or_eq_of_mem_set hr₁).imp_right ?_
  rintro rfl
  unfold failed at hfailed
  split at hfailed
  · cases hfailed
    trivial
  · cases hfailed
    trivial
  · cases hfailed
    exact ⟨fun q hq => hsound.1 q (List.mem_cons_of_mem _ hq), hsound.2⟩
  · cases hfailed
  · cases hfailed

/-- **One step.** -/
theorem step_inv {a : Action} (h : Inv gcm s) (hstep : step gcm s a = some s') : Inv gcm s' := by
  cases a with
  | createProvider id name baseURL =>
    simp only [step] at hstep
    split at hstep
    · cases hstep
    · obtain rfl := Option.some.inj hstep
      refine h.of_grows ⟨fun _ hsub => hsub, fun q hq => ?_, rfl⟩ rfl rfl fun r hr => .inl hr
      simp only [Database.known, List.map_append]
      exact List.mem_append_left _ hq
  | toggleProvider id isActive =>
    simp only [step] at hstep
    split at hstep
    · cases hstep
    · obtain rfl := Option.some.inj hstep
      exact h.of_grows (.refl_of rfl (known_setActive s.db id isActive) rfl) rfl rfl fun r hr => .inl hr
  | addProviderKey input random =>
    obtain rfl := Option.some.inj hstep
    refine h.of_grows ⟨fun _ hsub => List.mem_append_left _ hsub, fun _ hq => hq, rfl⟩ rfl rfl
      fun r hr => ?_
    rcases List.mem_append.mp hr with hold | hnew
    · exact .inl hold
    · obtain rfl := List.mem_singleton.mp hnew
      exact .inr (List.mem_append_right _ (List.mem_singleton_self _))
  | advance i =>
    obtain ⟨r, hr, hstep⟩ := Option.bind_eq_some_iff.mp hstep
    obtain ⟨next, hnext, rfl⟩ := Option.map_eq_some_iff.mp hstep
    exact inv_advance h hr hnext
  | fail i =>
    obtain ⟨r, hr, hstep⟩ := Option.bind_eq_some_iff.mp hstep
    obtain ⟨r', hfailed, rfl⟩ := Option.map_eq_some_iff.mp hstep
    exact inv_fail h hr hfailed
  | nextKey providerName =>
    obtain rfl := Option.some.inj hstep
    exact h.of_grows (.refl_of rfl rfl rfl) rfl (nextKey_providerKeys s.pool providerName)
      fun r hr => .inl hr
  | restart encryptionKey =>
    -- the rows stay, and the pool is empty
    obtain rfl := Option.some.inj hstep
    refine ⟨fun k hk => (h.rows k hk).mono fun _ hsub => hsub, fun r hr => ?_, fun _ _ hkey => by cases hkey⟩
    obtain rfl := List.mem_singleton.mp hr
    trivial

/-! ### Whole runs -/

/-- **The run lemma.** -/
theorem exec_inv {encryptionKey : GoString} {as : List Action}
    (hexec : exec (step gcm) (start encryptionKey) as = some s) : Inv gcm s :=
  Reachable.invariant (fun _ _ _ h hstep => step_inv h hstep) (inv_start encryptionKey) ⟨as, hexec⟩

/-- What is handed out is in the pool. -/
theorem mem_of_handedOut {pool : Pool} {providerName key : GoString}
    (h : (pool.nextKey providerName).1 = .ok key ∨ pool.firstKey providerName = .ok key) :
    key ∈ pool.providerKeys providerName := by
  rcases h with hnext | hfirst
  · exact (Pool.nextKey_mem (Prod.ext hnext rfl)).1
  · unfold Pool.firstKey at hfirst
    cases hkeys : pool.providerKeys providerName with
    | nil =>
      rw [hkeys] at hfirst
      cases hfirst
    | cons first rest =>
      rw [hkeys] at hfirst
      rw [← Except.ok.inj hfirst]
      exact List.mem_cons_self

/-- AES-256-GCM on `sk-1`, with a key and a nonce of zeros. -/
def zeroGCM : GCM where
  keystream := fun _ _ n => (([0xCE, 0xA7, 0x40, 0x3D] : GoString) ++ List.replicate n 0).take n
  length_keystream := fun _ _ n => by
    simp
    omega
  tag := fun _ _ _ => [0x0B, 0x3F, 0x53, 0xBF, 0xAB, 0x81, 0xBF, 0x83, 0x63, 0x5D, 0x23, 0x84, 0xAB,
    0x91, 0xCD, 0xD5]
  length_tag := fun _ _ _ => rfl

/-- A key of zeros as an `ENCRYPTION_KEY`. -/
def zeroKey : GoString := List.replicate 64 0x30

theorem lit_ne_nil : lit "sk-1" ≠ [] := by decide

/-- An admin adds a provider and its key. -/
def oneKey : List Action :=
  .createProvider 1 (lit "openai") (lit "https://api.openai.com/v1") ::
    .addProviderKey ⟨1, lit "sk-1", Int.one_ne_zero, lit_ne_nil⟩ (List.replicate 12 0) ::
    List.replicate 4 (.advance 0)

/-- The server restarts with a setting, and reloads. -/
def restarted (encryptionKey : GoString) : List Action :=
  .restart encryptionKey :: List.replicate 3 (.advance 0)

/-- The setting is removed, and the ciphertext is handed out. -/
theorem nextKey_not_submitted :
    ∃ s key, exec (step zeroGCM) (start zeroKey) (oneKey ++ restarted []) = some s ∧
      (s.pool.nextKey (lit "openai")).1 = .ok key ∧
        ∀ sub ∈ s.submissions, key ≠ sub.input.keyValue := by
  have hruns : (exec (step zeroGCM) (start zeroKey) (oneKey ++ restarted [])).any (fun s =>
      (s.pool.nextKey (lit "openai")).1.toOption.any fun key =>
        decide (∀ sub ∈ s.submissions, key ≠ sub.input.keyValue)) = true := by
    decide +kernel
  obtain ⟨s, hs, hwrong⟩ := (Option.any_eq_true _ _).mp hruns
  obtain ⟨key, hkey, hne⟩ := (Option.any_eq_true _ _).mp hwrong
  refine ⟨s, key, hs, ?_, of_decide_eq_true hne⟩
  cases hnext : (s.pool.nextKey (lit "openai")).1 with
  | error e =>
    rw [hnext] at hkey
    cases hkey
  | ok key' =>
    rw [hnext] at hkey
    rw [Option.some.inj hkey]

/-- **What is handed out was entered**: a string that `NextKey` or `FirstKey` returns for a
provider is a value an admin entered for it, or comes from one that was stored under
another key than the server's. -/
theorem entered_of_handedOut {encryptionKey : GoString} {as : List Action}
    (hexec : exec (step gcm) (start encryptionKey) as = some s) {providerName key : GoString}
    (hkey : (s.pool.nextKey providerName).1 = .ok key ∨ s.pool.firstKey providerName = .ok key) :
    Entered gcm s providerName key :=
  ((exec_inv hexec).pool providerName key (mem_of_handedOut hkey)).entered

theorem entered_of_handedOut_sameKey :
    ∃ s, exec (step zeroGCM) (start zeroKey) (oneKey ++ restarted zeroKey) = some s ∧
      Entered zeroGCM s (lit "openai") (lit "sk-1") := by
  have hruns : (exec (step zeroGCM) (start zeroKey) (oneKey ++ restarted zeroKey)).any
      (fun s => decide (s.pool.firstKey (lit "openai") = .ok (lit "sk-1"))) = true := by
    decide +kernel
  obtain ⟨s, hs, hkey⟩ := (Option.any_eq_true _ _).mp hruns
  exact ⟨s, hs, entered_of_handedOut hs (.inr (of_decide_eq_true hkey))⟩

end KeyHistory
end UniLLM.Catalog
