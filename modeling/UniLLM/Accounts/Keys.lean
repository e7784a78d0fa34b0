import UniLLM.Accounts.Sessions

/-!
# The life of an API key

A key is shown once, to the user who creates it; the table keeps its hash.  Later a request
that carries the key acts for that user, until the user deletes the key.  Deletions by others
change nothing, although they are answered in the same way.

`GivenOut` says this of the log of a run, without the table.
-/

namespace UniLLM.Accounts
open Go Transition Middleware
open Middleware.Gates (ErrorReply Context)

variable (svc : AuthService)

/-- The user a request of the dashboard acts for. -/
def caller : Action → Option Int
  | .dashboard authorization now _ =>
    ((jwtAuth svc.issuer authorization now).toOption).map fun claims => claims.userID
  | _ => none

/-- The key a request asks to delete. -/
def deletedID : Action → Option Int
  | .dashboard _ _ (.deleteKey (.ok id) _) => some id
  | _ => none

/-- The request was answered with a new key of its caller. -/
def Creates (e : Action × Answer) (raw : GoString) (userID id : Int) : Prop :=
  ∃ key : KeyInfo, e.2 = .createdKey raw key ∧ key.id = id ∧ key.userID = userID ∧
    caller svc e.1 = some userID

/-- The request of the user to delete the key went well. -/
def Deletes (e : Action × Answer) (userID id : Int) : Prop :=
  e.2 = .deleted ∧ caller svc e.1 = some userID ∧ deletedID e.1 = some id

/-- The key was created for the user, who has not deleted it since. -/
def GivenOut (l : Log) (raw : GoString) (userID id : Int) : Prop :=
  ∃ before e after, l = before ++ e :: after ∧ Creates svc e raw userID id ∧
    ∀ d ∈ after, ¬ Deletes svc d userID id

variable {svc} {s s' : State} {a : Action} {o : Answer} {l : Log}

theorem caller_eq {authorization : GoString} {now : Int} {claims : Claims} {call : Call}
    (htoken : jwtAuth svc.issuer authorization now = .ok claims) :
    caller svc (.dashboard authorization now call) = some claims.userID := by
  rw [caller, htoken]
  rfl

/-! ### Whole runs -/

theorem givenOut_nil {raw : GoString} {userID id : Int} : ¬ GivenOut svc [] raw userID id := by
  rintro ⟨before, e, after, h, -⟩
  simp at h

/-- One more request: it creates the key, or the key was given out before and it does not
delete it. -/
theorem givenOut_concat {e : Action × Answer} {raw : GoString} {userID id : Int} :
    GivenOut svc (l ++ [e]) raw userID id ↔
      Creates svc e raw userID id ∨ GivenOut svc l raw userID id ∧ ¬ Deletes svc e userID id := by
  constructor
  · rintro ⟨before, c, after, h, hcreates, hkept⟩
    obtain ⟨rfl, rfl, rfl⟩ | ⟨after, rfl, rfl⟩ := split_concat h
    · exact .inl hcreates
    · refine .inr ⟨⟨before, c, after, rfl, hcreates, fun d hd => ?_⟩, hkept e (by simp)⟩
      exact hkept d (List.mem_append_left _ hd)
  · rintro (hcreates | ⟨⟨before, c, after, rfl, hcreates, hkept⟩, hlast⟩)
    · exact ⟨l, e, [], rfl, hcreates, fun d hd => by cases hd⟩
    · refine ⟨before, c, after ++ [e], by simp, hcreates, fun d hd => ?_⟩
      obtain hd | hd := List.mem_append.mp hd
      · exact hkept d hd
      · rwa [List.mem_singleton.mp hd]

/-- The active rows with a hash are the keys that are given out. -/
structure KeysInv (svc : AuthService) (s : State) (l : Log) : Prop where
  ids : (s.apiKeys.map fun k => k.id).Nodup
  hashes : (s.apiKeys.map fun k => k.keyHash).Nodup
  active : ∀ hash userID id,
    (∃ k ∈ s.apiKeys, k.keyHash = hash ∧ k.isActive = true ∧ k.userID = userID ∧ k.id = id) ↔
      ∃ raw, svc.hashAPIKey raw = hash ∧ GivenOut svc l raw userID id

theorem keysInv_start (seeds : List Account) : KeysInv svc (start seeds) [] where
  ids := List.nodup_nil
  hashes := List.nodup_nil
  active := fun hash userID id => by simp [start, givenOut_nil]

/-- A change of the rows that keeps what is looked up. -/
theorem KeysInv.of_map (h : KeysInv svc s l) {f : APIKey → APIKey} {e : Action × Answer}
    (hid : ∀ k, (f k).id = k.id) (huser : ∀ k, (f k).userID = k.userID)
    (hhash : ∀ k, (f k).keyHash = k.keyHash)
    (hactive : ∀ k, (f k).isActive = true ↔ k.isActive = true ∧ ¬ Deletes svc e k.userID k.id)
    (hcreates : ∀ raw userID id, ¬ Creates svc e raw userID id)
    (hkeys : s'.apiKeys = s.apiKeys.map f) : KeysInv svc s' (l ++ [e]) where
  ids := by
    have hsame : (fun k : APIKey => k.id) ∘ f = fun k => k.id := funext hid
    rw [hkeys, List.map_map, hsame]
    exact h.ids
  hashes := by
    have hsame : (fun k : APIKey => k.keyHash) ∘ f = fun k => k.keyHash := funext hhash
    rw [hkeys, List.map_map, hsame]
    exact h.hashes
  active := by
    intro hash userID id
    have hbefore := h.active hash userID id
    simp only [givenOut_concat, hcreates, false_or]
    rw [hkeys]
    constructor
    · rintro ⟨k', hk', hh, ha, hu, hi⟩
      obtain ⟨k, hk, rfl⟩ := List.mem_map.mp hk'
      rw [hhash] at hh
      rw [huser] at hu
      rw [hid] at hi
      obtain ⟨hact, hnot⟩ := (hactive k).mp ha
      obtain ⟨raw, hraw, hgiven⟩ := hbefore.mp ⟨k, hk, hh, hact, hu, hi⟩
      exact ⟨raw, hraw, hgiven, by rwa [← hu, ← hi]⟩
    · rintro ⟨raw, hraw, hgiven, hnot⟩
      obtain ⟨k, hk, hh, ha, rfl, rfl⟩ := hbefore.mpr ⟨raw, hraw, hgiven⟩
      exact ⟨f k, List.mem_map_of_mem hk, by rw [hhash, hh], (hactive k).mpr ⟨ha, hnot⟩, huser k,
        hid k⟩

/-- The answer to a request that neither creates nor deletes a key. -/
def Answer.LeavesKeys (o : Answer) : Prop := (∀ raw key, o ≠ .createdKey raw key) ∧ o ≠ .deleted

theorem leavesKeys_of_quiet {o : Answer} (h : o.quiet = true) : o.LeavesKeys := by
  constructor
  · rintro raw key rfl
    cases h
  · rintro rfl
    cases h

theorem KeysInv.of_same (h : KeysInv svc s l) (ho : o.LeavesKeys) (hkeys : s'.apiKeys = s.apiKeys) :
    KeysInv svc s' (l ++ [(a, o)]) := by
  refine h.of_map (f := fun k => k) (fun _ => rfl) (fun _ => rfl) (fun _ => rfl) (fun k => ?_) ?_
    (by rw [hkeys, List.map_id'])
  · exact (and_iff_left fun hd => ho.2 hd.1).symm
  · rintro raw userID id ⟨key, hanswer, -⟩
    exact ho.1 raw key hanswer

/-- A new row, with an id and a hash of its own. -/
theorem KeysInv.of_append (h : KeysInv svc s l) {raw : GoString} {key : APIKey} {a : Action}
    (howner : caller svc a = some key.userID) (hhash : key.keyHash = svc.hashAPIKey raw)
    (hactive : key.isActive = true)
    (hnew : ∀ k ∈ s.apiKeys, k.id ≠ key.id ∧ k.keyHash ≠ key.keyHash)
    (hkeys : s'.apiKeys = s.apiKeys ++ [key]) :
    KeysInv svc s' (l ++ [(a, .createdKey raw key.toKeyInfo)]) where
  ids := by
    rw [hkeys, List.map_append, List.nodup_append]
    refine ⟨h.ids, List.nodup_singleton _, ?_⟩
    rintro _ hid _ hkey rfl
    obtain ⟨k, hk, hsame⟩ := List.mem_map.mp hid
    exact (hnew k hk).1 (hsame.trans (List.mem_singleton.mp hkey))
  hashes := by
    rw [hkeys, List.map_append, List.nodup_append]
    refine ⟨h.hashes, List.nodup_singleton _, ?_⟩
    rintro _ hid _ hkey rfl
    obtain ⟨k, hk, hsame⟩ := List.mem_map.mp hid
    exact (hnew k hk).2 (hsame.trans (List.mem_singleton.mp hkey))
  active := by
    intro hash userID id
    have hbefore := h.active hash userID id
    have hnot : ¬ Deletes svc (a, .createdKey raw key.toKeyInfo) userID id := by
      rintro ⟨hanswer, -⟩
      cases hanswer
    simp only [givenOut_concat, hnot, not_false_eq_true, and_true]
    rw [hkeys]
    constructor
    · rintro ⟨k, hk, rfl, ha, rfl, rfl⟩
      obtain hk | hk := List.mem_append.mp hk
      · obtain ⟨raw', hraw, hgiven⟩ := hbefore.mp ⟨k, hk, rfl, ha, rfl, rfl⟩
        exact ⟨raw', hraw, .inr hgiven⟩
      · obtain rfl := List.mem_singleton.mp hk
        exact ⟨raw, hhash.symm, .inl ⟨k.toKeyInfo, rfl, rfl, rfl, howner⟩⟩
    · rintro ⟨raw', hraw, ⟨info, hanswer, rfl, rfl, -⟩ | hgiven⟩
      · cases hanswer
        exact ⟨key, by simp, hhash.trans hraw, hactive, rfl, rfl⟩
      · obtain ⟨k, hk, hrow⟩ := hbefore.mpr ⟨raw', hraw, hgiven⟩
        exact ⟨k, List.mem_append_left _ hk, hrow⟩

theorem Deletes.unique {e : Action × Answer} {userID id userID' id' : Int}
    (h : Deletes svc e userID id) : Deletes svc e userID' id' ↔ id' = id ∧ userID' = userID := by
  obtain ⟨hanswer, hcaller, hid⟩ := h
  simp only [Deletes, hanswer, hcaller, hid, Option.some.injEq, true_and]
  exact ⟨fun h => ⟨h.2.symm, h.1.symm⟩, fun h => ⟨h.2.symm, h.1.symm⟩⟩

theorem KeysInv.step (h : KeysInv svc s l) (hserve : serve svc s a = some (s', o)) :
    KeysInv svc s' (l ++ [(a, o)]) := by
  cases serve_step hserve with
  | reads a o hquiet => exact h.of_same (leavesKeys_of_quiet hquiet) rfl
  | drops a n o hquiet _ => exact h.of_same (leavesKeys_of_quiet hquiet) rfl
  | changesBalance authorization now claims input found o hadmin hquiet =>
    exact h.of_same (leavesKeys_of_quiet hquiet) rfl
  | logsIn input u now hfound hpassword => exact h.of_same ⟨by simp, by simp⟩ rfl
  | registers n input db hfree => exact h.of_same ⟨by simp, by simp⟩ rfl
  | creates n salt id createdAt now input hash hpending hhash hnew =>
    exact h.of_same ⟨by simp, by simp⟩ rfl
  | asks authorization now claims n input u htoken hfree hfound hpassword =>
    exact h.of_same ⟨by simp, by simp⟩ rfl
  | writes n salt userID newPassword hash hpending hhash => exact h.of_same ⟨by simp, by simp⟩ rfl
  | createsKey authorization now claims input random id createdAt htoken hlength hnew =>
    exact h.of_append (caller_eq htoken) rfl rfl hnew rfl
  | deletesKey authorization now claims id htoken =>
    have hdeletes : Deletes svc (.dashboard authorization now (.deleteKey (.ok id) (.ok ())), .deleted)
        claims.userID id := ⟨rfl, caller_eq htoken, rfl⟩
    refine h.of_map (fun k => ?_) (fun k => ?_) (fun k => ?_) (fun k => ?_) ?_ rfl
    · split <;> rfl
    · split <;> rfl
    · split <;> rfl
    · rw [hdeletes.unique]
      split
      · rename_i hk
        simp [hk]
      · rename_i hk
        simp [hk]
    · rintro raw userID id' ⟨key, hanswer, -⟩
      cases hanswer
  | touches id now =>
    refine h.of_map (fun k => ?_) (fun k => ?_) (fun k => ?_) (fun k => ?_) ?_ rfl
    · split <;> rfl
    · split <;> rfl
    · split <;> rfl
    · have hnot : ¬ Deletes svc (.updateLastUsed id now, .background) k.userID k.id := fun hd => by
        cases hd.1
      rw [and_iff_left hnot]
      split <;> rfl
    · rintro raw userID id' ⟨key, hanswer, -⟩
      cases hanswer

theorem keysInv_of_exec {seeds : List Account} {as : List Action}
    (hexec : exec (stepOf (serve svc)) (start seeds) as = some s) :
    KeysInv svc s (log (serve svc) (start seeds) as) :=
  exec_log_invariant (fun _ _ _ _ _ h hserve => h.step hserve) (keysInv_start seeds) hexec

/-! ### Whom a key lets in -/

/-- A request gets through with the ids of the one active row that has the hash. -/
theorem apiKeyAuth_iff (h : KeysInv svc s l) {authorization : GoString} {userID id : Int} :
    (∃ c, s.apiKeyAuth svc authorization (.ok ()) = .ok c ∧ c.userID = some userID ∧
        c.apiKeyID = some id) ↔
      ∃ token, authorization = bearer token ∧
        ∃ k ∈ s.apiKeys, k.keyHash = svc.hashAPIKey token ∧ k.isActive = true ∧
          k.userID = userID ∧ k.id = id := by
  constructor
  · rintro ⟨c, hauth, huser, hid⟩
    obtain ⟨key, hbearer, hfind, rfl⟩ := Gates.apiKeyAuth_eq_ok hauth
    obtain ⟨token, rfl⟩ := hasPrefix_iff.mp hbearer
    obtain ⟨⟨rows, hrows, hmem⟩, hactive, hhash⟩ := Gates.findByHash_eq_ok hfind
    obtain rfl := Except.ok.inj hrows
    obtain ⟨k, hk, rfl⟩ := List.mem_map.mp hmem
    have htoken : trimPrefix (lit "Bearer " ++ token) (lit "Bearer ") = token := trimPrefix_bearer
    rw [htoken] at hhash
    exact ⟨token, rfl, k, hk, hhash, hactive, Option.some.inj huser, Option.some.inj hid⟩
  · rintro ⟨token, rfl, k, hk, hhash, hactive, rfl, rfl⟩
    have hfits : ∀ k' ∈ s.apiKeys, k'.keyHash = svc.hashAPIKey token → k' = k := fun k' hk' hsame =>
      List.inj_on_of_nodup_map h.hashes hk' hk (hsame.trans hhash.symm)
    have hfind : (s.apiKeys.map APIKey.gate).find? (fun r =>
        r.keyHash == svc.hashAPIKey token && r.isActive) = some k.gate := by
      rw [List.find?_map, Option.map_eq_some_iff]
      refine ⟨k, ?_, rfl⟩
      cases hfound : s.apiKeys.find? _ with
      | none =>
        have := List.find?_eq_none.mp hfound k hk
        simp [APIKey.gate, hhash, hactive] at this
      | some k' =>
        have hfit := List.find?_some hfound
        simp only [APIKey.gate, Function.comp_apply, Bool.and_eq_true, beq_iff_eq] at hfit
        rw [hfits k' (List.mem_of_find?_eq_some hfound) hfit.1]
    refine ⟨⟨bearer token, some k.userID, some k.id⟩, ?_, rfl, rfl⟩
    unfold State.apiKeyAuth Gates.apiKeyAuth Gates.resolveAPIKey Gates.findByHash
    rw [if_neg (by simp [bearer_ne_nil, hasPrefix_bearer]), trimPrefix_bearer]
    simp only [State.stores, Except.map, hfind]
    rfl

/-- **The life of a key.**  At the end of any run a request gets through as a user with a key
exactly if it carries a key that was created for this user under this id and that the user has
not deleted since, or a text with the same hash. -/
theorem apiKeyAuth_iff_givenOut {seeds : List Account} {as : List Action}
    (hexec : exec (stepOf (serve svc)) (start seeds) as = some s) (authorization : GoString)
    (userID id : Int) :
    (∃ c, s.apiKeyAuth svc authorization (.ok ()) = .ok c ∧ c.userID = some userID ∧
        c.apiKeyID = some id) ↔
      ∃ token raw, authorization = bearer token ∧ svc.hashAPIKey raw = svc.hashAPIKey token ∧
        GivenOut svc (log (serve svc) (start seeds) as) raw userID id := by
  have hinv := keysInv_of_exec hexec
  rw [apiKeyAuth_iff hinv]
  refine exists_congr fun token => ?_
  rw [hinv.active]
  simp only [exists_and_left]

/-- The random bytes of a key. -/
def random : GoString := List.replicate 32 0x2A

/-- The one user makes a key, and the other asks to delete it. -/
def othersDelete : List Action :=
  [.dashboard annToken 5 (.createKey (.ok ⟨lit "k", []⟩) random (.ok (10, 5))),
    .dashboard bobToken 6 (.deleteKey (.ok 10) (.ok ()))]

/-- The key still lets its owner in. -/
theorem apiKeyAuth_iff_givenOut_othersDelete :
    ∃ s, exec (stepOf (serve smallService)) (start twoUsers) othersDelete = some s ∧
      ∃ token raw, bearer (generateAPIKey random) = bearer token ∧
        smallService.hashAPIKey raw = smallService.hashAPIKey token ∧
        GivenOut smallService (log (serve smallService) (start twoUsers) othersDelete) raw 1 10 := by
  have hlets : (exec (stepOf (serve smallService)) (start twoUsers) othersDelete).any (fun s =>
      (s.apiKeyAuth smallService (bearer (generateAPIKey random)) (.ok ())).toOption.any fun c =>
        decide (c.userID = some 1 ∧ c.apiKeyID = some 10)) = true := by
    decide +kernel
  obtain ⟨s, hs, hlets⟩ := (Option.any_eq_true _ _).mp hlets
  obtain ⟨c, hc, hids⟩ := (Option.any_eq_true _ _).mp hlets
  obtain ⟨huser, hid⟩ := of_decide_eq_true hids
  have hauth : s.apiKeyAuth smallService (bearer (generateAPIKey random)) (.ok ()) = .ok c := by
    cases hres : s.apiKeyAuth smallService (bearer (generateAPIKey random)) (.ok ()) with
    | error e =>
      rw [hres] at hc
      cases hc
    | ok c' =>
      rw [hres] at hc
      rw [Option.some.inj hc]
  exact ⟨s, hs, (apiKeyAuth_iff_givenOut hs _ 1 10).mp ⟨c, hauth, huser, hid⟩⟩

end UniLLM.Accounts
