import UniLLM.Accounts.Steps
import UniLLM.Lib.Purge

/-!
# What the accounts of other users change

A request is that of the user its token, its key or its email names.  What is then done concerns
this user's row, keys and password only.  So a user is answered as if the requests of the others
had not been; what remains are the requests nobody in particular makes: registrations, and those
of the admin.

`SameFor` relates the tables of the whole run to those of the run in which the requests of the
others are left out.
-/

namespace UniLLM.Accounts
open Go Transition Middleware
open Middleware.Gates (ErrorReply Context)
open Billing (GoInt)
open Billing.Dashboard (User)

variable (svc : AuthService)

/-! ### Whose request it is -/

/-- The row of the key in a header. -/
def State.keyOf (s : State) (authorization : GoString) : Option APIKey :=
  if hasPrefix authorization (lit "Bearer ") then
    let hash := svc.hashAPIKey (trimPrefix authorization (lit "Bearer "))
    s.apiKeys.find? fun k => k.keyHash == hash && k.isActive
  else none

def Pending.userID : Pending → Option Int
  | .createUser _ => none
  | .updatePassword userID _ => some userID

/-- The user who makes the request, if it is known. -/
def owner (s : State) : Action → Option Int
  | .login body _ _ =>
    (body.toOption.bind fun input => findByEmail s.users input.email.val).map fun u => u.id
  | .dashboard authorization now _ =>
    (jwtAuth svc.issuer authorization now).toOption.map fun claims => claims.userID
  | .writePassword n _ _ => (s.pending n).bind Pending.userID
  | .useKey authorization _ => (s.keyOf svc authorization).map fun k => k.userID
  | _ => none

/-- It is the user's own, or nobody's. -/
def concerns (userID : Int) : Option Int → Bool
  | none => true
  | some id => id == userID

/-! ### The same for a user -/

/-- Rows that show the same, and are the same if they are the user's. -/
structure Alike (userID : Int) (u v : Account) : Prop where
  shown : u.toUser = v.toUser
  own : u.id = userID → u = v

structure SameFor (userID : Int) (s t : State) : Prop where
  users : List.Forall₂ (Alike userID) s.users t.users
  apiKeys : t.apiKeys = s.apiKeys.filter fun k => k.userID == userID
  pending : ∀ n, t.pending n = (s.pending n).filter fun p => concerns userID p.userID

variable {svc} {userID : Int} {s s' t : State} {a : Action} {o : Answer}

theorem Alike.refl (u : Account) : Alike userID u u := ⟨rfl, fun _ => rfl⟩

theorem sameFor_start (seeds : List Account) : SameFor userID (start seeds) (start seeds) :=
  ⟨List.forall₂_same.mpr fun u _ => Alike.refl u, rfl, fun _ => rfl⟩

theorem SameFor.free (h : SameFor userID s t) {n : Nat} (hfree : s.pending n = none) :
    t.pending n = none := by
  rw [h.pending, hfree]
  rfl

theorem SameFor.wait (h : SameFor userID s t) {n : Nat} {p : Pending}
    (hp : concerns userID p.userID = true) : SameFor userID (s.wait n p) (t.wait n p) := by
  refine ⟨h.users, h.apiKeys, fun m => ?_⟩
  simp only [State.wait, Function.update_apply]
  by_cases hm : m = n
  · rw [if_pos hm, if_pos hm]
    exact (if_pos hp).symm
  · rw [if_neg hm, if_neg hm]
    exact h.pending m

theorem SameFor.done (h : SameFor userID s t) (n : Nat) : SameFor userID (s.done n) (t.done n) := by
  refine ⟨h.users, h.apiKeys, fun m => ?_⟩
  simp only [State.done, Function.update_apply]
  by_cases hm : m = n
  · rw [if_pos hm, if_pos hm]
    rfl
  · rw [if_neg hm, if_neg hm]
    exact h.pending m

/-! ### Lookups -/

/-- Lists that are alike have the first element with a property in the same place. -/
theorem find?_of_forall₂ {α : Type} {R : α → α → Prop} {l l' : List α} (h : List.Forall₂ R l l')
    {p : α → Bool} (hp : ∀ a b, R a b → p a = p b) :
    l.find? p = none ∧ l'.find? p = none ∨
      ∃ a b, l.find? p = some a ∧ l'.find? p = some b ∧ R a b := by
  induction h with
  | nil => exact .inl ⟨rfl, rfl⟩
  | @cons a b l l' hab _ ih =>
    have hsame := hp a b hab
    cases ha : p a with
    | true =>
      rw [List.find?_cons_of_pos ha, List.find?_cons_of_pos (hsame ▸ ha)]
      exact .inr ⟨a, b, rfl, rfl, hab⟩
    | false =>
      rw [List.find?_cons_of_neg (by simp [ha]), List.find?_cons_of_neg (by simp [← hsame, ha])]
      exact ih

theorem Alike.id_eq {u v : Account} (h : Alike userID u v) : u.id = v.id :=
  congrArg (fun x : User => x.id) h.shown

theorem Alike.email_eq {u v : Account} (h : Alike userID u v) : u.email = v.email :=
  congrArg (fun x : User => x.email) h.shown

/-- A lookup by email. -/
theorem SameFor.findByEmail (h : SameFor userID s t) (email : GoString) :
    findByEmail s.users email = none ∧ findByEmail t.users email = none ∨
      ∃ u v, findByEmail s.users email = some u ∧ findByEmail t.users email = some v ∧
        Alike userID u v :=
  find?_of_forall₂ h.users fun u v huv => by rw [huv.email_eq]

/-- A lookup by id. -/
theorem SameFor.findByID (h : SameFor userID s t) (id : Int) :
    findByID s.users id = none ∧ findByID t.users id = none ∨
      ∃ u v, findByID s.users id = some u ∧ findByID t.users id = some v ∧ Alike userID u v :=
  find?_of_forall₂ h.users fun u v huv => by rw [huv.id_eq]

/-- The user's own row. -/
theorem SameFor.findByID_own (h : SameFor userID s t) :
    Accounts.findByID t.users userID = Accounts.findByID s.users userID := by
  obtain ⟨hs, ht⟩ | ⟨u, v, hs, ht, huv⟩ := h.findByID userID
  · rw [hs, ht]
  · have hid : u.id = userID := by simpa using List.find?_some hs
    rw [hs, ht, huv.own hid]

/-- What is shown of the users. -/
theorem SameFor.shown (h : SameFor userID s t) :
    s.users.map Account.toUser = t.users.map Account.toUser := by
  rw [← List.forall₂_eq_eq_eq, List.forall₂_map_left_iff, List.forall₂_map_right_iff]
  exact h.users.imp fun u v huv => huv.shown

/-- A change of rows that shows the same. -/
theorem SameFor.map_users (h : SameFor userID s t) {f g : Account → Account}
    (hfg : ∀ u v, Alike userID u v → Alike userID (f u) (g v)) :
    List.Forall₂ (Alike userID) (s.users.map f) (t.users.map g) := by
  rw [List.forall₂_map_left_iff, List.forall₂_map_right_iff]
  exact h.users.imp hfg

/-- A change of the user's row only. -/
theorem Alike.update {u v : Account} (h : Alike userID u v) {id : Int} {f : Account → Account}
    (hf : ∀ u v : Account, u.toUser = v.toUser → (f u).toUser = (f v).toUser)
    (hid : ∀ u, (f u).id = u.id) :
    Alike userID (if u.id = id then f u else u) (if v.id = id then f v else v) := by
  rw [← h.id_eq]
  by_cases hu : u.id = id
  · rw [if_pos hu, if_pos hu]
    refine ⟨hf u v h.shown, fun hown => ?_⟩
    rw [hid] at hown
    rw [h.own hown]
  · rw [if_neg hu, if_neg hu]
    exact h

/-! ### Keys -/

/-- A key of the user is looked up alike; of another user's there is none. -/
theorem SameFor.keyOf (h : SameFor userID s t) {authorization : GoString}
    (hown : concerns userID ((s.keyOf svc authorization).map fun k => k.userID) = true) :
    t.keyOf svc authorization = s.keyOf svc authorization := by
  unfold State.keyOf at hown ⊢
  split
  · rename_i hbearer
    rw [if_pos hbearer] at hown
    rw [h.apiKeys, List.find?_filter]
    cases hfind : s.apiKeys.find? fun k =>
        k.keyHash == svc.hashAPIKey (trimPrefix authorization (lit "Bearer ")) && k.isActive with
    | none =>
      rw [List.find?_eq_none] at hfind ⊢
      intro k hk hmatch
      exact hfind k hk (of_decide_eq_true hmatch).2
    | some k =>
      rw [hfind] at hown
      rw [List.find?_eq_some_iff_append] at hfind ⊢
      obtain ⟨hk, before, after, hkeys, hbefore⟩ := hfind
      refine ⟨decide_eq_true ⟨hown, hk⟩, before, after, hkeys, fun k' hk' => ?_⟩
      rw [Bool.not_eq_true', decide_eq_false_iff_not]
      rintro ⟨-, hmatch⟩
      have hearlier := hbefore k' hk'
      rw [hmatch] at hearlier
      cases hearlier
  · rfl

/-- The check of a key finds what is in the table. -/
theorem apiKeyAuth_eq (s : State) (authorization : GoString) :
    s.apiKeyAuth svc authorization (.ok ()) =
      if authorization = [] ∨ hasPrefix authorization (lit "Bearer ") = false then
        .error ⟨401, lit "missing api key", lit "authentication_error"⟩
      else
        match s.keyOf svc authorization with
        | some k => .ok ⟨authorization, some k.userID, some k.id⟩
        | none => .error ⟨401, lit "invalid api key", lit "authentication_error"⟩ := by
  unfold State.apiKeyAuth Gates.apiKeyAuth
  split
  · rfl
  · rename_i hheader
    have hbearer : hasPrefix authorization (lit "Bearer ") = true := by
      rw [not_or, Bool.not_eq_false] at hheader
      exact hheader.2
    rw [State.keyOf, if_pos hbearer]
    simp only [Gates.resolveAPIKey, Gates.findByHash, State.stores, Except.map, List.find?_map]
    unfold APIKey.gate
    simp only [Function.comp_def]
    cases s.apiKeys.find? fun k =>
        k.keyHash == svc.hashAPIKey (trimPrefix authorization (lit "Bearer ")) && k.isActive with
    | none => rfl
    | some k => rfl

/-! ### Requests that are kept -/

/-- The same answer, and the same for the user afterwards. -/
structure AnswersAlike (userID : Int) (r r' : State × Answer) : Prop where
  answer : r'.2 = r.2
  same : SameFor userID r.1 r'.1

theorem SameFor.register (h : SameFor userID s t) (n : Nat) (body : Except GoString RegisterInput)
    (db : Db) : AnswersAlike userID (register svc s n body db) (register svc t n body db) := by
  unfold Accounts.register
  cases bind body (RegisterInput.check svc.isEmail) with
  | error e => exact ⟨rfl, h⟩
  | ok input =>
    obtain ⟨hs, ht⟩ | ⟨u, v, hs, ht, -⟩ := h.findByEmail input.email.val
    · simp only [hs, ht]
      exact ⟨rfl, h.wait rfl⟩
    · simp only [hs, ht]
      cases db with
      | error e => exact ⟨rfl, h.wait rfl⟩
      | ok _ => exact ⟨rfl, h⟩

/-- The new row is in both tables. -/
theorem SameFor.append_user (h : SameFor userID s t) (u : Account) :
    SameFor userID { s with users := s.users ++ [u] } { t with users := t.users ++ [u] } :=
  ⟨List.rel_append h.users (.cons (Alike.refl u) .nil), h.apiKeys, h.pending⟩

theorem SameFor.createUser (h : SameFor userID s t) {input : RegisterInput} {salt : GoString}
    {inserted : Except GoString (GoInt × Int)} {now : Int} {r : State × Answer}
    (hserve : createUser svc s input salt inserted now = some r) :
    ∃ r', createUser svc t input salt inserted now = some r' ∧ AnswersAlike userID r r' := by
  unfold Accounts.createUser at hserve ⊢
  cases hhash : svc.hashPassword input.password salt with
  | error e =>
    simp only [hhash, Option.some.injEq] at hserve ⊢
    subst hserve
    exact ⟨_, rfl, rfl, h⟩
  | ok hash =>
    cases inserted with
    | error e =>
      simp only [hhash, Option.some.injEq] at hserve ⊢
      subst hserve
      exact ⟨_, rfl, rfl, h⟩
    | ok row =>
      obtain ⟨id, createdAt⟩ := row
      simp only [hhash] at hserve ⊢
      split at hserve
      · rename_i hnew
        have hnew' : ∀ u ∈ t.users, u.id ≠ id.val ∧ u.email ≠ input.email.val := by
          intro v hv
          have hshown : v.toUser ∈ s.users.map Account.toUser := by
            rw [h.shown]
            exact List.mem_map_of_mem hv
          obtain ⟨u, hu, huv⟩ := List.mem_map.mp hshown
          have hrow := hnew u hu
          rwa [show u.id = v.id from congrArg (fun x : User => x.id) huv,
            show u.email = v.email from congrArg (fun x : User => x.email) huv] at hrow
        rw [if_pos hnew']
        obtain rfl := Option.some.inj hserve
        exact ⟨_, rfl, rfl, h.append_user _⟩
      · cases hserve

theorem SameFor.login (h : SameFor userID s t) {body : Except GoString LoginInput} {db : Db}
    {now : Int} (hown : concerns userID (owner svc s (.login body db now)) = true) :
    login svc t body db now = login svc s body db now := by
  unfold Accounts.login
  cases hbind : bind body (LoginInput.check svc.isEmail) with
  | error e => rfl
  | ok input =>
    obtain ⟨rfl, -⟩ := bind_eq_ok.mp hbind
    obtain ⟨hs, ht⟩ | ⟨u, v, hs, ht, huv⟩ := h.findByEmail input.email.val
    · simp only [hs, ht]
    · have hid : u.id = userID := by
        simp only [owner, Except.toOption, Option.bind_some, hs, Option.map_some] at hown
        exact beq_iff_eq.mp hown
      simp only [hs, ht, huv.own hid]

/-- Rows of the user's keys. -/
theorem SameFor.of_keys (h : SameFor userID s t) {keys keys' : List APIKey}
    (hkeys : keys' = keys.filter fun k => k.userID == userID) :
    SameFor userID { s with apiKeys := keys } { t with apiKeys := keys' } :=
  ⟨h.users, hkeys, h.pending⟩

theorem SameFor.createAPIKey (h : SameFor userID s t) {body : Except GoString CreateKeyInput}
    {random : GoString} {inserted : Except GoString (Int × Int)} {r : State × Answer}
    (hserve : createAPIKey svc s userID body random inserted = some r) :
    ∃ r', createAPIKey svc t userID body random inserted = some r' ∧ AnswersAlike userID r r' := by
  unfold Accounts.createAPIKey at hserve ⊢
  cases hbind : bind body CreateKeyInput.check with
  | error e =>
    simp only [hbind, Option.some.injEq] at hserve ⊢
    subst hserve
    exact ⟨_, rfl, rfl, h⟩
  | ok input =>
    cases inserted with
    | error e =>
      simp only [hbind, Option.some.injEq] at hserve ⊢
      subst hserve
      exact ⟨_, rfl, rfl, h⟩
    | ok row =>
      obtain ⟨id, createdAt⟩ := row
      simp only [hbind] at hserve ⊢
      split at hserve
      · rename_i hnew
        have hnew' : ∀ k ∈ t.apiKeys, k.id ≠ id ∧
            k.keyHash ≠ (newKey svc input userID (generateAPIKey random) id createdAt).keyHash := by
          intro k hk
          rw [h.apiKeys] at hk
          exact hnew.2 k (List.mem_of_mem_filter hk)
        rw [if_pos ⟨hnew.1, hnew'⟩]
        obtain rfl := Option.some.inj hserve
        refine ⟨_, rfl, rfl, h.of_keys ?_⟩
        rw [List.filter_append, h.apiKeys, List.filter_singleton]
        simp [newKey]
      · cases hserve

theorem SameFor.listAPIKeys (h : SameFor userID s t) (db : Db) :
    listAPIKeys t userID db = listAPIKeys s userID db := by
  unfold Accounts.listAPIKeys listByUserID
  rw [h.apiKeys, List.filter_filter]
  simp only [Bool.and_self]

/-- A change that leaves the owners of the keys. -/
theorem filter_map_keys (keys : List APIKey) {f : APIKey → APIKey}
    (hf : ∀ k, (f k).userID = k.userID) :
    (keys.map f).filter (fun k => k.userID == userID) =
      (keys.filter fun k => k.userID == userID).map f := by
  rw [List.filter_map]
  have hsame : (fun k : APIKey => k.userID == userID) ∘ f = fun k => k.userID == userID := by
    funext k
    simp only [Function.comp_apply, hf]
  rw [hsame]

theorem SameFor.deleteAPIKey (h : SameFor userID s t) (body : Except GoString Int) (db : Db) :
    AnswersAlike userID (deleteAPIKey s userID body db) (deleteAPIKey t userID body db) := by
  unfold Accounts.deleteAPIKey
  cases bind body checkID with
  | error e => exact ⟨rfl, h⟩
  | ok id =>
    cases db with
    | error e => exact ⟨rfl, h⟩
    | ok _ =>
      refine ⟨rfl, h.of_keys ?_⟩
      rw [h.apiKeys, deactivate, deactivate, filter_map_keys]
      intro k
      split <;> rfl

theorem SameFor.changePassword (h : SameFor userID s t) (n : Nat)
    (body : Except GoString ChangePasswordInput) (db : Db) :
    AnswersAlike userID (changePassword svc s userID n body db)
      (changePassword svc t userID n body db) := by
  unfold Accounts.changePassword
  rw [h.findByID_own]
  cases bind body ChangePasswordInput.check with
  | error e => exact ⟨rfl, h⟩
  | ok input =>
    cases db with
    | error e => exact ⟨rfl, h⟩
    | ok _ =>
      cases Accounts.findByID s.users userID with
      | none => exact ⟨rfl, h⟩
      | some u =>
        simp only
        split
        · split
          · exact ⟨rfl, h⟩
          · exact ⟨rfl, h.wait (beq_self_eq_true userID)⟩
        · exact ⟨rfl, h⟩

theorem SameFor.updatePassword (h : SameFor userID s t) (hash : GoString) :
    SameFor userID { s with users := updatePassword s.users userID hash }
      { t with users := updatePassword t.users userID hash } :=
  ⟨h.map_users fun _ _ huv => huv.update (f := fun u => { u with passwordHash := hash })
    (fun _ _ h => h) fun _ => rfl, h.apiKeys, h.pending⟩

theorem SameFor.writePassword (h : SameFor userID s t) (newPassword salt : GoString) (db : Db) :
    AnswersAlike userID (writePassword svc s userID newPassword salt db)
      (writePassword svc t userID newPassword salt db) := by
  unfold Accounts.writePassword
  cases svc.hashPassword newPassword salt with
  | error e => exact ⟨rfl, h⟩
  | ok hash =>
    cases db with
    | error e => exact ⟨rfl, h⟩
    | ok _ => exact ⟨rfl, h.updatePassword hash⟩

theorem SameFor.updateBalance (h : SameFor userID s t) (id : Int) (delta : Rat) :
    SameFor userID { s with users := updateBalance s.users id delta }
      { t with users := updateBalance t.users id delta } := by
  refine ⟨h.map_users fun u v huv => ?_, h.apiKeys, h.pending⟩
  refine huv.update (f := fun u => { u with balance := u.balance + delta }) ?_ fun _ => rfl
  intro u v huv
  exact congrArg (fun x : User => { x with balance := x.balance + delta }) huv

theorem SameFor.serveAdmin (h : SameFor userID s t) (call : AdminCall) :
    AnswersAlike userID (serveAdmin s call) (serveAdmin t call) := by
  cases call with
  | listUsers db =>
    refine ⟨?_, h⟩
    simp only [Accounts.serveAdmin, listUsers, h.shown]
  | updateUserBalance body db found =>
    simp only [Accounts.serveAdmin, updateUserBalance]
    cases bind body UpdateUserBalanceInput.check with
    | error e => exact ⟨rfl, h⟩
    | ok input =>
      cases db with
      | error e => exact ⟨rfl, h⟩
      | ok _ =>
        have hafter := h.updateBalance input.userID input.delta
        cases found with
        | error e => exact ⟨rfl, hafter⟩
        | ok _ =>
          obtain ⟨hs, ht⟩ | ⟨u, v, hs, ht, huv⟩ := hafter.findByID input.userID
          · simp only [hs, ht]
            exact ⟨rfl, hafter⟩
          · simp only [hs, ht]
            refine ⟨?_, hafter⟩
            rw [show v.balance = u.balance from congrArg (fun x : User => x.balance) huv.shown.symm]

theorem SameFor.serveCall (h : SameFor userID s t) {call : Call} {r : State × Answer}
    (hserve : serveCall svc s userID call = some r) :
    ∃ r', serveCall svc t userID call = some r' ∧ AnswersAlike userID r r' := by
  cases call with
  | me db =>
    obtain rfl := Option.some.inj hserve
    refine ⟨_, rfl, ?_, h⟩
    simp only [me, h.findByID_own]
  | createKey body random inserted => exact h.createAPIKey hserve
  | listKeys db =>
    obtain rfl := Option.some.inj hserve
    exact ⟨_, rfl, h.listAPIKeys db, h⟩
  | deleteKey body db =>
    obtain rfl := Option.some.inj hserve
    exact ⟨_, rfl, h.deleteAPIKey body db⟩
  | changePassword n body db =>
    simp only [Accounts.serveCall] at hserve ⊢
    split at hserve
    · rename_i hfree
      rw [if_pos (h.free hfree)]
      obtain rfl := Option.some.inj hserve
      exact ⟨_, rfl, h.changePassword n body db⟩
    · cases hserve

/-- **A request that is kept.** -/
theorem SameFor.keeps (h : SameFor userID s t) (hown : concerns userID (owner svc s a) = true)
    (hserve : serve svc s a = some (s', o)) :
    ∃ t', serve svc t a = some (t', o) ∧ SameFor userID s' t' := by
  have hsome : ∀ {r r' : State × Answer}, r = (s', o) → AnswersAlike userID r r' →
      some r' = some (r'.1, o) ∧ SameFor userID s' r'.1 := by
    rintro r r' rfl hr
    exact ⟨congrArg some (Prod.ext rfl hr.answer), hr.same⟩
  cases a with
  | register n body db =>
    simp only [serve] at hserve ⊢
    split at hserve
    · rename_i hfree
      rw [if_pos (h.free hfree)]
      exact ⟨_, hsome (Option.some.inj hserve) (h.register n body db)⟩
    · cases hserve
  | createUser n salt inserted now =>
    simp only [serve] at hserve ⊢
    split at hserve
    · rename_i input hpending
      rw [h.pending, hpending]
      obtain ⟨r', hr', hr⟩ := (h.done n).createUser hserve
      exact ⟨r'.1, hr'.trans (hsome rfl hr).1, hr.same⟩
    · cases hserve
  | login body db now =>
    cases hserve
    refine ⟨t, ?_, h⟩
    rw [serve, h.login hown]
  | dashboard authorization now call =>
    simp only [serve] at hserve ⊢
    cases htoken : jwtAuth svc.issuer authorization now with
    | error refusal =>
      rw [htoken] at hserve
      exact ⟨t, by cases hserve; rfl, by cases hserve; exact h⟩
    | ok claims =>
      rw [htoken] at hserve
      have hid : claims.userID = userID := by
        rw [owner, htoken] at hown
        exact beq_iff_eq.mp hown
      simp only [hid] at hserve ⊢
      obtain ⟨r', hr', hr⟩ := h.serveCall hserve
      exact ⟨r'.1, hr'.trans (hsome rfl hr).1, hr.same⟩
  | writePassword n salt db =>
    simp only [serve] at hserve ⊢
    split at hserve
    · rename_i id newPassword hpending
      have hid : id = userID := by
        rw [owner, hpending] at hown
        exact beq_iff_eq.mp hown
      subst hid
      have hkept : t.pending n = some (.updatePassword id newPassword) := by
        rw [h.pending, hpending]
        exact if_pos (beq_self_eq_true id)
      rw [hkept]
      exact ⟨_, hsome (Option.some.inj hserve) ((h.done n).writePassword newPassword salt db)⟩
    · cases hserve
  | admin authorization now call =>
    simp only [serve] at hserve ⊢
    cases hadmin : (jwtAuth svc.issuer authorization now).bind adminOnly with
    | error refusal =>
      rw [hadmin] at hserve
      exact ⟨t, by cases hserve; rfl, by cases hserve; exact h⟩
    | ok claims =>
      rw [hadmin] at hserve
      exact ⟨_, hsome (Option.some.inj hserve) (h.serveAdmin call)⟩
  | useKey authorization db =>
    cases hserve
    refine ⟨t, ?_, h⟩
    cases db with
    | error e => rfl
    | ok _ => rw [serve, apiKeyAuth_eq, apiKeyAuth_eq, h.keyOf hown]
  | updateLastUsed keyID now =>
    cases hserve
    refine ⟨_, rfl, h.of_keys ?_⟩
    rw [h.apiKeys, updateLastUsed, updateLastUsed, filter_map_keys]
    intro k
    split <;> rfl

/-! ### Requests that are left out -/

/-- **A request of another user.** -/
theorem SameFor.drops (h : SameFor userID s t) (hother : concerns userID (owner svc s a) = false)
    (hserve : serve svc s a = some (s', o)) : SameFor userID s' t := by
  cases serve_step hserve with
  | reads a o hquiet => exact h
  | logsIn input u now hfound hpassword => exact h
  | registers n input db hfree => cases hother
  | creates n salt id createdAt now input hash hpending hhash hnew => cases hother
  | changesBalance authorization now claims input found o hadmin hquiet => cases hother
  | touches keyID now => cases hother
  | asks authorization now claims n input u htoken hfree hfound hpassword =>
    refine ⟨h.users, h.apiKeys, fun m => ?_⟩
    have hnot : concerns userID (some claims.userID) = false := by
      rw [owner, htoken] at hother
      exact hother
    simp only [State.wait, Function.update_apply]
    by_cases hm : m = n
    · rw [if_pos hm, hm, h.free hfree]
      exact (if_neg (by simp [Pending.userID, hnot])).symm
    · rw [if_neg hm]
      exact h.pending m
  | writes n salt id newPassword hash hpending hhash =>
    have hne : id ≠ userID := by
      rw [owner, hpending] at hother
      exact beq_eq_false_iff_ne.mp hother
    refine ⟨?_, h.apiKeys, fun m => ?_⟩
    · rw [← List.map_id t.users]
      refine h.map_users fun u v huv => ?_
      split
      · rename_i hid
        exact ⟨huv.shown, fun hown => absurd (hid.symm.trans hown) hne⟩
      · exact huv
    · simp only [State.done, Function.update_apply]
      by_cases hm : m = n
      · rw [if_pos hm, hm, h.pending, hpending]
        exact if_neg (by simp [Pending.userID, concerns, hne])
      · rw [if_neg hm]
        exact h.pending m
  | drops a n o hquiet hfinishes =>
    cases a with
    | writePassword m salt db =>
      obtain rfl : m = n := hfinishes
      refine ⟨h.users, h.apiKeys, fun i => ?_⟩
      simp only [State.done, Function.update_apply]
      by_cases hi : i = m
      · rw [if_pos hi, hi, h.pending]
        rw [owner] at hother
        cases hpending : s.pending m with
        | none => rfl
        | some p =>
          rw [hpending] at hother
          exact if_neg (by simpa using hother)
      · rw [if_neg hi]
        exact h.pending i
    | createUser m salt inserted now => cases hother
    | _ => cases hfinishes
  | createsKey authorization now claims input random id createdAt htoken hlength hnew =>
    have hne : claims.userID ≠ userID := by
      rw [owner, htoken] at hother
      exact beq_eq_false_iff_ne.mp hother
    refine ⟨h.users, ?_, h.pending⟩
    rw [h.apiKeys, List.filter_append, List.filter_singleton]
    have hnot : ((newKey svc input claims.userID (generateAPIKey random) id createdAt).userID ==
        userID) = false := beq_eq_false_iff_ne.mpr hne
    rw [hnot]
    exact (List.append_nil _).symm
  | deletesKey authorization now claims id htoken =>
    have hne : claims.userID ≠ userID := by
      rw [owner, htoken] at hother
      exact beq_eq_false_iff_ne.mp hother
    refine ⟨h.users, ?_, h.pending⟩
    rw [h.apiKeys, deactivate, filter_map_keys]
    · refine (List.map_id _).symm.trans (List.map_congr_left fun k hk => ?_)
      have hk : k.userID = userID := beq_iff_eq.mp (List.mem_filter.mp hk).2
      rw [if_neg fun hboth => hne (hboth.2.symm.trans hk)]
      rfl
    · intro k
      split <;> rfl

end UniLLM.Accounts
