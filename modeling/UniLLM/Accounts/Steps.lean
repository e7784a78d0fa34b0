import UniLLM.Accounts.Service

/-!
# What a request can do to the tables

`Step` says it once, in one case for each kind of change; the cases have what was checked
before.  Everything about runs is derived from it.
-/

namespace UniLLM.Accounts
open Go Transition Middleware
open Billing (GoInt)

/-- An answer that tells of no change: an error, or what was read. -/
def Answer.quiet : Answer → Bool
  | .refused _ | .me _ | .keys _ | .users _ | .balanceUpdated .. | .panicked | .key _ => true
  | _ => false

/-- The second half of request `n`. -/
def Action.Finishes (n : Nat) : Action → Prop
  | .createUser m _ _ _ | .writePassword m _ _ => m = n
  | _ => False

/-- A step, its answer and the state after it. -/
inductive Step (svc : AuthService) (s : State) : Action → Answer → State → Prop
  | reads (a : Action) (o : Answer) (quiet : o.quiet = true) : Step svc s a o s
  | logsIn (input : LoginInput) (u : Account) (now : Int)
    (found : findByEmail s.users input.email.val = some u)
    (password : svc.bcrypt.compareHashAndPassword u.passwordHash input.password = true) :
    Step svc s (.login (.ok input) (.ok ()) now)
      (.authResponse 200 (svc.issuer.generate u.identity now) u.toUser) s
  | registers (n : Nat) (input : RegisterInput) (db : Db) (free : s.pending n = none) :
    Step svc s (.register n (.ok input) db) .waiting (s.wait n (.createUser input))
  | creates (n : Nat) (salt : GoString) (id : GoInt) (createdAt now : Int) (input : RegisterInput)
    (hash : GoString) (pending : s.pending n = some (.createUser input))
    (hashed : svc.hashPassword input.password salt = .ok hash)
    (new : ∀ u ∈ s.users, u.id ≠ id.val ∧ u.email ≠ input.email.val) :
    Step svc s (.createUser n salt (.ok (id, createdAt)) now)
      (.authResponse 201 (svc.issuer.generate (newAccount input hash id createdAt).identity now)
        (newAccount input hash id createdAt).toUser)
      { s.done n with users := s.users ++ [newAccount input hash id createdAt] }
  | asks (authorization : GoString) (now : Int) (claims : Claims) (n : Nat)
    (input : ChangePasswordInput) (u : Account)
    (token : jwtAuth svc.issuer authorization now = .ok claims) (free : s.pending n = none)
    (found : findByID s.users claims.userID = some u)
    (password : svc.bcrypt.compareHashAndPassword u.passwordHash input.oldPassword = true) :
    Step svc s (.dashboard authorization now (.changePassword n (.ok input) (.ok ()))) .waiting
      (s.wait n (.updatePassword claims.userID input.newPassword))
  | writes (n : Nat) (salt : GoString) (userID : Int) (newPassword hash : GoString)
    (pending : s.pending n = some (.updatePassword userID newPassword))
    (hashed : svc.hashPassword newPassword salt = .ok hash) :
    Step svc s (.writePassword n salt (.ok ())) .changed
      { s.done n with users := updatePassword s.users userID hash }
  | drops (a : Action) (n : Nat) (o : Answer) (quiet : o.quiet = true) (finishes : a.Finishes n) :
    Step svc s a o (s.done n)
  | createsKey (authorization : GoString) (now : Int) (claims : Claims) (input : CreateKeyInput)
    (random : GoString) (id createdAt : Int)
    (token : jwtAuth svc.issuer authorization now = .ok claims) (length : random.length = 32)
    (new : ∀ k ∈ s.apiKeys, k.id ≠ id ∧ k.keyHash ≠ svc.hashAPIKey (generateAPIKey random)) :
    Step svc s (.dashboard authorization now (.createKey (.ok input) random (.ok (id, createdAt))))
      (.createdKey (generateAPIKey random)
        (newKey svc input claims.userID (generateAPIKey random) id createdAt).toKeyInfo)
      { s with apiKeys :=
        s.apiKeys ++ [newKey svc input claims.userID (generateAPIKey random) id createdAt] }
  | deletesKey (authorization : GoString) (now : Int) (claims : Claims) (id : Int)
    (token : jwtAuth svc.issuer authorization now = .ok claims) :
    Step svc s (.dashboard authorization now (.deleteKey (.ok id) (.ok ()))) .deleted
      { s with apiKeys := deactivate s.apiKeys id claims.userID }
  | changesBalance (authorization : GoString) (now : Int) (claims : Claims)
    (input : UpdateUserBalanceInput) (found : Db) (o : Answer)
    (admin : (jwtAuth svc.issuer authorization now).bind adminOnly = .ok claims)
    (quiet : o.quiet = true) :
    Step svc s (.admin authorization now (.updateUserBalance (.ok input) (.ok ()) found)) o
      { s with users := updateBalance s.users input.userID input.delta }
  | touches (keyID now : Int) :
    Step svc s (.updateLastUsed keyID now) .background
      { s with apiKeys := updateLastUsed s.apiKeys keyID now }

variable {svc : AuthService} {s s' : State} {a : Action} {o : Answer}

/-- A body is bound to what the decoder makes of it, if that passes the checks. -/
theorem bind_eq_ok {α : Type} {body : Except GoString α} {check : α → List FieldError} {input : α} :
    bind body check = .ok input ↔ body = .ok input ∧ check input = [] := by
  unfold bind
  cases body with
  | error e => simp
  | ok x =>
    cases hcheck : check x with
    | nil =>
      simp only [hcheck, List.map_nil, Except.ok.injEq]
      constructor
      · rintro rfl
        exact ⟨rfl, hcheck⟩
      · exact And.left
    | cons e es =>
      simp only [hcheck, List.map_cons, reduceCtorEq, Except.ok.injEq, false_iff, not_and]
      rintro rfl h
      rw [hcheck] at h
      cases h

theorem register_step {n : Nat} {body : Except GoString RegisterInput} {db : Db}
    (hfree : s.pending n = none) (h : register svc s n body db = (s', o)) :
    Step svc s (.register n body db) o s' := by
  unfold register at h
  split at h
  · cases h
    exact .reads _ _ rfl
  · rename_i input hbind
    obtain ⟨rfl, -⟩ := bind_eq_ok.mp hbind
    split at h
    · cases h
      exact .reads _ _ rfl
    · cases h
      exact .registers n input _ hfree

theorem createUser_step {n : Nat} {input : RegisterInput} {salt : GoString}
    {inserted : Except GoString (GoInt × Int)} {now : Int}
    (hpending : s.pending n = some (.createUser input))
    (h : createUser svc (s.done n) input salt inserted now = some (s', o)) :
    Step svc s (.createUser n salt inserted now) o s' := by
  unfold createUser at h
  split at h
  · cases h
    exact .drops _ _ _ rfl rfl
  · rename_i hash hhash
    split at h
    · cases h
      exact .drops _ _ _ rfl rfl
    · rename_i id createdAt
      split at h
      · rename_i hnew
        cases h
        exact .creates n salt id createdAt now input hash hpending hhash hnew
      · cases h

theorem login_step {body : Except GoString LoginInput} {db : Db} {now : Int} :
    Step svc s (.login body db now) (login svc s body db now) s := by
  unfold login
  split
  · exact .reads _ _ rfl
  · rename_i input hbind
    obtain ⟨rfl, -⟩ := bind_eq_ok.mp hbind
    split
    · rename_i u hfound
      split
      · rename_i hpassword
        exact .logsIn input u now hfound hpassword
      · exact .reads _ _ rfl
    · exact .reads _ _ rfl

theorem changePassword_step {authorization : GoString} {now : Int} {claims : Claims} {n : Nat}
    {body : Except GoString ChangePasswordInput} {db : Db}
    (htoken : jwtAuth svc.issuer authorization now = .ok claims) (hfree : s.pending n = none)
    (h : changePassword svc s claims.userID n body db = (s', o)) :
    Step svc s (.dashboard authorization now (.changePassword n body db)) o s' := by
  unfold changePassword at h
  split at h
  · cases h
    exact .reads _ _ rfl
  · rename_i input hbind
    obtain ⟨rfl, -⟩ := bind_eq_ok.mp hbind
    split at h
    · rename_i u hfound
      split at h
      · rename_i hpassword
        split at h
        · cases h
          exact .reads _ _ rfl
        · cases h
          exact .asks authorization now claims n input u htoken hfree hfound hpassword
      · cases h
        exact .reads _ _ rfl
    · cases h
      exact .reads _ _ rfl

theorem serveCall_step {authorization : GoString} {now : Int} {claims : Claims} {call : Call}
    (htoken : jwtAuth svc.issuer authorization now = .ok claims)
    (h : serveCall svc s claims.userID call = some (s', o)) :
    Step svc s (.dashboard authorization now call) o s' := by
  cases call with
  | me db =>
    cases h
    refine .reads _ _ ?_
    unfold me
    split <;> rfl
  | createKey body random inserted =>
    simp only [serveCall, createAPIKey] at h
    split at h
    · cases h
      exact .reads _ _ rfl
    · rename_i input hbind
      obtain ⟨rfl, -⟩ := bind_eq_ok.mp hbind
      split at h
      · cases h
        exact .reads _ _ rfl
      · rename_i id createdAt
        split at h
        · rename_i hnew
          cases h
          exact .createsKey authorization now claims input random id createdAt htoken hnew.1 hnew.2
        · cases h
  | listKeys db =>
    cases h
    refine .reads _ _ ?_
    unfold listAPIKeys
    split <;> rfl
  | deleteKey body db =>
    simp only [serveCall, deleteAPIKey, Option.some.injEq] at h
    split at h
    · cases h
      exact .reads _ _ rfl
    · rename_i id hbind
      obtain ⟨rfl, -⟩ := bind_eq_ok.mp hbind
      split at h
      · cases h
        exact .reads _ _ rfl
      · cases h
        exact .deletesKey authorization now claims id htoken
  | changePassword n body db =>
    simp only [serveCall] at h
    split at h
    · rename_i hfree
      exact changePassword_step htoken hfree (Option.some.inj h)
    · cases h

theorem writePassword_step {n : Nat} {userID : Int} {newPassword salt : GoString} {db : Db}
    (hpending : s.pending n = some (.updatePassword userID newPassword))
    (h : writePassword svc (s.done n) userID newPassword salt db = (s', o)) :
    Step svc s (.writePassword n salt db) o s' := by
  unfold writePassword at h
  split at h
  · cases h
    exact .drops _ _ _ rfl rfl
  · rename_i hash hhash
    split at h
    · cases h
      exact .drops _ _ _ rfl rfl
    · cases h
      exact .writes n salt userID newPassword hash hpending hhash

theorem serveAdmin_step {authorization : GoString} {now : Int} {claims : Claims} {call : AdminCall}
    (hadmin : (jwtAuth svc.issuer authorization now).bind adminOnly = .ok claims)
    (h : serveAdmin s call = (s', o)) : Step svc s (.admin authorization now call) o s' := by
  cases call with
  | listUsers db =>
    cases h
    refine .reads _ _ ?_
    unfold listUsers
    split <;> rfl
  | updateUserBalance body db found =>
    simp only [serveAdmin, updateUserBalance] at h
    split at h
    · cases h
      exact .reads _ _ rfl
    · rename_i input hbind
      obtain ⟨rfl, -⟩ := bind_eq_ok.mp hbind
      split at h
      · cases h
        exact .reads _ _ rfl
      · split at h
        · cases h
          exact .changesBalance authorization now claims input _ _ hadmin rfl
        · cases h
          exact .changesBalance authorization now claims input _ _ hadmin rfl

/-- **What a step can do.** -/
theorem serve_step (h : serve svc s a = some (s', o)) : Step svc s a o s' := by
  cases a with
  | register n body db =>
    simp only [serve] at h
    split at h
    · rename_i hfree
      exact register_step hfree (Option.some.inj h)
    · cases h
  | createUser n salt inserted now =>
    simp only [serve] at h
    split at h
    · rename_i hpending
      exact createUser_step hpending h
    · cases h
  | login body db now =>
    cases h
    exact login_step
  | dashboard authorization now call =>
    simp only [serve] at h
    split at h
    · cases h
      exact .reads _ _ rfl
    · rename_i htoken
      exact serveCall_step htoken h
  | writePassword n salt db =>
    simp only [serve] at h
    split at h
    · rename_i hpending
      exact writePassword_step hpending (Option.some.inj h)
    · cases h
  | admin authorization now call =>
    simp only [serve] at h
    split at h
    · cases h
      exact .reads _ _ rfl
    · rename_i hadmin
      exact serveAdmin_step hadmin (Option.some.inj h)
  | useKey authorization db =>
    cases h
    exact .reads _ _ rfl
  | updateLastUsed keyID now =>
    cases h
    exact .touches keyID now

end UniLLM.Accounts
