import UniLLM.Accounts.Tokens
import UniLLM.Billing.Dashboard
import UniLLM.Lib.Answers

/-!
# Accounts

Users register, log in, make and delete API keys and change their passwords; an admin lists
the users and changes their balances.  A dashboard request is known by its token, a request
to the models by its key, of which the server keeps the hash only.

`Register` looks the email up and creates the user later, `ChangePassword` compares the old
password and writes the new one later: hashing a password takes time, and other requests come
between the two halves.  Such a request waits under a number of its own.  What the database
and the random source answer is part of a step; a reply of the database that its unique
indexes rule out is not possible.
-/

namespace UniLLM.Accounts
open Go Transition Middleware
open Middleware.Gates (ErrorReply Context)
open Billing (Text GoInt)
open Billing.Dashboard (User)

/-! ### Tables -/

/-- A row of `users`. -/
structure Account extends User where
  passwordHash : GoString
  inRange : InInt64 id
  emailValid : validString email = true
  roleValid : validString role = true

/-- What is shown of a row of `api_keys`. -/
structure KeyInfo where
  id : Int
  userID : Int
  name : GoString
  keyPrefix : GoString
  scope : GoString
  isActive : Bool
  lastUsed : Int
  createdAt : Int
  deriving DecidableEq

/-- A row of `api_keys`. -/
structure APIKey extends KeyInfo where
  keyHash : GoString
  deriving DecidableEq

/-- As far as the gate of the models looks at it. -/
def APIKey.gate (k : APIKey) : Gates.APIKey := ⟨k.id, k.userID, k.keyHash, k.isActive⟩

/-- Whom a token of the user names. -/
def Account.identity (u : Account) : Identity :=
  ⟨u.id, u.email, u.role, u.inRange, u.emailValid, u.roleValid⟩

def findByEmail (users : List Account) (email : GoString) : Option Account :=
  users.find? fun u => u.email == email

def findByID (users : List Account) (id : Int) : Option Account := users.find? fun u => u.id == id

/-- No row is no error. -/
def updatePassword (users : List Account) (id : Int) (passwordHash : GoString) : List Account :=
  users.map fun u => if u.id = id then { u with passwordHash := passwordHash } else u

def updateBalance (users : List Account) (id : Int) (delta : Rat) : List Account :=
  users.map fun u => if u.id = id then { u with balance := u.balance + delta } else u

/-- The newest first. -/
def listByUserID (keys : List APIKey) (userID : Int) : List APIKey :=
  (keys.filter fun k => k.userID == userID).mergeSort fun k k' => decide (k'.createdAt ≤ k.createdAt)

/-- Of a key of another user nothing is changed; that is no error either. -/
def deactivate (keys : List APIKey) (id userID : Int) : List APIKey :=
  keys.map fun k => if k.id = id ∧ k.userID = userID then { k with isActive := false } else k

def updateLastUsed (keys : List APIKey) (id now : Int) : List APIKey :=
  keys.map fun k => if k.id = id then { k with lastUsed := now } else k

/-! ### Bodies -/

/-- A failed check of the validator. -/
structure FieldError where
  /-- The name of the struct with a dot; a struct without a name has none. -/
  ns : GoString
  field : GoString
  tag : GoString

def FieldError.error (e : FieldError) : GoString :=
  lit "Key: '" ++ e.ns ++ e.field ++ lit "' Error:Field validation for '" ++ e.field ++
    lit "' failed on the '" ++ e.tag ++ lit "' tag"

/-- The first tag of a field that fails, with whether each holds. -/
def checkField (ns field : GoString) (tags : List (GoString × Bool)) : List FieldError :=
  ((tags.find? fun t => !t.2).map fun t => ⟨ns, field, t.1⟩).toList

/-- `ShouldBindJSON`: what the decoder makes of the body, then the checks. -/
def bind {α : Type} (body : Except GoString α) (check : α → List FieldError) : Except GoString α :=
  match body with
  | .error e => .error e
  | .ok input =>
    match (check input).map FieldError.error with
    | [] => .ok input
    | errors => .error (List.intercalate (lit "\n") errors)

structure RegisterInput where
  email : Text
  password : GoString
  name : GoString

structure LoginInput where
  email : Text
  password : GoString

structure CreateKeyInput where
  name : GoString
  scope : GoString

structure ChangePasswordInput where
  oldPassword : GoString
  newPassword : GoString

structure UpdateUserBalanceInput where
  userID : Int
  delta : Rat
  reason : GoString

def required (s : GoString) : GoString × Bool := (lit "required", s != [])

/-- `min=8`, in runes. -/
def minEight (s : GoString) : GoString × Bool := (lit "min", decide (8 ≤ (runes s).length))

def RegisterInput.check (isEmail : GoString → Bool) (input : RegisterInput) : List FieldError :=
  let ns := lit "RegisterInput."
  checkField ns (lit "Email") [required input.email.val, (lit "email", isEmail input.email.val)] ++
    checkField ns (lit "Password") [required input.password, minEight input.password] ++
    checkField ns (lit "Name") [required input.name]

def LoginInput.check (isEmail : GoString → Bool) (input : LoginInput) : List FieldError :=
  let ns := lit "LoginInput."
  checkField ns (lit "Email") [required input.email.val, (lit "email", isEmail input.email.val)] ++
    checkField ns (lit "Password") [required input.password]

def CreateKeyInput.check (input : CreateKeyInput) : List FieldError :=
  checkField (lit "CreateKeyInput.") (lit "Name") [required input.name]

def ChangePasswordInput.check (input : ChangePasswordInput) : List FieldError :=
  checkField [] (lit "OldPassword") [required input.oldPassword] ++
    checkField [] (lit "NewPassword") [required input.newPassword, minEight input.newPassword]

/-- Of `DeleteAPIKey`. -/
def checkID (id : Int) : List FieldError := checkField [] (lit "ID") [(lit "required", id != 0)]

def UpdateUserBalanceInput.check (input : UpdateUserBalanceInput) : List FieldError :=
  checkField [] (lit "UserID") [(lit "required", input.userID != 0)] ++
    checkField [] (lit "Delta") [(lit "required", input.delta != 0)]

/-! ### The service -/

/-- bcrypt: a hash is made with a random salt. -/
structure Bcrypt where
  generateFromPassword : (password : GoString) → (cost : Int) → (salt : GoString) →
    Except GoString GoString
  compareHashAndPassword : (hash password : GoString) → Bool

/-- The service with the libraries it uses. -/
structure AuthService where
  issuer : Issuer
  bcrypt : Bcrypt
  bcryptCost : Int
  /-- SHA-256. -/
  sum256 : GoString → GoString
  /-- The pattern of the validator. -/
  isEmail : GoString → Bool

variable (svc : AuthService)

def AuthService.hashAPIKey (key : GoString) : GoString := encodeHex (svc.sum256 key)

def AuthService.hashPassword (password salt : GoString) : Except GoString GoString :=
  svc.bcrypt.generateFromPassword password svc.bcryptCost salt

/-- From 32 random bytes. -/
def generateAPIKey (random : GoString) : GoString := lit "sk-" ++ encodeHex random

/-- What a request still has to do. -/
inductive Pending where
  | createUser (input : RegisterInput)
  | updatePassword (userID : Int) (newPassword : GoString)

structure State where
  users : List Account
  apiKeys : List APIKey
  /-- The requests between their halves. -/
  pending : Nat → Option Pending

/-- The number is free again. -/
def State.done (s : State) (n : Nat) : State :=
  { s with pending := Function.update s.pending n none }

def State.wait (s : State) (n : Nat) (p : Pending) : State :=
  { s with pending := Function.update s.pending n (some p) }

/-- What a request is answered. -/
inductive Answer where
  /-- Nothing yet. -/
  | waiting
  | refused (refusal : Refusal)
  | authResponse (status : Int) (token : GoString) (user : User)
  | me (user : User)
  | createdKey (raw : GoString) (key : KeyInfo)
  | keys (keys : List KeyInfo)
  | deleted
  | changed
  | users (users : List User)
  | balanceUpdated (input : UpdateUserBalanceInput) (newBalance : Rat)
  /-- The handler panics; the server answers with 500. -/
  | panicked
  /-- What the check of an API key answers, or puts into the context. -/
  | key (outcome : Except ErrorReply Context)
  /-- No request. -/
  | background

/-- What the database answers to a query: an error, or what it finds. -/
abbrev Db := Except GoString Unit

/-! ### Register and log in -/

theorem userRole_valid : validString (lit "user") = true := by decide

def newAccount (input : RegisterInput) (passwordHash : GoString) (id : GoInt) (createdAt : Int) :
    Account :=
  { id := id.val
    email := input.email.val
    name := input.name
    role := lit "user"
    balance := 1
    createdAt := createdAt
    passwordHash := passwordHash
    inRange := id.property
    emailValid := input.email.property
    roleValid := userRole_valid }

/-- The first half of `Register`.  An error of the lookup is as good as no user. -/
def register (s : State) (n : Nat) (body : Except GoString RegisterInput) (db : Db) :
    State × Answer :=
  match bind body (RegisterInput.check svc.isEmail) with
  | .error e => (s, .refused ⟨400, e⟩)
  | .ok input =>
    match db, findByEmail s.users input.email.val with
    | .ok _, some _ => (s, .refused ⟨409, lit "email already registered"⟩)
    | _, _ => (s.wait n (.createUser input), .waiting)

/-- The second half: `inserted` is the id and the time of the new row. -/
def createUser (s : State) (input : RegisterInput) (salt : GoString)
    (inserted : Except GoString (GoInt × Int)) (now : Int) : Option (State × Answer) :=
  match svc.hashPassword input.password salt with
  | .error e => some (s, .refused ⟨409, lit "failed to hash password: " ++ e⟩)
  | .ok hash =>
    match inserted with
    | .error e => some (s, .refused ⟨409, lit "failed to create user: " ++ e⟩)
    | .ok (id, createdAt) =>
      if ∀ u ∈ s.users, u.id ≠ id.val ∧ u.email ≠ input.email.val then
        let user := newAccount input hash id createdAt
        some ({ s with users := s.users ++ [user] },
          .authResponse 201 (svc.issuer.generate user.identity now) user.toUser)
      else none

def login (s : State) (body : Except GoString LoginInput) (db : Db) (now : Int) : Answer :=
  match bind body (LoginInput.check svc.isEmail) with
  | .error e => .refused ⟨400, e⟩
  | .ok input =>
    match db, findByEmail s.users input.email.val with
    | .ok _, some user =>
      if svc.bcrypt.compareHashAndPassword user.passwordHash input.password then
        .authResponse 200 (svc.issuer.generate user.identity now) user.toUser
      else .refused ⟨401, lit "invalid email or password"⟩
    | _, _ => .refused ⟨401, lit "invalid email or password"⟩

/-! ### The dashboard -/

/-- The requests behind `JWTAuth`. -/
inductive Call where
  | me (db : Db)
  /-- `inserted` is the id and the time of the new row. -/
  | createKey (body : Except GoString CreateKeyInput) (random : GoString)
    (inserted : Except GoString (Int × Int))
  | listKeys (db : Db)
  | deleteKey (body : Except GoString Int) (db : Db)
  | changePassword (n : Nat) (body : Except GoString ChangePasswordInput) (db : Db)

def me (s : State) (userID : Int) (db : Db) : Answer :=
  match db, findByID s.users userID with
  | .ok _, some user => .me user.toUser
  | _, _ => .refused ⟨404, lit "user not found"⟩

def newKey (input : CreateKeyInput) (userID : Int) (raw : GoString) (id createdAt : Int) : APIKey :=
  { id := id
    userID := userID
    name := input.name
    keyPrefix := raw.take 12
    scope := if input.scope = [] then lit "full" else input.scope
    isActive := true
    lastUsed := 0
    createdAt := createdAt
    keyHash := svc.hashAPIKey raw }

def createAPIKey (s : State) (userID : Int) (body : Except GoString CreateKeyInput)
    (random : GoString) (inserted : Except GoString (Int × Int)) : Option (State × Answer) :=
  match bind body CreateKeyInput.check with
  | .error e => some (s, .refused ⟨400, e⟩)
  | .ok input =>
    match inserted with
    | .error e => some (s, .refused ⟨500, lit "failed to create api key: " ++ e⟩)
    | .ok (id, createdAt) =>
      let raw := generateAPIKey random
      let key := newKey svc input userID raw id createdAt
      if random.length = 32 ∧ ∀ k ∈ s.apiKeys, k.id ≠ id ∧ k.keyHash ≠ key.keyHash then
        some ({ s with apiKeys := s.apiKeys ++ [key] }, .createdKey raw key.toKeyInfo)
      else none

def listAPIKeys (s : State) (userID : Int) : Db → Answer
  | .error e => .refused ⟨500, e⟩
  | .ok _ => .keys ((listByUserID s.apiKeys userID).map APIKey.toKeyInfo)

def deleteAPIKey (s : State) (userID : Int) (body : Except GoString Int) (db : Db) :
    State × Answer :=
  match bind body checkID with
  | .error e => (s, .refused ⟨400, e⟩)
  | .ok id =>
    match db with
    | .error e => (s, .refused ⟨500, e⟩)
    | .ok _ => ({ s with apiKeys := deactivate s.apiKeys id userID }, .deleted)

/-- The first half of `ChangePassword`. -/
def changePassword (s : State) (userID : Int) (n : Nat)
    (body : Except GoString ChangePasswordInput) (db : Db) : State × Answer :=
  match bind body ChangePasswordInput.check with
  | .error e => (s, .refused ⟨400, e⟩)
  | .ok input =>
    match db, findByID s.users userID with
    | .ok _, some user =>
      if svc.bcrypt.compareHashAndPassword user.passwordHash input.oldPassword then
        -- in bytes this time
        if input.newPassword.length < 8 then
          (s, .refused ⟨400, lit "new password must be at least 8 characters"⟩)
        else (s.wait n (.updatePassword userID input.newPassword), .waiting)
      else (s, .refused ⟨400, lit "current password is incorrect"⟩)
    | _, _ => (s, .refused ⟨400, lit "user not found"⟩)

/-- The second half. -/
def writePassword (s : State) (userID : Int) (newPassword salt : GoString) (db : Db) :
    State × Answer :=
  match svc.hashPassword newPassword salt with
  | .error e => (s, .refused ⟨400, lit "failed to hash password: " ++ e⟩)
  | .ok hash =>
    match db with
    | .error e => (s, .refused ⟨400, e⟩)
    | .ok _ => ({ s with users := updatePassword s.users userID hash }, .changed)

def serveCall (s : State) (userID : Int) : Call → Option (State × Answer)
  | .me db => some (s, me s userID db)
  | .createKey body random inserted => createAPIKey svc s userID body random inserted
  | .listKeys db => some (s, listAPIKeys s userID db)
  | .deleteKey body db => some (deleteAPIKey s userID body db)
  | .changePassword n body db =>
    if s.pending n = none then some (changePassword svc s userID n body db) else none

/-! ### The admin pages -/

/-- The requests behind `AdminOnly` that are about users. -/
inductive AdminCall where
  | listUsers (db : Db)
  /-- `found` is the reply to the second query. -/
  | updateUserBalance (body : Except GoString UpdateUserBalanceInput) (db found : Db)

def listUsers (s : State) : Db → Answer
  | .error e => .refused ⟨500, e⟩
  | .ok _ => .users ((s.users.map Account.toUser).mergeSort fun u u' => decide (u.id ≤ u'.id))

/-- The second query is read without a check. -/
def updateUserBalance (s : State) (body : Except GoString UpdateUserBalanceInput) (db found : Db) :
    State × Answer :=
  match bind body UpdateUserBalanceInput.check with
  | .error e => (s, .refused ⟨400, e⟩)
  | .ok input =>
    match db with
    | .error e => (s, .refused ⟨500, e⟩)
    | .ok _ =>
      let s := { s with users := updateBalance s.users input.userID input.delta }
      match found, findByID s.users input.userID with
      | .ok _, some user => (s, .balanceUpdated input user.balance)
      | _, _ => (s, .panicked)

def serveAdmin (s : State) : AdminCall → State × Answer
  | .listUsers db => (s, listUsers s db)
  | .updateUserBalance body db found => updateUserBalance s body db found

/-! ### All requests -/

/-- The stores of the gate of the models, as far as the check of a key goes. -/
def State.stores (s : State) (db : Db) : Gates.Stores :=
  { apiKeys := db.map fun _ => s.apiKeys.map APIKey.gate
    count := fun _ => .ok 0
    balance := fun _ => .ok 0
    used := fun _ => .ok none }

/-- The check of an API key. -/
def State.apiKeyAuth (s : State) (authorization : GoString) (db : Db) :
    Except ErrorReply Context :=
  Gates.apiKeyAuth (s.stores db) svc.hashAPIKey { authorization := authorization }

inductive Action where
  | register (n : Nat) (body : Except GoString RegisterInput) (db : Db)
  | createUser (n : Nat) (salt : GoString) (inserted : Except GoString (GoInt × Int)) (now : Int)
  | login (body : Except GoString LoginInput) (db : Db) (now : Int)
  | dashboard (authorization : GoString) (now : Int) (call : Call)
  | writePassword (n : Nat) (salt : GoString) (db : Db)
  | admin (authorization : GoString) (now : Int) (call : AdminCall)
  | useKey (authorization : GoString) (db : Db)
  /-- The goroutine of a request that was let in by its key. -/
  | updateLastUsed (keyID now : Int)

/-- One step, and what is answered. -/
def serve (s : State) : Action → Option (State × Answer)
  | .register n body db => if s.pending n = none then some (register svc s n body db) else none
  | .createUser n salt inserted now =>
    match s.pending n with
    | some (.createUser input) => createUser svc (s.done n) input salt inserted now
    | _ => none
  | .login body db now => some (s, login svc s body db now)
  | .dashboard authorization now call =>
    match jwtAuth svc.issuer authorization now with
    | .error refusal => some (s, .refused refusal)
    | .ok claims => serveCall svc s claims.userID call
  | .writePassword n salt db =>
    match s.pending n with
    | some (.updatePassword userID newPassword) =>
      some (writePassword svc (s.done n) userID newPassword salt db)
    | _ => none
  | .admin authorization now call =>
    match (jwtAuth svc.issuer authorization now).bind adminOnly with
    | .error refusal => some (s, .refused refusal)
    | .ok _ => some (serveAdmin s call)
  | .useKey authorization db => some (s, .key (s.apiKeyAuth svc authorization db))
  | .updateLastUsed keyID now =>
    some ({ s with apiKeys := updateLastUsed s.apiKeys keyID now }, .background)

/-- The users that were put into the table by hand, and nothing else. -/
def start (seeds : List Account) : State := ⟨seeds, [], fun _ => none⟩

/-! ### A small service -/

/-- Hashes with the password behind the salt, and checksums that are the end of a text. -/
def smallService : AuthService where
  issuer := ⟨plainTokens, lit "secret"⟩
  bcrypt := ⟨fun password _ salt => .ok (salt ++ password), fun hash password =>
    hash.drop 4 == password⟩
  bcryptCost := 12
  sum256 := fun s => s.reverse.take 32
  isEmail := fun s => contains s (lit "@")

/-- What the columns of a user hold. -/
structure IsSeed (id : Int) (email role : GoString) : Prop where
  inRange : InInt64 id
  emailValid : validString email = true
  roleValid : validString role = true

/-- Users that were put into the table by hand; the passwords are `first` and `second`. -/
def seed (id : Int) (email hash role : GoString) (h : IsSeed id email role) : Account :=
  { id := id
    email := email
    name := lit "A"
    role := role
    balance := 0
    createdAt := 0
    passwordHash := hash
    inRange := h.inRange
    emailValid := h.emailValid
    roleValid := h.roleValid }

theorem ann_valid : IsSeed 1 (lit "ann@x") (lit "admin") := ⟨by decide, by decide, by decide⟩

theorem bob_valid : IsSeed 2 (lit "bob@x") (lit "user") := ⟨by decide, by decide, by decide⟩

/-- An admin and a user. -/
def ann : Account := seed 1 (lit "ann@x") (lit "saltfirst") (lit "admin") ann_valid

def bob : Account := seed 2 (lit "bob@x") (lit "saltsecond") (lit "user") bob_valid

def twoUsers : List Account := [ann, bob]

/-- The headers with the tokens they get at time zero. -/
def annToken : GoString := bearer (smallService.issuer.generate ann.identity 0)

def bobToken : GoString := bearer (smallService.issuer.generate bob.identity 0)

end UniLLM.Accounts
