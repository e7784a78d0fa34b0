import UniLLM.Middleware.Gates
import UniLLM.Catalog.Encryption

/-!
# Tokens

Whoever registers or logs in gets a JSON Web Token, signed with the secret of the server.  It
carries the id, the email and the role of the user as they were then, and expires 72 hours
later.  The dashboard and the admin pages believe it: nothing is looked up to check it.

The JWT library is a parameter: how it signs, and which tokens it accepts at a time.  Times
are in nanoseconds; a token has them in whole seconds.
-/

namespace UniLLM.Accounts
open Go

/-- Whom a token names.  The fields survive the JSON text of a token: an `int64` is in
range, and the texts are UTF-8. -/
structure Identity where
  userID : Int
  email : GoString
  role : GoString
  inRange : InInt64 userID
  emailValid : validString email = true
  roleValid : validString role = true

/-- `Claims`. -/
structure Claims extends Identity where
  issuedAt : Int
  expiresAt : Int

/-- One second. -/
def nanoseconds : Int := 1000000000

/-- 72 hours. -/
def lifetime : Int := 72 * 3600 * nanoseconds

/-- `jwt.NewNumericDate`, which cuts to whole seconds. -/
def numericDate (t : Int) : Int := t / nanoseconds

/-- The JWT library with tokens that are signed by HS256. -/
structure JWT where
  signedString : (secret : GoString) → Claims → GoString
  parseWithClaims : (secret token : GoString) → (now : Int) → Option Claims
  /-- A token that was signed with the secret is accepted until it expires. -/
  parse_signed : ∀ secret claims now, parseWithClaims secret (signedString secret claims) now =
    if now < claims.expiresAt * nanoseconds then some claims else none

/-- The issuer: the library and the secret. -/
structure Issuer where
  jwt : JWT
  secret : GoString

/-- What `Generate` signs: the claims of a token that is issued now. -/
def Identity.claims (who : Identity) (now : Int) : Claims :=
  { who with issuedAt := numericDate now, expiresAt := numericDate (now + lifetime) }

/-- `Generate`. -/
def Issuer.generate (i : Issuer) (who : Identity) (now : Int) : GoString :=
  i.jwt.signedString i.secret (who.claims now)

/-- `Parse`. -/
def Issuer.parse (i : Issuer) (tokenStr : GoString) (now : Int) : Option Claims :=
  i.jwt.parseWithClaims i.secret tokenStr now

/-- An error response of the dashboard: a status and a text. -/
structure Refusal where
  status : Int
  message : GoString
  deriving DecidableEq

/-- `JWTAuth`: what it puts into the context, or its answer. -/
def jwtAuth (i : Issuer) (authorization : GoString) (now : Int) : Except Refusal Claims :=
  if authorization = [] ∨ hasPrefix authorization (lit "Bearer ") = false then
    .error ⟨401, lit "missing or invalid authorization header"⟩
  else
    match i.parse (trimPrefix authorization (lit "Bearer ")) now with
    | none => .error ⟨401, lit "invalid token"⟩
    | some claims => .ok claims

/-- `AdminOnly`. -/
def adminOnly (claims : Claims) : Except Refusal Claims :=
  if claims.role ≠ lit "admin" then .error ⟨403, lit "admin access required"⟩ else .ok claims

/-- The header that carries a token. -/
def bearer (token : GoString) : GoString := lit "Bearer " ++ token

/-! ### What is accepted -/

variable {i : Issuer} {authorization token : GoString} {now : Int} {claims : Claims}

theorem bearer_ne_nil : bearer token ≠ [] := by
  have hprefix : lit "Bearer " ≠ [] := by decide
  exact fun h => hprefix (List.append_eq_nil_iff.mp h).1

theorem hasPrefix_bearer : hasPrefix (bearer token) (lit "Bearer ") = true :=
  hasPrefix_iff.mpr ⟨token, rfl⟩

theorem trimPrefix_bearer : trimPrefix (bearer token) (lit "Bearer ") = token := by
  rw [trimPrefix, if_pos hasPrefix_bearer, bearer, List.drop_left]

/-- What passes is a token behind the prefix. -/
theorem jwtAuth_eq_ok :
    jwtAuth i authorization now = .ok claims ↔
      ∃ token, authorization = bearer token ∧ i.parse token now = some claims := by
  unfold jwtAuth
  constructor
  · intro h
    split at h
    · cases h
    · rename_i hheader
      rw [not_or, Bool.not_eq_false] at hheader
      obtain ⟨token, rfl⟩ := hasPrefix_iff.mp hheader.2
      refine ⟨token, rfl, ?_⟩
      have htoken : trimPrefix (lit "Bearer " ++ token) (lit "Bearer ") = token := trimPrefix_bearer
      rw [htoken] at h
      cases hparse : i.parse token now with
      | none =>
        rw [hparse] at h
        cases h
      | some c =>
        rw [hparse] at h
        rw [Except.ok.inj h]
  · rintro ⟨token, rfl, hparse⟩
    rw [if_neg (by simp [bearer_ne_nil, hasPrefix_bearer]), trimPrefix_bearer, hparse]

/-- A refused header is answered with 401. -/
theorem jwtAuth_status {refusal : Refusal} (h : jwtAuth i authorization now = .error refusal) :
    refusal.status = 401 := by
  unfold jwtAuth at h
  split at h
  · rw [← Except.error.inj h]
  · split at h
    · rw [← Except.error.inj h]
    · cases h

/-- When a token that is issued now expires: 72 hours from now, cut to a whole second. -/
def expiry (issued : Int) : Int := numericDate (issued + lifetime) * nanoseconds

/-- Of a token that was generated the claims are read back, until it expires. -/
theorem parse_generate {who : Identity} {issued : Int} :
    i.parse (i.generate who issued) now = some claims ↔
      now < expiry issued ∧ who.claims issued = claims := by
  rw [Issuer.parse, Issuer.generate, i.jwt.parse_signed, expiry, Identity.claims]
  split
  · rename_i h
    simp [h]
  · rename_i h
    simp [h]

/-- A token lives for 72 hours but for less than a second. -/
theorem expiry_bounds (issued : Int) :
    issued + lifetime - nanoseconds < expiry issued ∧ expiry issued ≤ issued + lifetime := by
  unfold expiry numericDate nanoseconds
  omega

/-! ### A library to compute with

It writes the claims as fields with a dot after each, and the secret behind them, so it keeps
nothing secret; but it meets the law, and runs can be computed with it. -/

namespace PlainTokens

def dot : UInt8 := 0x2E

def field (text rest : GoString) : GoString := text ++ dot :: rest

/-- The text of the first field, and what is behind its dot. -/
def cut (s : GoString) : GoString × GoString :=
  (s.takeWhile (· != dot), (s.dropWhile (· != dot)).drop 1)

def readInt (s : GoString) : Int :=
  if s.head? = some 0x2D then -(digitsValue s.tail) else digitsValue s

def signedString (secret : GoString) (claims : Claims) : GoString :=
  field (formatInt claims.userID) <| field (encodeHex claims.email) <|
    field (encodeHex claims.role) <| field (formatInt claims.issuedAt) <|
      field (formatInt claims.expiresAt) secret

/-- The claims with the given fields, if they are in order and not over. -/
def accept (userID : Int) (email role : GoString) (issuedAt expiresAt now : Int) : Option Claims :=
  if h : InInt64 userID ∧ validString email = true ∧ validString role = true then
    if now < expiresAt * nanoseconds then
      some ⟨⟨userID, email, role, h.1, h.2.1, h.2.2⟩, issuedAt, expiresAt⟩
    else none
  else none

def parseWithClaims (secret token : GoString) (now : Int) : Option Claims :=
  let (userID, rest) := cut token
  let (email, rest) := cut rest
  let (role, rest) := cut rest
  let (issuedAt, rest) := cut rest
  let (expiresAt, rest) := cut rest
  if rest = secret then
    match decodeHex email, decodeHex role with
    | some email, some role =>
      accept (readInt userID) email role (readInt issuedAt) (readInt expiresAt) now
    | _, _ => none
  else none

theorem cut_field {text rest : GoString} (h : dot ∉ text) : cut (field text rest) = (text, rest) := by
  have hall : ∀ b ∈ text, (b != dot) = true := fun b hb => by
    rw [bne_iff_ne]
    rintro rfl
    exact h hb
  rw [cut, field, List.takeWhile_append_of_pos hall, List.dropWhile_append_of_pos hall]
  simp

theorem dot_notMem_formatInt (i : Int) : dot ∉ formatInt i := by
  have hdigits : dot ∉ formatNat i.natAbs := fun h => by
    have hdigit := formatNat_isDigit _ _ h
    exact absurd hdigit (by decide)
  rw [formatInt]
  split
  · rw [List.mem_cons, not_or]
    exact ⟨by decide, hdigits⟩
  · exact hdigits

theorem hexDigit_ne_dot {n : Nat} (h : n < 16) : hexDigit n ≠ dot :=
  (by decide : ∀ n, n < 16 → hexDigit n ≠ dot) n h

theorem dot_notMem_encodeHex (s : GoString) : dot ∉ encodeHex s := by
  induction s with
  | nil => simp [encodeHex]
  | cons b s ih =>
    have hlt : b.toNat < 256 := b.toNat_lt
    simp only [encodeHex, List.mem_cons, not_or]
    exact ⟨(hexDigit_ne_dot (by omega)).symm, (hexDigit_ne_dot (by omega)).symm, ih⟩

theorem readInt_formatInt (i : Int) : readInt (formatInt i) = i := by
  unfold readInt formatInt
  split
  · rw [List.head?_cons, if_pos rfl, List.tail_cons, digitsValue_formatNat]
    omega
  · obtain ⟨b, ds, hcons, -⟩ := formatNat_eq_cons i.natAbs
    have hb : isDigit b = true := formatNat_isDigit i.natAbs b (by simp [hcons])
    have hne : (formatNat i.natAbs).head? ≠ some 0x2D := by
      rw [hcons, List.head?_cons]
      rintro ⟨⟩
      cases hb
    rw [if_neg hne, digitsValue_formatNat]
    omega

theorem parse_signed (secret : GoString) (claims : Claims) (now : Int) :
    parseWithClaims secret (signedString secret claims) now =
      if now < claims.expiresAt * nanoseconds then some claims else none := by
  unfold parseWithClaims signedString
  simp only [cut_field (dot_notMem_formatInt _), cut_field (dot_notMem_encodeHex _),
    decodeHex_encodeHex, readInt_formatInt, if_true]
  rw [accept, dif_pos ⟨claims.inRange, claims.emailValid, claims.roleValid⟩]

end PlainTokens

/-- The library of these tokens. -/
def plainTokens : JWT := ⟨PlainTokens.signedString, PlainTokens.parseWithClaims, PlainTokens.parse_signed⟩

end UniLLM.Accounts
