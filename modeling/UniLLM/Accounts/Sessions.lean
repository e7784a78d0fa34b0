import UniLLM.Accounts.Steps

/-!
# Sessions and passwords

A token is issued to whoever registers, or logs in with the password of an account; it is
believed until it expires, whatever becomes of the password.  Roles are in the table of users
only, and no request writes them.

That a token cannot be made without the secret is not a fact about one call of a library, so it
is a condition on the log of a run: what was accepted had been issued.
-/

namespace UniLLM.Accounts
open Go Transition Middleware
open Billing (GoInt)

variable (svc : AuthService)

/-- The requests so far with their answers. -/
abbrev Log := List (Action × Answer)

/-- A request that is answered with a token for the user. -/
inductive Opens (s : State) (u : Account) (now : Int) : Action → Prop
  | logsIn (input : LoginInput) (found : findByEmail s.users input.email.val = some u)
    (password : svc.bcrypt.compareHashAndPassword u.passwordHash input.password = true) :
    Opens s u now (.login (.ok input) (.ok ()) now)
  | registers (n : Nat) (salt : GoString) (id : GoInt) (createdAt : Int) (input : RegisterInput)
    (hash : GoString) (pending : s.pending n = some (.createUser input))
    (account : u = newAccount input hash id createdAt) :
    Opens s u now (.createUser n salt (.ok (id, createdAt)) now)

/-- The header and the time of a request that needs a token. -/
def presented : Action → Option (GoString × Int)
  | .dashboard authorization now _ => some (authorization, now)
  | .admin authorization now _ => some (authorization, now)
  | _ => none

/-- Every token that was accepted had been issued before. -/
def NoForgery (l : Log) : Prop :=
  ∀ before e after authorization now claims, l = before ++ e :: after →
    presented e.1 = some (authorization, now) →
    jwtAuth svc.issuer authorization now = .ok claims →
    ∃ e' ∈ before, ∃ status token user, e'.2 = .authResponse status token user ∧
      authorization = bearer token

variable {svc} {s s' : State} {a : Action} {o : Answer} {as : List Action} {seeds : List Account}

theorem bearer_injective {token token' : GoString} (h : bearer token = bearer token') :
    token = token' := List.append_cancel_left h

/-- A token is issued to the user whose session opens. -/
theorem opens_of_authResponse {status : Int} {token : GoString} {user : Billing.Dashboard.User}
    (h : serve svc s a = some (s', .authResponse status token user)) :
    ∃ u now, Opens svc s u now a ∧ token = svc.issuer.generate u.identity now := by
  cases serve_step h with
  | logsIn input u now hfound hpassword => exact ⟨u, now, .logsIn input hfound hpassword, rfl⟩
  | creates n salt id createdAt now input hash hpending hhash hnew =>
    exact ⟨_, now, .registers n salt id createdAt input hash hpending rfl, rfl⟩
  | reads _ _ hquiet => cases hquiet
  | drops _ _ _ hquiet _ => cases hquiet
  | changesBalance _ _ _ _ _ _ _ hquiet => cases hquiet

/-- The headers with the tokens that an answer issues. -/
def issuedTokens : Answer → List GoString
  | .authResponse _ token _ => [bearer token]
  | _ => []

/-- Of a log at hand one can see that nothing was forged. -/
def honest (svc : AuthService) : List GoString → Log → Bool
  | _, [] => true
  | known, e :: l =>
    ((presented e.1).all fun p =>
        (jwtAuth svc.issuer p.1 p.2).toOption.isNone || known.contains p.1) &&
      honest svc (issuedTokens e.2 ++ known) l

theorem known_of_honest {known : List GoString} {l : Log} (h : honest svc known l = true)
    {before after : Log} {e : Action × Answer} {authorization : GoString} {now : Int}
    {claims : Claims} (hl : l = before ++ e :: after)
    (hpresented : presented e.1 = some (authorization, now))
    (hauth : jwtAuth svc.issuer authorization now = .ok claims) :
    authorization ∈ known ∨ ∃ e' ∈ before, authorization ∈ issuedTokens e'.2 := by
  induction l generalizing known before with
  | nil => simp at hl
  | cons e₀ l ih =>
    rw [honest, Bool.and_eq_true] at h
    cases before with
    | nil =>
      obtain ⟨rfl, rfl⟩ := List.cons.inj hl
      have hfirst := h.1
      rw [hpresented, Option.all_some, hauth, Bool.or_eq_true] at hfirst
      obtain hnone | hmem := hfirst
      · cases hnone
      · exact .inl (List.contains_iff_mem.mp hmem)
    | cons e₁ before =>
      rw [List.cons_append, List.cons.injEq] at hl
      obtain ⟨rfl, hl⟩ := hl
      obtain hknown | ⟨e', he', hissued⟩ := ih h.2 hl
      · obtain hnew | hknown := List.mem_append.mp hknown
        · exact .inr ⟨e₀, List.mem_cons_self, hnew⟩
        · exact .inl hknown
      · exact .inr ⟨e', List.mem_cons_of_mem _ he', hissued⟩

theorem noForgery_of_honest {l : Log} (h : honest svc [] l = true) : NoForgery svc l := by
  intro before e after authorization now claims hl hpresented hauth
  obtain hnone | ⟨e', he', hissued⟩ := known_of_honest h hl hpresented hauth
  · cases hnone
  · cases hanswer : e'.2 with
    | authResponse status token user =>
      rw [hanswer] at hissued
      exact ⟨e', he', status, token, user, hanswer, List.mem_singleton.mp hissued⟩
    | _ =>
      rw [hanswer] at hissued
      cases hissued

/-! ### Sessions -/

/-- The token of a request that is accepted was issued when a session opened. -/
theorem exists_session (pre post : List Action) {authorization : GoString} {now : Int}
    {claims : Claims} (hexec : exec (stepOf (serve svc)) (start seeds) (pre ++ a :: post) = some s)
    (hforge : NoForgery svc (log (serve svc) (start seeds) (pre ++ a :: post)))
    (hpresented : presented a = some (authorization, now))
    (hauth : jwtAuth svc.issuer authorization now = .ok claims) :
    ∃ pre₁ a₁ pre₂ s₁ u issued, pre = pre₁ ++ a₁ :: pre₂ ∧
      exec (stepOf (serve svc)) (start seeds) pre₁ = some s₁ ∧ Opens svc s₁ u issued a₁ ∧
      authorization = bearer (svc.issuer.generate u.identity issued) ∧
      claims = u.identity.claims issued ∧ now < expiry issued := by
  rw [exec_append, Option.bind_eq_some_iff] at hexec
  obtain ⟨s₂, hpre, hrest⟩ := hexec
  obtain ⟨s₃, hs₃, -⟩ := exec_cons_eq_some.mp hrest
  obtain ⟨o, hserve⟩ := stepOf_eq_some.mp hs₃
  obtain ⟨e, hmem, status, token, user, hanswer, rfl⟩ :=
    hforge _ _ _ authorization now claims (log_split hpre hserve) hpresented hauth
  obtain ⟨before, after, hlog⟩ := List.append_of_mem hmem
  obtain ⟨a₁, o₁⟩ := e
  obtain rfl : o₁ = _ := hanswer
  obtain ⟨pre₁, pre₂, s₁, s₁', rfl, hpre₁, hissues, -⟩ := split_log hpre hlog
  obtain ⟨u, issued, hopens, rfl⟩ := opens_of_authResponse hissues
  obtain ⟨token', htoken, hparse⟩ := jwtAuth_eq_ok.mp hauth
  obtain rfl := bearer_injective htoken
  obtain ⟨hnow, hclaims⟩ := parse_generate.mp hparse
  exact ⟨pre₁, a₁, pre₂, s₁, u, issued, rfl, hpre₁, hopens, rfl, hclaims.symm, hnow⟩

/-- **Who a request acts for.**  In a run without forged tokens, a request whose token is
accepted names the account of a session that was opened before, by a login with its password
or by its registration, less than 72 hours ago. -/
theorem session_of_accepted (pre post : List Action) {authorization : GoString} {now : Int}
    {claims : Claims} (hexec : exec (stepOf (serve svc)) (start seeds) (pre ++ a :: post) = some s)
    (hforge : NoForgery svc (log (serve svc) (start seeds) (pre ++ a :: post)))
    (hpresented : presented a = some (authorization, now))
    (hauth : jwtAuth svc.issuer authorization now = .ok claims) :
    ∃ pre₁ a₁ pre₂ s₁ u issued, pre = pre₁ ++ a₁ :: pre₂ ∧
      exec (stepOf (serve svc)) (start seeds) pre₁ = some s₁ ∧ Opens svc s₁ u issued a₁ ∧
      claims = u.identity.claims issued ∧ now < expiry issued := by
  obtain ⟨pre₁, a₁, pre₂, s₁, u, issued, hsplit, hpre₁, hopens, -, hclaims, hnow⟩ :=
    exists_session pre post hexec hforge hpresented hauth
  exact ⟨pre₁, a₁, pre₂, s₁, u, issued, hsplit, hpre₁, hopens, hclaims, hnow⟩

/-- The admin logs in and looks at the users; the user logs in and changes the password. -/
def oneDay : List Action :=
  [.login (.ok ⟨⟨lit "ann@x", ann_valid.emailValid⟩, lit "first"⟩) (.ok ()) 0,
    .admin annToken 5 (.listUsers (.ok ())),
    .login (.ok ⟨⟨lit "bob@x", bob_valid.emailValid⟩, lit "second"⟩) (.ok ()) 0,
    .dashboard bobToken 6 (.changePassword 0 (.ok ⟨lit "second", lit "password9"⟩) (.ok ())),
    .writePassword 0 (lit "salt") (.ok ())]

theorem honest_oneDay :
    honest smallService [] (log (serve smallService) (start twoUsers) oneDay) = true := by
  decide +kernel

theorem runs_oneDay : (exec (stepOf (serve smallService)) (start twoUsers) oneDay).isSome = true := by
  decide +kernel

/-- The change of the password is asked for in a session of the user. -/
theorem session_of_accepted_oneDay :
    ∃ pre₁ a₁ pre₂ s₁ u issued, oneDay.take 3 = pre₁ ++ a₁ :: pre₂ ∧
      exec (stepOf (serve smallService)) (start twoUsers) pre₁ = some s₁ ∧
      Opens smallService s₁ u issued a₁ ∧ bob.identity.claims 0 = u.identity.claims issued ∧
      6 < expiry issued := by
  obtain ⟨s, hs⟩ := Option.isSome_iff_exists.mp runs_oneDay
  exact session_of_accepted (oneDay.take 3) (oneDay.drop 4) hs (noForgery_of_honest honest_oneDay) rfl
    (jwtAuth_eq_ok.mpr ⟨_, rfl, parse_generate.mpr ⟨by decide, rfl⟩⟩)

/-! ### Roles -/

/-- The account was there from the start, with its email and its role. -/
def Seeded (seeds : List Account) (u : Account) : Prop :=
  ∃ seed ∈ seeds, seed.id = u.id ∧ seed.email = u.email ∧ seed.role = u.role

theorem seeded_updatePassword {users : List Account} {id : Int} {hash : GoString}
    (h : ∀ u ∈ users, u.role = lit "user" ∨ Seeded seeds u) :
    ∀ u ∈ updatePassword users id hash, u.role = lit "user" ∨ Seeded seeds u := by
  intro u hu
  obtain ⟨u₀, hu₀, rfl⟩ := List.mem_map.mp hu
  have hold := h u₀ hu₀
  split
  · exact hold
  · exact hold

theorem seeded_updateBalance {users : List Account} {id : Int} {delta : Rat}
    (h : ∀ u ∈ users, u.role = lit "user" ∨ Seeded seeds u) :
    ∀ u ∈ updateBalance users id delta, u.role = lit "user" ∨ Seeded seeds u := by
  intro u hu
  obtain ⟨u₀, hu₀, rfl⟩ := List.mem_map.mp hu
  have hold := h u₀ hu₀
  split
  · exact hold
  · exact hold

/-- Whoever has another role than `user` has had it from the start. -/
theorem role_of_exec (hexec : exec (stepOf (serve svc)) (start seeds) as = some s) :
    ∀ u ∈ s.users, u.role = lit "user" ∨ Seeded seeds u := by
  refine exec_run_invariant
    (fun _ s => ∀ u ∈ s.users, u.role = lit "user" ∨ Seeded seeds u) ?_ ?_ hexec
  · intro as s₁ a s₂ o _ h hserve
    cases serve_step hserve with
    | creates n salt id createdAt now input hash hpending hhash hnew =>
      intro u hu
      obtain hu | hu := List.mem_append.mp hu
      · exact h u hu
      · rw [List.mem_singleton.mp hu]
        exact .inl rfl
    | writes n salt userID newPassword hash hpending hhash => exact seeded_updatePassword h
    | changesBalance authorization now claims input found o hadmin hquiet =>
      exact seeded_updateBalance h
    | _ => exact h
  · exact fun u hu => .inr ⟨u, hu, rfl, rfl, rfl⟩

theorem adminOnly_eq_ok {claims claims' : Claims} (h : adminOnly claims = .ok claims') :
    claims' = claims ∧ claims.role = lit "admin" := by
  unfold adminOnly at h
  split at h
  · cases h
  · rename_i hrole
    exact ⟨(Except.ok.inj h).symm, not_not.mp hrole⟩

/-- **Who an admin is.**  In a run without forged tokens, a request that the admin pages let
through carries the token of a login, less than 72 hours ago, with the password of an account
that had the role from the start: nobody becomes an admin by requests. -/
theorem admin_of_seed (pre post : List Action) {authorization : GoString} {now : Int}
    {call : AdminCall} {claims : Claims}
    (hexec : exec (stepOf (serve svc)) (start seeds) (pre ++ .admin authorization now call :: post) =
      some s)
    (hforge : NoForgery svc
      (log (serve svc) (start seeds) (pre ++ .admin authorization now call :: post)))
    (hadmin : (jwtAuth svc.issuer authorization now).bind adminOnly = .ok claims) :
    ∃ pre₁ input issued pre₂ s₁ u seed, pre = pre₁ ++ .login (.ok input) (.ok ()) issued :: pre₂ ∧
      exec (stepOf (serve svc)) (start seeds) pre₁ = some s₁ ∧
      findByEmail s₁.users input.email.val = some u ∧
      svc.bcrypt.compareHashAndPassword u.passwordHash input.password = true ∧
      seed ∈ seeds ∧ seed.role = lit "admin" ∧ seed.id = u.id ∧ seed.email = u.email ∧
      claims.userID = seed.id ∧ now < expiry issued := by
  obtain ⟨claims', hauth, hrole⟩ : ∃ claims', jwtAuth svc.issuer authorization now = .ok claims' ∧
      adminOnly claims' = .ok claims := by
    cases hauth : jwtAuth svc.issuer authorization now with
    | error refusal =>
      rw [hauth] at hadmin
      cases hadmin
    | ok claims' =>
      rw [hauth] at hadmin
      exact ⟨claims', rfl, hadmin⟩
  obtain ⟨rfl, hrole⟩ := adminOnly_eq_ok hrole
  obtain ⟨pre₁, a₁, pre₂, s₁, u, issued, rfl, hpre₁, hopens, -, rfl, hnow⟩ :=
    exists_session _ _ hexec hforge rfl hauth
  cases hopens with
  | registers n salt id createdAt input hash hpending haccount =>
    subst haccount
    have hsame : lit "user" = lit "admin" := hrole
    exact absurd hsame (by decide)
  | logsIn input hfound hpassword =>
    obtain huser | ⟨seed, hseed, hid, hemail, hseedRole⟩ :=
      role_of_exec hpre₁ u (List.mem_of_find?_eq_some hfound)
    · exact absurd (huser.symm.trans hrole) (by decide)
    · exact ⟨pre₁, input, issued, pre₂, s₁, u, seed, rfl, hpre₁, hfound, hpassword, hseed,
        hseedRole.trans hrole, hid, hemail, hid.symm, hnow⟩

/-- The list of users is shown in the session of the admin who was there from the start. -/
theorem admin_of_seed_oneDay :
    ∃ pre₁ input issued pre₂ s₁ u seed,
      oneDay.take 1 = pre₁ ++ .login (.ok input) (.ok ()) issued :: pre₂ ∧
      exec (stepOf (serve smallService)) (start twoUsers) pre₁ = some s₁ ∧
      findByEmail s₁.users input.email.val = some u ∧
      smallService.bcrypt.compareHashAndPassword u.passwordHash input.password = true ∧
      seed ∈ twoUsers ∧ seed.role = lit "admin" ∧ seed.id = u.id ∧ seed.email = u.email ∧
      (1 : Int) = seed.id ∧ 5 < expiry issued := by
  obtain ⟨s, hs⟩ := Option.isSome_iff_exists.mp runs_oneDay
  have hauth : jwtAuth smallService.issuer annToken 5 = .ok (ann.identity.claims 0) :=
    jwtAuth_eq_ok.mpr ⟨_, rfl, parse_generate.mpr ⟨by decide, rfl⟩⟩
  have hadmin : (jwtAuth smallService.issuer annToken 5).bind adminOnly =
      .ok (ann.identity.claims 0) := by
    rw [hauth]
    rfl
  exact admin_of_seed (oneDay.take 1) (oneDay.drop 2) hs (noForgery_of_honest honest_oneDay) hadmin

/-! ### Passwords -/

/-- A step that writes the hash of a password into the row of a user. -/
inductive Writes (svc : AuthService) (s : State) : Action → Answer → Int → GoString → Prop
  | registers (n : Nat) (salt : GoString) (id : GoInt) (createdAt now : Int)
    (input : RegisterInput) (hash : GoString) (status : Int) (token : GoString)
    (user : Billing.Dashboard.User) (pending : s.pending n = some (.createUser input))
    (hashed : svc.hashPassword input.password salt = .ok hash) :
    Writes svc s (.createUser n salt (.ok (id, createdAt)) now) (.authResponse status token user)
      id.val hash
  | changes (n : Nat) (salt : GoString) (userID : Int) (newPassword hash : GoString)
    (pending : s.pending n = some (.updatePassword userID newPassword))
    (hashed : svc.hashPassword newPassword salt = .ok hash) :
    Writes svc s (.writePassword n salt (.ok ())) .changed userID hash

/-- No step of the run writes into the row. -/
def Unwritten (svc : AuthService) (s : State) (as : List Action) (userID : Int) : Prop :=
  ∀ pre a post s₁ s₂ o hash, as = pre ++ a :: post → exec (stepOf (serve svc)) s pre = some s₁ →
    serve svc s₁ a = some (s₂, o) → ¬ Writes svc s₁ a o userID hash

/-- The hash that was written last, or was there from the start. -/
def LastWritten (svc : AuthService) (seeds : List Account) (as : List Action) (userID : Int)
    (hash : GoString) : Prop :=
  (∃ u ∈ seeds, u.id = userID ∧ u.passwordHash = hash ∧ Unwritten svc (start seeds) as userID) ∨
    ∃ pre a post s₁ s₂ o, as = pre ++ a :: post ∧
      exec (stepOf (serve svc)) (start seeds) pre = some s₁ ∧
      serve svc s₁ a = some (s₂, o) ∧ Writes svc s₁ a o userID hash ∧
      Unwritten svc s₂ post userID

theorem unwritten_nil {userID : Int} : Unwritten svc s [] userID := by
  intro pre a post s₁ s₂ o hash h
  simp at h

theorem unwritten_concat {userID : Int} {s₁ s₂ : State}
    (hexec : exec (stepOf (serve svc)) s as = some s₁) (hserve : serve svc s₁ a = some (s₂, o)) :
    Unwritten svc s (as ++ [a]) userID ↔
      Unwritten svc s as userID ∧ ∀ hash, ¬ Writes svc s₁ a o userID hash := by
  constructor
  · refine fun h => ⟨fun pre b post t t' o' hash hsplit hpre hb => ?_, fun hash => ?_⟩
    · exact h pre b (post ++ [a]) t t' o' hash (by simp [hsplit]) hpre hb
    · exact h as a [] s₁ s₂ o hash rfl hexec hserve
  · rintro ⟨hbefore, hlast⟩ pre b post t t' o' hash hsplit hpre hb
    obtain ⟨rfl, rfl, rfl⟩ | ⟨post, rfl, rfl⟩ := split_concat hsplit
    · obtain rfl := Option.some.inj (hexec.symm.trans hpre)
      cases hserve.symm.trans hb
      exact hlast hash
    · exact hbefore pre b post t t' o' hash rfl hpre hb

/-- One more step: it writes, or the hash was written last before and it does not write. -/
theorem lastWritten_concat {userID : Int} {hash : GoString}
    (hexec : exec (stepOf (serve svc)) (start seeds) as = some s)
    (hserve : serve svc s a = some (s', o)) :
    LastWritten svc seeds (as ++ [a]) userID hash ↔
      Writes svc s a o userID hash ∨
        LastWritten svc seeds as userID hash ∧ ∀ hash', ¬ Writes svc s a o userID hash' := by
  have hrest : ∀ {pre post : List Action} {b : Action} {s₁ s₂ : State} {o' : Answer},
      as = pre ++ b :: post → exec (stepOf (serve svc)) (start seeds) pre = some s₁ →
      serve svc s₁ b = some (s₂, o') → exec (stepOf (serve svc)) s₂ post = some s := by
    rintro pre post b s₁ s₂ o' rfl hpre hb
    rw [exec_append, hpre, Option.bind_some, exec_cons, stepOf_eq_some.mpr ⟨o', hb⟩,
      Option.bind_some] at hexec
    exact hexec
  constructor
  · rintro (⟨u, hu, hid, hhash, hnone⟩ |
      ⟨pre, b, post, s₁, s₂, o', hsplit, hpre, hb, hwrites, hnone⟩)
    · rw [unwritten_concat hexec hserve] at hnone
      exact .inr ⟨.inl ⟨u, hu, hid, hhash, hnone.1⟩, hnone.2⟩
    · obtain ⟨rfl, rfl, rfl⟩ | ⟨post, rfl, rfl⟩ := split_concat hsplit
      · obtain rfl := Option.some.inj (hexec.symm.trans hpre)
        cases hserve.symm.trans hb
        exact .inl hwrites
      · rw [unwritten_concat (hrest rfl hpre hb) hserve] at hnone
        exact .inr ⟨.inr ⟨pre, b, post, s₁, s₂, o', rfl, hpre, hb, hwrites, hnone.1⟩, hnone.2⟩
  · rintro (hwrites | ⟨⟨u, hu, hid, hhash, hnone⟩ |
      ⟨pre, b, post, s₁, s₂, o', rfl, hpre, hb, hwrites, hnone⟩, hlast⟩)
    · exact .inr ⟨as, a, [], s, s', o, rfl, hexec, hserve, hwrites, unwritten_nil⟩
    · exact .inl ⟨u, hu, hid, hhash, (unwritten_concat hexec hserve).mpr ⟨hnone, hlast⟩⟩
    · exact .inr ⟨pre, b, post ++ [a], s₁, s₂, o', by simp, hpre, hb, hwrites,
        (unwritten_concat (hrest rfl hpre hb) hserve).mpr ⟨hnone, hlast⟩⟩

/-- The unique indexes of the table. -/
structure UniqueUsers (users : List Account) : Prop where
  ids : (users.map fun u => u.id).Nodup
  emails : (users.map fun u => u.email).Nodup

/-- The rows have the hashes that were written last, and a password that waits to be written is
that of a user. -/
structure PasswordInv (svc : AuthService) (seeds : List Account) (as : List Action) (s : State) :
    Prop where
  unique : UniqueUsers s.users
  hashes : ∀ userID hash, (∃ u ∈ s.users, u.id = userID ∧ u.passwordHash = hash) ↔
    LastWritten svc seeds as userID hash
  known : ∀ n userID newPassword, s.pending n = some (.updatePassword userID newPassword) →
    ∃ u ∈ s.users, u.id = userID

theorem passwordInv_start (hseeds : UniqueUsers seeds) :
    PasswordInv svc seeds [] (start seeds) where
  unique := hseeds
  hashes := by
    intro userID hash
    constructor
    · rintro ⟨u, hu, hid, hhash⟩
      exact .inl ⟨u, hu, hid, hhash, unwritten_nil⟩
    · rintro (⟨u, hu, hid, hhash, -⟩ | ⟨pre, a, post, s₁, s₂, o, h, -⟩)
      · exact ⟨u, hu, hid, hhash⟩
      · simp at h
  known := fun n userID newPassword h => by cases h

theorem not_writes_of_quiet (h : o.quiet = true) {userID : Int} {hash : GoString} :
    ¬ Writes svc s a o userID hash := by
  rintro (_ | _) <;> cases h

/-- What waits when a request is done has waited before. -/
theorem pending_of_done {n n' : Nat} {p : Pending} (h : (s.done n).pending n' = some p) :
    s.pending n' = some p := by
  by_cases hsame : n' = n
  · subst hsame
    simp [State.done] at h
  · simpa [State.done, Function.update_of_ne hsame] using h

/-- What waits is the new request, or has waited before. -/
theorem pending_of_wait {n n' : Nat} {p p' : Pending} (h : (s.wait n p).pending n' = some p') :
    (n' = n ∧ p' = p) ∨ s.pending n' = some p' := by
  by_cases hsame : n' = n
  · subst hsame
    simp only [State.wait, Function.update_self, Option.some.injEq] at h
    exact .inl ⟨rfl, h.symm⟩
  · simp only [State.wait, Function.update_of_ne hsame] at h
    exact .inr h

/-- A step that writes no hash, and changes no id, email or hash of a row. -/
theorem PasswordInv.of_map (h : PasswordInv svc seeds as s)
    (hexec : exec (stepOf (serve svc)) (start seeds) as = some s)
    (hserve : serve svc s a = some (s', o)) (hnot : ∀ userID hash, ¬ Writes svc s a o userID hash)
    {f : Account → Account} (hid : ∀ u, (f u).id = u.id) (hemail : ∀ u, (f u).email = u.email)
    (hhash : ∀ u, (f u).passwordHash = u.passwordHash) (husers : s'.users = s.users.map f)
    (hpending : ∀ n userID newPassword, s'.pending n = some (.updatePassword userID newPassword) →
      ∃ u ∈ s.users, u.id = userID) : PasswordInv svc seeds (as ++ [a]) s' where
  unique := by
    have hids : (fun u : Account => u.id) ∘ f = fun u => u.id := funext hid
    have hemails : (fun u : Account => u.email) ∘ f = fun u => u.email := funext hemail
    constructor
    · rw [husers, List.map_map, hids]
      exact h.unique.ids
    · rw [husers, List.map_map, hemails]
      exact h.unique.emails
  hashes := by
    intro userID hash
    rw [lastWritten_concat hexec hserve, ← h.hashes userID hash, husers]
    simp only [hnot, not_false_eq_true, implies_true, and_true, false_or, List.mem_map]
    constructor
    · rintro ⟨_, ⟨u, hu, rfl⟩, hi, hh⟩
      exact ⟨u, hu, (hid u).symm.trans hi, (hhash u).symm.trans hh⟩
    · rintro ⟨u, hu, hi, hh⟩
      exact ⟨f u, ⟨u, hu, rfl⟩, (hid u).trans hi, (hhash u).trans hh⟩
  known := by
    intro n userID newPassword hn
    obtain ⟨u, hu, hi⟩ := hpending n userID newPassword hn
    exact ⟨f u, husers ▸ List.mem_map_of_mem hu, (hid u).trans hi⟩

/-- A step that writes one hash: the row with the id has it, and the others have what they had. -/
theorem hashes_of_write (id : Int) (written : GoString) (h : PasswordInv svc seeds as s)
    (hexec : exec (stepOf (serve svc)) (start seeds) as = some s)
    (hserve : serve svc s a = some (s', o))
    (hwrites : ∀ userID hash, Writes svc s a o userID hash ↔ userID = id ∧ hash = written)
    (hown : ∀ hash, (∃ u ∈ s'.users, u.id = id ∧ u.passwordHash = hash) ↔ hash = written)
    (hothers : ∀ userID, userID ≠ id → ∀ hash,
      (∃ u ∈ s'.users, u.id = userID ∧ u.passwordHash = hash) ↔
        ∃ u ∈ s.users, u.id = userID ∧ u.passwordHash = hash) (userID : Int) (hash : GoString) :
    (∃ u ∈ s'.users, u.id = userID ∧ u.passwordHash = hash) ↔
      LastWritten svc seeds (as ++ [a]) userID hash := by
  rw [lastWritten_concat hexec hserve, ← h.hashes userID hash]
  simp only [hwrites]
  by_cases hid : userID = id
  · subst hid
    simp [hown]
  · simp [hid, hothers userID hid]

theorem PasswordInv.of_creates (h : PasswordInv svc seeds as s)
    (hexec : exec (stepOf (serve svc)) (start seeds) as = some s) {n : Nat} {salt : GoString}
    {id : GoInt} {createdAt now : Int} {input : RegisterInput} {hash : GoString}
    (hserve : serve svc s (.createUser n salt (.ok (id, createdAt)) now) =
      some ({ s.done n with users := s.users ++ [newAccount input hash id createdAt] }, o))
    (hanswer : ∃ status token user, o = .authResponse status token user)
    (hpending : s.pending n = some (.createUser input))
    (hhash : svc.hashPassword input.password salt = .ok hash)
    (hnew : ∀ u ∈ s.users, u.id ≠ id.val ∧ u.email ≠ input.email.val) :
    PasswordInv svc seeds (as ++ [.createUser n salt (.ok (id, createdAt)) now])
      { s.done n with users := s.users ++ [newAccount input hash id createdAt] } where
  unique := by
    constructor
    · rw [List.map_append, List.nodup_append]
      refine ⟨h.unique.ids, List.nodup_singleton _, ?_⟩
      rintro _ hid _ hlast rfl
      obtain ⟨u, hu, hsame⟩ := List.mem_map.mp hid
      exact (hnew u hu).1 (hsame.trans (List.mem_singleton.mp hlast))
    · rw [List.map_append, List.nodup_append]
      refine ⟨h.unique.emails, List.nodup_singleton _, ?_⟩
      rintro _ hemail _ hlast rfl
      obtain ⟨u, hu, hsame⟩ := List.mem_map.mp hemail
      exact (hnew u hu).2 (hsame.trans (List.mem_singleton.mp hlast))
  hashes := by
    obtain ⟨status, token, user, rfl⟩ := hanswer
    refine hashes_of_write id.val hash h hexec hserve ?_ ?_ ?_
    · intro userID hash'
      constructor
      · rintro (⟨_, _, _, _, _, input', _, _, _, _, hpending', hhash'⟩ | _)
        rw [hpending] at hpending'
        cases hpending'
        rw [hhash] at hhash'
        exact ⟨rfl, (Except.ok.inj hhash').symm⟩
      · rintro ⟨rfl, rfl⟩
        exact .registers n salt id createdAt now input _ status token user hpending hhash
    · intro hash'
      constructor
      · rintro ⟨u, hu, hid, rfl⟩
        obtain hu | hu := List.mem_append.mp hu
        · exact absurd hid (hnew u hu).1
        · rw [List.mem_singleton.mp hu]
          rfl
      · rintro rfl
        exact ⟨newAccount input _ id createdAt, by simp, rfl, rfl⟩
    · intro userID hne hash'
      have hlast : (newAccount input hash id createdAt).id ≠ userID := fun hsame => hne hsame.symm
      simp only [List.mem_append, List.mem_singleton, or_and_right, exists_or, exists_eq_left,
        hlast, false_and, or_false]
  known := by
    intro n' userID newPassword hn
    obtain ⟨u, hu, hid⟩ := h.known n' userID newPassword (pending_of_done hn)
    exact ⟨u, List.mem_append_left _ hu, hid⟩

theorem updatePassword_eq_map (users : List Account) (id : Int) (hash : GoString) :
    updatePassword users id hash =
      users.map fun u => { u with passwordHash := if u.id = id then hash else u.passwordHash } := by
  unfold updatePassword
  refine List.map_congr_left fun u _ => ?_
  split <;> rfl

theorem PasswordInv.of_writes (h : PasswordInv svc seeds as s)
    (hexec : exec (stepOf (serve svc)) (start seeds) as = some s) {n : Nat} {salt : GoString}
    {userID : Int} {newPassword hash : GoString}
    (hserve : serve svc s (.writePassword n salt (.ok ())) =
      some ({ s.done n with users := updatePassword s.users userID hash }, .changed))
    (hpending : s.pending n = some (.updatePassword userID newPassword))
    (hhash : svc.hashPassword newPassword salt = .ok hash) :
    PasswordInv svc seeds (as ++ [.writePassword n salt (.ok ())])
      { s.done n with users := updatePassword s.users userID hash } where
  unique := by
    rw [updatePassword_eq_map]
    constructor
    · rw [List.map_map]
      exact h.unique.ids
    · rw [List.map_map]
      exact h.unique.emails
  hashes := by
    refine hashes_of_write userID hash h hexec hserve ?_ ?_ ?_
    · intro userID' hash'
      constructor
      · rintro (_ | ⟨_, _, _, _, _, hpending', hhash'⟩)
        rw [hpending] at hpending'
        cases hpending'
        rw [hhash] at hhash'
        exact ⟨rfl, (Except.ok.inj hhash').symm⟩
      · rintro ⟨rfl, rfl⟩
        exact .changes n salt _ newPassword _ hpending hhash
    · intro hash'
      simp only [updatePassword_eq_map, List.mem_map]
      constructor
      · rintro ⟨_, ⟨u, hu, rfl⟩, hid, rfl⟩
        exact if_pos hid
      · rintro rfl
        obtain ⟨u, hu, hid⟩ := h.known n userID newPassword hpending
        exact ⟨_, ⟨u, hu, rfl⟩, hid, if_pos hid⟩
    · intro userID' hne hash'
      simp only [updatePassword_eq_map, List.mem_map]
      constructor
      · rintro ⟨_, ⟨u, hu, rfl⟩, hid, hsame⟩
        have hother : u.id ≠ userID := fun he => hne (hid.symm.trans he)
        exact ⟨u, hu, hid, by rwa [if_neg hother] at hsame⟩
      · rintro ⟨u, hu, hid, hsame⟩
        have hother : u.id ≠ userID := fun he => hne (hid.symm.trans he)
        exact ⟨_, ⟨u, hu, rfl⟩, hid, by rw [if_neg hother, hsame]⟩
  known := by
    intro n' userID' newPassword' hn
    obtain ⟨u, hu, hid⟩ := h.known n' userID' newPassword' (pending_of_done hn)
    rw [updatePassword_eq_map]
    exact ⟨_, List.mem_map_of_mem hu, hid⟩

theorem PasswordInv.step (h : PasswordInv svc seeds as s)
    (hexec : exec (stepOf (serve svc)) (start seeds) as = some s)
    (hserve : serve svc s a = some (s', o)) : PasswordInv svc seeds (as ++ [a]) s' := by
  -- most steps leave the users alone
  have hsame : ∀ {s' : State} {o : Answer}, serve svc s a = some (s', o) →
      (∀ userID hash, ¬ Writes svc s a o userID hash) → s'.users = s.users →
      (∀ n userID newPassword, s'.pending n = some (.updatePassword userID newPassword) →
        ∃ u ∈ s.users, u.id = userID) → PasswordInv svc seeds (as ++ [a]) s' :=
    fun hserve hnot husers hpending => h.of_map (f := fun u => u) hexec hserve hnot (fun _ => rfl)
      (fun _ => rfl) (fun _ => rfl) (by rw [husers, List.map_id']) hpending
  cases serve_step hserve with
  | reads a o hquiet =>
    exact hsame hserve (fun _ _ => not_writes_of_quiet hquiet) rfl h.known
  | drops a n o hquiet _ =>
    exact hsame hserve (fun _ _ => not_writes_of_quiet hquiet) rfl fun n' userID newPassword hn =>
      h.known n' userID newPassword (pending_of_done hn)
  | logsIn input u now hfound hpassword =>
    exact hsame hserve (fun _ _ => by rintro ⟨⟩) rfl h.known
  | registers n input db hfree =>
    refine hsame hserve (fun _ _ => by rintro ⟨⟩) rfl fun n' userID newPassword hn => ?_
    obtain ⟨-, hp⟩ | hbefore := pending_of_wait hn
    · cases hp
    · exact h.known n' userID newPassword hbefore
  | asks authorization now claims n input u htoken hfree hfound hpassword =>
    refine hsame hserve (fun _ _ => by rintro ⟨⟩) rfl fun n' userID newPassword hn => ?_
    obtain ⟨-, hp⟩ | hbefore := pending_of_wait hn
    · cases hp
      exact ⟨u, List.mem_of_find?_eq_some hfound, by simpa using List.find?_some hfound⟩
    · exact h.known n' userID newPassword hbefore
  | createsKey authorization now claims input random id createdAt htoken hlength hnew =>
    exact hsame hserve (fun _ _ => by rintro ⟨⟩) rfl h.known
  | deletesKey authorization now claims id htoken =>
    exact hsame hserve (fun _ _ => by rintro ⟨⟩) rfl h.known
  | touches keyID now => exact hsame hserve (fun _ _ => by rintro ⟨⟩) rfl h.known
  | creates n salt id createdAt now input hash hpending hhash hnew =>
    exact h.of_creates hexec hserve ⟨_, _, _, rfl⟩ hpending hhash hnew
  | writes n salt userID newPassword hash hpending hhash =>
    exact h.of_writes hexec hserve hpending hhash
  | changesBalance authorization now claims input found o hadmin hquiet =>
    refine h.of_map hexec hserve (fun _ _ => not_writes_of_quiet hquiet) (fun u => ?_) (fun u => ?_)
      (fun u => ?_) rfl h.known
    · split <;> rfl
    · split <;> rfl
    · split <;> rfl

theorem passwordInv_of_exec (hseeds : UniqueUsers seeds)
    (hexec : exec (stepOf (serve svc)) (start seeds) as = some s) :
    PasswordInv svc seeds as s :=
  exec_run_invariant (PasswordInv svc seeds) (fun _ _ _ _ _ hexec h hserve => h.step hexec hserve)
    (passwordInv_start hseeds) hexec

/-- A login looks up the one row with the email, and compares its hash. -/
theorem login_iff (hunique : UniqueUsers s.users) {input : LoginInput}
    (hvalid : input.check svc.isEmail = []) (now : Int) :
    (∃ token user, login svc s (.ok input) (.ok ()) now = .authResponse 200 token user) ↔
      ∃ u ∈ s.users, u.email = input.email.val ∧
        svc.bcrypt.compareHashAndPassword u.passwordHash input.password = true := by
  have hbind : bind (.ok input) (LoginInput.check svc.isEmail) = .ok input :=
    bind_eq_ok.mpr ⟨rfl, hvalid⟩
  unfold login
  rw [hbind]
  constructor
  · rintro ⟨token, user, h⟩
    simp only at h
    split at h
    · rename_i u _ hfound
      split at h
      · rename_i hpassword
        exact ⟨u, List.mem_of_find?_eq_some hfound, by simpa using List.find?_some hfound, hpassword⟩
      · cases h
    · cases h
  · rintro ⟨u, hu, hemail, hpassword⟩
    have hfound : findByEmail s.users input.email.val = some u := by
      cases hfind : findByEmail s.users input.email.val with
      | none =>
        have hnone := List.find?_eq_none.mp hfind u hu
        simp [hemail] at hnone
      | some u' =>
        have hemail' : u'.email = input.email.val := by simpa using List.find?_some hfind
        rw [List.inj_on_of_nodup_map hunique.emails (List.mem_of_find?_eq_some hfind) hu
          (hemail'.trans hemail.symm)]
    simp only [hfound, hpassword, if_true]
    exact ⟨_, _, rfl⟩

/-- **Which password logs in.**  After any run, whatever requests for one account came between
each other's halves: the one that was written last. -/
theorem login_iff_lastWritten (hseeds : UniqueUsers seeds)
    (hexec : exec (stepOf (serve svc)) (start seeds) as = some s) {input : LoginInput}
    (hvalid : input.check svc.isEmail = []) (now : Int) :
    (∃ token user, login svc s (.ok input) (.ok ()) now = .authResponse 200 token user) ↔
      ∃ userID hash, (∃ u ∈ s.users, u.id = userID ∧ u.email = input.email.val) ∧
        LastWritten svc seeds as userID hash ∧
        svc.bcrypt.compareHashAndPassword hash input.password = true := by
  have hinv := passwordInv_of_exec hseeds hexec
  rw [login_iff hinv.unique hvalid]
  constructor
  · rintro ⟨u, hu, hemail, hpassword⟩
    exact ⟨u.id, u.passwordHash, ⟨u, hu, rfl, hemail⟩, (hinv.hashes _ _).mp ⟨u, hu, rfl, rfl⟩,
      hpassword⟩
  · rintro ⟨userID, hash, ⟨u, hu, rfl, hemail⟩, hlast, hpassword⟩
    obtain ⟨u', hu', hid, rfl⟩ := (hinv.hashes _ _).mpr hlast
    obtain rfl := List.inj_on_of_nodup_map hinv.unique.ids hu' hu hid
    exact ⟨u', hu', hemail, hpassword⟩

theorem uniqueUsers_twoUsers : UniqueUsers twoUsers := ⟨by decide, by decide⟩

/-- The user logs in with the new password. -/
theorem login_iff_lastWritten_oneDay :
    ∃ s, exec (stepOf (serve smallService)) (start twoUsers) oneDay = some s ∧
      ∃ userID hash, (∃ u ∈ s.users, u.id = userID ∧ u.email = lit "bob@x") ∧
        LastWritten smallService twoUsers oneDay userID hash ∧
        smallService.bcrypt.compareHashAndPassword hash (lit "password9") = true := by
  have hlogin : (exec (stepOf (serve smallService)) (start twoUsers) oneDay).any (fun s =>
      s.users.any fun u => decide (u.email = lit "bob@x" ∧
        smallService.bcrypt.compareHashAndPassword u.passwordHash (lit "password9") = true)) =
      true := by
    decide +kernel
  obtain ⟨s, hs, hlogin⟩ := (Option.any_eq_true _ _).mp hlogin
  obtain ⟨u, hu, hboth⟩ := List.any_eq_true.mp hlogin
  obtain ⟨hemail, hpassword⟩ := of_decide_eq_true hboth
  have hvalid : LoginInput.check smallService.isEmail
      ⟨⟨lit "bob@x", bob_valid.emailValid⟩, lit "password9"⟩ = [] := by decide
  have hlogs := (login_iff (passwordInv_of_exec uniqueUsers_twoUsers hs).unique hvalid 7).mpr
    ⟨u, hu, hemail, hpassword⟩
  exact ⟨s, hs, (login_iff_lastWritten uniqueUsers_twoUsers hs hvalid 7).mp hlogs⟩

/-! ### Who changes a password -/

/-- A request for another password came with a token of the user and with the password the user
had then. -/
def Asked (svc : AuthService) (seeds : List Account) (as : List Action) (n : Nat) (userID : Int)
    (newPassword : GoString) : Prop :=
  ∃ pre authorization now input post s₀ claims u,
    as = pre ++ .dashboard authorization now (.changePassword n (.ok input) (.ok ())) :: post ∧
    exec (stepOf (serve svc)) (start seeds) pre = some s₀ ∧
    jwtAuth svc.issuer authorization now = .ok claims ∧ claims.userID = userID ∧
    findByID s₀.users userID = some u ∧
    svc.bcrypt.compareHashAndPassword u.passwordHash input.oldPassword = true ∧
    input.newPassword = newPassword

theorem Asked.concat {n : Nat} {userID : Int} {newPassword : GoString}
    (h : Asked svc seeds as n userID newPassword) (a : Action) :
    Asked svc seeds (as ++ [a]) n userID newPassword := by
  obtain ⟨pre, authorization, now, input, post, s₀, claims, u, rfl, hrest⟩ := h
  exact ⟨pre, authorization, now, input, post ++ [a], s₀, claims, u, by simp, hrest⟩

/-- A password that waits to be written was asked for. -/
theorem asked_of_pending (hexec : exec (stepOf (serve svc)) (start seeds) as = some s) :
    ∀ n userID newPassword, s.pending n = some (.updatePassword userID newPassword) →
      Asked svc seeds as n userID newPassword := by
  refine exec_run_invariant (fun as s => ∀ n userID newPassword,
    s.pending n = some (.updatePassword userID newPassword) →
      Asked svc seeds as n userID newPassword) ?_ ?_ hexec
  · intro as s₁ a s₂ o hs₁ h hserve n userID newPassword hn
    cases serve_step hserve with
    | registers n' input db hfree =>
      obtain ⟨-, hp⟩ | hbefore := pending_of_wait hn
      · cases hp
      · exact (h n userID newPassword hbefore).concat _
    | asks authorization now claims n' input u htoken hfree hfound hpassword =>
      obtain ⟨rfl, hp⟩ | hbefore := pending_of_wait hn
      · cases hp
        exact ⟨as, authorization, now, input, [], s₁, claims, u, rfl, hs₁, htoken, rfl, hfound,
          hpassword, rfl⟩
      · exact (h n userID newPassword hbefore).concat _
    | creates n' salt id createdAt now input hash hpending hhash hnew =>
      exact (h n userID newPassword (pending_of_done hn)).concat _
    | writes n' salt userID' newPassword' hash hpending hhash =>
      exact (h n userID newPassword (pending_of_done hn)).concat _
    | drops a n' o hquiet _ => exact (h n userID newPassword (pending_of_done hn)).concat _
    | _ => exact (h n userID newPassword hn).concat _
  · intro n userID newPassword hn
    cases hn

/-- Only the second half of a change of the password changes the hash of a row. -/
theorem changed_of_step (hunique : UniqueUsers s.users) (hserve : serve svc s a = some (s', o))
    {u u' : Account} (hu : u ∈ s.users) (hu' : u' ∈ s'.users) (hid : u'.id = u.id)
    (hchanged : u'.passwordHash ≠ u.passwordHash) :
    ∃ n salt newPassword, s.pending n = some (.updatePassword u.id newPassword) ∧
      svc.hashPassword newPassword salt = .ok u'.passwordHash := by
  have hkept : ∀ {v : Account}, v ∈ s.users → v.id = u'.id → v.passwordHash ≠ u'.passwordHash := by
    intro v hv hsame hhash
    rw [List.inj_on_of_nodup_map hunique.ids hv hu (hsame.trans hid)] at hhash
    exact hchanged hhash.symm
  cases serve_step hserve with
  | creates n salt id createdAt now input hash hpending hhash hnew =>
    obtain hu' | hu' := List.mem_append.mp hu'
    · exact absurd rfl (hkept hu' rfl)
    · rw [List.mem_singleton.mp hu'] at hid
      exact absurd hid.symm (hnew u hu).1
  | writes n salt userID newPassword hash hpending hhash =>
    simp only [updatePassword_eq_map, List.mem_map] at hu'
    obtain ⟨v, hv, rfl⟩ := hu'
    by_cases hown : v.id = userID
    · have howner : userID = u.id := hown.symm.trans hid
      rw [howner] at hpending
      refine ⟨n, salt, newPassword, hpending, ?_⟩
      simpa [hown] using hhash
    · exact absurd (if_neg hown).symm (hkept hv rfl)
  | changesBalance authorization now claims input found o hadmin hquiet =>
    obtain ⟨v, hv, rfl⟩ := List.mem_map.mp hu'
    refine absurd ?_ (hkept hv ?_)
    · split <;> rfl
    · split <;> rfl
  | _ => exact absurd rfl (hkept hu' rfl)

/-- **Who changes a password.**  In a run without forged tokens, if a step changes the hash of a
user's row, then the user had opened a session, and within its 72 hours a request that was let in
with the token of that session and gave the password of that moment asked for the password that is
written. -/
theorem changed_by_owner (hseeds : UniqueUsers seeds) (pre post : List Action) {s₁ s₂ : State}
    (hexec : exec (stepOf (serve svc)) (start seeds) (pre ++ a :: post) = some s)
    (hforge : NoForgery svc (log (serve svc) (start seeds) (pre ++ a :: post)))
    (hpre : exec (stepOf (serve svc)) (start seeds) pre = some s₁)
    (hserve : serve svc s₁ a = some (s₂, o)) {u u' : Account} (hu : u ∈ s₁.users)
    (hu' : u' ∈ s₂.users) (hid : u'.id = u.id) (hchanged : u'.passwordHash ≠ u.passwordHash) :
    ∃ pre₀ a₀ mid s₀ owner issued authorization now n input pre₂ sₙ uₙ salt,
      pre = (pre₀ ++ a₀ :: mid) ++
        .dashboard authorization now (.changePassword n (.ok input) (.ok ())) :: pre₂ ∧
      exec (stepOf (serve svc)) (start seeds) pre₀ = some s₀ ∧ Opens svc s₀ owner issued a₀ ∧
      owner.id = u.id ∧ authorization = bearer (svc.issuer.generate owner.identity issued) ∧
      jwtAuth svc.issuer authorization now = .ok (owner.identity.claims issued) ∧
      now < expiry issued ∧
      exec (stepOf (serve svc)) (start seeds) (pre₀ ++ a₀ :: mid) = some sₙ ∧
      findByID sₙ.users u.id = some uₙ ∧
      svc.bcrypt.compareHashAndPassword uₙ.passwordHash input.oldPassword = true ∧
      svc.hashPassword input.newPassword salt = .ok u'.passwordHash := by
  obtain ⟨n, salt, newPassword, hpending, hhash⟩ :=
    changed_of_step (passwordInv_of_exec hseeds hpre).unique hserve hu hu' hid hchanged
  obtain ⟨pre₁, authorization, now, input, pre₂, sₙ, claims, uₙ, rfl, hpre₁, hauth, howner, hfound,
    hpassword, rfl⟩ := asked_of_pending hpre n u.id newPassword hpending
  rw [List.append_assoc, List.cons_append] at hexec hforge
  obtain ⟨pre₀, a₀, mid, s₀, owner, issued, rfl, hpre₀, hopens, htoken, rfl, hnow⟩ :=
    exists_session _ _ hexec hforge rfl hauth
  exact ⟨pre₀, a₀, mid, s₀, owner, issued, authorization, now, n, input, pre₂, sₙ, uₙ, salt, rfl,
    hpre₀, hopens, howner, htoken, hauth, hnow, hpre₁, hfound, hpassword, hhash⟩

/-- The new hash was asked for in the session of the user. -/
theorem changed_by_owner_oneDay :
    ∃ (u u' : Account) (pre₀ : List Action) (a₀ : Action) (mid : List Action) (s₀ : State)
      (owner : Account) (issued : Int) (authorization : GoString) (now : Int) (n : Nat)
      (input : ChangePasswordInput) (pre₂ : List Action) (sₙ : State) (uₙ : Account)
      (salt : GoString), oneDay.take 4 = (pre₀ ++ a₀ :: mid) ++
        .dashboard authorization now (.changePassword n (.ok input) (.ok ())) :: pre₂ ∧
      exec (stepOf (serve smallService)) (start twoUsers) pre₀ = some s₀ ∧
      Opens smallService s₀ owner issued a₀ ∧ owner.id = u.id ∧
      authorization = bearer (smallService.issuer.generate owner.identity issued) ∧
      jwtAuth smallService.issuer authorization now = .ok (owner.identity.claims issued) ∧
      now < expiry issued ∧
      exec (stepOf (serve smallService)) (start twoUsers) (pre₀ ++ a₀ :: mid) = some sₙ ∧
      findByID sₙ.users u.id = some uₙ ∧
      smallService.bcrypt.compareHashAndPassword uₙ.passwordHash input.oldPassword = true ∧
      smallService.hashPassword input.newPassword salt = .ok u'.passwordHash := by
  have hruns : (exec (stepOf (serve smallService)) (start twoUsers) (oneDay.take 4)).any (fun s₁ =>
      (serve smallService s₁ (.writePassword 0 (lit "salt") (.ok ()))).any fun r =>
        s₁.users.any fun u => r.1.users.any fun u' =>
          decide (u'.id = u.id ∧ u'.passwordHash ≠ u.passwordHash)) = true := by
    decide +kernel
  obtain ⟨s₁, hs₁, hruns⟩ := (Option.any_eq_true _ _).mp hruns
  obtain ⟨⟨s₂, o⟩, hserve, hruns⟩ := (Option.any_eq_true _ _).mp hruns
  obtain ⟨u, hu, hruns⟩ := List.any_eq_true.mp hruns
  obtain ⟨u', hu', hboth⟩ := List.any_eq_true.mp hruns
  obtain ⟨hid, hchanged⟩ := of_decide_eq_true hboth
  obtain ⟨s, hs⟩ := Option.isSome_iff_exists.mp runs_oneDay
  exact ⟨u, u', changed_by_owner uniqueUsers_twoUsers (oneDay.take 4) [] hs
    (noForgery_of_honest honest_oneDay) hs₁ hserve hu hu' hid hchanged⟩

end UniLLM.Accounts
