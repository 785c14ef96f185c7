import FlashWallet.Proof.AuthServed

/-!
# Calls of the authentication service as machines

`Stage` follows a call from outside, `May` says what it may issue at which stage, `Stage.next` what a
reply makes of it. A refresh looks its token up (`verified`), finds it (`held`) or does not (`missed`);
what it finds it deletes (`rotating`) before it goes on to issue a pair, as a login does. Between `held`
and `stored` a rotation is under way of which Redis shows nothing.
-/

set_option autoImplicit false

namespace FlashWallet.Auth

open Lib

variable {env : Settings}

/-- A token that was presented, and what it says. -/
structure Presented where
  token : String
  payload : RefreshTokenPayload
deriving DecidableEq, Repr

def Presented.key (s : Presented) : String := refreshKey s.payload.sub s.payload.jti

inductive Stage where
  | entered (r : Request)
  | verified (s : Presented)
  | missed (s : Presented)
  | listed (s : Presented) (keys : List String)
  | revoked (s : Presented)
  | held (s : Presented)
  | rotating (s : Presented)
  | issuing (source : Option Presented) (sub : Uuid)
  | named (source : Option Presented) (sub jti : Uuid)
  | signed (source : Option Presented) (sub jti : Uuid) (token : String)
  | stored (source : Option Presented) (sub jti : Uuid) (token : String)
  | leaving (s : Presented)
  | left (s : Presented)
  | rejected (token : String)
  | lost
deriving DecidableEq, Repr

namespace Stage

/-- Where a reply leads. -/
def next : Stage → (o : Stmt) → Except Err o.Reply → Stage
  | .entered _, .verifyRefresh token false, .ok payload => .verified ⟨token, payload⟩
  | .entered _, .verifyRefresh token true, .ok payload => .leaving ⟨token, payload⟩
  | .entered _, .verifyRefresh token _, .error _ => .rejected token
  | .entered _, .signAccess payload _, .ok _ => .issuing none payload.sub
  | .entered r, _, .ok _ => .entered r
  | .verified s, .redisGet _, .ok found => if AuthService.truthy found then .held s else .missed s
  | .missed s, .redisKeys _, .ok (keys : List String) => if 0 < keys.length then .listed s keys else .revoked s
  | .listed s _, .redisDel _, .ok _ => .revoked s
  | .held s, .redisDel _, .ok _ => .rotating s
  | .rotating s, .userFindById _, .ok _ => .rotating s
  | .rotating s, .signAccess payload _, .ok _ => .issuing (some s) payload.sub
  | .issuing source sub, .randomUUID, .ok (jti : Uuid) => .named source sub jti
  | .named source sub jti, .signRefresh _ _, .ok (token : String) => .signed source sub jti token
  | .signed source sub jti token, .redisSet .., .ok _ => .stored source sub jti token
  | .leaving s, .redisDel _, .ok _ => .left s
  | _, _, _ => .lost

/-- The identifier drawn for a session that is not written yet. -/
def pending : Stage → Option Uuid
  | .named _ _ jti => some jti
  | .signed _ _ jti _ => some jti
  | _ => none

/-- The session a token has been signed for, and the token. -/
def minted : Stage → Option (Uuid × Uuid × String)
  | .signed _ sub jti token => some (sub, jti, token)
  | .stored _ sub jti token => some (sub, jti, token)
  | _ => none

/-- The session the call has written. -/
def saved : Stage → Option Uuid
  | .stored _ _ jti _ => some jti
  | _ => none

/-- The token the call was asked about, once it is known to be genuine. -/
def presented : Stage → Option Presented
  | .verified s | .missed s | .listed s _ | .revoked s | .held s | .rotating s | .leaving s | .left s =>
    some s
  | .issuing source _ | .named source _ _ | .signed source _ _ _ | .stored source _ _ _ => source
  | _ => none

/-- The request the stage belongs to, as far as it tells. -/
def asked : Stage → Option Request
  | .entered r => some r
  | .verified s | .missed s | .listed s _ | .revoked s | .held s | .rotating s => some (.refresh s.token)
  | .issuing source _ | .named source _ _ | .signed source _ _ _ | .stored source _ _ _ =>
    source.map fun s => .refresh s.token
  | .leaving s | .left s => some (.logout s.token)
  | .rejected _ | .lost => none

/-- The token the call has found in Redis in order to issue another. -/
def claims : Stage → Option Presented
  | .held s | .rotating s => some s
  | .issuing source _ | .named source _ _ | .signed source _ _ _ | .stored source _ _ _ => source
  | _ => none

/-- The token the call has found and deleted. -/
def spends : Stage → Option Presented
  | .rotating s => some s
  | .issuing source _ | .named source _ _ | .signed source _ _ _ | .stored source _ _ _ => source
  | _ => none

end Stage

/-- What a call at a stage may issue. -/
inductive May (env : Settings) : Stage → Stmt → Prop where
  | findEmail (r : Request) (email : String) : May env (.entered r) (.userFindByEmail email)
  | hash (r : Request) (password : String) : May env (.entered r) (.bcryptHash password)
  | compare (r : Request) (password hash : String) : May env (.entered r) (.bcryptCompare password hash)
  | createUser (r : Request) (email password : String) : May env (.entered r) (.userCreate email password)
  | createWallet (r : Request) (userId : Uuid) : May env (.entered r) (.walletCreate userId)
  | commit (r : Request) : May env (.entered r) .commit
  | rollback : May env .lost .rollback
  | enter (r : Request) (payload : AccessTokenPayload) : May env (.entered r) (.signAccess payload env.accessTtl)
  | verify (token : String) : May env (.entered (.refresh token)) (.verifyRefresh token false)
  | verifyLate (token : String) : May env (.entered (.logout token)) (.verifyRefresh token true)
  | look (s : Presented) : May env (.verified s) (.redisGet s.key)
  | list (s : Presented) : May env (.missed s) (.redisKeys (refreshPattern s.payload.sub))
  | revoke (s : Presented) (keys : List String) : May env (.listed s keys) (.redisDel keys)
  | spend (s : Presented) : May env (.held s) (.redisDel [s.key])
  | findUser (s : Presented) : May env (.rotating s) (.userFindById s.payload.sub)
  | renew (s : Presented) (role : Role) :
      May env (.rotating s) (.signAccess ⟨s.payload.sub, role⟩ env.accessTtl)
  | draw (source : Option Presented) (sub : Uuid) : May env (.issuing source sub) .randomUUID
  | sign (source : Option Presented) (sub jti : Uuid) :
      May env (.named source sub jti) (.signRefresh ⟨sub, jti⟩ env.refreshTtl)
  | store (source : Option Presented) (sub jti : Uuid) (token : String) (seconds : Nat)
      (ttl : ttlToSeconds env.refreshTtl = .ok seconds) :
      May env (.signed source sub jti token) (.redisSet (refreshKey sub jti) "1" seconds)
  | leave (s : Presented) : May env (.leaving s) (.redisDel [s.key])

section

variable {g : Stage}

theorem May.look_inv {key : String} (may : May env g (.redisGet key)) :
    ∃ s, g = .verified s ∧ key = s.key := by
  cases may with
  | look s => exact ⟨s, rfl, rfl⟩

theorem May.list_inv {pattern : String} (may : May env g (.redisKeys pattern)) :
    ∃ s, g = .missed s ∧ pattern = refreshPattern s.payload.sub := by
  cases may with
  | list s => exact ⟨s, rfl, rfl⟩

theorem May.store_inv {key value : String} {seconds : Nat} (may : May env g (.redisSet key value seconds)) :
    ∃ source sub jti token, g = .signed source sub jti token ∧ key = refreshKey sub jti ∧ value = "1" ∧
      ttlToSeconds env.refreshTtl = .ok seconds := by
  cases may with
  | store source sub jti token seconds ttl => exact ⟨source, sub, jti, token, rfl, rfl, rfl, ttl⟩

end

/-- Stages at which a call may end without having done anything more. -/
def Stage.Gives : Stage → Prop
  | .entered _ | .rotating _ | .signed .. | .lost => True
  | _ => False

/-- At which stage a request ends how. -/
inductive Outcome : Request → Except Err Response → Stage → Prop where
  | registered (dto : RegisterDto) (sub jti : Uuid) (access token : String) :
      Outcome (.register dto) (.ok (.tokens ⟨access, token⟩)) (.stored none sub jti token)
  | loggedIn (dto : LoginDto) (sub jti : Uuid) (access token : String) :
      Outcome (.login dto) (.ok (.tokens ⟨access, token⟩)) (.stored none sub jti token)
  | refreshed (s : Presented) (jti : Uuid) (access token : String) :
      Outcome (.refresh s.token) (.ok (.tokens ⟨access, token⟩)) (.stored (some s) s.payload.sub jti token)
  | revoked (s : Presented) :
      Outcome (.refresh s.token) (.error AuthService.reuseDetected) (.revoked s)
  | loggedOut (s : Presented) : Outcome (.logout s.token) (.ok .loggedOut) (.left s)
  | refusedRefresh (token : String) : Outcome (.refresh token)
      (.error (.unauthorized "Invalid or expired refresh token")) (.rejected token)
  | refusedLogout (token : String) : Outcome (.logout token)
      (.error (.unauthorized "Invalid or expired refresh token")) (.rejected token)
  | gaveUp (r : Request) (e : Err) (g : Stage) (gives : g.Gives) (unrelated : e ≠ AuthService.reuseDetected) :
      Outcome r (.error e) g

/-- What a reply says by itself. -/
def Stmt.Tells : (o : Stmt) → Except Err o.Reply → Prop
  | .userFindById id, .ok (some (user : User)) => user.id = id
  | _, .error e => ∀ message, e ≠ .unauthorized message
  | _, _ => True

def machine (env : Settings) : Machine sql Err Stage where
  may := May env
  next := Stage.next
  tells := Stmt.Tells

def stages (env : Settings) : Platform.Stages sql Err Response Request Stage where
  machine := machine env
  start := .entered
  cut := .lost
  ends := Outcome

theorem World.tells_served {ms : String → Option Nat} {i : Nat} {w w' : World} {o : Stmt}
    {r : Except Err o.Reply} (hs : Served ms i w o r w') : o.Tells r := by
  cases hs with
  | read o v answer =>
    cases o with
    | userFindById id =>
      obtain rfl := Option.some.inj answer
      cases hfound : w.users.find? (·.id = id) with
      | none => trivial
      | some user =>
        have hid : user.id = id := by simpa using List.find?_some hfound
        exact hid
    | _ => trivial
  | refused o e reason =>
    have htold : ∀ message, e ≠ .unauthorized message := by
      cases o with
      | userCreate => cases reason; nofun
      | walletCreate => rcases reason with rfl | rfl <;> nofun
      | signAccess | signRefresh | redisSet => obtain ⟨-, message, rfl⟩ := reason; nofun
      | verifyRefresh => obtain ⟨⟨message, rfl⟩, -⟩ := reason; nofun
      | _ => exact reason.elim
    cases o <;> exact htold
  | failed o => cases o <;> nofun
  | commitFailed => nofun
  | _ => trivial

/-- A call that throws `e` at stage `g` gives up. -/
def GivesUp {α : Type} : Except Err α → Stage → Prop
  | .ok _, _ => False
  | .error e, g => g.Gives ∧ e ≠ AuthService.reuseDetected

theorem unrelated_of_tells {o : Stmt} {e : Err} (h : o.Tells (.error e)) :
    e ≠ AuthService.reuseDetected := by
  have htold : ∀ message, e ≠ .unauthorized message := by cases o <;> exact h
  exact htold _

section

variable {α β : Type} {g : Stage}

/-- A statement whose failure ends the call. -/
theorem stages_issue {Q : Except Err β → Stage → Prop} {o : Stmt} {f : o.Reply → Service β}
    (hmay : May env g o) (hlost : ∀ e, g.next o (.error e) = .lost)
    (hQ : ∀ e, e ≠ AuthService.reuseDetected → Q (.error e) .lost)
    (hok : ∀ v, o.Tells (.ok v) → (f v).Keeps (machine env).discipline Q (g.next o (.ok v))) :
    ((issue o).bind f).Keeps (machine env).discipline Q g := by
  refine Machine.keeps_issue (M := machine env) hmay hok fun e htells => ?_
  show Q (.error e) (g.next o (.error e))
  rw [hlost e]
  exact hQ e (unrelated_of_tells htells)

end

namespace AuthService

/-- What is left of a call that has an access token signed: it stores a session of the user, issued for
`source`, or gives up. -/
def Pairs (source : Option Presented) (sub : Uuid) : Except Err AuthTokens → Stage → Prop
  | .ok t, g => ∃ jti, g = .stored source sub jti t.refreshToken
  | .error e, g => g.Gives ∧ e ≠ reuseDetected

theorem issueTokenPair_stages {g : Stage} {source : Option Presented} {sub : Uuid} {role : Role}
    (hmay : May env g (.signAccess ⟨sub, role⟩ env.accessTtl))
    (hlost : ∀ e, g.next (.signAccess ⟨sub, role⟩ env.accessTtl) (.error e) = .lost)
    (hnext : ∀ t, g.next (.signAccess ⟨sub, role⟩ env.accessTtl) (.ok t) = .issuing source sub) :
    (issueTokenPair env sub role).Keeps (machine env).discipline (Pairs source sub) g := by
  have hlose : ∀ e, e ≠ reuseDetected → Pairs source sub (.error e) .lost := fun e he => ⟨trivial, he⟩
  refine stages_issue hmay hlost hlose fun access _ => ?_
  rw [hnext]
  refine stages_issue (.draw source sub) (fun _ => rfl) hlose fun jti _ => ?_
  refine stages_issue (.sign source sub jti) (fun _ => rfl) hlose fun token _ => ?_
  cases httl : ttlToSeconds env.refreshTtl with
  | error err =>
    refine ⟨trivial, ?_⟩
    -- a time to live that does not parse is a plain `Error`
    simp only [ttlToSeconds] at httl
    split at httl
    · split at httl <;> cases httl
      nofun
    · cases httl
      nofun
  | ok seconds =>
    exact stages_issue (.store source sub jti token seconds httl) (fun _ => rfl) hlose
      fun _ _ => ⟨jti, rfl⟩

theorem register_stages (dto : RegisterDto) : (register env dto).Keeps (machine env).discipline
    (fun r g => GivesUp r g ∨ ∃ sub, Pairs none sub r g) (.entered (.register dto)) := by
  have hlose : ∀ e, e ≠ reuseDetected → GivesUp (.error e : Except Err AuthTokens) .lost ∨
      ∃ sub, Pairs none sub (.error e) .lost := fun e he => Or.inl ⟨trivial, he⟩
  refine stages_issue (.findEmail _ dto.email) (fun _ => rfl) hlose fun found _ => ?_
  cases found with
  | some user => exact Or.inl ⟨trivial, nofun⟩
  | none =>
  refine stages_issue (.hash _ dto.password) (fun _ => rfl) hlose fun hashed _ => ?_
  -- the transaction leaves the call where it was, or has failed
  have hbody : Prog.Keeps (machine env).discipline
      (fun (r : Except Err User) g => (∃ user, r = .ok user ∧ g = .entered (.register dto)) ∨
        ∃ e, r = .error e ∧ e ≠ reuseDetected ∧ g = .lost)
      (do
        let created : User ← issue (.userCreate dto.email hashed)
        let _ ← issue (.walletCreate created.id)
        return created) (.entered (.register dto)) := by
    refine stages_issue (.createUser _ dto.email hashed) (fun _ => rfl)
      (fun e he => Or.inr ⟨e, rfl, he, rfl⟩) fun created _ => ?_
    exact stages_issue (.createWallet _ created.id) (fun _ => rfl)
      (fun e he => Or.inr ⟨e, rfl, he, rfl⟩) fun _ _ => Or.inl ⟨created, rfl, rfl⟩
  have htransaction : Prog.Keeps (machine env).discipline
      (fun (r : Except Err User) g => (∃ user, r = .ok user ∧ g = .entered (.register dto)) ∨
        ∃ e, r = .error e ∧ e ≠ reuseDetected ∧ g = .lost)
      (transaction do
        let created : User ← issue (.userCreate dto.email hashed)
        let _ ← issue (.walletCreate created.id)
        return created) (.entered (.register dto)) := by
    refine hbody.recover fun r g h => ?_
    rcases h with ⟨user, rfl, rfl⟩ | ⟨e, rfl, he, rfl⟩
    · exact stages_issue (.commit _) (fun _ => rfl) (fun e he => Or.inr ⟨e, rfl, he, rfl⟩)
        fun _ _ => Or.inl ⟨user, rfl, rfl⟩
    · exact stages_issue .rollback (fun _ => rfl) (fun e he => Or.inr ⟨e, rfl, he, rfl⟩)
        fun _ _ => Or.inr ⟨e, rfl, he, rfl⟩
  refine htransaction.seq (fun user g h => ?_) fun e g h => ?_
  · rcases h with ⟨user', heq, rfl⟩ | ⟨e, heq, -⟩
    · exact (issueTokenPair_stages (.enter _ _) (fun _ => rfl) fun _ => rfl).mono
        fun r g h => Or.inr ⟨_, h⟩
    · cases heq
  · rcases h with ⟨user, heq, -⟩ | ⟨e', heq, he, rfl⟩
    · cases heq
    · cases heq
      exact hlose e he

theorem login_stages (dto : LoginDto) : (login env dto).Keeps (machine env).discipline
    (fun r g => GivesUp r g ∨ ∃ sub, Pairs none sub r g) (.entered (.login dto)) := by
  have hlose : ∀ e, e ≠ reuseDetected → GivesUp (.error e : Except Err AuthTokens) .lost ∨
      ∃ sub, Pairs none sub (.error e) .lost := fun e he => Or.inl ⟨trivial, he⟩
  refine stages_issue (.findEmail _ dto.email) (fun _ => rfl) hlose fun found _ => ?_
  cases found with
  | none => exact Or.inl ⟨trivial, nofun⟩
  | some user =>
  refine stages_issue (.compare _ dto.password user.password) (fun _ => rfl) hlose fun passes _ => ?_
  split
  · exact (issueTokenPair_stages (.enter _ _) (fun _ => rfl) fun _ => rfl).mono fun r g h => Or.inr ⟨_, h⟩
  · exact Or.inl ⟨trivial, nofun⟩

theorem verifyRefreshToken_stages {r : Request} (token : String) (ignoreExpiration : Bool)
    (hmay : May env (.entered r) (.verifyRefresh token ignoreExpiration)) :
    (verifyRefreshToken token ignoreExpiration).Keeps (machine env).discipline
      (fun result g => match result with
        | .ok payload => g = if ignoreExpiration then .leaving ⟨token, payload⟩ else .verified ⟨token, payload⟩
        | .error e => e = .unauthorized "Invalid or expired refresh token" ∧ g = .rejected token)
      (.entered r) := by
  refine Machine.keeps_try (M := machine env) hmay fun result _ => ?_
  cases result with
  | ok payload => cases ignoreExpiration <;> rfl
  | error e => cases ignoreExpiration <;> exact ⟨rfl, rfl⟩

theorem rotate_stages (s : Presented) : (rotate env s.payload).Keeps (machine env).discipline
    (fun r g => Pairs (some s) s.payload.sub r g) (.held s) := by
  have hlose : ∀ e, e ≠ reuseDetected → Pairs (some s) s.payload.sub (.error e) .lost :=
    fun e he => ⟨trivial, he⟩
  refine stages_issue (.spend s) (fun _ => rfl) hlose fun _ _ => ?_
  refine stages_issue (.findUser s) (fun _ => rfl) hlose fun found htells => ?_
  cases found with
  | none => exact ⟨trivial, nofun⟩
  | some user =>
    have hid : user.id = s.payload.sub := htells
    show (issueTokenPair env user.id user.role).Keeps _ _ (Stage.rotating s)
    rw [hid]
    exact issueTokenPair_stages (.renew s user.role) (fun _ => rfl) fun _ => rfl

theorem revokeAllSessions_stages (s : Presented) :
    (revokeAllSessions s.payload.sub).Keeps (machine env).discipline
      (fun r g => match r with
        | .ok _ => g = .revoked s
        | .error e => e ≠ reuseDetected ∧ g = .lost) (.missed s) := by
  refine stages_issue (.list s) (fun _ => rfl) (fun e he => ⟨he, rfl⟩) fun keys _ => ?_
  show Prog.Keeps _ _ (if 0 < List.length keys then _ else _)
    (if 0 < List.length keys then Stage.listed s keys else Stage.revoked s)
  split
  · exact stages_issue (.revoke s keys) (fun _ => rfl) (fun e he => ⟨he, rfl⟩) fun _ _ => rfl
  · rfl

/-- How a refresh ends. -/
def Refreshed (token : String) : Except Err AuthTokens → Stage → Prop
  | .ok t, g => ∃ s jti, s.token = token ∧ g = .stored (some s) s.payload.sub jti t.refreshToken
  | .error e, g => (e = .unauthorized "Invalid or expired refresh token" ∧ g = .rejected token) ∨
      (e = reuseDetected ∧ ∃ s, s.token = token ∧ g = .revoked s) ∨ (g.Gives ∧ e ≠ reuseDetected)

theorem refresh_stages (token : String) :
    (refresh env token).Keeps (machine env).discipline (Refreshed token)
      (.entered (.refresh token)) := by
  refine (verifyRefreshToken_stages token false (.verify token)).seq (fun payload g h => ?_) fun e g h => Or.inl h
  obtain rfl : g = .verified ⟨token, payload⟩ := h
  have hlose : ∀ e, e ≠ reuseDetected → Refreshed token (.error e) .lost :=
    fun e he => Or.inr (Or.inr ⟨trivial, he⟩)
  refine stages_issue (.look ⟨token, payload⟩) (fun _ => rfl) hlose fun found _ => ?_
  show Prog.Keeps _ _ (if truthy found = true then _ else _)
    (if truthy found = true then Stage.held ⟨token, payload⟩ else Stage.missed ⟨token, payload⟩)
  split
  · refine (rotate_stages ⟨token, payload⟩).mono fun r g h => ?_
    cases r with
    | ok t =>
      obtain ⟨jti, hg⟩ := h
      exact ⟨⟨token, payload⟩, jti, rfl, hg⟩
    | error e => exact Or.inr (Or.inr h)
  · refine (revokeAllSessions_stages ⟨token, payload⟩).seq (fun _ g h => ?_) fun e g h => ?_
    · exact Or.inr (Or.inl ⟨rfl, ⟨token, payload⟩, rfl, h⟩)
    · obtain ⟨he, rfl⟩ := h
      exact hlose e he

theorem logout_stages (token : String) : (logout token).Keeps (machine env).discipline
    (fun r g => match r with
      | .ok _ => ∃ s : Presented, s.token = token ∧ g = .left s
      | .error e => (e = .unauthorized "Invalid or expired refresh token" ∧ g = .rejected token) ∨
          (g.Gives ∧ e ≠ reuseDetected)) (.entered (.logout token)) := by
  refine (verifyRefreshToken_stages token true (.verifyLate token)).seq (fun payload g h => ?_) fun e g h => Or.inl h
  obtain rfl : g = .leaving ⟨token, payload⟩ := h
  exact stages_issue (.leave ⟨token, payload⟩) (fun _ => rfl) (fun e he => Or.inr ⟨trivial, he⟩)
    fun _ _ => ⟨⟨token, payload⟩, rfl, rfl⟩

end AuthService

open AuthService in
/-- **Every handler keeps to its stages.** -/
theorem handler_stages (req : Request) :
    (req.handler env).Keeps (machine env).discipline (Outcome req) (.entered req) := by
  cases req with
  | register dto =>
    refine (register_stages dto).seq (fun t g h => ?_) fun e g h => ?_
    · rcases h with h | ⟨sub, jti, rfl⟩
      · exact h.elim
      · exact .registered dto sub jti _ _
    · rcases h with ⟨hg, he⟩ | ⟨sub, hg, he⟩ <;> exact .gaveUp _ e g hg he
  | login dto =>
    refine (login_stages dto).seq (fun t g h => ?_) fun e g h => ?_
    · rcases h with h | ⟨sub, jti, rfl⟩
      · exact h.elim
      · exact .loggedIn dto sub jti _ _
    · rcases h with ⟨hg, he⟩ | ⟨sub, hg, he⟩ <;> exact .gaveUp _ e g hg he
  | refresh token =>
    refine (refresh_stages token).seq (fun t g h => ?_) fun e g h => ?_
    · obtain ⟨s, jti, rfl, rfl⟩ := h
      exact .refreshed s jti _ _
    · rcases h with ⟨rfl, rfl⟩ | ⟨rfl, s, rfl, rfl⟩ | ⟨hg, he⟩
      · exact .refusedRefresh token
      · exact .revoked s
      · exact .gaveUp _ e g hg he
  | logout token =>
    refine (logout_stages token).seq (fun _ g h => ?_) fun e g h => ?_
    · obtain ⟨s, rfl, rfl⟩ := h
      exact .loggedOut s
    · rcases h with ⟨rfl, rfl⟩ | ⟨hg, he⟩
      · exact .refusedLogout token
      · exact .gaveUp _ e g hg he

theorem follows : Platform.Follows (system env) (stages env) where
  handlers := handler_stages
  replies _ _ _ _ _ _ hexec := World.tells_served (.of_exec hexec)

end FlashWallet.Auth
