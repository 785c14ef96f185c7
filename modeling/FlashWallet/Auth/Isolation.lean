import FlashWallet.Auth.Revocation
import FlashWallet.Proof.AuthCalls

/-!
# Other people's sessions

A call that deletes or renews a session has shown a refresh token of the session's user; the pattern by which sessions
are revoked matches those of one user and no others. So while nobody shows a token of a user, the user's sessions
neither end, but by their time, nor are there more of them, but by a registration or a login.
-/

set_option autoImplicit false

namespace FlashWallet.Auth

open Lib

variable {env : Settings}

/-- The refresh token a request presents. -/
def Request.token? : Request → Option String
  | .refresh token | .logout token => some token
  | .register _ | .login _ => none

/-- Whom a refresh token was signed for. -/
def World.holder? (w : World) (token : String) : Option Uuid :=
  match w.jwt? token with
  | some ⟨_, .refresh payload, _⟩ => some payload.sub
  | _ => none

/-- The step is one of a call that presents a refresh token of `sub`. -/
def showsTokenOf (sub : Uuid) (s : Step State Event) : Bool :=
  match s.label with
  | .exec i _ => (s.before.calls[i]?.bind (·.request.token?)).bind s.before.world.holder? = some sub
  | _ => false

/-- The step stores a session at `key` for a registration or a login. -/
def SignsIn (key : String) (s : Step State Event) : Prop :=
  ∃ i x call value seconds, s.label = .exec i x ∧ s.before.calls[i]? = some call ∧
    ((∃ dto, call.request = .register dto) ∨ ∃ dto, call.request = .login dto) ∧
    nextStmt? s.before s.label = some (.redisSet key value seconds)

/-! ## Whose sessions a call may touch -/

inductive Claimant where
  | signingIn
  | presenting (token : String)
  | shown (token : String) (sub : Uuid)
  | gone

namespace Claimant

def next (g : Claimant) : (o : Stmt) → Except Err o.Reply → Claimant
  | .verifyRefresh token _, .ok payload => .shown token payload.sub
  | _, _ => g

def may (g : Claimant) : Stmt → Prop
  | .verifyRefresh token _ => g = .presenting token
  | .redisDel keys => ∃ token sub, g = .shown token sub ∧ ∀ key ∈ keys, Glob.isMatch (refreshPattern sub) key = true
  | .redisSet key _ _ => g = .signingIn ∨ ∃ token sub jti, g = .shown token sub ∧ key = refreshKey sub jti
  | _ => True

/-- What a reply says by itself: a listing lists what matches, a row is the one that was asked for. -/
def tells : (o : Stmt) → Except Err o.Reply → Prop
  | .redisKeys pattern, .ok (keys : List String) => ∀ key ∈ keys, Glob.isMatch pattern key = true
  | .userFindById id, .ok (some (user : User)) => user.id = id
  | _, _ => True

end Claimant

def claiming : Platform.Stages sql Err Response Request Claimant where
  machine := ⟨Claimant.may, Claimant.next, Claimant.tells⟩
  start
    | .register _ | .login _ => .signingIn
    | .refresh token | .logout token => .presenting token
  cut := .gone
  ends _ _ _ := True

section

variable {α β : Type} {g : Claimant}

/-- A statement, then the rest. -/
theorem claiming_issue {o : Stmt} {f : o.Reply → Service β} (hmay : g.may o)
    (hf : ∀ v, Claimant.tells o (.ok v) →
      (f v).Keeps claiming.machine.discipline (fun _ _ => True) (g.next o (.ok v))) :
    ((issue o).bind f).Keeps claiming.machine.discipline (fun _ _ => True) g :=
  Machine.keeps_issue (M := claiming.machine) hmay hf fun _ _ => trivial

theorem issueTokenPair_claims (sub : Uuid) (role : Role)
    (hmay : ∀ jti seconds, g.may (.redisSet (refreshKey sub jti) "1" seconds)) :
    (AuthService.issueTokenPair env sub role).Keeps claiming.machine.discipline (fun _ _ => True) g := by
  refine claiming_issue (o := .signAccess _ _) trivial fun access _ => ?_
  refine claiming_issue (o := .randomUUID) trivial fun jti _ => ?_
  refine claiming_issue (o := .signRefresh _ _) trivial fun token _ => ?_
  cases ttlToSeconds env.refreshTtl with
  | error err => trivial
  | ok seconds => exact claiming_issue (o := .redisSet _ _ _) (hmay jti seconds) fun _ _ => trivial

theorem register_claims (dto : RegisterDto) :
    (AuthService.register env dto).Keeps claiming.machine.discipline (fun _ _ => True) .signingIn := by
  refine claiming_issue (o := .userFindByEmail dto.email) trivial fun found _ => ?_
  cases found with
  | some user => trivial
  | none =>
    refine claiming_issue (o := .bcryptHash dto.password) trivial fun hash _ => ?_
    -- the transaction leaves Redis alone
    refine Prog.Keeps.seq (R := fun _ g => g = .signingIn)
      (Prog.Keeps.recover (R := fun _ g => g = .signingIn) ?_ fun r g h => ?_) (fun user g h => ?_) fun _ _ _ => trivial
    · refine Machine.keeps_issue (M := claiming.machine) (o := .userCreate dto.email hash) trivial
        (fun user _ => ?_) fun _ _ => rfl
      exact Machine.keeps_issue (M := claiming.machine) (o := .walletCreate user.id) trivial (fun _ _ => rfl)
        fun _ _ => rfl
    · obtain rfl := h
      cases r with
      | ok user => exact Machine.keeps_issue (M := claiming.machine) (o := .commit) trivial (fun _ _ => rfl) fun _ _ => rfl
      | error e => exact Machine.keeps_issue (M := claiming.machine) (o := .rollback) trivial (fun _ _ => rfl) fun _ _ => rfl
    · obtain rfl := h
      exact issueTokenPair_claims user.id user.role fun _ _ => .inl rfl

theorem login_claims (dto : LoginDto) :
    (AuthService.login env dto).Keeps claiming.machine.discipline (fun _ _ => True) .signingIn := by
  refine claiming_issue (o := .userFindByEmail dto.email) trivial fun found _ => ?_
  cases found with
  | none => trivial
  | some user =>
    refine claiming_issue (o := .bcryptCompare dto.password user.password) trivial fun fits _ => ?_
    cases fits with
    | true => exact issueTokenPair_claims user.id user.role fun _ _ => .inl rfl
    | false => trivial

theorem verifyRefreshToken_claims (token : String) (ignoreExpiration : Bool) :
    (AuthService.verifyRefreshToken token ignoreExpiration).Keeps claiming.machine.discipline
      (fun r g => ∀ payload, r = .ok payload → g = .shown token payload.sub) (.presenting token) := by
  refine Machine.keeps_try (M := claiming.machine) (o := .verifyRefresh token ignoreExpiration) rfl fun r _ => ?_
  cases r with
  | ok payload =>
    rintro _ ⟨⟩
    rfl
  | error e => exact fun _ h => nomatch h

/-- The session a token is for is its user's. -/
theorem deletes_own (token : String) (payload : RefreshTokenPayload) : (Claimant.shown token payload.sub).may
    (.redisDel [refreshKey payload.sub payload.jti]) :=
  ⟨token, payload.sub, rfl, fun _ h => List.mem_singleton.mp h ▸ (isMatch_refreshKey _ _ _).mpr rfl⟩

theorem rotate_claims (token : String) (payload : RefreshTokenPayload) :
    (AuthService.rotate env payload).Keeps claiming.machine.discipline (fun _ _ => True)
      (.shown token payload.sub) := by
  refine claiming_issue (o := .redisDel _) (deletes_own token payload) fun _ _ => ?_
  refine claiming_issue (o := .userFindById payload.sub) trivial fun found htells => ?_
  cases found with
  | none => trivial
  | some user =>
    have hid : user.id = payload.sub := htells
    exact issueTokenPair_claims user.id user.role fun jti _ => .inr ⟨token, payload.sub, jti, rfl, by rw [hid]⟩

theorem revokeAllSessions_claims (token : String) (sub : Uuid) :
    (AuthService.revokeAllSessions sub).Keeps claiming.machine.discipline (fun _ _ => True) (.shown token sub) := by
  refine claiming_issue (o := .redisKeys _) trivial fun keys htells => ?_
  split
  · exact claiming_issue (o := .redisDel _) ⟨token, sub, rfl, htells⟩ fun _ _ => trivial
  · trivial

theorem refresh_claims (token : String) :
    (AuthService.refresh env token).Keeps claiming.machine.discipline (fun _ _ => True) (.presenting token) := by
  refine (verifyRefreshToken_claims token false).seq (fun payload g h => ?_) fun _ _ _ => trivial
  obtain rfl := h payload rfl
  refine claiming_issue (o := .redisGet _) trivial fun found _ => ?_
  split
  · exact rotate_claims token payload
  · exact (revokeAllSessions_claims token payload.sub).seq (fun _ _ _ => trivial) fun _ _ _ => trivial

theorem logout_claims (token : String) :
    (AuthService.logout token).Keeps claiming.machine.discipline (fun _ _ => True) (.presenting token) := by
  refine (verifyRefreshToken_claims token true).seq (fun payload g h => ?_) fun _ _ _ => trivial
  obtain rfl := h payload rfl
  exact claiming_issue (o := .redisDel _) (deletes_own token payload) fun _ _ => trivial

end

theorem tells_served {ms : String → Option Nat} {i : Nat} {w w' : World} {o : Stmt} {r : Except Err o.Reply}
    (hs : World.Served ms i w o r w') : Claimant.tells o r := by
  cases hs with
  | read o v answer =>
    cases o with
    | userFindById id =>
      obtain rfl := Option.some.inj answer
      cases hfound : w.users.find? (·.id = id) with
      | none => trivial
      | some user =>
        have hid : user.id = id := by simpa using List.find?_some hfound
        exact hid
    | redisKeys pattern =>
      obtain rfl := Option.some.inj answer
      exact fun key hkey => (List.mem_filter.mp hkey).2
    | _ => trivial
  | refused o | failed o => cases o <;> trivial
  | _ => trivial

theorem claiming_follows : Platform.Follows (system env) claiming where
  handlers r := by
    cases r with
    | register dto => exact (register_claims dto).seq (fun _ _ _ => trivial) fun _ _ _ => trivial
    | login dto => exact (login_claims dto).seq (fun _ _ _ => trivial) fun _ _ _ => trivial
    | refresh token => exact (refresh_claims token).seq (fun _ _ _ => trivial) fun _ _ _ => trivial
    | logout token => exact (logout_claims token).seq (fun _ _ _ => trivial) fun _ _ _ => trivial
  replies _ _ _ _ _ _ hexec := tells_served (.of_exec hexec)

/-! ## What is known of the calls -/

namespace Claimant

/-- The stage is that of a call of request `r`. -/
def Fits (w : World) (r : Request) : Claimant → Prop
  | .signingIn => (∃ dto, r = .register dto) ∨ ∃ dto, r = .login dto
  | .presenting token => r.token? = some token
  | .shown token sub => r.token? = some token ∧
      ∃ jti exp, w.jwt? token = some ⟨token, .refresh ⟨sub, jti⟩, exp⟩
  | .gone => True

theorem Fits.mono {w w' : World} {r : Request} {g : Claimant} (h : g.Fits w r)
    (hsigned : ∀ token jwt, w.jwt? token = some jwt → w'.jwt? token = some jwt) : g.Fits w' r := by
  cases g with
  | shown token sub =>
    obtain ⟨hr, jti, exp, hjwt⟩ := h
    exact ⟨hr, jti, exp, hsigned _ _ hjwt⟩
  | _ => exact h

/-- A reply tells whose token it is that was presented. -/
theorem Fits.next {ms : String → Option Nat} {i : Nat} {w w' : World} {o : Stmt} {r : Except Err o.Reply}
    {request : Request} {g : Claimant} (h : g.Fits w request) (hmay : g.may o) (hs : World.Served ms i w o r w') :
    (g.next o r).Fits w' request := by
  have hsame := h.mono fun _ _ hjwt => World.jwt?_served hs hjwt
  cases hs with
  | verified token ignoreExpiration payload exp genuine =>
    obtain rfl : g = .presenting token := hmay
    exact ⟨h, payload.jti, exp, genuine⟩
  | read o v answer => cases o <;> first | exact hsame | cases answer
  | failed o | refused o => cases o <;> exact hsame
  | _ => exact hsame

end Claimant

/-- Every call is at a stage that fits its request. -/
def Fitting (c : State) (gs : List Claimant) : Prop :=
  Platform.Matched (fun _ call g => g.Fits c.world call.request) c.calls gs

theorem claims_staged (ok : State → Event → Prop) : Platform.Staged (system env) claiming ok fun _ => Fitting where
  arrive tr c gs r hlen h _ := by
    refine Platform.Matched.arrive h hlen ?_
    cases r with
    | register dto => exact .inl ⟨dto, rfl⟩
    | login dto => exact .inr ⟨dto, rfl⟩
    | refresh token | logout token => exact rfl
  exec tr c gs i r o k g x reply w h _ hissues := by
    have hs : World.Served env.ms i c.world o reply w := .of_exec hissues.exec
    exact Platform.Matched.set h (fun _ _ _ _ hg => hg.mono fun _ _ hjwt => World.jwt?_served hs hjwt)
      ((h i _ g hissues.call hissues.stage).next hissues.may hs)
  crash tr c gs i r o k g _ h _ _ _ := Platform.Matched.set h (fun _ _ _ _ hg => hg) trivial
  env tr c gs e w _ h _ he := Platform.Matched.mono h fun _ _ _ hg => hg.mono fun token _ hjwt => by
    rw [jwt?_env he]
    exact hjwt

/-- A call that is about to issue `o`, and what it may. -/
theorem claims_of_run {ok : State → Event → Prop} {tr : Trace} {c : State} (hrun : RunFrom env State.initial ok tr c)
    {i : Nat} {r : Request} {o : Stmt} {k : Except Err o.Reply → Service Response}
    (hi : c.calls[i]? = some ⟨r, .call (S := sql) o k, false⟩) :
    ∃ g : Claimant, g.may o ∧ g.Fits c.world r := by
  obtain ⟨gs, hclaims, ha⟩ := (claims_staged ok).sound claiming_follows
    (show Fitting State.initial [] from .nil) .nil hrun
  obtain ⟨g, hg⟩ := ha.books hi
  exact ⟨g, (ha.keeps i _ g hi hg rfl).1, hclaims i _ g hi hg⟩

/-! ## One step, and every run -/

variable {ok ok' : State → Event → Prop} {tr tr' : Trace} {c c' : State} {sub jti : Uuid} {row : RedisRow}

/-- A statement issued while `sub`'s tokens are not shown leaves `sub`'s sessions, and adds one for a registration or a
login only. -/
theorem row_exec (hrun : RunFrom env State.initial ok tr c) {i : Nat} {x : Choice} {l : Event}
    (hl : l = .exec i x) (hstep : (system env).step c l = some c') (hothers : showsTokenOf sub ⟨c, l, c'⟩ = false)
    (hkey : row.key = refreshKey sub jti) :
    (row ∈ c.world.redis → row ∈ c'.world.redis) ∧
      (row ∈ c'.world.redis → row ∈ c.world.redis ∨ SignsIn row.key ⟨c, l, c'⟩) := by
  subst hl
  obtain ⟨r, o, k, reply, w, hi, hexec, rfl⟩ := (system env).step_exec hstep
  obtain ⟨g, hmay, hfits⟩ := claims_of_run hrun hi
  -- a token that was shown is not `sub`'s
  have hshown : ∀ token, g = .shown token sub → False := by
    rintro token rfl
    obtain ⟨hr, jti', exp, hjwt⟩ := hfits
    have hshows : showsTokenOf sub ⟨c, .exec i x, ⟨w, c.calls.set i ⟨r, k reply, false⟩⟩⟩ = true := by
      simp [showsTokenOf, hi, hr, World.holder?, hjwt]
    exact Bool.false_ne_true (hothers.symm.trans hshows)
  have hs : World.Served env.ms i c.world o reply w := .of_exec hexec
  rcases World.redis_served hs with hsame | ⟨key, value, seconds, rfl, hset⟩ | ⟨keys, rfl, hdel⟩
  · exact ⟨fun h => hsame ▸ h, fun h => .inl (hsame ▸ h)⟩
  · refine ⟨fun h => ?_, fun h => ?_⟩
    · -- what is stored is new
      have hne : row.key ≠ key := by
        obtain ⟨gs, hknown⟩ := known_of_run hrun
        obtain ⟨g', hg'⟩ := hknown.aligned.books hi
        have hmay' : May env g' (.redisSet key value seconds) := (hknown.aligned.keeps i _ g' hi hg' rfl).1
        obtain ⟨source, sub', jti', token, rfl, hkey', -⟩ := hmay'.store_inv
        rintro rfl
        obtain ⟨sub₀, jti₀, hkey₀, -, hsettled⟩ := hknown.keyed.rows row h (hkey ▸ isSession_refreshKey sub jti)
        obtain ⟨-, rfl⟩ := refreshKey_inj (hkey₀.symm.trans hkey')
        exact hsettled.unpending i _ hg' rfl
      change row ∈ w.redis
      rw [hset]
      exact List.mem_append_left _ (List.mem_filter.mpr ⟨h, by simpa using hne⟩)
    · change row ∈ w.redis at h
      rw [hset] at h
      rcases List.mem_append.mp h with h | h
      · exact .inl (List.mem_filter.mp h).1
      · obtain rfl := List.mem_singleton.mp h
        rcases hmay with rfl | ⟨token, sub', jti', rfl, hkey'⟩
        · exact .inr ⟨i, x, _, value, seconds, rfl, hi, hfits, by simp only [nextStmt?, hi]⟩
        · obtain ⟨rfl, -⟩ := refreshKey_inj (hkey.symm.trans hkey')
          exact (hshown token rfl).elim
  · refine ⟨fun h => ?_, fun h => .inl ?_⟩
    · obtain ⟨token, sub', rfl, hkeys⟩ := hmay
      have hne : row.key ∉ keys := fun hmem =>
        have hsub : sub = sub' := (isMatch_refreshKey sub' sub jti).mp (hkey ▸ hkeys _ hmem)
        hshown token (hsub ▸ rfl)
      change row ∈ w.redis
      rw [hdel]
      exact List.mem_filter.mpr ⟨h, by simpa using hne⟩
    · change row ∈ w.redis at h
      rw [hdel] at h
      exact (List.mem_filter.mp h).1

/-- What the environment does to `sub`'s sessions. -/
theorem row_env {e : Env} {w w' : World} (he : e.run w = some w') (hkey : row.key = refreshKey sub jti) :
    (row ∈ w.redis → row.lasts w'.clock = true → e ≠ .evict row.key → row ∈ w'.redis) ∧
      (row ∈ w'.redis → row ∈ w.redis) ∧ w.clock ≤ w'.clock := by
  have hsession : isSession row.key = true := hkey ▸ isSession_refreshKey sub jti
  have hback : row ∈ w'.redis → row ∈ w.redis := fun h =>
    (redis_env he h).resolve_right (by simp [hsession])
  cases e with
  | tick ms =>
    cases he
    exact ⟨fun h hlasts _ => List.mem_filter.mpr ⟨h, hlasts⟩, hback, Nat.le_add_right _ _⟩
  | evict key =>
    cases he
    refine ⟨fun h _ hne => List.mem_filter.mpr ⟨h, ?_⟩, hback, le_rfl⟩
    exact decide_eq_true fun heq => hne (heq ▸ rfl)
  | deleteUser id =>
    cases he
    exact ⟨fun h _ _ => h, hback, le_rfl⟩
  | foreign row' =>
    simp only [Env.run] at he
    split at he
    · cases he
    · rename_i hforeign
      cases he
      refine ⟨fun h _ _ => List.mem_append_left _ (List.mem_filter.mpr ⟨h, ?_⟩), hback, le_rfl⟩
      exact decide_eq_true fun heq => hforeign (heq ▸ hsession)

theorem clock_served {ms : String → Option Nat} {i : Nat} {w w' : World} {o : Stmt} {r : Except Err o.Reply}
    (hs : World.Served ms i w o r w') : w'.clock = w.clock := by
  cases hs <;> rfl

/-- What a step of others does to `sub`'s sessions. -/
theorem row_step (hrun : RunFrom env State.initial ok tr c) {l : Event} (hstep : (system env).step c l = some c')
    (hothers : showsTokenOf sub ⟨c, l, c'⟩ = false) (hkey : row.key = refreshKey sub jti) :
    (row ∈ c.world.redis → row.lasts c'.world.clock = true → l ≠ .env (.evict row.key) → row ∈ c'.world.redis) ∧
      (row ∈ c'.world.redis → row ∈ c.world.redis ∨ SignsIn row.key ⟨c, l, c'⟩) ∧
      c.world.clock ≤ c'.world.clock := by
  cases l with
  | arrive r =>
    obtain rfl := Option.some.inj hstep
    exact ⟨fun h _ _ => h, .inl, le_rfl⟩
  | exec i x =>
    obtain ⟨hkept, hnew⟩ := row_exec hrun rfl hstep hothers hkey
    obtain ⟨r, o, k, reply, w, -, hexec, rfl⟩ := (system env).step_exec hstep
    exact ⟨fun h _ _ => hkept h, hnew, (clock_served (.of_exec hexec)).ge⟩
  | crash i =>
    obtain ⟨r, o, k, -, rfl⟩ := (system env).step_crash hstep
    exact ⟨fun h _ _ => h, .inl, le_rfl⟩
  | env e =>
    obtain ⟨w, he, rfl⟩ := (system env).step_env hstep
    obtain ⟨hkept, hback, hclock⟩ := row_env he hkey
    exact ⟨fun h hlasts hne => hkept h hlasts fun heq => hne (heq ▸ rfl), fun h => .inl (hback h), hclock⟩

/-- **Nobody ends another's session.** In any part of any run in which no call presents a refresh token of `sub`'s,
whatever the other calls do, what fails and who is cut off, each of `sub`'s sessions stays as long as its time to live,
unless Redis drops it, and whatever session of `sub`'s has come is from a registration or a login. -/
theorem sessions_isolated (hrun : RunFrom env State.initial ok tr c) (hrun' : RunFrom env c ok' tr' c')
    (hothers : ∀ s ∈ tr', showsTokenOf sub s = false) (jti : Uuid) (row : RedisRow) (hkey : row.key = refreshKey sub jti) :
    (row ∈ c.world.redis → row.lasts c'.world.clock = true → (∀ s ∈ tr', s.label ≠ .env (.evict row.key)) →
      row ∈ c'.world.redis) ∧
    (row ∈ c'.world.redis → row ∈ c.world.redis ∨ ∃ s ∈ tr', SignsIn row.key s) := by
  induction hrun' with
  | nil => exact ⟨fun h _ _ => h, .inl⟩
  | @snoc tr' c₁ c₂ l run allowed next ih =>
    obtain ⟨hkept, hnew⟩ := ih fun s hs => hothers s (List.mem_append_left _ hs)
    have hlast : ⟨c₁, l, c₂⟩ ∈ tr' ++ [⟨c₁, l, c₂⟩] := List.mem_append_right _ (List.mem_singleton.mpr rfl)
    have hreached : RunFrom env State.initial anyStep (tr ++ tr') c₁ :=
      (hrun.mono fun _ _ _ => trivial).append (run.mono fun _ _ _ => trivial)
    obtain ⟨hstays, hcomes, hclock⟩ := row_step hreached next (hothers _ hlast) hkey
    refine ⟨fun h hlasts hunevicted => ?_, fun h => ?_⟩
    · have hbefore := hkept h (World.lasts_mono hclock hlasts) fun s hs => hunevicted s (List.mem_append_left _ hs)
      exact hstays hbefore hlasts (hunevicted _ hlast)
    · rcases hcomes h with h | hsigned
      · rcases hnew h with h | ⟨s, hs, hsigned⟩
        · exact .inl h
        · exact .inr ⟨s, List.mem_append_left _ hs, hsigned⟩
      · exact .inr ⟨_, hlast, hsigned⟩

section

open Trial

def bob : Uuid := ⟨"b0b00000-0000-4000-8000-000000000000", Eq.refl true⟩
def bobWallet : Uuid := ⟨"b0b00000-0000-4000-8000-000000000001", Eq.refl true⟩

/-- Bob registers and refreshes; a second use of his first token has all his sessions revoked. -/
def bobReuses : List Event :=
  [.arrive (.register ⟨"bob@example.com", "in plain text"⟩), .exec 1 .ok, .exec 1 (.text "hashed"),
    .exec 1 (.fresh bob), .exec 1 (.fresh bobWallet), .exec 1 .ok] ++ issues 1 jti₂ "bob's first" ++
    looks 2 "bob's first" ++ rotates 2 ++ issues 2 jti₃ "bob's second" ++ looks 3 "bob's first" ++ proceeds 3 2

def aliceRow : RedisRow := ⟨refreshKey alice jti₁, "1", some 604800000⟩

set_option maxRecDepth 8000 in
theorem sessions_isolated_bobReuses :
    ∃ tr c, RunFrom settings (stateAfter settings register) anyStep tr c ∧
      c.calls.map Call.result? = [some (.ok (.tokens ⟨"access for first", "first"⟩)),
        some (.ok (.tokens ⟨"access for bob's first", "bob's first"⟩)),
        some (.ok (.tokens ⟨"access for bob's second", "bob's second"⟩)), some (.error AuthService.reuseDetected)] ∧
      aliceRow ∈ c.world.redis := by
  obtain ⟨c, hexecute, hclock, hresults⟩ :
      ∃ c, executeChecked (system settings).step (fun c l => !showsTokenOf alice ⟨c, l, c⟩)
          (stateAfter settings register) bobReuses = some c ∧ c.world.clock = 0 ∧
        c.calls.map Call.result? = [some (.ok (.tokens ⟨"access for first", "first"⟩)),
          some (.ok (.tokens ⟨"access for bob's first", "bob's first"⟩)),
          some (.ok (.tokens ⟨"access for bob's second", "bob's second"⟩)),
          some (.error AuthService.reuseDetected)] := ⟨_, rfl, rfl, rfl⟩
  have hrun := Run.of_executeChecked hexecute
  have hothers : ∀ s ∈ record (system settings).step (stateAfter settings register) bobReuses,
      showsTokenOf alice s = false := fun s hs => by simpa [showsTokenOf] using (hrun.of_mem hs).2.1
  have hunevicted : ∀ s ∈ record (system settings).step (stateAfter settings register) bobReuses,
      s.label ≠ .env (.evict aliceRow.key) := by decide
  have hregistered := run_stateAfter settings (fun _ _ => true) register (by decide)
  exact ⟨_, c, hrun.mono fun _ _ _ => trivial, hresults,
    (sessions_isolated hregistered hrun hothers jti₁ aliceRow rfl).1 (by decide) (by rw [hclock]; rfl) hunevicted⟩

end

end FlashWallet.Auth
