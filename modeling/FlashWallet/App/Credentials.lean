import FlashWallet.Lib.Machine
import FlashWallet.Model.Application
import FlashWallet.Proof.AuthServed

/-!
# What a token vouches for

A token names a user, and an access token a role. Whoever has been signed one has shown who it is: it registered the
user, or gave the password the user's row has; a refresh hands on what an earlier token vouched for. The role is the
row's, and no row has ADMIN that was not promoted. A call is followed by what it has shown so far.
-/

set_option autoImplicit false

namespace FlashWallet.App

open Lib

abbrev Accounts := Step Auth.State (Label Auth.Request Auth.Choice Outside)

/-! ## Credentials -/

/-- The client of some call has shown that it is user `id`: the call inserts the user's row, or has bcrypt find that
the password it was given fits the row its address was looked up in. -/
inductive Vouched (tr : List Accounts) (id : Uuid) : Prop where
  | registered (s : Accounts) (taken : s ∈ tr) (i : Nat) (x : Auth.Choice) (dto : Auth.RegisterDto) (hash : String)
      (k : Except Auth.Err Auth.User → Auth.Service Auth.Response) (label : s.label = .exec i x)
      (call : s.before.calls[i]? = some ⟨.register dto, .call (S := Auth.sql) (.userCreate dto.email hash) k, false⟩)
      (fresh : id ∉ s.before.world.drawn)
      (row : ∃ user, (i, user) ∈ s.after.world.newUsers ∧ user.id = id ∧ user.email = dto.email)
  | loggedIn (s : Accounts) (taken : s ∈ tr) (i : Nat) (dto : Auth.LoginDto) (user : Auth.User)
      (k : Except Auth.Err Bool → Auth.Service Auth.Response) (label : s.label = .exec i (.verdict true))
      (call : s.before.calls[i]? =
        some ⟨.login dto, .call (S := Auth.sql) (.bcryptCompare dto.password user.password) k, false⟩)
      (row : user.id = id ∧ user.email = dto.email)
      (stored : ∃ s' ∈ tr, user ∈ s'.before.world.users)

/-- User `id` has been promoted. -/
def Promoted (tr : List Accounts) (id : Uuid) : Prop :=
  ∃ s ∈ tr, ∃ user ∈ s.before.world.users, s.label = .env (.promote user.email) ∧ user.id = id

variable {tr tr' : List Accounts} {id : Uuid}

theorem Vouched.mono (h : Vouched tr id) (hsub : ∀ s ∈ tr, s ∈ tr') : Vouched tr' id := by
  cases h with
  | registered s taken i x dto hash k label call fresh row =>
    exact .registered s (hsub s taken) i x dto hash k label call fresh row
  | loggedIn s taken i dto user k label call row stored =>
    obtain ⟨s', hs', huser⟩ := stored
    exact .loggedIn s (hsub s taken) i dto user k label call row ⟨s', hsub s' hs', huser⟩

theorem Promoted.mono (h : Promoted tr id) (hsub : ∀ s ∈ tr, s ∈ tr') : Promoted tr' id :=
  let ⟨s, hs, user, huser, hlabel, hid⟩ := h
  ⟨s, hsub s hs, user, huser, hlabel, hid⟩

/-! ## Who a call speaks for -/

/-- What a call has shown, and whose row it has read. -/
inductive Voucher where
  | registering (dto : Auth.RegisterDto)
  | loggingIn (dto : Auth.LoginDto)
  | found (dto : Auth.LoginDto) (user : Auth.User)
  | presenting
  | refreshing (sub : Uuid)
  | speaks (id : Uuid) (role : Auth.Role)

namespace Voucher

def onFind : Voucher → Option Auth.User → Voucher
  | .loggingIn dto, some user => .found dto user
  | g, _ => g

def onCompare : Voucher → Bool → Voucher
  | .found _ user, true => .speaks user.id user.role
  | g, _ => g

def onFindById : Voucher → Option Auth.User → Voucher
  | .refreshing _, some user => .speaks user.id user.role
  | g, _ => g

def next (g : Voucher) : (o : Auth.Stmt) → Except Auth.Err o.Reply → Voucher
  | .userFindByEmail _, .ok row => g.onFind row
  | .bcryptCompare .., .ok fits => g.onCompare fits
  | .userCreate .., .ok user => .speaks user.id user.role
  | .verifyRefresh .., .ok payload => .refreshing payload.sub
  | .userFindById _, .ok row => g.onFindById row
  | _, _ => g

theorem next_error (g : Voucher) (o : Auth.Stmt) (e : Auth.Err) : g.next o (.error e) = g := by
  cases o <;> rfl

/-- What a call at `g` issues, so far as it matters whom it is about. -/
def may (g : Voucher) : Auth.Stmt → Prop
  | .userFindByEmail email => ∀ dto, g = .loggingIn dto → email = dto.email
  | .bcryptCompare password hash => ∃ dto user, g = .found dto user ∧ password = dto.password ∧ hash = user.password
  | .userCreate email _ => ∃ dto, g = .registering dto ∧ email = dto.email
  | .userFindById id => g = .refreshing id
  | .signAccess payload _ => g = .speaks payload.sub payload.role
  | .signRefresh payload _ => ∃ role, g = .speaks payload.sub role
  | _ => True

end Voucher

def vouching : Platform.Stages Auth.sql Auth.Err Auth.Response Auth.Request Voucher where
  machine :=
    { may := Voucher.may
      next := Voucher.next
      tells := fun _ _ => True }
  start
    | .register dto => .registering dto
    | .login dto => .loggingIn dto
    | .refresh _ | .logout _ => .presenting
  cut := .presenting
  ends _ _ _ := True

variable {env : Auth.Settings}

/-- A statement, then the rest; how it ends is nobody's concern here. -/
theorem vouching_issue {β : Type} {o : Auth.Stmt} {f : o.Reply → Auth.Service β} {g : Voucher} (hmay : g.may o)
    (hf : ∀ v, (f v).Keeps vouching.machine.discipline (fun _ _ => True) (g.next o (.ok v))) :
    ((Auth.issue o).bind f).Keeps vouching.machine.discipline (fun _ _ => True) g :=
  Machine.keeps_issue (M := vouching.machine) hmay (fun v _ => hf v) fun _ _ => trivial

theorem issueTokenPair_vouches (id : Uuid) (role : Auth.Role) :
    (Auth.AuthService.issueTokenPair env id role).Keeps vouching.machine.discipline (fun _ _ => True)
      (.speaks id role) := by
  refine vouching_issue (o := .signAccess _ _) rfl fun access => ?_
  refine vouching_issue (o := .randomUUID) trivial fun jti => ?_
  refine vouching_issue (o := .signRefresh _ _) ⟨role, rfl⟩ fun token => ?_
  cases Auth.ttlToSeconds env.refreshTtl with
  | error err => trivial
  | ok seconds => exact vouching_issue (o := .redisSet _ _ _) trivial fun _ => trivial

theorem register_vouches (dto : Auth.RegisterDto) :
    (Auth.AuthService.register env dto).Keeps vouching.machine.discipline (fun _ _ => True) (.registering dto) := by
  refine vouching_issue (o := .userFindByEmail dto.email) nofun fun found => ?_
  cases found with
  | some user => trivial
  | none =>
    refine vouching_issue (o := .bcryptHash dto.password) trivial fun hash => ?_
    -- the transaction hands on the row it has inserted, and that is whom the call speaks for
    refine Prog.Keeps.seq (R := fun r g => ∀ user, r = .ok user → g = .speaks user.id user.role)
      (Prog.Keeps.recover (R := fun r g => ∀ user, r = .ok user → g = .speaks user.id user.role) ?_ fun r g h => ?_)
      (fun user g h => ?_) fun _ _ _ => trivial
    · refine Machine.keeps_issue (M := vouching.machine) (o := .userCreate dto.email hash) ⟨dto, rfl, rfl⟩
        (fun user _ => ?_) fun _ _ _ h => nomatch h
      refine Machine.keeps_issue (M := vouching.machine) (o := .walletCreate user.id) trivial (fun _ _ u h => ?_)
        fun _ _ _ h => nomatch h
      cases h
      rfl
    · cases r with
      | ok user =>
        obtain rfl := h user rfl
        refine Machine.keeps_issue (M := vouching.machine) (o := .commit) trivial (fun _ _ u hu => ?_)
          fun _ _ _ h => nomatch h
        cases hu
        rfl
      | error e =>
        exact Machine.keeps_issue (M := vouching.machine) (o := .rollback) trivial (fun _ _ _ h => nomatch h)
          fun _ _ _ h => nomatch h
    · obtain rfl := h user rfl
      exact issueTokenPair_vouches user.id user.role

theorem login_vouches (dto : Auth.LoginDto) :
    (Auth.AuthService.login env dto).Keeps vouching.machine.discipline (fun _ _ => True) (.loggingIn dto) := by
  refine vouching_issue (o := .userFindByEmail dto.email) (by rintro _ ⟨⟩; rfl) fun found => ?_
  cases found with
  | none => trivial
  | some user =>
    refine vouching_issue (o := .bcryptCompare dto.password user.password) ⟨dto, user, rfl, rfl, rfl⟩ fun fits => ?_
    cases fits with
    | true => exact issueTokenPair_vouches user.id user.role
    | false => trivial

theorem verifyRefreshToken_vouches (token : String) (ignoreExpiration : Bool) :
    (Auth.AuthService.verifyRefreshToken token ignoreExpiration).Keeps vouching.machine.discipline
      (fun r g => ∀ payload, r = .ok payload → g = .refreshing payload.sub) .presenting := by
  refine Machine.keeps_try (M := vouching.machine) (o := .verifyRefresh token ignoreExpiration) trivial fun r _ => ?_
  cases r with
  | ok payload =>
    rintro _ ⟨⟩
    rfl
  | error e => exact fun _ h => nomatch h

theorem rotate_vouches (payload : Auth.RefreshTokenPayload) :
    (Auth.AuthService.rotate env payload).Keeps vouching.machine.discipline (fun _ _ => True)
      (.refreshing payload.sub) := by
  refine vouching_issue (o := .redisDel _) trivial fun _ => ?_
  refine vouching_issue (o := .userFindById payload.sub) rfl fun found => ?_
  cases found with
  | none => trivial
  | some user => exact issueTokenPair_vouches user.id user.role

theorem revokeAllSessions_vouches (userId : Uuid) (g : Voucher) :
    (Auth.AuthService.revokeAllSessions userId).Keeps vouching.machine.discipline (fun _ _ => True) g := by
  refine vouching_issue (o := .redisKeys _) trivial fun keys => ?_
  split
  · exact vouching_issue (o := .redisDel _) trivial fun _ => trivial
  · trivial

theorem refresh_vouches (token : String) :
    (Auth.AuthService.refresh env token).Keeps vouching.machine.discipline (fun _ _ => True) .presenting := by
  refine (verifyRefreshToken_vouches token false).seq (fun payload g h => ?_) fun _ _ _ => trivial
  obtain rfl := h payload rfl
  refine vouching_issue (o := .redisGet _) trivial fun found => ?_
  split
  · exact rotate_vouches payload
  · exact (revokeAllSessions_vouches payload.sub _).seq (fun _ _ _ => trivial) fun _ _ _ => trivial

theorem logout_vouches (token : String) :
    (Auth.AuthService.logout token).Keeps vouching.machine.discipline (fun _ _ => True) .presenting :=
  (verifyRefreshToken_vouches token true).seq
    (fun _ _ _ => vouching_issue (o := .redisDel _) trivial fun _ => trivial) fun _ _ _ => trivial

theorem vouching_follows : Platform.Follows (accounts env) vouching where
  handlers r := by
    cases r with
    | register dto => exact (register_vouches dto).seq (fun _ _ _ => trivial) fun _ _ _ => trivial
    | login dto => exact (login_vouches dto).seq (fun _ _ _ => trivial) fun _ _ _ => trivial
    | refresh token => exact (refresh_vouches token).seq (fun _ _ _ => trivial) fun _ _ _ => trivial
    | logout token => exact (logout_vouches token).seq (fun _ _ _ => trivial) fun _ _ _ => trivial
  replies _ _ _ _ _ _ _ := trivial

/-! ## In every run -/

namespace Voucher

/-- What the run so far says of a call at this stage. -/
def Known (tr : List Accounts) (r : Auth.Request) : Voucher → Prop
  | .registering dto => r = .register dto
  | .loggingIn dto => r = .login dto
  | .found dto user => r = .login dto ∧ user.email = dto.email ∧ (∃ s ∈ tr, user ∈ s.before.world.users) ∧
      (user.role = .ADMIN → Promoted tr user.id)
  | .presenting => True
  | .refreshing sub => Vouched tr sub
  | .speaks id role => Vouched tr id ∧ (role = .ADMIN → Promoted tr id)

theorem Known.mono {r : Auth.Request} {g : Voucher} (h : g.Known tr r) (hsub : ∀ s ∈ tr, s ∈ tr') :
    g.Known tr' r := by
  cases g with
  | found dto user =>
    obtain ⟨hr, hemail, ⟨s, hs, huser⟩, hrole⟩ := h
    exact ⟨hr, hemail, ⟨s, hsub s hs, huser⟩, fun hadmin => (hrole hadmin).mono hsub⟩
  | refreshing sub => exact Vouched.mono h hsub
  | speaks id role => exact ⟨h.1.mono hsub, fun hadmin => (h.2 hadmin).mono hsub⟩
  | _ => exact h

end Voucher

/-- What a token says is so. -/
def Backed (tr : List Accounts) : Auth.Claims → Prop
  | .access payload => Vouched tr payload.sub ∧ (payload.role = .ADMIN → Promoted tr payload.sub)
  | .refresh payload => Vouched tr payload.sub

theorem Backed.mono {claims : Auth.Claims} (h : Backed tr claims) (hsub : ∀ s ∈ tr, s ∈ tr') :
    Backed tr' claims := by
  cases claims with
  | access payload => exact ⟨h.1.mono hsub, fun hadmin => (h.2 hadmin).mono hsub⟩
  | refresh payload => exact Vouched.mono h hsub

/-- The row is the user table's, or an open transaction's. -/
def HasRow (w : Auth.World) (user : Auth.User) : Prop := user ∈ w.users ∨ ∃ i, (i, user) ∈ w.newUsers

structure Credited (tr : List Accounts) (c : Auth.State) (gs : List Voucher) : Prop where
  calls : Platform.Matched (fun _ call g => g.Known tr call.request) c.calls gs
  rows : ∀ user, HasRow c.world user → user.role = .ADMIN → Promoted tr user.id
  tokens : ∀ jwt ∈ c.world.signed, Backed tr jwt.claims

section

variable {c : Auth.State} {gs : List Voucher} {i : Nat} {r : Auth.Request} {o : Auth.Stmt}
  {k : Except Auth.Err (Auth.sql.Reply o) → Auth.Service Auth.Response} {g : Voucher} {x : Auth.Choice}
  {reply : Except Auth.Err (Auth.sql.Reply o)} {w : Auth.World}

/-- bcrypt says that a password fits only if the outside does. -/
theorem verdict_of_compare {ms : String → Option Nat} {password hash : String} {w₀ : Auth.World}
    (h : Auth.World.exec ms i (.bcryptCompare password hash) x w₀ = some (.ok true, w)) : x = .verdict true := by
  cases x with
  | verdict b =>
    cases h
    rfl
  | fresh id =>
    change (if id ∈ w₀.drawn then none else none) = _ at h
    rw [ite_self] at h
    cases h
  | ok | fault | text => cases h

/-- A statement leaves rows where they are, but for the one it inserts. -/
theorem row_served {ms : String → Option Nat} {w₀ : Auth.World} (hs : Auth.World.Served ms i w₀ o reply w)
    {user : Auth.User} (h : HasRow w user) : HasRow w₀ user ∨ user.role = .CUSTOMER := by
  cases hs with
  | userCreated email password row fresh shape =>
    rcases h with h | ⟨j, h⟩
    · exact Or.inl (Or.inl h)
    · rcases List.mem_append.mp h with h | h
      · exact Or.inl (Or.inr ⟨j, h⟩)
      · cases List.mem_singleton.mp h
        exact Or.inr shape.2.2
  | committed =>
    rcases h with h | ⟨j, h⟩
    · rcases List.mem_append.mp h with h | h
      · exact Or.inl (Or.inl h)
      · obtain ⟨⟨j, user⟩, hmem, rfl⟩ := List.mem_map.mp h
        exact Or.inl (Or.inr ⟨j, List.mem_of_mem_filter hmem⟩)
    · exact Or.inl (Or.inr ⟨j, List.mem_of_mem_filter h⟩)
  | commitFailed | rolledBack =>
    exact Or.inl (h.imp_right fun ⟨j, h⟩ => ⟨j, List.mem_of_mem_filter h⟩)
  | _ => exact Or.inl h

theorem mem_snoc {α : Type} {as : List α} {a : α} : ∀ b ∈ as, b ∈ as ++ [a] := fun _ h => List.mem_append_left _ h

/-- The call's step. -/
abbrev taking (c : Auth.State) (i : Nat) (r : Auth.Request)
    (k : Except Auth.Err (Auth.sql.Reply o) → Auth.Service Auth.Response) (x : Auth.Choice)
    (reply : Except Auth.Err (Auth.sql.Reply o)) (w : Auth.World) : Accounts :=
  ⟨c, .exec i x, ⟨w, c.calls.set i ⟨r, k reply, false⟩⟩⟩

/-- **What a reply tells a call.** Only four replies tell it anything about who its client is. -/
theorem Credited.next (h : Credited tr c gs)
    (hissues : Platform.Issues (accounts env) vouching c gs i r o k g x reply w) :
    (g.next o reply).Known (tr ++ [taking c i r k x reply w]) r := by
  have hg : g.Known tr r := h.calls i _ g hissues.call hissues.stage
  have hmono : g.Known (tr ++ [taking c i r k x reply w]) r := hg.mono mem_snoc
  have hmay : g.may o := hissues.may
  have hexec : Auth.World.exec env.ms i o x c.world = some (reply, w) := hissues.exec
  have hcall := hissues.call
  have htaken : taking c i r k x reply w ∈ tr ++ [taking c i r k x reply w] := by simp
  have hrole : ∀ user ∈ c.world.users, user.role = .ADMIN → Promoted (tr ++ [taking c i r k x reply w]) user.id :=
    fun user huser hadmin => (h.rows user (Or.inl huser) hadmin).mono mem_snoc
  cases Auth.World.Served.of_exec hexec with
  | read o v answer =>
    cases o with
    | userFindByEmail email =>
      have hfound : c.world.users.find? (·.email = email) = v := Option.some.inj answer
      cases g with
      | loggingIn dto =>
        cases v with
        | none => exact hmono
        | some user =>
          have hmem := List.mem_of_find?_eq_some hfound
          have hemail : user.email = email := by simpa using List.find?_some hfound
          exact ⟨hg, hemail.trans (hmay dto rfl), ⟨_, htaken, hmem⟩, hrole user hmem⟩
      | _ => exact hmono
    | userFindById id =>
      have hfound : c.world.users.find? (·.id = id) = v := Option.some.inj answer
      obtain rfl : g = .refreshing id := hmay
      cases v with
      | none => exact hmono
      | some user =>
        have hid : user.id = id := by simpa using List.find?_some hfound
        exact ⟨hid ▸ hmono, hrole user (List.mem_of_find?_eq_some hfound)⟩
    | _ => first | exact hmono | cases answer
  | compared password hash b =>
    obtain ⟨dto, user, rfl, rfl, rfl⟩ := hmay
    cases b with
    | false => exact hmono
    | true =>
      obtain ⟨rfl, hemail, hstored, hadmin⟩ := hmono
      obtain rfl := verdict_of_compare hexec
      exact ⟨.loggedIn _ htaken i dto user k rfl hcall ⟨rfl, hemail⟩ hstored, hadmin⟩
  | userCreated email password row fresh shape =>
    obtain ⟨dto, rfl, rfl⟩ := hmay
    obtain rfl : r = .register dto := hg
    refine ⟨.registered _ htaken i x dto password k rfl hcall fresh ⟨row, by simp, rfl, shape.1⟩,
      fun hadmin => ?_⟩
    rw [shape.2.2] at hadmin
    cases hadmin
  | verified token ignoreExpiration payload exp genuine =>
    exact (h.tokens _ (List.mem_of_find?_eq_some genuine)).mono mem_snoc
  | failed | refused | commitFailed => exact (g.next_error _ _).symm ▸ hmono
  | _ => exact hmono

/-- A token is signed for whom the call speaks for. -/
theorem Credited.signs (h : Credited tr c gs)
    (hissues : Platform.Issues (accounts env) vouching c gs i r o k g x reply w) :
    ∀ jwt ∈ w.signed, Backed (tr ++ [taking c i r k x reply w]) jwt.claims := by
  have hold : ∀ jwt ∈ c.world.signed, Backed (tr ++ [taking c i r k x reply w]) jwt.claims :=
    fun jwt hjwt => (h.tokens jwt hjwt).mono mem_snoc
  have hg : g.Known (tr ++ [taking c i r k x reply w]) r := (h.calls i _ g hissues.call hissues.stage).mono mem_snoc
  have hmay : g.may o := hissues.may
  cases Auth.World.Served.of_exec (show Auth.World.exec env.ms i o x c.world = some (reply, w) from hissues.exec) with
  | signedAccess payload expiresIn text span reads fresh =>
    obtain rfl : g = .speaks payload.sub payload.role := hmay
    intro jwt hjwt
    rcases List.mem_append.mp hjwt with hjwt | hjwt
    · exact hold jwt hjwt
    · obtain rfl := List.mem_singleton.mp hjwt
      exact hg
  | signedRefresh payload expiresIn text span reads fresh =>
    obtain ⟨role, rfl⟩ := hmay
    intro jwt hjwt
    rcases List.mem_append.mp hjwt with hjwt | hjwt
    · exact hold jwt hjwt
    · obtain rfl := List.mem_singleton.mp hjwt
      exact hg.1
  | _ => exact hold

end

theorem outside_signed {e : Outside} {w w' : Auth.World} (he : e.run w = some w') : w'.signed = w.signed := by
  cases e with
  | promote email =>
    cases he
    rfl
  | env e =>
    cases e with
    | foreign row =>
      simp only [Outside.run, Auth.Env.run] at he
      split at he <;> cases he
      rfl
    | _ => cases he; rfl

/-- The environment makes an ADMIN of nobody it does not promote. -/
theorem outside_row {e : Outside} {c : Auth.State} {w : Auth.World} (he : e.run c.world = some w) {user : Auth.User}
    (h : HasRow w user) (hadmin : user.role = .ADMIN) :
    (∃ user', HasRow c.world user' ∧ user'.id = user.id ∧ user'.role = .ADMIN) ∨
      Promoted [⟨c, .env e, { c with world := w }⟩] user.id := by
  have hsame : HasRow c.world user → ∃ user', HasRow c.world user' ∧ user'.id = user.id ∧ user'.role = .ADMIN :=
    fun h => ⟨user, h, rfl, hadmin⟩
  cases e with
  | promote email =>
    cases he
    rcases h with h | h
    · obtain ⟨row, hrow, rfl⟩ := List.mem_map.mp h
      by_cases hemail : row.email = email
      · subst hemail
        refine Or.inr ⟨_, List.mem_singleton.mpr rfl, row, hrow, rfl, ?_⟩
        simp
      · rw [if_neg hemail] at hadmin ⊢
        exact Or.inl ⟨row, Or.inl hrow, rfl, hadmin⟩
    · exact Or.inl (hsame (Or.inr h))
  | env e =>
    cases e with
    | foreign row =>
      simp only [Outside.run, Auth.Env.run] at he
      split at he <;> cases he
      exact Or.inl (hsame h)
    | deleteUser id =>
      cases he
      exact Or.inl (hsame (h.imp_left List.mem_of_mem_filter))
    | tick | evict =>
      cases he
      exact Or.inl (hsame h)

theorem credited_staged (ok : Auth.State → Label Auth.Request Auth.Choice Outside → Prop) :
    Platform.Staged (accounts env) vouching ok Credited where
  arrive tr c gs r hlen h _ := by
    refine ⟨(h.calls.mono fun _ _ _ hg => hg.mono mem_snoc).arrive hlen ?_,
      fun user huser hadmin => (h.rows user huser hadmin).mono mem_snoc, fun jwt hjwt => (h.tokens jwt hjwt).mono mem_snoc⟩
    cases r <;> first | exact rfl | trivial
  exec tr c gs i r o k g x reply w h _ hissues := by
    refine ⟨h.calls.set (fun _ _ _ _ hg => hg.mono mem_snoc) (h.next hissues), fun user huser hadmin => ?_,
      h.signs hissues⟩
    rcases row_served (.of_exec hissues.exec) huser with huser | hcustomer
    · exact (h.rows user huser hadmin).mono mem_snoc
    · rw [hcustomer] at hadmin
      cases hadmin
  crash tr c gs i r o k g hlen h _ hi hg :=
    ⟨h.calls.set (fun _ _ _ _ hg => hg.mono mem_snoc) trivial,
      fun user huser hadmin =>
        (h.rows user (huser.imp_right fun ⟨j, hj⟩ => ⟨j, List.mem_of_mem_filter hj⟩) hadmin).mono mem_snoc,
      fun jwt hjwt => (h.tokens jwt hjwt).mono mem_snoc⟩
  env tr c gs e w hlen h _ he := by
    refine ⟨h.calls.mono fun _ _ _ hg => hg.mono mem_snoc, fun user huser hadmin => ?_,
      fun jwt hjwt => (h.tokens jwt (outside_signed he ▸ hjwt)).mono mem_snoc⟩
    rcases outside_row (c := c) he huser hadmin with ⟨user', huser', hid, hadmin'⟩ | hpromoted
    · exact hid ▸ (h.rows user' huser' hadmin').mono mem_snoc
    · exact hpromoted.mono fun s hs => List.mem_append_right tr hs

/-- **Every token is backed**, whatever the order of steps and whatever fails. -/
theorem backed_of_run {ok : Auth.State → Label Auth.Request Auth.Choice Outside → Prop} {tr : List Accounts}
    {c : Auth.State} (hrun : Run (accounts env).step ok Auth.State.initial tr c) :
    ∀ jwt ∈ c.world.signed, Backed tr jwt.claims := by
  have hinitial : Credited [] Auth.State.initial [] := by
    refine ⟨.nil, ?_, ?_⟩
    · rintro user (h | ⟨_, h⟩) <;> cases h
    · intro jwt h
      cases h
  obtain ⟨gs, h, -⟩ := (credited_staged ok).sound vouching_follows hinitial .nil hrun
  exact h.tokens

end FlashWallet.App
