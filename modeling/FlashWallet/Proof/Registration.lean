import FlashWallet.Proof.AuthCalls
import FlashWallet.Proof.AuthRuns

/-!
# A registration as a machine

Up to its commit a registration has written nothing that anybody can see, and has a user and a wallet of its own in
its open transaction. From its commit on both are there, and what can still fail is the issue of the tokens.
-/

set_option autoImplicit false

namespace FlashWallet.Auth

open Lib

inductive Registering where
  | other
  | asked (email : String)
  | taken
  | free (email : String)
  | hashed (email : String)
  | created (user : User)
  | filled (user : User) (wallet : Wallet)
  | failing (err : Err)
  | failed (err : Err)
  | registered (user : User) (wallet : Wallet)
  | late (err : Err)
  | cut

namespace Registering

def onError (err : Err) : Registering → Registering
  | .hashed _ | .created _ => .failing err
  | .asked _ | .free _ | .filled .. | .failing _ => .failed err
  | .registered .. => .late err
  | g => g

def onFind : Registering → Option User → Registering
  | .asked _, some _ => .taken
  | .asked email, none => .free email
  | g, _ => g

def onHash : Registering → Registering
  | .free email => .hashed email
  | g => g

def onUserCreate : Registering → User → Registering
  | .hashed _, user => .created user
  | g, _ => g

def onWalletCreate : Registering → Wallet → Registering
  | .created user, wallet => .filled user wallet
  | g, _ => g

def onCommit : Registering → Registering
  | .filled user wallet => .registered user wallet
  | g => g

def onRollback : Registering → Registering
  | .failing err => .failed err
  | g => g

def next (g : Registering) : (o : Stmt) → Except Err o.Reply → Registering
  | _, .error err => g.onError err
  | .userFindByEmail _, .ok user => g.onFind user
  | .bcryptHash _, .ok _ => g.onHash
  | .userCreate .., .ok user => g.onUserCreate user
  | .walletCreate _, .ok wallet => g.onWalletCreate wallet
  | .commit, .ok _ => g.onCommit
  | .rollback, .ok _ => g.onRollback
  | _, .ok _ => g

/-- Statements behind the commit. -/
def Issues (env : Settings) : Stmt → Prop
  | .signAccess _ expiresIn => expiresIn = env.accessTtl
  | .signRefresh _ expiresIn => expiresIn = env.refreshTtl
  | .randomUUID => True
  | .redisSet _ _ seconds => ttlToSeconds env.refreshTtl = .ok seconds
  | _ => False

theorem next_other {o : Stmt} (r : Except Err o.Reply) : other.next o r = .other := by
  cases r <;> cases o <;> rfl

theorem next_registered {user : User} {wallet : Wallet} {o : Stmt} (v : o.Reply) :
    (registered user wallet).next o (.ok v) = .registered user wallet := by
  cases o <;> rfl

/-- Statements of the other calls. -/
def Leaves : Stmt → Prop
  | .userCreate .. | .walletCreate _ | .commit => False
  | _ => True

inductive May (env : Settings) : Registering → Stmt → Prop where
  | other (o : Stmt) (leaves : Leaves o) : May env .other o
  | find (email : String) : May env (.asked email) (.userFindByEmail email)
  | hash (email password : String) : May env (.free email) (.bcryptHash password)
  | create (email password : String) : May env (.hashed email) (.userCreate email password)
  | provision (user : User) : May env (.created user) (.walletCreate user.id)
  | commit (user : User) (wallet : Wallet) : May env (.filled user wallet) .commit
  | rollback (err : Err) : May env (.failing err) .rollback
  | issue (user : User) (wallet : Wallet) (o : Stmt) (issues : Issues env o) : May env (.registered user wallet) o

/-- What a registration throws when it has found the email taken. -/
def emailTaken : Err := .conflict "A user with this email already exists"

inductive Answered (env : Settings) : Except Err Response → Registering → Prop where
  | other (r : Except Err Response) : Answered env r .other
  | taken : Answered env (.error emailTaken) .taken
  | failed (err : Err) : Answered env (.error err) (.failed err)
  | registered (user : User) (wallet : Wallet) (t : AuthTokens) :
      Answered env (.ok (.tokens t)) (.registered user wallet)
  | illTimed (user : User) (wallet : Wallet) (err : Err) (ttl : ttlToSeconds env.refreshTtl = .error err) :
      Answered env (.error err) (.registered user wallet)
  | late (err : Err) : Answered env (.error err) (.late err)

end Registering

/-- The stages of all calls, with an eye on the registrations. -/
def registrations (env : Settings) : Platform.Stages sql Err Response Request Registering where
  machine :=
    { may := Registering.May env
      next := Registering.next
      tells := fun _ _ => True }
  start
    | .register dto => .asked dto.email
    | _ => .other
  cut := .cut
  ends _ r g := Registering.Answered env r g

section

variable {env : Settings}

/-- Nobody else inserts a user or a wallet. -/
theorem registers_other {p : Service Response} (hp : p.Uses Registering.Leaves) :
    p.Keeps (registrations env).machine.discipline (Registering.Answered env) .other := by
  induction p with
  | done a => exact .other _
  | fail e => exact .other _
  | call o k ih =>
    refine ⟨.other o hp.1, fun r g' h => ?_⟩
    obtain rfl := h.1.trans (Registering.next_other r)
    exact ih r (hp.2 r)

theorem issueTokenPair_registers (user : User) (wallet : Wallet) :
    (AuthService.issueTokenPair env user.id user.role).Keeps (registrations env).machine.discipline
      (fun r g => Registering.Answered env (r.map Response.tokens) g) (.registered user wallet) := by
  refine Machine.keeps_issue (M := (registrations env).machine) (.issue user wallet _ rfl) (fun access _ => ?_)
    fun e _ => .late e
  refine Machine.keeps_issue (M := (registrations env).machine) (o := .randomUUID) (.issue user wallet _ trivial)
    (fun jti _ => ?_) fun e _ => .late e
  refine Machine.keeps_issue (M := (registrations env).machine) (.issue user wallet _ rfl) (fun refresh _ => ?_)
    fun e _ => .late e
  cases hseconds : ttlToSeconds env.refreshTtl with
  | error err => exact .illTimed user wallet err hseconds
  | ok seconds =>
    exact Machine.keeps_issue (M := (registrations env).machine) (.issue user wallet _ hseconds)
      (fun _ _ => .registered user wallet _) fun e _ => .late e

/-- How the body of a registration may leave its transaction. -/
inductive Registering.Fills : Except Err User → Registering → Prop where
  | filled (user : User) (wallet : Wallet) : Fills (.ok user) (.filled user wallet)
  | failing (err : Err) : Fills (.error err) (.failing err)

theorem register_registers (dto : RegisterDto) :
    (AuthService.register env dto).Keeps (registrations env).machine.discipline
      (fun r g => Registering.Answered env (r.map Response.tokens) g) (.asked dto.email) := by
  refine Machine.keeps_issue (M := (registrations env).machine) (.find dto.email) (fun found _ => ?_)
    fun e _ => .failed e
  cases found with
  | some user => exact .taken
  | none =>
    refine Machine.keeps_issue (M := (registrations env).machine) (.hash dto.email dto.password) (fun hash _ => ?_)
      fun e _ => .failed e
    refine Prog.Keeps.seq (R := fun r g => match r with
      | .ok user => ∃ wallet, g = .registered user wallet
      | .error e => g = .failed e) (Prog.Keeps.recover (R := Registering.Fills) ?_ fun r g h => ?_) ?_ ?_
    · refine Machine.keeps_issue (M := (registrations env).machine) (.create dto.email hash) (fun user _ => ?_)
        fun e _ => .failing e
      exact Machine.keeps_issue (M := (registrations env).machine) (.provision user)
        (fun wallet _ => .filled user wallet)
        fun e _ => .failing e
    · cases h with
      | filled user wallet =>
        exact Machine.keeps_issue (M := (registrations env).machine) (.commit user wallet) (fun _ _ => ⟨wallet, rfl⟩)
          fun e _ => rfl
      | failing err =>
        exact Machine.keeps_issue (M := (registrations env).machine) (.rollback err) (fun _ _ => rfl) fun e _ => rfl
    · rintro user g ⟨wallet, rfl⟩
      exact issueTokenPair_registers user wallet
    · rintro e g rfl
      exact .failed e

/-! ## The others -/

theorem leaves_issue {α : Type} {o : Stmt} {f : o.Reply → Service α} (ho : Registering.Leaves o)
    (hf : ∀ v, (f v).Uses Registering.Leaves) : ((issue o).bind f).Uses Registering.Leaves :=
  Prog.uses_bind (Prog.uses_perform ho) hf

theorem issueTokenPair_leaves (sub : Uuid) (role : Role) :
    (AuthService.issueTokenPair env sub role).Uses Registering.Leaves := by
  refine leaves_issue (o := .signAccess _ _) trivial fun access => leaves_issue (o := .randomUUID) trivial fun jti => ?_
  refine leaves_issue (o := .signRefresh _ _) trivial fun token => ?_
  cases ttlToSeconds env.refreshTtl with
  | error err => trivial
  | ok seconds => exact leaves_issue (o := .redisSet _ _ _) trivial fun _ => trivial

theorem verifyRefreshToken_leaves (token : String) (ignoreExpiration : Bool) :
    (AuthService.verifyRefreshToken token ignoreExpiration).Uses Registering.Leaves := by
  refine Prog.uses_bind (Prog.uses_attempt (Prog.uses_perform (S := sql) (o := .verifyRefresh token ignoreExpiration)
    trivial)) fun r => ?_
  cases r <;> trivial

theorem login_leaves (dto : LoginDto) : (AuthService.login env dto).Uses Registering.Leaves := by
  refine leaves_issue (o := .userFindByEmail dto.email) trivial fun found => ?_
  cases found with
  | none => trivial
  | some user =>
    refine leaves_issue (o := .bcryptCompare dto.password user.password) trivial fun fits => ?_
    split
    · exact issueTokenPair_leaves user.id user.role
    · trivial

theorem rotate_leaves (payload : RefreshTokenPayload) : (AuthService.rotate env payload).Uses Registering.Leaves := by
  refine leaves_issue (o := .redisDel _) trivial fun _ => leaves_issue (o := .userFindById payload.sub) trivial
    fun found => ?_
  cases found with
  | none => trivial
  | some user => exact issueTokenPair_leaves user.id user.role

theorem revokeAllSessions_leaves (userId : Uuid) : (AuthService.revokeAllSessions userId).Uses Registering.Leaves := by
  refine leaves_issue (o := .redisKeys _) trivial fun keys => ?_
  split
  · exact leaves_issue (o := .redisDel _) trivial fun _ => trivial
  · trivial

theorem refresh_leaves (token : String) : (AuthService.refresh env token).Uses Registering.Leaves := by
  refine Prog.uses_bind (verifyRefreshToken_leaves token false) fun payload => ?_
  refine leaves_issue (o := .redisGet _) trivial fun found => ?_
  split
  · exact rotate_leaves payload
  · exact Prog.uses_bind (revokeAllSessions_leaves payload.sub) fun _ => trivial

theorem logout_leaves (token : String) : (AuthService.logout token).Uses Registering.Leaves :=
  Prog.uses_bind (verifyRefreshToken_leaves token true) fun _ =>
    leaves_issue (o := .redisDel _) trivial fun _ => trivial

theorem registrations_follows : Platform.Follows (system env) (registrations env) where
  handlers r := by
    cases r with
    | register dto => exact (register_registers dto).seq (fun t g h => h) fun e g h => h
    | login dto => exact registers_other (Prog.uses_bind (login_leaves dto) fun _ => trivial)
    | refresh token => exact registers_other (Prog.uses_bind (refresh_leaves token) fun _ => trivial)
    | logout token => exact registers_other (Prog.uses_bind (logout_leaves token) fun _ => trivial)
  replies _ _ _ _ _ _ _ := trivial

end

/-! ## What registrations write -/

namespace World

/-- The users and wallets call `i` has written and not committed. -/
def openUsers (w : World) (i : Nat) : List User := (w.newUsers.filter (·.1 = i)).map (·.2)

def openWallets (w : World) (i : Nat) : List Wallet := (w.newWallets.filter (·.1 = i)).map (·.2)

variable {ms : String → Option Nat} {w w' : World} {i j : Nat}

/-- An email that is inserted is nobody's. -/
theorem exec_userCreate {email password : String} {x : Choice} {user : User}
    (h : World.exec ms i (.userCreate email password) x w = some (.ok user, w')) :
    user.email = email ∧ (∀ u ∈ w.users, u.email ≠ email) ∧ (∀ p ∈ w.newUsers, p.2.email ≠ email) ∧
      ∃ drawn, w' = { w with newUsers := w.newUsers ++ [(i, user)], drawn := drawn } := by
  cases x with
  | fresh id =>
    change (if id ∈ w.drawn then none else w.userCreate i id email password) = _ at h
    split at h
    · cases h
    unfold userCreate at h
    split at h
    · cases h
    split at h
    · cases h
    · rename_i hfree
      cases h
      simp only [Bool.or_eq_true, List.any_eq_true, decide_eq_true_eq, not_or, not_exists, not_and] at hfree
      exact ⟨rfl, hfree.1, hfree.2, _, rfl⟩
  | ok | fault | text | verdict => cases h

theorem exec_walletCreate {userId : Uuid} {x : Choice} {wallet : Wallet}
    (h : World.exec ms i (.walletCreate userId) x w = some (.ok wallet, w')) :
    wallet.userId = userId ∧ wallet.balance.cents = 0 ∧
      ∃ drawn, w' = { w with newWallets := w.newWallets ++ [(i, wallet)], drawn := drawn } := by
  cases x with
  | fresh id =>
    change (if id ∈ w.drawn then none else w.walletCreate i id userId) = _ at h
    split at h
    · cases h
    unfold walletCreate at h
    split at h
    · cases h
    split at h
    · cases h
    split at h
    · cases h
    · cases h
      exact ⟨rfl, rfl, _, rfl⟩
  | ok | fault | text | verdict => cases h

/-- No email is there twice, open transactions included. -/
def EmailsUnique (w : World) : Prop := ((w.users ++ w.newUsers.map (·.2)).map User.email).Nodup

/-! ### One part of the world at a time -/

/-- Nobody else writes in an open transaction. -/
theorem open_served {o : Stmt} {r : Except Err o.Reply} (hs : Served ms i w o r w') (hij : j ≠ i) :
    w'.openUsers j = w.openUsers j ∧ w'.openWallets j = w.openWallets j := by
  have hrelease : ∀ {α : Type} (rows : List (Nat × α)),
      (rows.filter (·.1 ≠ i)).filter (·.1 = j) = rows.filter (·.1 = j) := by
    intro α rows
    rw [List.filter_filter]
    refine List.filter_congr fun p _ => ?_
    by_cases hp : p.1 = j
    · simp [hp, hij]
    · simp [hp]
  cases hs with
  | userCreated | walletCreated => simp [openUsers, openWallets, Ne.symm hij]
  | committed | commitFailed | rolledBack =>
    exact ⟨congrArg (List.map Prod.snd) (hrelease w.newUsers), congrArg (List.map Prod.snd) (hrelease w.newWallets)⟩
  | _ => exact ⟨rfl, rfl⟩

/-- Nor does the call itself, but when it inserts or ends its transaction. -/
theorem open_own {o : Stmt} {r : Except Err o.Reply} (hs : Served ms i w o r w') (ho : Registering.Leaves o)
    (hrollback : o ≠ .rollback) : w'.openUsers i = w.openUsers i ∧ w'.openWallets i = w.openWallets i := by
  cases hs with
  | userCreated | walletCreated | committed | commitFailed => exact ho.elim
  | rolledBack => exact absurd rfl hrollback
  | _ => exact ⟨rfl, rfl⟩

theorem found_served {email : String} {found : Option User}
    (hs : Served ms i w (.userFindByEmail email) (.ok found) w') : w.users.find? (·.email = email) = found := by
  cases hs with
  | read _ _ answer => exact Option.some.inj answer

/-- A statement that is never refused fails for reasons of infrastructure alone. -/
theorem fault_of_error {o : Stmt} {x : Choice} {e : Err} (h : World.exec ms i o x w = some (.error e, w'))
    (ho : ¬w.Refuses ms o e) : x = .fault := by
  by_contra hx
  have hs := Served.of_exec h
  cases hs with
  | failed | commitFailed => exact World.available hx h rfl
  | refused _ _ reason => exact ho reason

/-- Rows become visible by a commit, and by nothing else. -/
theorem rows_served {o : Stmt} {r : Except Err o.Reply} (hs : Served ms i w o r w')
    (ho : o ≠ .commit ∨ r.isOk = false) : w'.users = w.users ∧ w'.wallets = w.wallets := by
  cases hs with
  | committed =>
    rcases ho with ho | ho
    · exact absurd rfl ho
    · cases ho
  | _ => exact ⟨rfl, rfl⟩

theorem rows_committed {v : Unit} (hs : Served ms i w .commit (.ok v) w') :
    w'.users = w.users ++ w.openUsers i ∧ w'.wallets = w.wallets ++ w.openWallets i := by
  cases hs with
  | read _ _ answer => cases answer
  | committed => exact ⟨rfl, rfl⟩

theorem EmailsUnique.release (h : w.EmailsUnique) : (w.release i).EmailsUnique :=
  h.sublist (((List.Sublist.refl w.users).append (List.filter_sublist.map _)).map _)

theorem EmailsUnique.commit (h : w.EmailsUnique) : (w.commit i).EmailsUnique := by
  refine ((List.Perm.map _ ?_).nodup_iff).mpr h
  have hsplit : (w.openUsers i ++ (w.newUsers.filter (·.1 ≠ i)).map (·.2)).Perm (w.newUsers.map (·.2)) := by
    rw [openUsers, ← List.map_append]
    refine List.Perm.map _ ?_
    have := List.filter_append_perm (fun p : Nat × User => decide (p.1 = i)) w.newUsers
    simpa using this
  show (w.users ++ w.openUsers i ++ (w.newUsers.filter (·.1 ≠ i)).map (·.2)).Perm _
  rw [List.append_assoc]
  exact hsplit.append_left w.users

theorem EmailsUnique.exec (h : w.EmailsUnique) {o : Stmt} {x : Choice} {r : Except Err o.Reply}
    (hexec : World.exec ms i o x w = some (r, w')) : w'.EmailsUnique := by
  have hs := Served.of_exec hexec
  cases hs with
  | userCreated email password row =>
    obtain ⟨rfl, husers, hnew, -⟩ := exec_userCreate hexec
    have hone : (w.users ++ (w.newUsers ++ [(i, row)]).map (·.2)).map User.email =
        (w.users ++ w.newUsers.map (·.2)).map User.email ++ [row.email] := by simp
    show ((w.users ++ (w.newUsers ++ [(i, row)]).map (·.2)).map User.email).Nodup
    rw [hone]
    refine List.nodup_append.mpr ⟨h, by simp, fun email hemail email' hemail' heq => ?_⟩
    obtain rfl : email' = row.email := by simpa using hemail'
    obtain ⟨u, hu, rfl⟩ := List.mem_map.mp hemail
    rcases List.mem_append.mp hu with hu | hu
    · exact husers u hu heq
    · obtain ⟨p, hp, rfl⟩ := List.mem_map.mp hu
      exact hnew p hp heq
  | committed => exact h.commit
  | commitFailed | rolledBack => exact h.release
  | _ => exact h

theorem EmailsUnique.env (h : w.EmailsUnique) {e : Env} (he : e.run w = some w') : w'.EmailsUnique := by
  cases e with
  | foreign row =>
    simp only [Env.run] at he
    split at he <;> cases he
    exact h
  | tick | evict =>
    cases he
    exact h
  | deleteUser id =>
    cases he
    exact h.sublist ((List.filter_sublist.append (List.Sublist.refl _)).map _)

theorem open_env {e : Env} (he : e.run w = some w') (i : Nat) :
    w'.openUsers i = w.openUsers i ∧ w'.openWallets i = w.openWallets i := by
  cases e with
  | foreign row =>
    simp only [Env.run] at he
    split at he <;> cases he
    exact ⟨rfl, rfl⟩
  | tick | evict | deleteUser =>
    cases he
    exact ⟨rfl, rfl⟩

theorem EmailsUnique.users (h : w.EmailsUnique) : (w.users.map User.email).Nodup :=
  h.sublist ((List.sublist_append_left _ _).map _)

end World

end FlashWallet.Auth
