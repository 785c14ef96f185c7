import FlashWallet.Model.AuthStore

/-!
# `AuthService`

`src/auth/auth.service.ts` and `src/auth/utils/ttl.util.ts`, function by function, and the system of any
number of calls of them.
-/

set_option autoImplicit false

namespace FlashWallet.Auth

open Lib

/-! ## Times to live -/

/-- White space and line ends, as `trim` knows them. -/
def isTrimmed (c : Char) : Bool :=
  c.toNat ∈ [0x09, 0x0A, 0x0B, 0x0C, 0x0D, 0x20, 0xA0, 0x1680, 0x2028, 0x2029, 0x202F, 0x205F, 0x3000,
    0xFEFF] || (0x2000 ≤ c.toNat && c.toNat ≤ 0x200A)

theorem isTrimmed_of_isDigit {c : Char} (h : c.isDigit = true) : isTrimmed c = false := by
  have hrange : 48 ≤ c.toNat ∧ c.toNat ≤ 57 := by
    simp only [Char.isDigit, Bool.and_eq_true, decide_eq_true_eq, ge_iff_le] at h
    exact ⟨h.1, h.2⟩
  simp only [isTrimmed, List.mem_cons, List.not_mem_nil, or_false, Bool.or_eq_false_iff, decide_eq_false_iff_not,
    Bool.and_eq_false_iff]
  omega

def trim (cs : List Char) : List Char :=
  ((cs.dropWhile isTrimmed).reverse.dropWhile isTrimmed).reverse

/-- `parseInt(digits, 10)`, exactly: from `2 ^ 53` on JavaScript rounds to the nearest double. -/
def parseInt (digits : List Char) : Nat := digits.foldl (fun n c => 10 * n + (c.toNat - '0'.toNat)) 0

/-- `multipliers`, with the unit that stands for none. -/
def multiplier? : List Char → Option Nat
  | [] => some 1
  | ['s'] => some 1
  | ['m'] => some 60
  | ['h'] => some (60 * 60)
  | ['d'] => some (60 * 60 * 24)
  | _ => none

/-- `/^(\d+)(s|m|h|d)?$/` on the trimmed text, and the product of its two groups. -/
def ttlToSeconds (value : String) : Except Err Nat :=
  let text := trim value.toList
  let digits := text.takeWhile Char.isDigit
  match multiplier? (text.dropWhile Char.isDigit) with
  | some multiplier =>
    if digits = [] then .error (.error ("Invalid TTL format: \"" ++ value ++ "\""))
    else .ok (parseInt digits * multiplier)
  | none => .error (.error ("Invalid TTL format: \"" ++ value ++ "\""))

/-! ## Requests and answers -/

structure AuthTokens where
  accessToken : String
  refreshToken : String
deriving DecidableEq, Repr

structure RegisterDto where
  email : String
  password : String
deriving DecidableEq, Repr

structure LoginDto where
  email : String
  password : String
deriving DecidableEq, Repr

/-- The settings the service reads, and how the token library reads a duration. -/
structure Settings where
  accessTtl : String
  refreshTtl : String
  ms : String → Option Nat

/-- `refresh:{userId}:{jti}`. -/
def refreshKey (userId jti : Uuid) : String := "refresh:" ++ userId.text ++ ":" ++ jti.text

/-- `refresh:{userId}:*`. -/
def refreshPattern (userId : Uuid) : String := "refresh:" ++ userId.text ++ ":" ++ "*"

namespace AuthService

/-- `prisma.$transaction`. -/
def transaction {α : Type} (body : Service α) : Service α := do
  match ← body.attempt with
  | .ok a => do
    issue .commit
    return a
  | .error err => do
    issue .rollback
    throw err

def issueTokenPair (env : Settings) (userId : Uuid) (role : Role) : Service AuthTokens := do
  let accessToken ← issue (.signAccess { sub := userId, role := role } env.accessTtl)
  let jti ← issue .randomUUID
  let refreshToken ← issue (.signRefresh { sub := userId, jti := jti } env.refreshTtl)
  match ttlToSeconds env.refreshTtl with
  -- both tokens are signed by now, but no session is written
  | .error err => throw err
  | .ok seconds => do
    issue (.redisSet (refreshKey userId jti) "1" seconds)
    return { accessToken := accessToken, refreshToken := refreshToken }

def verifyRefreshToken (token : String) (ignoreExpiration : Bool) : Service RefreshTokenPayload := do
  match ← (issue (.verifyRefresh token ignoreExpiration)).attempt with
  | .ok payload => return payload
  -- whatever was thrown, the client sees the same
  | .error _ => throw (.unauthorized "Invalid or expired refresh token")

def revokeAllSessions (userId : Uuid) : Service Unit := do
  let keys : List String ← issue (.redisKeys (refreshPattern userId))
  if 0 < keys.length then
    let _ ← issue (.redisDel keys)
    return ()
  else
    return ()

def register (env : Settings) (dto : RegisterDto) : Service AuthTokens := do
  match ← issue (.userFindByEmail dto.email) with
  | some _ => throw (.conflict "A user with this email already exists")
  | none =>
    let hashed : String ← issue (.bcryptHash dto.password)
    let user ← transaction do
      let created : User ← issue (.userCreate dto.email hashed)
      let _ ← issue (.walletCreate created.id)
      return created
    -- the rows are committed: what fails from here on does not take them back
    issueTokenPair env user.id user.role

def login (env : Settings) (dto : LoginDto) : Service AuthTokens := do
  match ← issue (.userFindByEmail dto.email) with
  | none => throw (.unauthorized "Invalid credentials")
  | some user =>
    let passwordMatches : Bool ← issue (.bcryptCompare dto.password user.password)
    if passwordMatches then issueTokenPair env user.id user.role
    else throw (.unauthorized "Invalid credentials")

/-- What a refresh throws when it has found its token used. -/
def reuseDetected : Err :=
  .unauthorized "Refresh token is no longer valid; all sessions have been revoked"

/-- The part of `refresh` behind the look at Redis: the token is still good. -/
def rotate (env : Settings) (payload : RefreshTokenPayload) : Service AuthTokens := do
  -- how many keys were deleted is not looked at
  let _ ← issue (.redisDel [refreshKey payload.sub payload.jti])
  match ← issue (.userFindById payload.sub) with
  | none => throw (.unauthorized "User no longer exists")
  | some user => issueTokenPair env user.id user.role

/-- `!exists` holds of the empty string too. -/
def truthy : Option String → Bool
  | none => false
  | some s => s ≠ ""

def refresh (env : Settings) (refreshToken : String) : Service AuthTokens := do
  let payload ← verifyRefreshToken refreshToken false
  let found : Option String ← issue (.redisGet (refreshKey payload.sub payload.jti))
  if truthy found then
    rotate env payload
  else
    -- taken for the reuse of a token that has been rotated
    revokeAllSessions payload.sub
    throw reuseDetected

def logout (refreshToken : String) : Service Unit := do
  let payload ← verifyRefreshToken refreshToken true
  let _ ← issue (.redisDel [refreshKey payload.sub payload.jti])
  return ()

end AuthService

/-! ## The system -/

inductive Request where
  | register (dto : RegisterDto)
  | login (dto : LoginDto)
  | refresh (refreshToken : String)
  | logout (refreshToken : String)
deriving DecidableEq, Repr

inductive Response where
  | tokens (t : AuthTokens)
  | loggedOut
deriving DecidableEq, Repr

def Request.handler (env : Settings) : Request → Service Response
  | .register dto => .tokens <$> AuthService.register env dto
  | .login dto => .tokens <$> AuthService.login env dto
  | .refresh token => .tokens <$> AuthService.refresh env token
  | .logout token => do
    AuthService.logout token
    return .loggedOut

/-- The prefix of every key of this service. -/
def isSession (key : String) : Bool := "refresh:".toList.isPrefixOf key.toList

/-- Moves of the environment: time passes, and Redis drops what has had its time; the rest of the
application writes a key of its own; Redis evicts a key; an administrator deletes a user. -/
inductive Env where
  | tick (ms : Nat)
  | foreign (row : RedisRow)
  | evict (key : String)
  | deleteUser (id : Uuid)
deriving DecidableEq, Repr

/-- The row is there at time `clock`. -/
def RedisRow.lasts (row : RedisRow) (clock : Nat) : Bool := row.expiresAt.all (clock < ·)

def Env.run : Env → World → Option World
  | .tick ms, w => some { w with
      clock := w.clock + ms
      redis := w.redis.filter (·.lasts (w.clock + ms)) }
  | .foreign row, w =>
    if isSession row.key then none
    else some { w with redis := w.redis.filter (·.key ≠ row.key) ++ [row] }
  | .evict key, w => some { w with redis := w.redis.filter (·.key ≠ key) }
  | .deleteUser id, w => some { w with users := w.users.filter (·.id ≠ id) }

def system (env : Settings) : Platform sql Err Response Request Choice Env World where
  program := Request.handler env
  exec := World.exec env.ms
  cutOff i w := w.release i
  env := Env.run

abbrev State := Config sql Err Response Request World

abbrev Event := Label Request Choice Env

abbrev ServiceCall := Lib.Call sql Err Response Request

abbrev Trace := List (Step State Event)

def State.initial : State := ⟨World.initial, []⟩

/-- The statement a step issues, if it issues one. -/
def nextStmt? (c : State) : Event → Option Stmt
  | .exec i _ =>
    match c.calls[i]? with
    | some ⟨_, .call o _, false⟩ => some o
    | _ => none
  | _ => none

/-- A run of the system, restricted to steps `ok` allows. -/
abbrev RunFrom (env : Settings) (c₀ : State) (ok : State → Event → Prop) (tr : Trace) (c : State) : Prop :=
  Run (system env).step ok c₀ tr c

end FlashWallet.Auth
