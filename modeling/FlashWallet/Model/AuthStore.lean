import FlashWallet.Lib.Glob
import FlashWallet.Lib.Pool
import FlashWallet.Model.Schema

/-!
# What the authentication service is run on

The user table, Redis as a store of texts with expiry, JSON Web Tokens, bcrypt and the clock, one
statement at a time, in the manner of `Store.lean`. The wallet service keeps its answers in the same
Redis, under keys of its own: here they are rows like any other, and come and go by moves of the
environment.

* A token is a text. `signed` is what has been signed so far, and verification accepts what has been
  signed with its secret and nothing else: signatures are not forged, and the two secrets are two.
* bcrypt is not looked into: the outside chooses the hash, and whether a password fits one.
* Redis drops a key the moment its time to live is over.
-/

set_option autoImplicit false

namespace FlashWallet.Auth

open Lib

/-! ## Rows, payloads and errors -/

inductive Role where
  | CUSTOMER
  | ADMIN
deriving DecidableEq, Repr

structure User where
  id : Uuid
  email : String
  password : String
  role : Role
deriving DecidableEq, Repr

structure AccessTokenPayload where
  sub : Uuid
  role : Role
deriving DecidableEq, Repr

structure RefreshTokenPayload where
  sub : Uuid
  jti : Uuid
deriving DecidableEq, Repr

/-- What was signed, and with which of the two secrets. -/
inductive Claims where
  | access (payload : AccessTokenPayload)
  | refresh (payload : RefreshTokenPayload)
deriving DecidableEq, Repr

/-- A signed token. `exp` is in seconds. -/
structure Jwt where
  text : String
  claims : Claims
  exp : Nat
deriving DecidableEq, Repr

/-- A key of Redis. Times are milliseconds; a key without `expiresAt` stays. -/
structure RedisRow where
  key : String
  value : String
  expiresAt : Option Nat
deriving DecidableEq, Repr

/-- What a statement can throw, and what the service throws itself. `error` is a plain `Error` of the
code or of a library. -/
inductive Err where
  | conflict (message : String)
  | unauthorized (message : String)
  | error (message : String)
  | uniqueViolation
  | foreignKeyViolation
  | unavailable
deriving DecidableEq, Repr

/-! ## Statements -/

inductive Stmt where
  | userFindByEmail (email : String)
  | userFindById (id : Uuid)
  | bcryptHash (password : String)
  | bcryptCompare (password hash : String)
  | userCreate (email password : String)
  | walletCreate (userId : Uuid)
  | commit
  | rollback
  | signAccess (payload : AccessTokenPayload) (expiresIn : String)
  | signRefresh (payload : RefreshTokenPayload) (expiresIn : String)
  | verifyRefresh (token : String) (ignoreExpiration : Bool)
  | randomUUID
  | redisGet (key : String)
  | redisSet (key value : String) (seconds : Nat)
  | redisDel (keys : List String)
  | redisKeys (pattern : String)
deriving DecidableEq, Repr

def Stmt.Reply : Stmt → Type
  | .userFindByEmail _ => Option User
  | .userFindById _ => Option User
  | .bcryptHash _ => String
  | .bcryptCompare .. => Bool
  | .userCreate .. => User
  | .walletCreate _ => Wallet
  | .commit => Unit
  | .rollback => Unit
  | .signAccess .. => String
  | .signRefresh .. => String
  | .verifyRefresh .. => RefreshTokenPayload
  | .randomUUID => Uuid
  | .redisGet _ => Option String
  | .redisSet .. => Unit
  | .redisDel _ => Nat
  | .redisKeys _ => List String

/-- Statements whose failure there is no need to reckon with, beyond what they answer themselves. -/
def Stmt.isLocal : Stmt → Bool
  | .randomUUID | .verifyRefresh .. | .rollback => true
  | _ => false

abbrev sql : Signature := ⟨Stmt, Stmt.Reply⟩

abbrev Service (α : Type) := Prog sql Err α

abbrev issue (o : Stmt) : Service o.Reply := Prog.perform (S := sql) o

/-- What the outside decides about a statement: that it succeeds or fails, the identifier drawn, the
text of a hash or of a token, whether a password fits. -/
inductive Choice where
  | ok
  | fault
  | fresh (id : Uuid)
  | text (s : String)
  | verdict (b : Bool)
deriving DecidableEq, Repr

/-! ## The world -/

/-- `newUsers` and `newWallets` are the rows of open transactions, each with the call it belongs to. -/
structure World where
  users : List User
  wallets : List Wallet
  newUsers : List (Nat × User)
  newWallets : List (Nat × Wallet)
  redis : List RedisRow
  signed : List Jwt
  clock : Nat
  drawn : List Uuid

namespace World

def initial : World := ⟨[], [], [], [], [], [], 0, []⟩

def now (w : World) : Nat := w.clock / 1000

/-! ### Redis -/

def redisGet (w : World) (key : String) : Option String := (w.redis.find? (·.key = key)).map (·.value)

/-- `SET key value EX seconds`. -/
def redisSet (w : World) (key value : String) (seconds : Nat) : Except Err Unit × World :=
  if seconds = 0 then (.error (.error "ERR invalid expire time in 'set' command"), w)
  else (.ok (), { w with
    redis := w.redis.filter (·.key ≠ key) ++ [⟨key, value, some (w.clock + seconds * 1000)⟩] })

def redisDel (w : World) (keys : List String) : World :=
  { w with redis := w.redis.filter (·.key ∉ keys) }

def redisKeys (w : World) (pattern : String) : List String :=
  (w.redis.map (·.key)).filter (Glob.isMatch pattern)

/-! ### Tokens -/

def jwt? (w : World) (token : String) : Option Jwt := w.signed.find? (·.text = token)

/-- `signAsync`. `ms` is the library's reading of `expiresIn`. -/
def sign (ms : String → Option Nat) (w : World) (claims : Claims) (expiresIn text : String) :
    Option (Except Err String × World) :=
  match ms expiresIn with
  | none => some (.error (.error
      "\"expiresIn\" should be a number of seconds or string representing a timespan"), w)
  | some span =>
    if (w.jwt? text).isSome then none
    else some (.ok text, { w with signed := w.signed ++ [⟨text, claims, w.now + span / 1000⟩] })

/-- `verifyAsync` with the refresh secret. -/
def verifyRefresh (w : World) (token : String) (ignoreExpiration : Bool) :
    Except Err RefreshTokenPayload :=
  match w.jwt? token with
  | some ⟨_, .refresh payload, exp⟩ =>
    if ignoreExpiration = false ∧ exp ≤ w.now then .error (.error "jwt expired") else .ok payload
  -- an access token is signed with the other secret
  | _ => .error (.error "invalid signature")

/-! ### Registration -/

/-- `None` while another transaction has inserted the same address and is still open. -/
def userCreate (w : World) (i : Nat) (id : Uuid) (email password : String) :
    Option (Except Err User × World) :=
  if w.newUsers.any fun (j, u) => j ≠ i ∧ u.email = email then none
  else if w.users.any (·.email = email) || w.newUsers.any (·.2.email = email) then
    some (.error .uniqueViolation, w)
  else
    let row : User := ⟨id, email, password, .CUSTOMER⟩
    some (.ok row, { w with newUsers := w.newUsers ++ [(i, row)], drawn := id :: w.drawn })

def walletCreate (w : World) (i : Nat) (id userId : Uuid) : Option (Except Err Wallet × World) :=
  if w.newWallets.any fun (j, row) => j ≠ i ∧ row.userId = userId then none
  else if (w.users ++ (w.newUsers.filter (·.1 = i)).map (·.2)).all (·.id ≠ userId) then
    some (.error .foreignKeyViolation, w)
  else if w.wallets.any (·.userId = userId) || w.newWallets.any (·.2.userId = userId) then
    some (.error .uniqueViolation, w)
  else
    let row : Wallet := ⟨id, userId, Money.zero, 0⟩
    some (.ok row, { w with newWallets := w.newWallets ++ [(i, row)], drawn := id :: w.drawn })

/-- End call `i`'s transaction without its rows. -/
def release (w : World) (i : Nat) : World :=
  { w with
    newUsers := w.newUsers.filter (·.1 ≠ i)
    newWallets := w.newWallets.filter (·.1 ≠ i) }

def commit (w : World) (i : Nat) : World :=
  { w.release i with
    users := w.users ++ (w.newUsers.filter (·.1 = i)).map (·.2)
    wallets := w.wallets ++ (w.newWallets.filter (·.1 = i)).map (·.2) }

/-! ### Execution -/

def serve (w : World) (i : Nat) : (o : Stmt) → Option (Except Err o.Reply × World)
  | .userFindByEmail email => some (.ok (w.users.find? (·.email = email)), w)
  | .userFindById id => some (.ok (w.users.find? (·.id = id)), w)
  | .commit => some (.ok (), w.commit i)
  | .rollback => some (.ok (), w.release i)
  | .verifyRefresh token ignoreExpiration => some (w.verifyRefresh token ignoreExpiration, w)
  | .redisGet key => some (.ok (w.redisGet key), w)
  | .redisSet key value seconds => some (w.redisSet key value seconds)
  | .redisDel keys => some (.ok (w.redis.filter (·.key ∈ keys)).length, w.redisDel keys)
  | .redisKeys pattern => some (.ok (w.redisKeys pattern), w)
  | _ => none

/-- Statements that draw an identifier. -/
def draw (w : World) (i : Nat) (id : Uuid) : (o : Stmt) → Option (Except Err o.Reply × World)
  | .randomUUID => some (.ok id, { w with drawn := id :: w.drawn })
  | .userCreate email password => w.userCreate i id email password
  | .walletCreate userId => w.walletCreate i id userId
  | _ => none

/-- Statements that make a text. -/
def write (ms : String → Option Nat) (w : World) (text : String) :
    (o : Stmt) → Option (Except Err o.Reply × World)
  | .bcryptHash _ => some (.ok text, w)
  | .signAccess payload expiresIn => w.sign ms (.access payload) expiresIn text
  | .signRefresh payload expiresIn => w.sign ms (.refresh payload) expiresIn text
  | _ => none

def judge (w : World) (b : Bool) : (o : Stmt) → Option (Except Err o.Reply × World)
  | .bcryptCompare .. => some (.ok b, w)
  | _ => none

/-- The statement fails and has no effect. A transaction whose commit fails is rolled back. -/
def fail (w : World) (i : Nat) : (o : Stmt) → Option (Except Err o.Reply × World)
  | .commit => some (.error .unavailable, w.release i)
  | o => if o.isLocal then none else some (.error .unavailable, w)

def exec (ms : String → Option Nat) (i : Nat) (o : Stmt) (x : Choice) (w : World) :
    Option (Except Err o.Reply × World) :=
  match x with
  | .ok => w.serve i o
  | .fault => w.fail i o
  | .fresh id => if id ∈ w.drawn then none else w.draw i id o
  | .text s => w.write ms s o
  | .verdict b => w.judge b o

end World

end FlashWallet.Auth
