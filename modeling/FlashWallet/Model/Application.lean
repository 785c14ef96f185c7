import FlashWallet.Lib.Bound
import FlashWallet.Model.AccessControl
import FlashWallet.Model.System

/-!
# The application

The authentication service and the services behind its guards, as `src/app.module.ts` puts them together: a request
for money or for an event gets to a service through the guards of its route, which ask what tokens have been signed.
The two models keep a wallet table each; a wallet a registration has committed is provisioned in the other.

Roles are set by nobody inside. The README has an operator type an `UPDATE`, which is a move of the environment here.
-/

set_option autoImplicit false

namespace FlashWallet

open Lib

/-! ## Tokens at the door -/

namespace Auth

/-- A role as the token carries it. -/
def Role.text : Role → String
  | .CUSTOMER => "CUSTOMER"
  | .ADMIN => "ADMIN"

def AccessTokenPayload.fields (payload : AccessTokenPayload) : Access.AccessTokenPayload :=
  ⟨.string payload.sub.text, .string payload.role.text⟩

/-- Verification with the access secret, as passport's strategy has it done: an expired token is none. -/
def World.verifyAccess (w : World) : Access.Verify := fun token =>
  match w.jwt? token with
  | some ⟨_, .access payload, exp⟩ => if exp ≤ w.now then none else some payload.fields
  | _ => none

end Auth

namespace App

/-! ## Accounts -/

/-- Moves of the environment of the authentication service, and `UPDATE "User" SET role = 'ADMIN' WHERE email = …`. -/
inductive Outside where
  | env (e : Auth.Env)
  | promote (email : String)
deriving DecidableEq, Repr

def Outside.run : Outside → Auth.World → Option Auth.World
  | .env e, w => e.run w
  | .promote email, w => some { w with
      users := w.users.map fun user => if user.email = email then { user with role := .ADMIN } else user }

def accounts (env : Auth.Settings) :
    Platform Auth.sql Auth.Err Auth.Response Auth.Request Auth.Choice Outside Auth.World where
  program := Auth.Request.handler env
  exec := Auth.World.exec env.ms
  cutOff i w := w.release i
  env := Outside.run

/-! ## Routes -/

/-- The routes that change anything, with what their `ValidationPipe` lets through. -/
inductive Body where
  | deposit (dto : DepositDto)
  | transfer (dto : TransferDto)
  | createEvent (dto : CreateFlashSaleEventDto)
  | purchase (dto : PurchaseFlashSaleDto)
deriving DecidableEq, Repr

/-- `@Roles(...)`. The routes without it are behind `JwtAuthGuard` alone. -/
def Body.requiredRoles : Body → List Access.JsValue
  | .createEvent _ => [Access.ADMIN]
  | _ => []

/-- `user.userId`, where it is an identifier. -/
def userId? (user : Access.CurrentUserPayload) : Option Uuid :=
  match user.userId with
  | .string text => if h : isUuid text = true then some ⟨text, h⟩ else none
  | _ => none

/-- What the controllers call. -/
def Body.request (user : Access.CurrentUserPayload) : Body → Option Request
  | .deposit dto => (userId? user).map fun userId => .deposit userId dto
  | .transfer dto => (userId? user).map fun userId => .transfer userId dto
  | .createEvent dto => some (.createEvent dto)
  | .purchase dto => (userId? user).map fun userId => .purchase userId dto

/-- A request on its way: turned away by a guard, or handed to a service. -/
def route (verify : Access.Verify) (authorization : Option String) (body : Body) :
    Except Access.Denied (Option Request) :=
  match Access.JwtAuthGuard.canActivate verify authorization with
  | .error e => .error e
  | .ok user =>
    match Access.RolesGuard.canActivate body.requiredRoles (some user) with
    | .error e => .error e
    | .ok () => .ok (body.request user)

/-! ## Both together -/

structure State where
  accounts : Auth.State
  services : FlashWallet.State

def State.initial : State := ⟨Auth.State.initial, FlashWallet.State.initial⟩

inductive Event where
  | accounts (l : Label Auth.Request Auth.Choice Outside)
  | request (authorization : Option String) (body : Body)
  | provision (userId : Uuid)
  | services (l : FlashWallet.Event)

def step (env : Auth.Settings) (c : State) : Event → Option State
  | .accounts l => ((accounts env).step c.accounts l).map fun a => { c with accounts := a }
  | .request authorization body =>
    match route c.accounts.world.verifyAccess authorization body with
    | .ok (some r) => some { c with services := system.arrive c.services r }
    -- answered without any service hearing of it
    | _ => some c
  | .provision userId =>
    if c.accounts.world.wallets.any (·.userId = userId) then
      some { c with services := system.arrive c.services (.provisionWallet userId) }
    else none
  | .services l =>
    -- nobody gets to a service past the guards
    if l.isArrival then none else (system.step c.services l).map fun w => { c with services := w }

abbrev Trace := List (Step State Event)

abbrev RunFrom (env : Auth.Settings) (c₀ : State) (tr : Trace) (c : State) : Prop :=
  Run (step env) (fun _ _ => True) c₀ tr c

end App

end FlashWallet
