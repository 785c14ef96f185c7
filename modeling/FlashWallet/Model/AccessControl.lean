import FlashWallet.Model.AuthService

/-!
# Who may enter

The two ways to the ADMIN part of the application: the guards of an ordinary route
(`src/auth/strategies/jwt.strategy.ts`, `src/auth/guards/roles.guard.ts`, behind passport's `jwt`
strategy), and the middleware in front of Bull Board
(`src/modules/notifications/bull-board-admin.middleware.ts`). What a token stands for is asked of a
verification function, which answers nothing where the library throws.
-/

set_option autoImplicit false

namespace FlashWallet.Access

/-- A value of a field of a JSON object; `undefined` where there is no such field. -/
inductive JsValue where
  | undefined
  | null
  | boolean (b : Bool)
  | number (n : Int)
  | string (s : String)
  | object
deriving DecidableEq, Repr

def JsValue.truthy : JsValue → Bool
  | .undefined | .null => false
  | .boolean b => b
  | .number n => n ≠ 0
  | .string s => s ≠ ""
  | .object => true

/-- The fields of a verified payload that anybody reads. -/
structure AccessTokenPayload where
  sub : JsValue
  role : JsValue
deriving DecidableEq, Repr

structure CurrentUserPayload where
  userId : JsValue
  role : JsValue
deriving DecidableEq, Repr

abbrev Verify := String → Option AccessTokenPayload

/-- `Role.ADMIN`. -/
def ADMIN : JsValue := .string "ADMIN"

inductive Denied where
  | unauthorized (message : String)
  | forbidden (message : String)
deriving DecidableEq, Repr

/-! ## The guards -/

/-- `/(\S+)\s+(\S+)/` on a text: the two groups of its first match. -/
def schemeAndValue (text : List Char) : Option (List Char × List Char) :=
  let start := text.dropWhile Auth.isTrimmed
  let scheme := start.takeWhile fun c => !Auth.isTrimmed c
  let rest := start.dropWhile fun c => !Auth.isTrimmed c
  let value := (rest.dropWhile Auth.isTrimmed).takeWhile fun c => !Auth.isTrimmed c
  if scheme = [] ∨ value = [] then none else some (scheme, value)

/-- `ExtractJwt.fromAuthHeaderAsBearerToken()`. -/
def fromAuthHeaderAsBearerToken (authorization : Option String) : Option String :=
  match authorization.bind fun header => schemeAndValue header.toList with
  | some (scheme, value) =>
    -- passport compares the scheme without regard to case
    if scheme.map Char.toLower = "bearer".toList then some (String.ofList value) else none
  | none => none

namespace JwtStrategy

def validate (payload : AccessTokenPayload) : Except Denied CurrentUserPayload :=
  if !payload.sub.truthy || !payload.role.truthy then
    .error (.unauthorized "Invalid access token payload")
  else .ok { userId := payload.sub, role := payload.role }

end JwtStrategy

/-- `JwtAuthGuard`: passport's `jwt` strategy, and the user it leaves on the request. -/
def JwtAuthGuard.canActivate (verify : Verify) (authorization : Option String) :
    Except Denied CurrentUserPayload :=
  match fromAuthHeaderAsBearerToken authorization with
  | none => .error (.unauthorized "Unauthorized")
  | some token =>
    match verify token with
    | none => .error (.unauthorized "Unauthorized")
    | some payload => JwtStrategy.validate payload

def RolesGuard.canActivate (requiredRoles : List JsValue) (user : Option CurrentUserPayload) :
    Except Denied Unit :=
  if requiredRoles = [] then .ok ()
  else
    match user with
    | none => .error (.forbidden "You do not have permission to access this resource")
    | some user =>
      if user.role ∈ requiredRoles then .ok ()
      else .error (.forbidden "You do not have permission to access this resource")

/-- A route behind both guards, with `@Roles(...requiredRoles)`. -/
def guardedRoute (requiredRoles : List JsValue) (verify : Verify) (authorization : Option String) :
    Except Denied Unit :=
  match JwtAuthGuard.canActivate verify authorization with
  | .error e => .error e
  | .ok user => RolesGuard.canActivate requiredRoles (some user)

/-! ## The middleware -/

namespace BullBoardAdminMiddleware

/-- What stands behind `Bearer `, if the header starts with it. -/
def bearerToken (authorization : Option String) : Option String :=
  authorization.bind fun header =>
    if "Bearer ".toList.isPrefixOf header.toList then
      some (String.ofList (header.toList.drop "Bearer ".toList.length))
    else none

/-- `next()`, or the status answered instead. -/
def use (verify : Verify) (authorization : Option String) : Except Denied Unit :=
  match bearerToken authorization with
  | none => .error (.unauthorized "Unauthorized")
  | some token =>
    if token = "" then .error (.unauthorized "Unauthorized")
    else
      match verify token with
      | none => .error (.unauthorized "Unauthorized")
      | some payload =>
        -- the subject is not looked at
        if payload.role ≠ ADMIN then .error (.forbidden "Forbidden")
        else .ok ()

end BullBoardAdminMiddleware

end FlashWallet.Access
