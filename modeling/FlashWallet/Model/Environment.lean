import FlashWallet.Lib.Rounding
import FlashWallet.Model.WalletReads
import Mathlib.Data.Rat.Floor

/-!
# The process environment

`src/config/env.validation.ts`, `src/config/app-config.ts` and the factory of `ThrottlerModule` in
`src/app.module.ts`. All three read the same texts: the first with `Number`, the others with `parseInt` and
`parseFloat`. What class-transformer and class-validator do with the decorators is written out; the constraints of a
property stand in the order in which class-validator reports them, the last decorator first.
-/

set_option autoImplicit false

namespace FlashWallet.Environment

open Lib

/-! ## Numbers -/

/-- The finite numbers are doubles. Nothing here tells `-0` from `0`. -/
inductive Number where
  | nan
  | infinity (negative : Bool)
  | finite (q : ℚ)
deriving DecidableEq

namespace Number

/-- A numeral of any length is rounded to the nearest double. -/
def ofRat (q : ℚ) : Number :=
  match binary64.round q with
  | some d => .finite d
  | none => .infinity (q < 0)

def neg : Number → Number
  | .nan => .nan
  | .infinity negative => .infinity !negative
  | .finite q => .finite (-q)

def le : Number → Number → Bool
  | .nan, _ | _, .nan => false
  | .infinity true, _ | _, .infinity false => true
  | .infinity false, _ | _, .infinity true => false
  | .finite q, .finite q' => q ≤ q'

/-- `Number.isInteger`. -/
def isInteger : Number → Bool
  | .finite q => q.den = 1
  | _ => false

/-- `*`, for a second factor above zero. -/
def times : Number → ℕ → Number
  | .finite q, n => ofRat (q * n)
  | number, _ => number

end Number

/-! ## Numerals -/

/-- A `StrUnsignedDecimalLiteral`: the digits before the point and behind it, and the exponent. -/
structure Literal where
  whole : List Char
  fraction : List Char
  exponent : ℤ
  digits : ∀ c ∈ whole ++ fraction, c.isDigit = true
deriving DecidableEq

def Literal.value (l : Literal) : ℚ :=
  (Auth.parseInt l.whole + Auth.parseInt l.fraction / 10 ^ l.fraction.length) * 10 ^ l.exponent

/-- The digits behind a point, and what follows them. -/
def fractionPart : List Char → List Char × List Char
  | '.' :: cs => (cs.takeWhile Char.isDigit, cs.dropWhile Char.isDigit)
  | cs => ([], cs)

theorem fractionPart_digits {cs : List Char} : ∀ c ∈ (fractionPart cs).1, c.isDigit = true := by
  unfold fractionPart
  split
  · exact List.all_eq_true.mp List.all_takeWhile
  · exact fun c hc => absurd hc List.not_mem_nil

/-- `ExponentPart`, if there is one, and what follows it. -/
def exponentPart : List Char → ℤ × List Char
  | c :: cs =>
    let (sign, ds) : ℤ × List Char :=
      match cs with
      | '-' :: ds => (-1, ds)
      | '+' :: ds => (1, ds)
      | ds => (1, ds)
    let digits := ds.takeWhile Char.isDigit
    -- an `e` without digits is no exponent, and is left unread
    if (c = 'e' ∨ c = 'E') ∧ digits ≠ [] then (sign * Auth.parseInt digits, ds.dropWhile Char.isDigit)
    else (0, c :: cs)
  | [] => (0, [])

/-- The longest literal a text begins with, and what follows it. -/
def Literal.scan (cs : List Char) : Option (Literal × List Char) :=
  let whole := cs.takeWhile Char.isDigit
  let fraction := fractionPart (cs.dropWhile Char.isDigit)
  let exponent := exponentPart fraction.2
  if whole = [] ∧ fraction.1 = [] then none
  else
    some (⟨whole, fraction.1, exponent.1, fun c hc =>
      (List.mem_append.mp hc).elim (List.all_eq_true.mp List.all_takeWhile c) (fractionPart_digits c)⟩, exponent.2)

/-- The prefixes of a `NonDecimalIntegerLiteral`. -/
def radix? : Char → Option ℕ
  | 'b' | 'B' => some 2
  | 'o' | 'O' => some 8
  | 'x' | 'X' => some 16
  | _ => none

def digit? (radix : ℕ) (c : Char) : Option ℕ :=
  let value? : Option ℕ :=
    if c.isDigit then some (c.toNat - '0'.toNat)
    else if 'a' ≤ c ∧ c ≤ 'f' then some (c.toNat - 'a'.toNat + 10)
    else if 'A' ≤ c ∧ c ≤ 'F' then some (c.toNat - 'A'.toNat + 10)
    else none
  value?.filter (· < radix)

/-- `NonDecimalIntegerLiteral`, behind its prefix. -/
def nonDecimal (radix : ℕ) (cs : List Char) : Number :=
  match cs.mapM (digit? radix) with
  | some (d :: ds) => .ofRat ((d :: ds).foldl (fun n d => radix * n + d) 0 : ℕ)
  | _ => .nan

/-- A sign, and what `unsigned` makes of the rest. -/
def signed (unsigned : List Char → Number) : List Char → Number
  | '-' :: cs => (unsigned cs).neg
  | '+' :: cs => unsigned cs
  | cs => unsigned cs

def infinity : List Char := "Infinity".toList

/-- A `StrUnsignedDecimalLiteral`, and nothing behind it. -/
def decimal (cs : List Char) : Number :=
  if cs = infinity then .infinity false
  else
    match Literal.scan cs with
    | some (l, []) => .ofRat l.value
    | _ => .nan

/-- `Number(text)`. -/
def toNumber (text : String) : Number :=
  match Auth.trim text.toList with
  | [] => .finite 0
  -- a prefix stands right at the front: no sign goes before it
  | '0' :: c :: cs =>
    match radix? c with
    | some radix => nonDecimal radix cs
    | none => decimal ('0' :: c :: cs)
  | cs => signed decimal cs

def Number.ofInt : Read.Number → Number
  | .nan => .nan
  | .int n => .ofRat n

/-- `parseInt(text, 10)`: the integer in front, as a double. -/
def parseInt (text : String) : Number := .ofInt (Read.parseInt text)

/-- `parseFloat(text)`. -/
def parseFloat (text : String) : Number :=
  (text.toList.dropWhile Auth.isTrimmed) |> signed fun cs =>
    if infinity.isPrefixOf cs then .infinity false
    else
      match Literal.scan cs with
      | some (l, _) => .ofRat l.value
      | none => .nan

/-! ## `env.validation.ts` -/

/-- The environment a process is given. -/
abbrev ProcessEnv := String → Option String

inductive Value where
  | undefined
  | string (text : String)
  | number (n : Number)
deriving DecidableEq

/-- The decorators of class-validator. -/
inductive Constraint where
  | isString
  | isNotEmpty
  | isIn (values : List String)
  | isInt
  | isNumber
  | min (bound : ℕ)
  | max (bound : ℕ)
deriving DecidableEq

namespace Constraint

def holds : Constraint → Value → Bool
  | .isString, .string _ => true
  | .isNotEmpty, value => value ≠ .undefined ∧ value ≠ .string ""
  | .isIn values, .string text => text ∈ values
  | .isInt, .number n => n.isInteger
  | .isNumber, .number (.finite _) => true
  | .min bound, .number n => Number.le (.finite bound) n
  | .max bound, .number n => n.le (.finite bound)
  -- a value of another type, and what is undefined
  | _, _ => false

def message (property : String) : Constraint → String
  | .isString => property ++ " must be a string"
  | .isNotEmpty => property ++ " should not be empty"
  | .isIn values => property ++ " must be one of the following values: " ++ ", ".intercalate values
  | .isInt => property ++ " must be an integer number"
  | .isNumber => property ++ " must be a number conforming to the specified constraints"
  | .min bound => property ++ " must not be less than " ++ toString bound
  | .max bound => property ++ " must not be greater than " ++ toString bound

end Constraint

/-- A decorated property. -/
structure Property where
  name : String
  isOptional : Bool
  constraints : List Constraint
deriving DecidableEq

/-- What class-validator finds wrong with the value of a property. -/
def Property.failures (p : Property) (value : Value) : List String :=
  if p.isOptional = true ∧ value = .undefined then []
  else (p.constraints.filter fun c => !c.holds value).map (·.message p.name)

/-- `class EnvironmentVariables`: what `plainToInstance` has made of the texts. -/
structure EnvironmentVariables where
  NODE_ENV : Option String
  DATABASE_URL : Option String
  REDIS_HOST : Option String
  REDIS_PORT : Option Number
  JWT_ACCESS_SECRET : Option String
  JWT_ACCESS_TTL : Option String
  JWT_REFRESH_SECRET : Option String
  JWT_REFRESH_TTL : Option String
  THROTTLE_TTL : Option Number
  THROTTLE_LIMIT : Option Number
  PORT : Option Number
  SIMULATE_NOTIFICATION_FAILURE_RATE : Option Number
deriving DecidableEq

namespace Property

def NODE_ENV : Property := ⟨"NODE_ENV", true, [.isIn ["development", "production", "test"], .isString]⟩

/-- `@IsString() @IsNotEmpty()`. -/
def text (name : String) : Property := ⟨name, false, [.isNotEmpty, .isString]⟩

def DATABASE_URL : Property := text "DATABASE_URL"
def REDIS_HOST : Property := text "REDIS_HOST"
def REDIS_PORT : Property := ⟨"REDIS_PORT", false, [.max 65535, .min 1, .isInt]⟩
def JWT_ACCESS_SECRET : Property := text "JWT_ACCESS_SECRET"
def JWT_ACCESS_TTL : Property := text "JWT_ACCESS_TTL"
def JWT_REFRESH_SECRET : Property := text "JWT_REFRESH_SECRET"
def JWT_REFRESH_TTL : Property := text "JWT_REFRESH_TTL"
def THROTTLE_TTL : Property := ⟨"THROTTLE_TTL", false, [.min 1, .isInt]⟩
def THROTTLE_LIMIT : Property := ⟨"THROTTLE_LIMIT", false, [.min 1, .isInt]⟩
def PORT : Property := ⟨"PORT", false, [.max 65535, .min 1, .isInt]⟩
def SIMULATE_NOTIFICATION_FAILURE_RATE : Property :=
  ⟨"SIMULATE_NOTIFICATION_FAILURE_RATE", true, [.max 1, .min 0, .isNumber]⟩

end Property

namespace Value

def ofText : Option String → Value
  | some text => .string text
  | none => .undefined

def ofNumber : Option Number → Value
  | some n => .number n
  | none => .undefined

end Value

/-- The properties of the class, with the values of an instance. -/
def EnvironmentVariables.values (v : EnvironmentVariables) : List (Property × Value) :=
  [(.NODE_ENV, .ofText v.NODE_ENV), (.DATABASE_URL, .ofText v.DATABASE_URL), (.REDIS_HOST, .ofText v.REDIS_HOST),
    (.REDIS_PORT, .ofNumber v.REDIS_PORT), (.JWT_ACCESS_SECRET, .ofText v.JWT_ACCESS_SECRET),
    (.JWT_ACCESS_TTL, .ofText v.JWT_ACCESS_TTL), (.JWT_REFRESH_SECRET, .ofText v.JWT_REFRESH_SECRET),
    (.JWT_REFRESH_TTL, .ofText v.JWT_REFRESH_TTL), (.THROTTLE_TTL, .ofNumber v.THROTTLE_TTL),
    (.THROTTLE_LIMIT, .ofNumber v.THROTTLE_LIMIT), (.PORT, .ofNumber v.PORT),
    (.SIMULATE_NOTIFICATION_FAILURE_RATE, .ofNumber v.SIMULATE_NOTIFICATION_FAILURE_RATE)]

/-- `@Type(() => Number)` converts what is there; a text is not converted. -/
def plainToInstance (config : ProcessEnv) : EnvironmentVariables where
  NODE_ENV := config "NODE_ENV"
  DATABASE_URL := config "DATABASE_URL"
  REDIS_HOST := config "REDIS_HOST"
  REDIS_PORT := (config "REDIS_PORT").map toNumber
  JWT_ACCESS_SECRET := config "JWT_ACCESS_SECRET"
  JWT_ACCESS_TTL := config "JWT_ACCESS_TTL"
  JWT_REFRESH_SECRET := config "JWT_REFRESH_SECRET"
  JWT_REFRESH_TTL := config "JWT_REFRESH_TTL"
  THROTTLE_TTL := (config "THROTTLE_TTL").map toNumber
  THROTTLE_LIMIT := (config "THROTTLE_LIMIT").map toNumber
  PORT := (config "PORT").map toNumber
  SIMULATE_NOTIFICATION_FAILURE_RATE := (config "SIMULATE_NOTIFICATION_FAILURE_RATE").map toNumber

structure ValidationError where
  property : String
  constraints : List String
deriving DecidableEq, Repr

def validateSync (v : EnvironmentVariables) : List ValidationError :=
  v.values.filterMap fun (p, value) =>
    match p.failures value with
    | [] => none
    | texts => some ⟨p.name, texts⟩

/-- Variables that nothing is wrong with. -/
abbrev ValidatedConfig := { v : EnvironmentVariables // validateSync v = [] }

def validate (config : ProcessEnv) : Except String ValidatedConfig :=
  let errors := validateSync (plainToInstance config)
  if h : errors = [] then .ok ⟨plainToInstance config, h⟩
  else
    .error ("Environment validation failed: " ++
      "; ".intercalate (errors.map fun e => ", ".intercalate e.constraints))

/-! ## `app-config.ts` and `app.module.ts` -/

structure RedisConfig where
  host : Option String
  port : Number
deriving DecidableEq

structure JwtConfig where
  accessSecret : Option String
  accessTtl : Option String
  refreshSecret : Option String
  refreshTtl : Option String
deriving DecidableEq

structure ThrottleConfig where
  ttl : Number
  limit : Number
deriving DecidableEq

/-- What `appConfig` returns. -/
structure AppConfig where
  nodeEnv : String
  port : Number
  databaseUrl : Option String
  redis : RedisConfig
  jwt : JwtConfig
  throttle : ThrottleConfig
  simulateFailureRate : Number
deriving DecidableEq

def appConfig (env : ProcessEnv) : AppConfig where
  nodeEnv := (env "NODE_ENV").getD "development"
  port := parseInt ((env "PORT").getD "3000")
  databaseUrl := env "DATABASE_URL"
  redis :=
    { host := env "REDIS_HOST"
      port := parseInt ((env "REDIS_PORT").getD "6379") }
  jwt :=
    { accessSecret := env "JWT_ACCESS_SECRET"
      accessTtl := env "JWT_ACCESS_TTL"
      refreshSecret := env "JWT_REFRESH_SECRET"
      refreshTtl := env "JWT_REFRESH_TTL" }
  throttle :=
    { ttl := parseInt ((env "THROTTLE_TTL").getD "60")
      limit := parseInt ((env "THROTTLE_LIMIT").getD "10") }
  simulateFailureRate := parseFloat ((env "SIMULATE_NOTIFICATION_FAILURE_RATE").getD "0")

/-- A throttler's options: its window in milliseconds, and the requests it lets through in one. -/
structure ThrottlerOptions where
  ttl : Number
  limit : Number
deriving DecidableEq

/-- `useFactory` of `ThrottlerModule`. -/
def throttlers (env : ProcessEnv) : List ThrottlerOptions :=
  [{ ttl := (parseInt ((env "THROTTLE_TTL").getD "60")).times 1000
     limit := parseInt ((env "THROTTLE_LIMIT").getD "10") }]

end FlashWallet.Environment
