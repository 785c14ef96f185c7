import FlashWallet.Model.Schema

/-!
# What a client is told of an error

`src/common/filters/http-exception.filter.ts`, and what Nest's own exceptions hand to it: `getResponse()` of one that was
thrown with a text is an object with that text and the title of its status. An error of the database is an `Error` of
the client library; its name and text are that library's.
-/

set_option autoImplicit false

namespace FlashWallet

namespace Http

/-- `string | string[]`. -/
inductive Message where
  | text (s : String)
  | texts (ss : List String)
deriving DecidableEq, Repr

/-- `getResponse()`. An object may lack either field. -/
inductive Response where
  | text (s : String)
  | object (message : Option Message) (error : Option String)
deriving DecidableEq, Repr

structure HttpException where
  status : Nat
  name : String
  message : String
  response : Response
deriving DecidableEq, Repr

/-- Whatever is thrown: an `HttpException`, another `Error`, or something else. -/
inductive Thrown where
  | http (exception : HttpException)
  | error (name message : String)
  | other
deriving DecidableEq, Repr

structure UnifiedErrorResponse where
  statusCode : Nat
  message : Message
  error : String
  correlationId : String
  timestamp : String
deriving DecidableEq, Repr

/-- What the filter answers, and what it logs. -/
structure Handled where
  body : UnifiedErrorResponse
  warned : Bool
deriving DecidableEq, Repr

/-- Status, message and error of the body. -/
def describe : Thrown → Nat × Message × String
  | .http exception =>
    match exception.response with
    | .text s => (exception.status, .text s, exception.name)
    | .object message error =>
      (exception.status, message.getD (.text exception.message), error.getD exception.name)
  -- the text of the error goes to the client as it is
  | .error name message => (500, .text message, name)
  | .other => (500, .text "Internal server error", "Internal Server Error")

/-- `warn` for a known client error, `error` for anything else. -/
def isKnownClientError : Thrown → Bool
  | .http exception => exception.status < 500
  | _ => false

def HttpExceptionFilter.catch (exception : Thrown) (correlationId : Option String) (timestamp : String) : Handled :=
  let (statusCode, message, error) := describe exception
  { body := ⟨statusCode, message, error, correlationId.getD "unknown", timestamp⟩
    warned := isKnownClientError exception }

/-- `new NotFoundException(message)` and its like. -/
def builtIn (status : Nat) (name title message : String) : Thrown :=
  .http ⟨status, name, message, .object (some (.text message)) (some title)⟩

end Http

open Http in
/-- What a service throws. `library` is the name and the text of a database error. -/
def Err.thrown (library : Err → String × String) : Err → Thrown
  | .notFound message => builtIn 404 "NotFoundException" "Not Found" message
  | .badRequest message => builtIn 400 "BadRequestException" "Bad Request" message
  | .conflict message => builtIn 409 "ConflictException" "Conflict" message
  | e => .error (library e).1 (library e).2

end FlashWallet
