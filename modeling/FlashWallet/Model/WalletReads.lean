import FlashWallet.Model.AuthService
import FlashWallet.Model.System

/-!
# `WalletService`: the functions that only read

`getMe` and `verifyInvariant` of `src/modules/wallet/wallet.service.ts`, `getMe` of
`src/modules/wallet/wallet.controller.ts`, and any number of calls of them beside the running system: every
read is a statement of its own, outside any transaction, and any step of the system may fall between two.

* Rows come back in any order the query does not fix: `Choice.rows`, `Choice.wallets`.
* Which integers Prisma's `take` takes for what they are is a parameter. What it makes of another is its own affair:
  some of the entries (`Choice.selected`), or an error (`Choice.refused`).
* `Promise.all` has all its aggregates under way at once, and the outside decides whose answer is next.
-/

set_option autoImplicit false

namespace FlashWallet.Read

open Lib

/-- `recordNotFound` and `invalidArgument` are Prisma's own, and no `HttpException`. -/
inductive Err where
  | notFound (message : String)
  | recordNotFound
  | invalidArgument
  | unavailable
deriving DecidableEq, Repr

/-- The request is answered with a status of 400 to 499. -/
def Err.isClientError : Err → Bool
  | .notFound _ => true
  | _ => false

/-- What `parseInt` returns. From 2^53 on the source rounds a numeral to a double, which is no smaller: Prisma takes
neither for what it is. -/
inductive Number where
  | nan
  | int (n : Int)
deriving DecidableEq, Repr

/-- What is relied on of Prisma: the integers a `take` of it takes for what they are. An `Int` of 32 bits is one of them,
and every one is a safe integer. -/
structure Prisma where
  takes : Int → Bool
  int32 : ∀ {n : Int}, -2 ^ 31 ≤ n → n < 2 ^ 31 → takes n = true
  safe : ∀ {n : Int}, takes n = true → n.natAbs < 2 ^ 53

/-- `NaN` it knows for what it is. -/
def Number.fits (prisma : Prisma) : Number → Bool
  | .nan => true
  | .int n => prisma.takes n

/-- A `take` that fits: the first rows, or the last if it is negative. -/
def Number.take {α : Type} : Number → List α → Except Err (List α)
  | .nan, _ => .error .invalidArgument
  | .int n, rows => .ok (if 0 ≤ n then rows.take n.toNat else rows.drop (rows.length - n.natAbs))

/-! ## Statements -/

inductive Query where
  | walletFindUnique (userId : Uuid)
  | walletFindUniqueOrThrow (id : Uuid)
  | walletFindMany
  | ledgerEntryFindMany (walletId : Uuid) (take : Number)
  | ledgerEntryAggregate (pending : List Wallet)
deriving DecidableEq, Repr

/-- The last answers the wallet that is next, and the sum of its entries. -/
def Query.Reply : Query → Type
  | .walletFindUnique _ => Option Wallet
  | .walletFindUniqueOrThrow _ => Wallet
  | .walletFindMany => List Wallet
  | .ledgerEntryFindMany .. => List LedgerEntry
  | .ledgerEntryAggregate _ => Wallet × Option Int

abbrev queries : Signature := ⟨Query, Query.Reply⟩

abbrev Reader (α : Type) := Prog queries Err α

abbrev ask (q : Query) : Reader q.Reply := Prog.perform (S := queries) q

inductive Choice where
  | ok
  | fault
  | rows (es : List LedgerEntry)
  | selected (es : List LedgerEntry)
  | refused
  | wallets (rows : List Wallet)
  | next (wallet : Wallet)
deriving DecidableEq, Repr

/-- The entries of a wallet. -/
def entriesOf (w : World) (walletId : Uuid) : List LedgerEntry := w.ledger.filter (·.walletId = walletId)

/-- `_sum`: nothing, if there are no rows. -/
def sum? (es : List LedgerEntry) : Option Int :=
  if es = [] then none else some (es.map fun e => e.amount.cents).sum

/-- The entries of a wallet, in an order `createdAt` descends in. -/
def IsDescending (w : World) (walletId : Uuid) (es : List LedgerEntry) : Prop :=
  es.Perm (entriesOf w walletId) ∧ es.Pairwise fun e e' => e'.createdAt ≤ e.createdAt

instance (w : World) (walletId : Uuid) (es : List LedgerEntry) : Decidable (IsDescending w walletId es) :=
  inferInstanceAs (Decidable (_ ∧ _))

def answer (prisma : Prisma) (w : World) : (q : Query) → Choice → Option (Except Err q.Reply)
  | _, .fault => some (.error .unavailable)
  | .walletFindUnique userId, .ok => some (.ok (w.walletOf? userId))
  | .walletFindUniqueOrThrow id, .ok =>
    match w.wallet? id with
    | some row => some (.ok row)
    | none => some (.error .recordNotFound)
  | .walletFindMany, .wallets rows => if rows.Perm w.wallets then some (.ok rows) else none
  | .ledgerEntryFindMany walletId take, .rows es =>
    if take.fits prisma ∧ IsDescending w walletId es then some (take.take es) else none
  | .ledgerEntryFindMany walletId take, .selected es =>
    if take.fits prisma = false ∧ ∀ e ∈ es, e ∈ entriesOf w walletId then some (.ok es) else none
  | .ledgerEntryFindMany _ take, .refused => if take.fits prisma then none else some (.error .invalidArgument)
  | .ledgerEntryAggregate pending, .next wallet =>
    if wallet ∈ pending then some (.ok (wallet, sum? (entriesOf w wallet.id))) else none
  | _, _ => none

/-! ## The functions -/

/-- What `getMe` returns. -/
structure Statement where
  balance : Money
  entries : List LedgerEntry
deriving DecidableEq, Repr

/-- A row of the report. Its texts are numbers here. -/
structure InvariantCheck where
  walletId : Uuid
  balance : Int
  ledgerSum : Int
  matches' : Bool
deriving DecidableEq, Repr

namespace WalletService

/-- `DEFAULT_LEDGER_LIMIT`. -/
def defaultLedgerLimit : Number := .int 20

def getMe (userId : Uuid) (limit : Option Number) : Reader Statement := do
  match ← ask (.walletFindUnique userId) with
  | none => throw (.notFound "Wallet not found for this user")
  | some wallet =>
    let entries : List LedgerEntry ← ask (.ledgerEntryFindMany wallet.id (limit.getD defaultLedgerLimit))
    return { balance := wallet.balance, entries := entries }

def toCheck (sums : Uuid → Int) (wallet : Wallet) : InvariantCheck where
  walletId := wallet.id
  balance := wallet.balance.toDecimal
  ledgerSum := sums wallet.id
  matches' := wallet.balance.toDecimal = sums wallet.id

/-- `Promise.all` over the aggregates of `pending`; `sums` are those that have been answered. -/
def ledgerSums : Nat → (pending : List Wallet) → (sums : Uuid → Int) → Reader (Uuid → Int)
  | 0, _, sums => return sums
  | n + 1, pending, sums => do
    let (wallet, sum) ← ask (.ledgerEntryAggregate pending)
    ledgerSums n (pending.erase wallet) fun id => if id = wallet.id then sum.getD 0 else sums id

/-- The wallets a report is about. -/
def reported (walletId : Option Uuid) : Reader (List Wallet) :=
  match walletId with
  | some id => do
    let wallet ← ask (.walletFindUniqueOrThrow id)
    return [wallet]
  | none => ask .walletFindMany

def verifyInvariant (walletId : Option Uuid) : Reader (List InvariantCheck) := do
  let wallets ← reported walletId
  let sums ← ledgerSums wallets.length wallets fun _ => 0
  return wallets.map (toCheck sums)

end WalletService

/-- `parseInt(text, 10)`: what stands before the first character that is no digit, behind white space and a sign. -/
def parseInt (text : String) : Number :=
  let number (sign : Int) (cs : List Char) : Number :=
    let digits := cs.takeWhile Char.isDigit
    if digits = [] then .nan else .int (sign * Auth.parseInt digits)
  match text.toList.dropWhile Auth.isTrimmed with
  | '-' :: cs => number (-1) cs
  | '+' :: cs => number 1 cs
  | cs => number 1 cs

/-- `WalletController.getMe`: the empty string is no limit, as `undefined` is not. -/
def WalletController.getMe (userId : Uuid) (limit : Option String) : Reader Statement :=
  WalletService.getMe userId <|
    match limit with
    | some text => if text = "" then none else some (parseInt text)
    | none => none

/-! ## Reading beside the system -/

inductive Request where
  | getMe (userId : Uuid) (limit : Option Number)
  | verifyInvariant (walletId : Option Uuid)
deriving DecidableEq, Repr

inductive Response where
  | statement (s : Statement)
  | report (rows : List InvariantCheck)
deriving DecidableEq, Repr

def Request.handler : Request → Reader Response
  | .getMe userId limit => .statement <$> WalletService.getMe userId limit
  | .verifyInvariant walletId => .report <$> WalletService.verifyInvariant walletId

/-- Calls that read the state of the system, and, as the moves of the environment, the steps of the system. -/
def readers (prisma : Prisma) : Platform queries Err Response Request Choice Event FlashWallet.State where
  program := Request.handler
  exec _ q x c := (answer prisma c.world q x).map (·, c)
  cutOff _ c := c
  env e c := system.step c e

abbrev State := Config queries Err Response Request FlashWallet.State

abbrev ReadEvent := Label Request Choice Event

abbrev Trace := List (Step State ReadEvent)

def State.initial : State := ⟨FlashWallet.State.initial, []⟩

/-- A run of readers beside the system, restricted to steps `ok` allows. -/
abbrev RunFrom (prisma : Prisma) (c₀ : State) (ok : State → ReadEvent → Prop) (tr : Trace) (c : State) : Prop :=
  Run (readers prisma).step ok c₀ tr c

end FlashWallet.Read
