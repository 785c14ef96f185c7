import FlashWallet.Model.Money

/-!
# Rows, requests and answers

`prisma/schema.prisma`, the DTOs the controllers hand to the services after validation, what the
services answer, and what they throw. A DTO carries what its validators checked as fields, so
an unvalidated request cannot be built. Columns nothing below reads (names, e-mails, row
identifiers of ledger entries, `updatedAt`) are left out.
-/

set_option autoImplicit false

namespace FlashWallet

/-! ## Identifiers -/

/-- 36 characters, hexadecimal digits with dashes at the four fixed places. -/
def isUuid (s : String) : Bool :=
  s.toList.length == 36 &&
    s.toList.zipIdx.all fun (c, i) =>
      if i ∈ [8, 13, 18, 23] then c == '-'
      else c.isDigit || ('a' ≤ c && c ≤ 'f') || ('A' ≤ c && c ≤ 'F')

/-- An identifier drawn by `@default(uuid())` or `randomUUID()`, or checked by `@IsUUID()`. -/
structure Uuid where
  text : String
  wellFormed : isUuid text = true
deriving DecidableEq, Repr

theorem Uuid.length_toList (u : Uuid) : u.text.toList.length = 36 := by
  have h := u.wellFormed
  simp only [isUuid, Bool.and_eq_true, beq_iff_eq] at h
  exact h.1

/-! ## Rows -/

structure Wallet where
  id : Uuid
  userId : Uuid
  balance : Money
  version : Nat
deriving DecidableEq, Repr

inductive LedgerType where
  | DEPOSIT
  | TRANSFER_IN
  | TRANSFER_OUT
  | PURCHASE
deriving DecidableEq, Repr

structure LedgerEntry where
  walletId : Uuid
  type : LedgerType
  amount : Money
  balanceAfter : Money
  referenceId : String
  createdAt : Nat
deriving DecidableEq, Repr

/-- `@@unique([walletId, referenceId, type])`. -/
def LedgerEntry.key (e : LedgerEntry) : Uuid × String × LedgerType :=
  (e.walletId, e.referenceId, e.type)

/-- A product. `prisma/seed.ts` is the only writer of the table, and its prices are not
negative. -/
structure Product where
  id : Uuid
  price : Money
  priced : 0 ≤ price.cents
deriving DecidableEq, Repr

/-- `remaining` and `totalStock` are integer columns: nothing in the schema keeps them apart or
above zero. What does not fit such a column is not kept out here: its statement fails for a reason
from outside. Times are milliseconds. -/
structure FlashSaleEvent where
  id : Uuid
  productId : Uuid
  totalStock : Int
  remaining : Int
  startsAt : Nat
  endsAt : Nat
deriving DecidableEq, Repr

inductive OrderStatus where
  | CONFIRMED
  | FAILED
deriving DecidableEq, Repr

structure Order where
  id : Uuid
  userId : Uuid
  flashSaleEventId : Uuid
  status : OrderStatus
  idempotencyKey : String
  createdAt : Nat
deriving DecidableEq, Repr

/-- `@@unique([flashSaleEventId, idempotencyKey])`. -/
def Order.key (o : Order) : Uuid × String := (o.flashSaleEventId, o.idempotencyKey)

/-! ## Requests -/

/-- `@IsNumber({ maxDecimalPlaces: 2 }) @IsPositive()`: a whole number of cents, any size. -/
structure DepositDto where
  amount : Int
  isPositive : 0 < amount
deriving DecidableEq, Repr

structure TransferDto where
  toUserId : Uuid
  amount : Int
  isPositive : 0 < amount
  idempotencyKey : String
  isNotEmpty : idempotencyKey ≠ ""
deriving DecidableEq, Repr

structure PurchaseFlashSaleDto where
  eventId : Uuid
  idempotencyKey : String
  isNotEmpty : idempotencyKey ≠ ""
deriving DecidableEq, Repr

/-- `@IsInt() @Min(1)`, and `@IsAfterDate('startsAt')`. -/
structure CreateFlashSaleEventDto where
  productId : Uuid
  totalStock : Int
  min : 1 ≤ totalStock
  startsAt : Nat
  endsAt : Nat
  isAfterDate : startsAt < endsAt
deriving DecidableEq, Repr

/-! ## Answers -/

/-- What `deposit` and `purchaseDeduct` return. -/
structure BookedResult where
  walletId : Uuid
  balance : Money
  entry : LedgerEntry
deriving DecidableEq, Repr

/-- What `transfer` returns, and what it caches. Amounts are decimals printed by `toString()`
in the source; the numbers stand here for their texts. `toBalance` is absent from the answer
rebuilt from the ledger. -/
structure TransferResult where
  fromWalletId : Uuid
  toWalletId : Uuid
  amount : Int
  fromBalance : Int
  toBalance : Option Int
  referenceId : String
  replayed : Bool
deriving DecidableEq, Repr

structure OrderResult where
  orderId : Uuid
  eventId : Uuid
  status : OrderStatus
  idempotencyKey : String
  createdAt : Nat
  replayed : Bool
deriving DecidableEq, Repr

/-- `OrderConfirmationJobData`. -/
structure OrderConfirmationJobData where
  orderId : Uuid
  userId : Uuid
deriving DecidableEq, Repr

/-! ## Errors -/

/-- What a statement can throw, and what the services throw themselves. `uniqueViolation` is
Prisma's `P2002`, `unavailable` any failure of a connection or a server. -/
inductive Err where
  | notFound (message : String)
  | badRequest (message : String)
  | conflict (message : String)
  | uniqueViolation
  | foreignKeyViolation
  | recordNotFound
  | numericOverflow
  | unavailable
deriving DecidableEq, Repr

end FlashWallet
