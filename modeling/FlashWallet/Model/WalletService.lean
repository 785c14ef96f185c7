import FlashWallet.Model.Store

/-!
# `WalletService`

`src/modules/wallet/wallet.service.ts`, function by function. Everything a function does to a
store is a statement of its program; what lies between two statements is plain computation.
-/

set_option autoImplicit false

namespace FlashWallet

open Lib

namespace WalletService

/-- `prisma.$transaction`: commit what the body wrote, or roll back and rethrow. -/
def transaction {α : Type} (body : Service α) : Service α := do
  match ← body.attempt with
  | .ok a => do
    issue .commit
    return a
  | .error err => do
    issue .rollback
    throw err

/-- Called from `AuthService.register`. -/
def provisionWallet (userId : Uuid) : Service Unit := do
  let _ ← issue (.walletCreate userId 0)
  return ()

def lockWalletById (walletId : Uuid) : Service Wallet := do
  match ← issue (.walletForUpdate walletId) with
  | none => throw (.notFound "Wallet not found")
  | some row => return row

def lockWalletByUserId (userId : Uuid) : Service Wallet := do
  match ← issue (.walletFindUnique userId) with
  | none => throw (.notFound "Wallet not found for this user")
  | some wallet => lockWalletById wallet.id

def deposit (userId : Uuid) (dto : DepositDto) : Service BookedResult := do
  let amount := dto.amount
  let referenceId ← issue .randomUUID
  transaction do
    let wallet ← lockWalletByUserId userId
    let newBalance := Decimal.plus wallet.balance.toDecimal amount
    let updated ← issue (.walletUpdate wallet.id newBalance)
    let entry ← issue (.ledgerEntryCreate {
      walletId := wallet.id
      type := .DEPOSIT
      amount := amount
      balanceAfter := newBalance
      referenceId := referenceId.text })
    return { walletId := wallet.id, balance := updated.balance, entry := entry }

def purchaseDeduct (userId : Uuid) (amount : Int) (referenceId : String) :
    Service BookedResult :=
  transaction do
    let wallet ← lockWalletByUserId userId
    match ← issue (.ledgerEntryFindUnique wallet.id referenceId .PURCHASE) with
    | some existing =>
      -- paid before under this reference, for whatever amount: nothing is deducted again
      return { walletId := wallet.id, balance := existing.balanceAfter, entry := existing }
    | none =>
      if Decimal.lt wallet.balance.toDecimal amount then
        throw (.badRequest "Insufficient balance")
      else
        let newBalance := Decimal.minus wallet.balance.toDecimal amount
        let updated ← issue (.walletUpdate wallet.id newBalance)
        let entry ← issue (.ledgerEntryCreate {
          walletId := wallet.id
          type := .PURCHASE
          amount := Decimal.negated amount
          balanceAfter := newBalance
          referenceId := referenceId })
        return { walletId := wallet.id, balance := updated.balance, entry := entry }

/-- `wallet:transfer:{userId}:{idempotencyKey}`. -/
def idemKey (userId : Uuid) (idempotencyKey : String) : String :=
  "wallet:transfer:" ++ userId.text ++ ":" ++ idempotencyKey

/-- `[a, b].sort()`. -/
def sort (a b : Uuid) : Uuid × Uuid := if b.text < a.text then (b, a) else (a, b)

/-- The answer rebuilt from the ledger row of a transfer made earlier. -/
def replayedResult (senderId receiverId : Uuid) (existingOut : LedgerEntry) (key : String) :
    TransferResult where
  fromWalletId := senderId
  toWalletId := receiverId
  amount := Decimal.negated existingOut.amount.toDecimal
  fromBalance := existingOut.balanceAfter.toDecimal
  toBalance := none
  referenceId := key
  replayed := true

/-- The part of the transfer transaction behind the locks: check, two updates, two entries. -/
def moveFunds (sender receiver : Wallet) (amount : Int) (key : String) :
    Service TransferResult := do
  if Decimal.lt sender.balance.toDecimal amount then
    throw (.badRequest "Insufficient balance")
  else
    let newSenderBalance := Decimal.minus sender.balance.toDecimal amount
    let newReceiverBalance := Decimal.plus receiver.balance.toDecimal amount
    let _ ← issue (.walletUpdate sender.id newSenderBalance)
    let _ ← issue (.walletUpdate receiver.id newReceiverBalance)
    let _ ← issue (.ledgerEntryCreate {
      walletId := sender.id
      type := .TRANSFER_OUT
      amount := Decimal.negated amount
      balanceAfter := newSenderBalance
      referenceId := key })
    let _ ← issue (.ledgerEntryCreate {
      walletId := receiver.id
      type := .TRANSFER_IN
      amount := amount
      balanceAfter := newReceiverBalance
      referenceId := key })
    return {
      fromWalletId := sender.id
      toWalletId := receiver.id
      amount := amount
      fromBalance := newSenderBalance
      toBalance := some newReceiverBalance
      referenceId := key
      replayed := false }

/-- The callback of the transfer's `$transaction`. -/
def transferTx (userId : Uuid) (dto : TransferDto) : Service TransferResult := do
  let senderRef ← issue (.walletFindUnique userId)
  let receiverRef ← issue (.walletFindUnique dto.toUserId)
  match senderRef, receiverRef with
  | none, _ => throw (.notFound "Sender wallet not found")
  | some _, none => throw (.notFound "Recipient wallet not found")
  | some senderRef, some receiverRef =>
    match ← issue
        (.ledgerEntryFindUnique senderRef.id dto.idempotencyKey .TRANSFER_OUT) with
    | some existingOut =>
      -- sent before: its row answers, which knows nothing of the recipient's balance
      return replayedResult senderRef.id receiverRef.id existingOut dto.idempotencyKey
    | none =>
      -- the smaller id is locked first, whichever way the money goes
      let (firstId, secondId) := sort senderRef.id receiverRef.id
      let first ← lockWalletById firstId
      let second ← lockWalletById secondId
      let sender := if first.id = senderRef.id then first else second
      let receiver := if first.id = receiverRef.id then first else second
      moveFunds sender receiver dto.amount dto.idempotencyKey

def transfer (userId : Uuid) (dto : TransferDto) : Service TransferResult := do
  if dto.toUserId = userId then
    throw (.badRequest "Cannot transfer to yourself")
  else
    match ← issue (.redisGet (idemKey userId dto.idempotencyKey)) with
    | some cached =>
      -- as it was stored, with the `replayed` it was stored with
      return cached
    | none =>
      let result ← transaction (transferTx userId dto)
      -- behind the commit: if this fails the client gets the error, and the money has moved
      issue (.redisSet (idemKey userId dto.idempotencyKey) result)
      return result

end WalletService

end FlashWallet
