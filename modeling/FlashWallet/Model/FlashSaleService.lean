import FlashWallet.Model.WalletService

/-!
# `FlashSaleService`

`src/modules/flash-sale/flash-sale.service.ts`, function by function.
-/

set_option autoImplicit false

namespace FlashWallet

open Lib

namespace FlashSaleService

def createEvent (dto : CreateFlashSaleEventDto) : Service FlashSaleEvent := do
  match ← issue (.productFindUnique dto.productId) with
  | none => throw (.notFound "Product not found")
  | some _ =>
    issue (.flashSaleEventCreate dto.productId dto.totalStock dto.totalStock
      dto.startsAt dto.endsAt)

def getEvent (id : Uuid) : Service (FlashSaleEvent × Product) := do
  match ← issue (.flashSaleEventFindUnique id) with
  | none => throw (.notFound "Flash-sale event not found")
  | some event => return event

def findExistingOrder (flashSaleEventId : Uuid) (idempotencyKey : String) :
    Service (Option Order) :=
  issue (.orderFindUnique flashSaleEventId idempotencyKey)

/-- The loop of `pollForExistingOrder`, `n` attempts from its end. -/
def poll (flashSaleEventId : Uuid) (idempotencyKey : String) (delayMs : Nat) :
    Nat → Service (Option Order)
  | 0 => return none
  | n + 1 => do
    match ← findExistingOrder flashSaleEventId idempotencyKey with
    | some order => return some order
    | none =>
      if 0 < n then
        issue (.sleep delayMs)
        poll flashSaleEventId idempotencyKey delayMs n
      else
        poll flashSaleEventId idempotencyKey delayMs n

def pollForExistingOrder (flashSaleEventId : Uuid) (idempotencyKey : String) :
    Service (Option Order) :=
  poll flashSaleEventId idempotencyKey 40 5

def reserveUnit (eventId : Uuid) : Service Bool := issue (.reserveUnit eventId)

def releaseUnit (eventId : Uuid) : Service Unit := issue (.releaseUnit eventId)

/-- What `finalizeOrder` returns: the row, and whether another call wrote it. -/
structure Finalized where
  order : Order
  raced : Bool
deriving DecidableEq, Repr

def finalizeOrder (data : NewOrder) (onConflict : Service Unit) : Service Finalized := do
  match ← (issue (.orderCreate data)).attempt with
  | .ok order => return ⟨order, false⟩
  | .error err =>
    if err ≠ .uniqueViolation then
      throw err
    else
      onConflict
      match ← findExistingOrder data.flashSaleEventId data.idempotencyKey with
      -- no order under the key: the violation was another one, and goes to the caller
      | none => throw err
      | some existing => return ⟨existing, true⟩

def toOrderResult (order : Order) (replayed : Bool) : OrderResult where
  orderId := order.id
  eventId := order.flashSaleEventId
  status := order.status
  idempotencyKey := order.idempotencyKey
  createdAt := order.createdAt
  replayed := replayed

/-- `flash-sale:{eventId}:{idempotencyKey}`. -/
def walletReferenceId (eventId : Uuid) (idempotencyKey : String) : String :=
  "flash-sale:" ++ eventId.text ++ ":" ++ idempotencyKey

/-- The `catch` around the wallet deduction: give the unit back, record the failure, rethrow. -/
def compensate (userId : Uuid) (dto : PurchaseFlashSaleDto) (orderId : Uuid) (err : Err) :
    Service OrderResult := do
  releaseUnit dto.eventId
  let order ← finalizeOrder ⟨orderId, userId, dto.eventId, dto.idempotencyKey, .FAILED⟩
    (releaseUnit dto.eventId)
  if order.raced then
    -- another call has written the order, and its order is the answer, whatever failed here
    return toOrderResult order.order true
  else
    throw err

/-- What follows a successful deduction: write the order, announce it, report it. -/
def confirm (userId : Uuid) (dto : PurchaseFlashSaleDto) (orderId : Uuid) :
    Service OrderResult := do
  let order ← finalizeOrder ⟨orderId, userId, dto.eventId, dto.idempotencyKey, .CONFIRMED⟩
    (releaseUnit dto.eventId)
  if !order.raced ∧ order.order.status = .CONFIRMED then
    -- A rejected `queue.add` is logged and otherwise ignored.
    let _ ← (issue (.queueAdd ⟨order.order.id, userId⟩)).attempt
    return toOrderResult order.order order.raced
  else
    return toOrderResult order.order order.raced

/-- Everything after the unit is reserved. -/
def settle (userId : Uuid) (dto : PurchaseFlashSaleDto) (price : Money) :
    Service OrderResult := do
  let orderId ← issue .randomUUID
  let referenceId := walletReferenceId dto.eventId dto.idempotencyKey
  match ← (WalletService.purchaseDeduct userId price.toDecimal referenceId).attempt with
  | .error err => compensate userId dto orderId err
  | .ok _ => confirm userId dto orderId

def purchase (userId : Uuid) (dto : PurchaseFlashSaleDto) : Service OrderResult := do
  match ← findExistingOrder dto.eventId dto.idempotencyKey with
  | some existing => return toOrderResult existing true
  | none =>
    match ← issue (.flashSaleEventFindUnique dto.eventId) with
    | none => throw (.notFound "Flash-sale event not found")
    | some (event, product) =>
      let now : Nat ← issue .now
      if now < event.startsAt ∨ now > event.endsAt then
        throw (.badRequest "Flash-sale event is not currently active")
      else
        -- the product is the one read with the event, so the price is from before the reservation
        if ← reserveUnit dto.eventId then
          settle userId dto product.price
        else
          match ← pollForExistingOrder dto.eventId dto.idempotencyKey with
          | some raced => return toOrderResult raced true
          | none => throw (.conflict "Stock is exhausted for this flash-sale event")

end FlashSaleService

end FlashWallet
