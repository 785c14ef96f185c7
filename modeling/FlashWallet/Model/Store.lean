import FlashWallet.Lib.Pool
import FlashWallet.Model.Schema

/-!
# The stores, one statement at a time

PostgreSQL, Redis, the job queue and the clock, as the services see them: a `World`, and for each
statement a service can issue what it answers and how it leaves the world. The transaction
discipline is PostgreSQL's READ COMMITTED with row locks held to the end:

* a plain read sees the committed rows (no transaction of the services reads a row it wrote);
* `SELECT … FOR UPDATE` and `UPDATE` wait while another transaction holds the row, and read the
  row as committed when they get it; an `INSERT` into the ledger waits too, since its foreign key
  locks the wallet row;
* writes stay in the transaction's buffer until `commit` and vanish on `rollback`.

`Choice` is what the outside decides: that the statement succeeds, that it fails for reasons of
infrastructure, that Redis forgot or dropped something, which identifier was drawn.
-/

set_option autoImplicit false

namespace FlashWallet

open Lib

/-! ## Statements -/

/-- The `data` of `ledgerEntry.create`. -/
structure NewLedgerEntry where
  walletId : Uuid
  type : LedgerType
  amount : Int
  balanceAfter : Int
  referenceId : String
deriving DecidableEq, Repr

/-- The `data` of `order.create`. -/
structure NewOrder where
  id : Uuid
  userId : Uuid
  flashSaleEventId : Uuid
  idempotencyKey : String
  status : OrderStatus
deriving DecidableEq, Repr

inductive Stmt where
  | walletFindUnique (userId : Uuid)
  | walletForUpdate (walletId : Uuid)
  | walletUpdate (walletId : Uuid) (balance : Int)
  | walletCreate (userId : Uuid) (balance : Int)
  | ledgerEntryFindUnique (walletId : Uuid) (referenceId : String) (type : LedgerType)
  | ledgerEntryCreate (data : NewLedgerEntry)
  | commit
  | rollback
  | redisGet (key : String)
  | redisSet (key : String) (value : TransferResult)
  | randomUUID
  | now
  | productFindUnique (id : Uuid)
  | flashSaleEventCreate (productId : Uuid) (totalStock remaining : Int) (startsAt endsAt : Nat)
  | flashSaleEventFindUnique (id : Uuid)
  | reserveUnit (eventId : Uuid)
  | releaseUnit (eventId : Uuid)
  | orderFindUnique (flashSaleEventId : Uuid) (idempotencyKey : String)
  | orderCreate (data : NewOrder)
  | queueAdd (job : OrderConfirmationJobData)
  | sleep (ms : Nat)
deriving DecidableEq, Repr

/-- What each statement answers. `flashSaleEventFindUnique` includes the product. -/
def Stmt.Reply : Stmt → Type
  | .walletFindUnique _ => Option Wallet
  | .walletForUpdate _ => Option Wallet
  | .walletUpdate .. => Wallet
  | .walletCreate .. => Wallet
  | .ledgerEntryFindUnique .. => Option LedgerEntry
  | .ledgerEntryCreate _ => LedgerEntry
  | .commit => Unit
  | .rollback => Unit
  | .redisGet _ => Option TransferResult
  | .redisSet .. => Unit
  | .randomUUID => Uuid
  | .now => Nat
  | .productFindUnique _ => Option Product
  | .flashSaleEventCreate .. => FlashSaleEvent
  | .flashSaleEventFindUnique _ => Option (FlashSaleEvent × Product)
  | .reserveUnit _ => Bool
  | .releaseUnit _ => Unit
  | .orderFindUnique .. => Option Order
  | .orderCreate _ => Order
  | .queueAdd _ => Unit
  | .sleep _ => Unit

/-- Statements that never leave the process, or whose failure the client library hides. -/
def Stmt.isLocal : Stmt → Bool
  | .randomUUID | .now | .sleep _ | .rollback => true
  | _ => false

/-- The signature of every handler below. -/
abbrev sql : Signature := ⟨Stmt, Stmt.Reply⟩

/-- A service function: a program over the stores. -/
abbrev Service (α : Type) := Prog sql Err α

/-- Issue one statement from a service. -/
abbrev issue (o : Stmt) : Service o.Reply := Prog.perform (S := sql) o

/-- What the outside decides about a statement. -/
inductive Choice where
  | ok
  | fault
  | lose
  | fresh (id : Uuid)
deriving DecidableEq, Repr

/-! ## The world -/

/-- The uncommitted part of a transaction. -/
structure Tx where
  writes : List (Uuid × Money)
  entries : List LedgerEntry
deriving DecidableEq, Repr

def Tx.empty : Tx := ⟨[], []⟩

/-- `ledger` is in commit order. `holder` names the call whose open transaction holds a wallet's
row lock, `tx i` is what call `i` has written and not committed. `drawn` are the identifiers
drawn so far. -/
structure World where
  wallets : List Wallet
  ledger : List LedgerEntry
  products : List Product
  events : List FlashSaleEvent
  orders : List Order
  cache : String → Option TransferResult
  jobs : List OrderConfirmationJobData
  clock : Nat
  drawn : List Uuid
  holder : Uuid → Option Nat
  tx : Nat → Tx

namespace World

/-- Nothing has happened yet. -/
def initial : World where
  wallets := []
  ledger := []
  products := []
  events := []
  orders := []
  cache := fun _ => none
  jobs := []
  clock := 0
  drawn := []
  holder := fun _ => none
  tx := fun _ => .empty

def wallet? (w : World) (id : Uuid) : Option Wallet := w.wallets.find? (·.id = id)

def walletOf? (w : World) (userId : Uuid) : Option Wallet := w.wallets.find? (·.userId = userId)

def entryOf? (w : World) (key : Uuid × String × LedgerType) : Option LedgerEntry :=
  w.ledger.find? (·.key = key)

def order? (w : World) (key : Uuid × String) : Option Order := w.orders.find? (·.key = key)

def event? (w : World) (id : Uuid) : Option FlashSaleEvent := w.events.find? (·.id = id)

def product? (w : World) (id : Uuid) : Option Product := w.products.find? (·.id = id)

/-! ### Locks and transactions -/

/-- No other transaction holds the row. -/
def canLock (w : World) (i : Nat) (id : Uuid) : Bool :=
  w.holder id = none || w.holder id = some i

def lock (w : World) (i : Nat) (id : Uuid) : World :=
  { w with holder := fun id' => if id' = id then some i else w.holder id' }

def setTx (w : World) (i : Nat) (t : Tx) : World :=
  { w with tx := fun j => if j = i then t else w.tx j }

/-- End call `i`'s transaction: its buffer is gone and its locks are free. -/
def release (w : World) (i : Nat) : World :=
  { w.setTx i .empty with
    holder := fun id => if w.holder id = some i then none else w.holder id }

/-- `UPDATE "Wallet" SET balance = …, version = version + 1 WHERE id = …`. -/
def writeBalance (wallets : List Wallet) (write : Uuid × Money) : List Wallet :=
  wallets.map fun row =>
    if row.id = write.1 then { row with balance := write.2, version := row.version + 1 } else row

/-- The buffer becomes the committed state. -/
def apply (w : World) (t : Tx) : World :=
  { w with
    wallets := t.writes.foldl writeBalance w.wallets
    ledger := w.ledger ++ t.entries }

def commit (w : World) (i : Nat) : World := (w.apply (w.tx i)).release i

/-! ### Statements that can do more than read

Each answers `none` when the call has to wait. -/

def walletForUpdate (w : World) (i : Nat) (id : Uuid) : Option (Option Wallet × World) :=
  if w.canLock i id then
    match w.wallet? id with
    | some row => some (some row, w.lock i id)
    | none => some (none, w)
  else none

def walletUpdate (w : World) (i : Nat) (id : Uuid) (balance : Int) :
    Option (Except Err Wallet × World) :=
  if w.canLock i id then
    match w.wallet? id, Money.ofDecimal? balance with
    | none, _ => some (.error .recordNotFound, w)
    | some _, none => some (.error .numericOverflow, w)
    | some row, some m =>
      some (.ok { row with balance := m, version := row.version + 1 },
        (w.lock i id).setTx i { w.tx i with writes := (w.tx i).writes ++ [(id, m)] })
  else none

def ledgerEntryCreate (w : World) (i : Nat) (d : NewLedgerEntry) :
    Option (Except Err LedgerEntry × World) :=
  if w.canLock i d.walletId then
    match w.wallet? d.walletId, Money.ofDecimal? d.amount, Money.ofDecimal? d.balanceAfter with
    | none, _, _ => some (.error .foreignKeyViolation, w)
    | some _, some amount, some balanceAfter =>
      let e : LedgerEntry := ⟨d.walletId, d.type, amount, balanceAfter, d.referenceId, w.clock⟩
      -- another open transaction with such a row would hold the lock of the wallet
      if e.key ∈ (w.ledger ++ (w.tx i).entries).map LedgerEntry.key then
        some (.error .uniqueViolation, w)
      else
        some (.ok e,
          (w.lock i d.walletId).setTx i { w.tx i with entries := (w.tx i).entries ++ [e] })
    | some _, _, _ => some (.error .numericOverflow, w)
  else none

def walletCreate (w : World) (id userId : Uuid) (balance : Int) : Except Err Wallet × World :=
  match Money.ofDecimal? balance with
  | none => (.error .numericOverflow, w)
  | some m =>
    if (w.walletOf? userId).isSome then (.error .uniqueViolation, w)
    else
      let row : Wallet := ⟨id, userId, m, 0⟩
      (.ok row, { w with wallets := w.wallets ++ [row], drawn := id :: w.drawn })

def flashSaleEventCreate (w : World) (id productId : Uuid) (totalStock remaining : Int)
    (startsAt endsAt : Nat) : Except Err FlashSaleEvent × World :=
  if (w.product? productId).isNone then (.error .foreignKeyViolation, w)
  else
    let ev : FlashSaleEvent := ⟨id, productId, totalStock, remaining, startsAt, endsAt⟩
    (.ok ev, { w with events := w.events ++ [ev], drawn := id :: w.drawn })

/-- `UPDATE … SET remaining = remaining - 1 WHERE id = … AND remaining > 0 RETURNING remaining`:
whether a row came back. -/
def reserveUnit (w : World) (eventId : Uuid) : Bool × World :=
  (w.events.any fun ev => ev.id = eventId && 0 < ev.remaining,
   { w with events := w.events.map fun ev =>
      if ev.id = eventId ∧ 0 < ev.remaining then { ev with remaining := ev.remaining - 1 }
      else ev })

/-- `UPDATE … SET remaining = remaining + 1 WHERE id = …`. -/
def releaseUnit (w : World) (eventId : Uuid) : World :=
  { w with events := w.events.map fun ev =>
      if ev.id = eventId then { ev with remaining := ev.remaining + 1 } else ev }

def orderCreate (w : World) (d : NewOrder) : Except Err Order × World :=
  if (w.event? d.flashSaleEventId).isNone then (.error .foreignKeyViolation, w)
  else if d.id ∈ w.orders.map Order.id then (.error .uniqueViolation, w)
  else
    let o : Order := ⟨d.id, d.userId, d.flashSaleEventId, d.status, d.idempotencyKey, w.clock⟩
    if o.key ∈ w.orders.map Order.key then (.error .uniqueViolation, w)
    else (.ok o, { w with orders := w.orders ++ [o] })

def redisSet (w : World) (key : String) (value : TransferResult) : World :=
  { w with cache := fun k => if k = key then some value else w.cache k }

/-! ### Execution -/

/-- The statement succeeds as far as the infrastructure is concerned. -/
def serve (w : World) (i : Nat) : (o : Stmt) → Option (Except Err o.Reply × World)
  | .walletFindUnique userId => some (.ok (w.walletOf? userId), w)
  | .walletForUpdate id => (w.walletForUpdate i id).map fun (row, w') => (.ok row, w')
  | .walletUpdate id balance => w.walletUpdate i id balance
  -- what draws an identifier is served by `draw`
  | .walletCreate .. => none
  | .ledgerEntryFindUnique walletId referenceId type =>
    some (.ok (w.entryOf? (walletId, referenceId, type)), w)
  | .ledgerEntryCreate d => w.ledgerEntryCreate i d
  | .commit => some (.ok (), w.commit i)
  | .rollback => some (.ok (), w.release i)
  | .redisGet key => some (.ok (w.cache key), w)
  | .redisSet key value => some (.ok (), w.redisSet key value)
  | .randomUUID => none
  | .now => some (.ok w.clock, w)
  | .productFindUnique id => some (.ok (w.product? id), w)
  | .flashSaleEventCreate .. => none
  | .flashSaleEventFindUnique id =>
    some (.ok ((w.event? id).bind fun ev => (w.product? ev.productId).map (ev, ·)), w)
  | .reserveUnit eventId => some (.ok (w.reserveUnit eventId).1, (w.reserveUnit eventId).2)
  | .releaseUnit eventId => some (.ok (), w.releaseUnit eventId)
  | .orderFindUnique eventId key => some (.ok (w.order? (eventId, key)), w)
  | .orderCreate d => some (w.orderCreate d)
  | .queueAdd job => some (.ok (), { w with jobs := w.jobs ++ [job] })
  | .sleep _ => some (.ok (), w)

/-- Statements that draw an identifier of their own. -/
def draw (w : World) (id : Uuid) : (o : Stmt) → Option (Except Err o.Reply × World)
  | .randomUUID => some (.ok id, { w with drawn := id :: w.drawn })
  | .walletCreate userId balance => some (w.walletCreate id userId balance)
  | .flashSaleEventCreate productId totalStock remaining startsAt endsAt =>
    some (w.flashSaleEventCreate id productId totalStock remaining startsAt endsAt)
  | _ => none

/-- Redis misses a key it may hold, or drops a write. -/
def lose (w : World) : (o : Stmt) → Option (Except Err o.Reply × World)
  | .redisGet _ => some (.ok none, w)
  | .redisSet .. => some (.ok (), w)
  | _ => none

/-- The statement fails and has no effect, for a reason the model does not give: a store is out of reach, a transaction
has waited too long, or a value is none its column takes (a text with a NUL, a key too long for the index, an `INTEGER`
out of range). A transaction whose commit fails is rolled back. -/
def fail (w : World) (i : Nat) : (o : Stmt) → Option (Except Err o.Reply × World)
  | .commit => some (.error .unavailable, w.release i)
  | o => if o.isLocal then none else some (.error .unavailable, w)

def exec (i : Nat) (o : Stmt) (x : Choice) (w : World) : Option (Except Err o.Reply × World) :=
  match x with
  | .ok => w.serve i o
  | .fault => w.fail i o
  | .lose => w.lose o
  | .fresh id => if id ∈ w.drawn then none else w.draw id o

end World

end FlashWallet
