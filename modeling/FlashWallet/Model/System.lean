import FlashWallet.Model.FlashSaleService

/-!
# The running system

Any number of calls of the service functions over one `World`: the configurations, steps and
runs every result below is about.
-/

set_option autoImplicit false

namespace FlashWallet

open Lib

/-- A call of a service function, with the user taken from the access token. `purchaseDeduct` is
also a request of its own: a public method of the service, called by `purchase` alone. -/
inductive Request where
  | provisionWallet (userId : Uuid)
  | deposit (userId : Uuid) (dto : DepositDto)
  | purchaseDeduct (userId : Uuid) (amount : Int) (referenceId : String)
  | transfer (userId : Uuid) (dto : TransferDto)
  | createEvent (dto : CreateFlashSaleEventDto)
  | purchase (userId : Uuid) (dto : PurchaseFlashSaleDto)
deriving DecidableEq, Repr

inductive Response where
  | provisioned
  | booked (r : BookedResult)
  | transferred (r : TransferResult)
  | event (ev : FlashSaleEvent)
  | purchased (r : OrderResult)
deriving DecidableEq, Repr

namespace Request

/-- The handler of a request. -/
def handler : Request → Service Response
  | .provisionWallet userId => do
    WalletService.provisionWallet userId
    return .provisioned
  | .deposit userId dto => .booked <$> WalletService.deposit userId dto
  | .purchaseDeduct userId amount referenceId =>
    .booked <$> WalletService.purchaseDeduct userId amount referenceId
  | .transfer userId dto => .transferred <$> WalletService.transfer userId dto
  | .createEvent dto => .event <$> FlashSaleService.createEvent dto
  | .purchase userId dto => .purchased <$> FlashSaleService.purchase userId dto

end Request

/-- Moves of the environment: time passes, Redis drops a key (eviction or expiry), the seed
script inserts a product. -/
inductive Env where
  | tick (ms : Nat)
  | evict (key : String)
  | seedProduct (product : Product)
deriving DecidableEq, Repr

def Env.run : Env → World → Option World
  | .tick ms, w => some { w with clock := w.clock + ms }
  | .evict key, w => some { w with cache := fun k => if k = key then none else w.cache k }
  | .seedProduct p, w =>
    if p.id ∈ w.drawn then none
    else some { w with products := w.products ++ [p], drawn := p.id :: w.drawn }

/-- The system. A call that dies leaves its open transaction to be rolled back. -/
def system : Platform sql Err Response Request Choice Env World where
  program := Request.handler
  exec := World.exec
  cutOff i w := w.release i
  env := Env.run

abbrev State := Config sql Err Response Request World

abbrev Event := Label Request Choice Env

abbrev ServiceCall := Lib.Call sql Err Response Request

abbrev Trace := List (Step State Event)

def State.initial : State := ⟨World.initial, []⟩

/-! ## Reading a step -/

/-- The call that takes a step, if a call does. -/
def Lib.Label.actor : Event → Option Nat
  | .exec i _ => some i
  | .crash i => some i
  | _ => none

/-- The statement a step issues, if it issues one. -/
def nextStmt? (c : State) : Event → Option Stmt
  | .exec i _ =>
    match c.calls[i]? with
    | some ⟨_, .call o _, false⟩ => some o
    | _ => none
  | _ => none

/-- The request whose call takes a step, if a call does. -/
def requestOf? (c : State) (l : Event) : Option Request :=
  l.actor.bind fun i => c.calls[i]?.map (·.request)

/-- A failure of the infrastructure, or a call cut off. -/
def Lib.Label.isFault : Event → Bool
  | .exec _ .fault => true
  | .crash _ => true
  | _ => false

/-- A debit asked for by nobody the API lets ask. -/
def Lib.Label.isBareDebit : Event → Bool
  | .arrive (.purchaseDeduct ..) => true
  | _ => false

/-! ## Runs -/

/-- A run of the system, restricted to steps `ok` allows. -/
abbrev RunFrom (c₀ : State) (ok : State → Event → Prop) (tr : Trace) (c : State) : Prop :=
  Run system.step ok c₀ tr c

/-- What some run leads to. -/
def Reachable (ok : State → Event → Prop) (c : State) : Prop :=
  ∃ tr, RunFrom State.initial ok tr c

/-- Any step whatever. -/
def anyStep : State → Event → Prop := fun _ _ => True

/-- Nothing of the infrastructure fails and no call is cut off. Redis may still forget. -/
def noFaults : State → Event → Prop := fun _ l => l.isFault = false

/-- Requests a client can make through the API: the wallet is debited for a purchase only by
`FlashSaleService.purchase`. -/
def viaApi : State → Event → Prop := fun _ l => l.isBareDebit = false

/-- Clients only, and nothing fails. -/
def calm : State → Event → Prop := fun c l => noFaults c l ∧ viaApi c l

end FlashWallet
