import FlashWallet.Proof.Engine

/-!
# A purchase as a state machine

Between its request and its answer a purchase passes through `Stage`s. `May` says which statement
it can issue at which stage, and for what reason; `Stage.next` what a reply makes of the stage;
`Outcome` at which stage it ends how. `purchase_stages` is the proof that `FlashSaleService.purchase`
is this machine, error paths included, and every result about sales is an invariant over it:
none of them looks at the handler again.

Two stages are where the function does more than its happy paths suggest. `twice`: the `FAILED` row
was refused, and the unit, already given back, is about to be given back again. `late`: the
`CONFIRMED` row was refused after the debit was committed, and nothing will reverse the debit.
-/

set_option autoImplicit false

namespace FlashWallet

open Lib

inductive Stage where
  | looking
  | absent
  | noEvent
  | found (ev : FlashSaleEvent) (price : Money)
  | timed (ev : FlashSaleEvent) (price : Money) (now : Nat)
  | refused
  | held (price : Money)
  | settling (price : Money) (orderId : Uuid)
  | debiting (price : Money) (orderId wallet : Uuid)
  | locked (price : Money) (orderId : Uuid) (row : Wallet)
  | unbilled (price : Money) (orderId : Uuid) (row : Wallet)
  | written (price : Money) (orderId : Uuid) (row : Wallet)
  | charged (orderId : Uuid)
  | failing (orderId : Uuid) (err : Err)
  | unpaid (orderId : Uuid) (err : Err)
  | returned (orderId : Uuid) (err : Err)
  | paid (orderId : Uuid)
  | twice
  | late
  | rereading
  | sold (o : Order)
  | failed (o : Order) (err : Err)
  | seen (o : Order)
  | broken (err : Err)

namespace Stage

/-! ## What a reply makes of a stage -/

def onOrderFindUnique : Stage → Except Err (Option Order) → Stage
  | _, .ok (some o) => .seen o
  | .looking, .ok none => .absent
  | .rereading, .ok none => .broken .uniqueViolation
  | s, .ok none => s
  | _, .error err => .broken err

def onFlashSaleEventFindUnique : Except Err (Option (FlashSaleEvent × Product)) → Stage
  | .ok (some (ev, product)) => .found ev product.price
  | .ok none => .noEvent
  | .error err => .broken err

def onNow : Stage → Except Err Nat → Stage
  | .found ev price, .ok now => .timed ev price now
  | s, .ok _ => s
  | _, .error err => .broken err

def onReserveUnit : Stage → Except Err Bool → Stage
  | .timed _ price _, .ok true => .held price
  | _, .ok _ => .refused
  | _, .error err => .broken err

def onRandomUUID : Stage → Except Err Uuid → Stage
  | .held price, .ok orderId => .settling price orderId
  | s, .ok _ => s
  | _, .error err => .broken err

def onWalletFindUnique : Stage → Except Err (Option Wallet) → Stage
  | .settling price orderId, .ok (some row) => .debiting price orderId row.id
  | .settling _ orderId, .ok none => .failing orderId (.notFound "Wallet not found for this user")
  | .settling _ orderId, .error err => .failing orderId err
  | s, _ => s

def onWalletForUpdate : Stage → Except Err (Option Wallet) → Stage
  | .debiting price orderId _, .ok (some row) => .locked price orderId row
  | .debiting _ orderId _, .ok none => .failing orderId (.notFound "Wallet not found")
  | .debiting _ orderId _, .error err => .failing orderId err
  | s, _ => s

def onLedgerEntryFindUnique : Stage → Except Err (Option LedgerEntry) → Stage
  | .locked _ orderId _, .ok (some _) => .charged orderId
  | .locked price orderId row, .ok none => .unbilled price orderId row
  | .locked _ orderId _, .error err => .failing orderId err
  | s, _ => s

def onWalletUpdate : Stage → Except Err Wallet → Stage
  | .unbilled price orderId row, .ok _ => .written price orderId row
  | .unbilled _ orderId _, .error err => .failing orderId err
  | s, _ => s

def onLedgerEntryCreate : Stage → Except Err LedgerEntry → Stage
  | .written _ orderId _, .ok _ => .charged orderId
  | .written _ orderId _, .error err => .failing orderId err
  | s, _ => s

def onCommit : Stage → Except Err Unit → Stage
  | .charged orderId, .ok _ => .paid orderId
  | .charged orderId, .error err => .unpaid orderId err
  | s, _ => s

def onRollback : Stage → Except Err Unit → Stage
  | .unbilled _ orderId _, .ok _ => .unpaid orderId (.badRequest "Insufficient balance")
  | .failing orderId err, .ok _ => .unpaid orderId err
  | .unbilled _ orderId _, .error err => .unpaid orderId err
  | .failing orderId _, .error err => .unpaid orderId err
  | s, _ => s

def onReleaseUnit : Stage → Except Err Unit → Stage
  | .unpaid orderId err, .ok _ => .returned orderId err
  | _, .ok _ => .rereading
  | _, .error err => .broken err

def onOrderCreate : Stage → Except Err Order → Stage
  | .returned _ err, .ok o => .failed o err
  | .returned .., .error .uniqueViolation => .twice
  | _, .ok o => .sold o
  | _, .error .uniqueViolation => .late
  | _, .error err => .broken err

/-- The stage after a reply. -/
def next (s : Stage) : (o : Stmt) → Except Err o.Reply → Stage
  | .orderFindUnique .., r => s.onOrderFindUnique r
  | .flashSaleEventFindUnique _, r => onFlashSaleEventFindUnique r
  | .now, r => s.onNow r
  | .reserveUnit _, r => s.onReserveUnit r
  | .randomUUID, r => s.onRandomUUID r
  | .walletFindUnique _, r => s.onWalletFindUnique r
  | .walletForUpdate _, r => s.onWalletForUpdate r
  | .ledgerEntryFindUnique .., r => s.onLedgerEntryFindUnique r
  | .walletUpdate .., r => s.onWalletUpdate r
  | .ledgerEntryCreate _, r => s.onLedgerEntryCreate r
  | .commit, r => s.onCommit r
  | .rollback, r => s.onRollback r
  | .releaseUnit _, r => s.onReleaseUnit r
  | .orderCreate _, r => s.onOrderCreate r
  | .sleep _, .error err => .broken err
  | _, _ => s

end Stage

/-! ## What may be issued, and how it ends -/

/-- Statement `o` may be issued at stage `s` of the purchase `dto` by `userId`. -/
inductive May (userId : Uuid) (dto : PurchaseFlashSaleDto) : Stage → Stmt → Prop where
  | find : May userId dto .looking (.orderFindUnique dto.eventId dto.idempotencyKey)
  | readEvent : May userId dto .absent (.flashSaleEventFindUnique dto.eventId)
  | readClock (ev : FlashSaleEvent) (price : Money) : May userId dto (.found ev price) .now
  | reserve (ev : FlashSaleEvent) (price : Money) (now : Nat)
      (active : ¬(now < ev.startsAt ∨ now > ev.endsAt)) :
      May userId dto (.timed ev price now) (.reserveUnit dto.eventId)
  | poll : May userId dto .refused (.orderFindUnique dto.eventId dto.idempotencyKey)
  | wait (ms : Nat) : May userId dto .refused (.sleep ms)
  | drawId (price : Money) : May userId dto (.held price) .randomUUID
  | findWallet (price : Money) (orderId : Uuid) :
      May userId dto (.settling price orderId) (.walletFindUnique userId)
  | lock (price : Money) (orderId wallet : Uuid) :
      May userId dto (.debiting price orderId wallet) (.walletForUpdate wallet)
  | findDebit (price : Money) (orderId : Uuid) (row : Wallet) :
      May userId dto (.locked price orderId row) (.ledgerEntryFindUnique row.id
        (FlashSaleService.walletReferenceId dto.eventId dto.idempotencyKey) .PURCHASE)
  | refuse (price : Money) (orderId : Uuid) (row : Wallet)
      (short : row.balance.cents < price.cents) : May userId dto (.unbilled price orderId row) .rollback
  | debit (price : Money) (orderId : Uuid) (row : Wallet)
      (funds : price.cents ≤ row.balance.cents) :
      May userId dto (.unbilled price orderId row) (.walletUpdate row.id
        (Decimal.minus row.balance.toDecimal price.toDecimal))
  | book (price : Money) (orderId : Uuid) (row : Wallet) :
      May userId dto (.written price orderId row) (.ledgerEntryCreate ⟨row.id, .PURCHASE,
        Decimal.negated price.toDecimal, Decimal.minus row.balance.toDecimal price.toDecimal,
        FlashSaleService.walletReferenceId dto.eventId dto.idempotencyKey⟩)
  | commit (orderId : Uuid) : May userId dto (.charged orderId) .commit
  | rollback (orderId : Uuid) (err : Err) : May userId dto (.failing orderId err) .rollback
  | release (orderId : Uuid) (err : Err) :
      May userId dto (.unpaid orderId err) (.releaseUnit dto.eventId)
  | fail (orderId : Uuid) (err : Err) : May userId dto (.returned orderId err)
      (.orderCreate ⟨orderId, userId, dto.eventId, dto.idempotencyKey, .FAILED⟩)
  | confirm (orderId : Uuid) : May userId dto (.paid orderId)
      (.orderCreate ⟨orderId, userId, dto.eventId, dto.idempotencyKey, .CONFIRMED⟩)
  | releaseTwice : May userId dto .twice (.releaseUnit dto.eventId)
  | releaseLate : May userId dto .late (.releaseUnit dto.eventId)
  | reread : May userId dto .rereading (.orderFindUnique dto.eventId dto.idempotencyKey)
  | announce (o : Order) : May userId dto (.sold o) (.queueAdd ⟨o.id, userId⟩)

/-- The purchase ends at stage `s` with the given result. -/
inductive Outcome : Stage → Except Err OrderResult → Prop where
  | seen (o : Order) : Outcome (.seen o) (.ok (FlashSaleService.toOrderResult o true))
  | sold (o : Order) : Outcome (.sold o) (.ok (FlashSaleService.toOrderResult o false))
  | failed (o : Order) (err : Err) : Outcome (.failed o err) (.error err)
  | noEvent : Outcome .noEvent (.error (.notFound "Flash-sale event not found"))
  | inactive (ev : FlashSaleEvent) (price : Money) (now : Nat)
      (inactive : now < ev.startsAt ∨ now > ev.endsAt) :
      Outcome (.timed ev price now) (.error (.badRequest "Flash-sale event is not currently active"))
  | exhausted :
      Outcome .refused (.error (.conflict "Stock is exhausted for this flash-sale event"))
  | broken (err : Err) : Outcome (.broken err) (.error err)

/-! ## The machine as a discipline -/

/-- Statements that no other service function issues are left to purchases, and an event opens
with its whole stock. -/
def Ordinary : Stmt → Prop
  | .reserveUnit _ => False
  | .releaseUnit _ => False
  | .orderCreate _ => False
  | .flashSaleEventCreate _ totalStock remaining _ _ => remaining = totalStock ∧ 1 ≤ totalStock
  | _ => True

/-- Where a call stands: at a stage of a purchase, or busy with something else. -/
inductive Progress where
  | other
  | buying (userId : Uuid) (dto : PurchaseFlashSaleDto) (stage : Stage)

def Progress.start : Request → Progress
  | .purchase userId dto => .buying userId dto .looking
  | _ => .other

def Progress.next : Progress → (o : Stmt) → Except Err o.Reply → Progress
  | .other, _, _ => .other
  | .buying userId dto stage, o, r => .buying userId dto (stage.next o r)

/-- The purchase a request asks for. -/
def Request.purchase? : Request → Option (Uuid × PurchaseFlashSaleDto)
  | .purchase userId dto => some (userId, dto)
  | _ => none

/-- The purchase a call is making. -/
def Progress.purchase? : Progress → Option (Uuid × PurchaseFlashSaleDto)
  | .other => none
  | .buying userId dto _ => some (userId, dto)

theorem Request.purchase?_eq_some {r : Request} {userId : Uuid} {dto : PurchaseFlashSaleDto} :
    r.purchase? = some (userId, dto) ↔ r = .purchase userId dto := by
  cases r <;> simp [purchase?]

@[simp] theorem purchase?_start (r : Request) : (Progress.start r).purchase? = r.purchase? := by
  cases r <;> rfl

@[simp] theorem purchase?_next (p : Progress) (o : Stmt) (r : Except Err o.Reply) :
    (p.next o r).purchase? = p.purchase? := by
  cases p <;> rfl

def purchasing : Discipline sql Err Progress where
  pre o
    | .other => Ordinary o
    | .buying userId dto stage => May userId dto stage o
  post o p r p' := p' = p.next o r ∧ o.Answers r

/-- The answer of a purchase fits its stage. -/
def purchasingAnswer (_ : Request) (r : Except Err Response) : Progress → Prop
  | .other => True
  | .buying _ _ stage => ∃ r', Outcome stage r' ∧ r = r'.map Response.purchased

namespace FlashSaleService

variable {α : Type} {userId : Uuid} {dto : PurchaseFlashSaleDto} {s : Stage}

/-- A result, at its stage. -/
def Ends (userId : Uuid) (dto : PurchaseFlashSaleDto) (r : Except Err OrderResult) (p : Progress) :
    Prop := ∃ s, p = .buying userId dto s ∧ Outcome s r

theorem stages_issue {Q : Except Err α → Progress → Prop} {o : Stmt} {f : o.Reply → Service α}
    (may : May userId dto s o)
    (hok : ∀ v, o.Answers (.ok v) →
      (f v).Keeps purchasing Q (.buying userId dto (s.next o (.ok v))))
    (herr : ∀ e, Q (.error e) (.buying userId dto (s.next o (.error e)))) :
    ((issue o).bind f).Keeps purchasing Q (.buying userId dto s) := by
  refine Prog.Keeps.issue may (fun v p h => ?_) fun e p h => ?_
  · obtain ⟨rfl, hanswers⟩ := h
    exact hok v hanswers
  · obtain ⟨rfl, -⟩ := h
    exact herr e

theorem poll_stages (delayMs n : Nat) :
    (poll dto.eventId dto.idempotencyKey delayMs n).Keeps purchasing (fun r p => match r with
      | .ok none => p = .buying userId dto .refused
      | .ok (some o) => p = .buying userId dto (.seen o)
      | .error err => p = .buying userId dto (.broken err)) (.buying userId dto .refused) := by
  induction n with
  | zero => rfl
  | succ n ih =>
    refine stages_issue .poll (fun found _ => ?_) fun e => rfl
    cases found with
    | some order => rfl
    | none =>
      dsimp only
      split
      · exact stages_issue (.wait delayMs) (fun _ _ => ih) fun e => rfl
      · exact ih

/-- How the body of the deduction may leave its transaction. -/
inductive Deducted (userId : Uuid) (dto : PurchaseFlashSaleDto) (orderId : Uuid) :
    Except Err BookedResult → Progress → Prop where
  | charged (r : BookedResult) : Deducted userId dto orderId (.ok r) (.buying userId dto (.charged orderId))
  | failing (err : Err) :
      Deducted userId dto orderId (.error err) (.buying userId dto (.failing orderId err))
  | short (price : Money) (row : Wallet) (short : row.balance.cents < price.cents) :
      Deducted userId dto orderId (.error (.badRequest "Insufficient balance"))
        (.buying userId dto (.unbilled price orderId row))

/-- Committing or rolling back, as the body's end demands. -/
theorem transaction_stages {orderId : Uuid} {body : Service BookedResult} {p : Progress}
    (hbody : body.Keeps purchasing (Deducted userId dto orderId) p) :
    (WalletService.transaction body).Keeps purchasing (fun r p => match r with
      | .ok _ => p = .buying userId dto (.paid orderId)
      | .error err => p = .buying userId dto (.unpaid orderId err)) p := by
  refine hbody.recover fun r p h => ?_
  cases h with
  | charged r => exact stages_issue (.commit orderId) (fun _ _ => rfl) fun e => rfl
  | failing err => exact stages_issue (.rollback orderId err) (fun _ _ => rfl) fun e => rfl
  | short price row short => exact stages_issue (.refuse price orderId row short) (fun _ _ => rfl) fun e => rfl

/-- The deduction: it returns with the debit committed, or throws with nothing open. -/
theorem purchaseDeduct_stages (price : Money) (orderId : Uuid) :
    (WalletService.purchaseDeduct userId price.toDecimal
        (walletReferenceId dto.eventId dto.idempotencyKey)).Keeps purchasing
      (fun r p => match r with
        | .ok _ => p = .buying userId dto (.paid orderId)
        | .error err => p = .buying userId dto (.unpaid orderId err))
      (.buying userId dto (.settling price orderId)) := by
  refine transaction_stages (Prog.Keeps.seq (R := fun r p => match r with
      | .ok row => p = .buying userId dto (.locked price orderId row)
      | .error err => p = .buying userId dto (.failing orderId err)) ?_ ?_ ?_)
  · refine stages_issue (.findWallet price orderId) (fun found _ => ?_) fun e => rfl
    cases found with
    | none => rfl
    | some wallet =>
      refine stages_issue (.lock price orderId wallet.id) (fun locked _ => ?_) fun e => rfl
      cases locked with
      | none => rfl
      | some row => rfl
  · rintro row p rfl
    refine stages_issue (.findDebit price orderId row) (fun found _ => ?_) fun e => .failing e
    cases found with
    | some existing => exact .charged _
    | none =>
      dsimp only
      split
      · rename_i hshort
        exact .short price row (Decimal.lt_iff.mp hshort)
      · rename_i hfunds
        have hfunds : price.cents ≤ row.balance.cents := Int.not_lt.mp (mt Decimal.lt_iff.mpr hfunds)
        refine stages_issue (.debit price orderId row hfunds) (fun updated _ => ?_) fun e => .failing e
        exact stages_issue (.book price orderId row) (fun entry _ => .charged _) fun e => .failing e
  · rintro err p rfl
    exact .failing err

/-- What follows the refusal of an order, from whichever of the two stages it was refused at. -/
theorem conflict_stages {err : Err} (release : May userId dto s (.releaseUnit dto.eventId))
    (hagain : ∀ v, s.next (.releaseUnit dto.eventId) (.ok v) = .rereading)
    (hstuck : ∀ err, s.next (.releaseUnit dto.eventId) (.error err) = .broken err)
    (herr : err = .uniqueViolation) :
    ((releaseUnit dto.eventId).bind fun _ =>
      (findExistingOrder dto.eventId dto.idempotencyKey).bind fun
        | none => .fail err
        | some existing => (.done ⟨existing, true⟩ : Service Finalized)).Keeps purchasing
      (fun r p => match r with
        | .ok f => f.raced = true ∧ p = .buying userId dto (.seen f.order)
        | .error err => p = .buying userId dto (.broken err)) (.buying userId dto s) := by
  subst herr
  refine stages_issue release (fun v _ => ?_) fun e => by rw [hstuck]
  rw [hagain]
  refine stages_issue .reread (fun found _ => ?_) fun e => rfl
  cases found with
  | none => rfl
  | some existing => exact ⟨rfl, rfl⟩

/-- Recording the failure. -/
theorem finalizeFailed_stages (orderId : Uuid) (cause : Err) :
    (finalizeOrder ⟨orderId, userId, dto.eventId, dto.idempotencyKey, .FAILED⟩
        (releaseUnit dto.eventId)).Keeps purchasing
      (fun r p => match r with
        | .ok f => p = .buying userId dto (if f.raced then .seen f.order else .failed f.order cause)
        | .error err => p = .buying userId dto (.broken err))
      (.buying userId dto (.returned orderId cause)) := by
  refine ⟨.fail orderId cause, fun r p h => ?_⟩
  obtain ⟨rfl, hanswers⟩ := h
  cases r with
  | ok order => rfl
  | error err =>
    dsimp only [Prog.attempt, Prog.bind]
    split
    · rename_i hother
      cases err <;> first | rfl | exact absurd rfl hother
    · rename_i hconflict
      obtain rfl := not_not.mp hconflict
      refine (conflict_stages .releaseTwice (fun _ => rfl) (fun _ => rfl) rfl).mono fun r p h => ?_
      cases r with
      | ok f => simpa [h.1] using h.2
      | error err => exact h

/-- Recording the sale. -/
theorem finalizeConfirmed_stages (orderId : Uuid) :
    (finalizeOrder ⟨orderId, userId, dto.eventId, dto.idempotencyKey, .CONFIRMED⟩
        (releaseUnit dto.eventId)).Keeps purchasing
      (fun r p => match r with
        | .ok f => p = .buying userId dto (if f.raced then .seen f.order else .sold f.order)
        | .error err => p = .buying userId dto (.broken err))
      (.buying userId dto (.paid orderId)) := by
  refine ⟨.confirm orderId, fun r p h => ?_⟩
  obtain ⟨rfl, hanswers⟩ := h
  cases r with
  | ok order => rfl
  | error err =>
    dsimp only [Prog.attempt, Prog.bind]
    split
    · rename_i hother
      cases err <;> first | rfl | exact absurd rfl hother
    · rename_i hconflict
      obtain rfl := not_not.mp hconflict
      refine (conflict_stages .releaseLate (fun _ => rfl) (fun _ => rfl) rfl).mono fun r p h => ?_
      cases r with
      | ok f => simpa [h.1] using h.2
      | error err => exact h

theorem compensate_stages (orderId : Uuid) (err : Err) :
    (compensate userId dto orderId err).Keeps purchasing (Ends userId dto)
      (.buying userId dto (.unpaid orderId err)) := by
  refine stages_issue (.release orderId err) (fun _ _ => ?_) fun e => ⟨_, rfl, .broken e⟩
  refine Prog.Keeps.seq (finalizeFailed_stages orderId err) (fun f p h => ?_)
    fun e p h => ⟨_, h, .broken e⟩
  subst h
  split
  · exact ⟨_, rfl, .seen f.order⟩
  · exact ⟨_, rfl, .failed f.order err⟩

theorem confirm_stages (orderId : Uuid) :
    (confirm userId dto orderId).Keeps purchasing (Ends userId dto)
      (.buying userId dto (.paid orderId)) := by
  refine Prog.Keeps.seq (finalizeConfirmed_stages orderId) (fun f p h => ?_)
    fun e p h => ⟨_, h, .broken e⟩
  subst h
  obtain ⟨order, raced⟩ := f
  cases raced with
  | true => exact ⟨_, rfl, .seen order⟩
  | false =>
    split
    · refine ⟨.announce order, fun r p h => ?_⟩
      obtain ⟨rfl, -⟩ := h
      cases r <;> exact ⟨_, rfl, .sold order⟩
    · exact ⟨_, rfl, .sold order⟩

theorem settle_stages (price : Money) :
    (settle userId dto price).Keeps purchasing (Ends userId dto) (.buying userId dto (.held price)) := by
  refine stages_issue (.drawId price) (fun orderId _ => ?_) fun e => ⟨_, rfl, .broken e⟩
  refine (purchaseDeduct_stages price orderId).recover fun r p h => ?_
  cases r with
  | error err => subst h; exact compensate_stages orderId err
  | ok booked => subst h; exact confirm_stages orderId

/-- **`purchase` is the machine.** -/
theorem purchase_stages :
    (purchase userId dto).Keeps purchasing (Ends userId dto) (.buying userId dto .looking) := by
  refine stages_issue .find (fun found _ => ?_) fun e => ⟨_, rfl, .broken e⟩
  cases found with
  | some existing => exact ⟨_, rfl, .seen existing⟩
  | none =>
    refine stages_issue .readEvent (fun found _ => ?_) fun e => ⟨_, rfl, .broken e⟩
    cases found with
    | none => exact ⟨_, rfl, .noEvent⟩
    | some found =>
      obtain ⟨ev, product⟩ := found
      refine stages_issue (.readClock ev product.price) (fun (now : Nat) _ => ?_)
        fun e => ⟨_, rfl, .broken e⟩
      split
      · rename_i hinactive
        exact ⟨_, rfl, .inactive ev product.price now hinactive⟩
      · rename_i hactive
        refine stages_issue (.reserve ev product.price now hactive) (fun (reserved : Bool) _ => ?_)
          fun e => ⟨_, rfl, .broken e⟩
        cases reserved with
        | true => exact settle_stages product.price
        | false =>
          refine Prog.Keeps.seq (poll_stages 40 5) (fun found p h => ?_) fun e p h => ⟨_, h, .broken e⟩
          cases found with
          | none => exact ⟨_, h, .exhausted⟩
          | some order => exact ⟨_, h, .seen order⟩

end FlashSaleService

/-! ## Every handler -/

theorem purchasing_other {α : Type} {p : Service α} (h : p.Uses Ordinary) :
    p.Keeps purchasing (fun _ g => g = .other) .other :=
  .of_uses h (fun _ ho => ho) fun _ _ _ _ hpost => hpost.1

/-- The statements of the wallet's transactions. -/
def Banking : Stmt → Prop
  | .walletFindUnique _ | .walletForUpdate _ | .walletUpdate .. | .ledgerEntryFindUnique ..
  | .ledgerEntryCreate _ | .commit | .rollback | .randomUUID => True
  | _ => False

theorem ordinary_of_banking {o : Stmt} (h : Banking o) : Ordinary o := by
  cases o <;> first | exact trivial | exact h.elim

theorem uses_issue {α : Type} {allowed : Stmt → Prop} {o : Stmt} {f : o.Reply → Service α}
    (ho : allowed o) (hf : ∀ v, (f v).Uses allowed) : ((issue o).bind f).Uses allowed :=
  Prog.uses_bind (Prog.uses_perform ho) hf

namespace WalletService

theorem transaction_banking {α : Type} {body : Service α} (h : body.Uses Banking) :
    (transaction body).Uses Banking :=
  Prog.uses_bind (Prog.uses_attempt h) fun
    | .ok _ => uses_issue trivial fun _ => trivial
    | .error _ => uses_issue trivial fun _ => trivial

theorem lockWalletById_banking (id : Uuid) : (lockWalletById id).Uses Banking :=
  uses_issue trivial fun
    | none => trivial
    | some _ => trivial

theorem lockWalletByUserId_banking (userId : Uuid) : (lockWalletByUserId userId).Uses Banking :=
  uses_issue trivial fun
    | none => trivial
    | some wallet => lockWalletById_banking wallet.id

theorem deposit_banking (userId : Uuid) (dto : DepositDto) : (deposit userId dto).Uses Banking :=
  uses_issue trivial fun _ => transaction_banking <|
    Prog.uses_bind (lockWalletByUserId_banking userId) fun _ =>
      uses_issue trivial fun _ => uses_issue trivial fun _ => trivial

theorem purchaseDeduct_banking (userId : Uuid) (amount : Int) (referenceId : String) :
    (purchaseDeduct userId amount referenceId).Uses Banking := by
  refine transaction_banking (Prog.uses_bind (lockWalletByUserId_banking userId) fun wallet =>
    uses_issue trivial fun found => ?_)
  cases found with
  | some existing => trivial
  | none =>
    dsimp only
    split
    · trivial
    · exact uses_issue trivial fun _ => uses_issue trivial fun _ => trivial

theorem moveFunds_banking (sender receiver : Wallet) (amount : Int) (key : String) :
    (moveFunds sender receiver amount key).Uses Banking := by
  unfold moveFunds
  split
  · trivial
  · exact uses_issue trivial fun _ => uses_issue trivial fun _ =>
      uses_issue trivial fun _ => uses_issue trivial fun _ => trivial

theorem transferTx_banking (userId : Uuid) (dto : TransferDto) :
    (transferTx userId dto).Uses Banking := by
  refine uses_issue trivial fun senderRef => uses_issue trivial fun receiverRef => ?_
  cases senderRef with
  | none => trivial
  | some senderRef =>
  cases receiverRef with
  | none => trivial
  | some receiverRef =>
  refine uses_issue trivial fun found => ?_
  cases found with
  | some existingOut => trivial
  | none =>
    exact Prog.uses_bind (lockWalletById_banking _) fun _ =>
      Prog.uses_bind (lockWalletById_banking _) fun _ => moveFunds_banking ..

/-- A transfer is a transaction between two calls to Redis. -/
theorem transfer_uses (allowed : Stmt → Prop) (hbanking : ∀ o, Banking o → allowed o)
    (hget : ∀ key, allowed (.redisGet key)) (hset : ∀ key v, allowed (.redisSet key v)) (userId : Uuid)
    (dto : TransferDto) : (transfer userId dto).Uses allowed := by
  unfold transfer
  split
  · trivial
  refine uses_issue (hget _) fun found => ?_
  cases found with
  | some cached => trivial
  | none =>
    exact Prog.uses_bind ((transaction_banking (transferTx_banking userId dto)).mono hbanking)
      fun result => uses_issue (hset _ result) fun _ => trivial

theorem transfer_ordinary (userId : Uuid) (dto : TransferDto) : (transfer userId dto).Uses Ordinary :=
  transfer_uses Ordinary (fun _ => ordinary_of_banking) (fun _ => trivial) (fun _ _ => trivial) userId dto

end WalletService

namespace FlashSaleService

theorem poll_uses (allowed : Stmt → Prop) {eventId : Uuid} {key : String} {delayMs : Nat}
    (hfind : allowed (.orderFindUnique eventId key)) (hwait : allowed (.sleep delayMs)) (n : Nat) :
    (poll eventId key delayMs n).Uses allowed := by
  induction n with
  | zero => trivial
  | succ n ih =>
    refine uses_issue hfind fun found => ?_
    cases found with
    | some order => trivial
    | none =>
      dsimp only
      split
      · exact uses_issue hwait fun _ => ih
      · exact ih

theorem finalizeOrder_uses (allowed : Stmt → Prop) {data : NewOrder} {eventId : Uuid}
    (hcreate : allowed (.orderCreate data)) (hrelease : allowed (.releaseUnit eventId))
    (hfind : allowed (.orderFindUnique data.flashSaleEventId data.idempotencyKey)) :
    (finalizeOrder data (releaseUnit eventId)).Uses allowed := by
  refine Prog.uses_bind (Prog.uses_attempt (Prog.uses_perform hcreate)) fun created => ?_
  cases created with
  | ok order => trivial
  | error err =>
    dsimp only
    split
    · trivial
    · refine uses_issue hrelease fun _ => uses_issue hfind fun found => ?_
      cases found <;> trivial

theorem compensate_uses (allowed : Stmt → Prop) {userId : Uuid} {dto : PurchaseFlashSaleDto}
    {orderId : Uuid} (hcreate : ∀ data, allowed (.orderCreate data))
    (hrelease : allowed (.releaseUnit dto.eventId)) (hfind : ∀ e k, allowed (.orderFindUnique e k))
    (err : Err) : (compensate userId dto orderId err).Uses allowed := by
  refine uses_issue hrelease fun _ =>
    Prog.uses_bind (finalizeOrder_uses allowed (hcreate _) hrelease (hfind _ _)) fun order => ?_
  split <;> trivial

end FlashSaleService

theorem FlashSaleService.createEvent_ordinary (dto : CreateFlashSaleEventDto) :
    (createEvent dto).Uses Ordinary :=
  uses_issue trivial fun
    | none => trivial
    | some _ => Prog.uses_perform (S := sql)
        (o := .flashSaleEventCreate dto.productId dto.totalStock dto.totalStock dto.startsAt dto.endsAt)
        ⟨rfl, dto.min⟩

/-- **Every handler keeps to its stages**: a purchase is the machine, and the rest is ordinary. -/
theorem handler_stages (req : Request) :
    req.handler.Keeps purchasing (purchasingAnswer req) (.start req) := by
  have hother : ∀ {p : Service Response}, p.Uses Ordinary →
      p.Keeps purchasing (purchasingAnswer req) .other :=
    fun h => (purchasing_other h).mono fun r g hg => by subst hg; trivial
  cases req with
  | provisionWallet userId =>
    exact hother (Prog.uses_bind (uses_issue trivial fun _ => trivial) fun _ => trivial)
  | deposit userId dto =>
    exact hother (Prog.uses_bind ((WalletService.deposit_banking userId dto).mono
      fun _ => ordinary_of_banking) fun _ => trivial)
  | purchaseDeduct userId amount referenceId =>
    exact hother (Prog.uses_bind ((WalletService.purchaseDeduct_banking userId amount referenceId).mono
      fun _ => ordinary_of_banking) fun _ => trivial)
  | transfer userId dto =>
    exact hother (Prog.uses_bind (WalletService.transfer_ordinary userId dto) fun _ => trivial)
  | createEvent dto =>
    exact hother (Prog.uses_bind (FlashSaleService.createEvent_ordinary dto) fun _ => trivial)
  | purchase userId dto =>
    refine FlashSaleService.purchase_stages.seq ?_ ?_
    · rintro v p ⟨s, rfl, hend⟩
      exact ⟨_, hend, rfl⟩
    · rintro e p ⟨s, rfl, hend⟩
      exact ⟨_, hend, rfl⟩

/-- The statements of all other handlers. -/
def OffSale : Stmt → Prop
  | .redisGet _ | .redisSet .. | .walletCreate .. | .productFindUnique _ | .flashSaleEventCreate .. => True
  | o => Banking o

theorem handler_offSale {req : Request} (h : req.purchase? = none) : req.handler.Uses OffSale := by
  have hbanking : ∀ o, Banking o → OffSale o := by
    intro o ho
    cases o <;> first | exact trivial | exact ho.elim
  cases req with
  | provisionWallet userId =>
    exact Prog.uses_bind (uses_issue trivial fun _ => trivial) fun _ => trivial
  | deposit userId dto =>
    exact Prog.uses_bind ((WalletService.deposit_banking userId dto).mono hbanking) fun _ => trivial
  | purchaseDeduct userId amount referenceId =>
    exact Prog.uses_bind ((WalletService.purchaseDeduct_banking userId amount referenceId).mono hbanking)
      fun _ => trivial
  | transfer userId dto =>
    exact Prog.uses_bind (WalletService.transfer_uses OffSale hbanking (fun _ => trivial) (fun _ _ => trivial)
      userId dto) fun _ => trivial
  | createEvent dto =>
    refine Prog.uses_bind (uses_issue trivial fun found => ?_) fun _ => trivial
    cases found with
    | none => trivial
    | some product => exact Prog.uses_perform (S := sql) trivial
  | purchase userId dto => cases h

end FlashWallet
