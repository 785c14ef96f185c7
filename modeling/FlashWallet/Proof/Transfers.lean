import FlashWallet.Proof.Stages

/-!
# A transfer as a state machine

What `Stages` is for a purchase, for a transfer: the `Transit`s it passes through, the statement it
may issue at each, what a reply makes of it, and how it ends. `transfer_transits` is the proof that
`WalletService.transfer` is this machine.

The debit is looked up at `named`, before any lock; at `unsent` the transfer has made up its mind
that it is the first one, and nothing after that asks again.
-/

set_option autoImplicit false

namespace FlashWallet

open Lib

inductive Transit where
  | asked
  | missed
  | known (sender : Option Wallet)
  | named (sender recipient : Uuid)
  | unsent (sender recipient : Uuid)
  | waiting (sender recipient : Uuid) (first : Wallet)
  | locked (sender recipient : Wallet)
  | debited (sender recipient : Wallet)
  | credited (sender recipient : Wallet)
  | outBooked (sender recipient : Wallet)
  | ready (result : TransferResult)
  | failing (err : Err)
  | made (result : TransferResult)
  | answered (result : TransferResult)
  | refused (err : Err)

namespace Transit

/-! ## What a reply makes of a transit -/

/-- The answer to a transfer that goes through. -/
def sentResult (sender recipient : Wallet) (dto : TransferDto) : TransferResult where
  fromWalletId := sender.id
  toWalletId := recipient.id
  amount := dto.amount
  fromBalance := Decimal.minus sender.balance.toDecimal dto.amount
  toBalance := some (Decimal.plus recipient.balance.toDecimal dto.amount)
  referenceId := dto.idempotencyKey
  replayed := false

def onRedisGet : Except Err (Option TransferResult) → Transit
  | .ok (some cached) => .answered cached
  | .ok none => .missed
  | .error err => .refused err

def onWalletFindUnique : Transit → Except Err (Option Wallet) → Transit
  | .missed, .ok found => .known found
  | .known (some sender), .ok (some recipient) => .named sender.id recipient.id
  | .known none, .ok _ => .failing (.notFound "Sender wallet not found")
  | .known (some _), .ok none => .failing (.notFound "Recipient wallet not found")
  | _, .error err => .failing err
  | t, _ => t

def onLedgerEntryFindUnique (dto : TransferDto) : Transit → Except Err (Option LedgerEntry) → Transit
  | .named sender recipient, .ok (some existingOut) =>
    .ready (WalletService.replayedResult sender recipient existingOut dto.idempotencyKey)
  | .named sender recipient, .ok none => .unsent sender recipient
  | _, .error err => .failing err
  | t, _ => t

def onWalletForUpdate : Transit → Except Err (Option Wallet) → Transit
  | .unsent sender recipient, .ok (some first) => .waiting sender recipient first
  | .waiting sender recipient first, .ok (some second) =>
    .locked (if first.id = sender then first else second)
      (if first.id = recipient then first else second)
  | _, .ok none => .failing (.notFound "Wallet not found")
  | _, .error err => .failing err
  | t, _ => t

def onWalletUpdate : Transit → Except Err Wallet → Transit
  | .locked sender recipient, .ok _ => .debited sender recipient
  | .debited sender recipient, .ok _ => .credited sender recipient
  | _, .error err => .failing err
  | t, _ => t

def onLedgerEntryCreate (dto : TransferDto) : Transit → Except Err LedgerEntry → Transit
  | .credited sender recipient, .ok _ => .outBooked sender recipient
  | .outBooked sender recipient, .ok _ => .ready (sentResult sender recipient dto)
  | _, .error err => .failing err
  | t, _ => t

def onCommit : Transit → Except Err Unit → Transit
  | .ready result, .ok _ => .made result
  | _, .error err => .refused err
  | t, _ => t

def onRollback : Transit → Except Err Unit → Transit
  | .locked .., .ok _ => .refused (.badRequest "Insufficient balance")
  | .failing err, .ok _ => .refused err
  | _, .error err => .refused err
  | t, _ => t

def onRedisSet : Transit → Except Err Unit → Transit
  | .made result, .ok _ => .answered result
  | _, .error err => .refused err
  | t, _ => t

/-- The transit after a reply. -/
def next (dto : TransferDto) (t : Transit) : (o : Stmt) → Except Err o.Reply → Transit
  | .redisGet _, r => onRedisGet r
  | .walletFindUnique _, r => t.onWalletFindUnique r
  | .ledgerEntryFindUnique .., r => t.onLedgerEntryFindUnique dto r
  | .walletForUpdate _, r => t.onWalletForUpdate r
  | .walletUpdate .., r => t.onWalletUpdate r
  | .ledgerEntryCreate _, r => t.onLedgerEntryCreate dto r
  | .commit, r => t.onCommit r
  | .rollback, r => t.onRollback r
  | .redisSet .., r => t.onRedisSet r
  | _, _ => t

/-! ## What may be issued, and how it ends -/

/-- Statement `o` may be issued at a transit of the transfer `dto` by `userId`. -/
inductive May (userId : Uuid) (dto : TransferDto) : Transit → Stmt → Prop where
  | look (other : dto.toUserId ≠ userId) :
      May userId dto .asked (.redisGet (WalletService.idemKey userId dto.idempotencyKey))
  | findSender : May userId dto .missed (.walletFindUnique userId)
  | findRecipient (sender : Option Wallet) :
      May userId dto (.known sender) (.walletFindUnique dto.toUserId)
  | findDebit (sender recipient : Uuid) : May userId dto (.named sender recipient)
      (.ledgerEntryFindUnique sender dto.idempotencyKey .TRANSFER_OUT)
  | lockFirst (sender recipient : Uuid) : May userId dto (.unsent sender recipient)
      (.walletForUpdate (WalletService.sort sender recipient).1)
  | lockSecond (sender recipient : Uuid) (first : Wallet) :
      May userId dto (.waiting sender recipient first)
        (.walletForUpdate (WalletService.sort sender recipient).2)
  | refuse (sender recipient : Wallet) (short : sender.balance.cents < dto.amount) :
      May userId dto (.locked sender recipient) .rollback
  | debit (sender recipient : Wallet) (funds : dto.amount ≤ sender.balance.cents) :
      May userId dto (.locked sender recipient) (.walletUpdate sender.id
        (Decimal.minus sender.balance.toDecimal dto.amount))
  | credit (sender recipient : Wallet) : May userId dto (.debited sender recipient)
      (.walletUpdate recipient.id (Decimal.plus recipient.balance.toDecimal dto.amount))
  | bookOut (sender recipient : Wallet) : May userId dto (.credited sender recipient)
      (.ledgerEntryCreate ⟨sender.id, .TRANSFER_OUT, Decimal.negated dto.amount,
        Decimal.minus sender.balance.toDecimal dto.amount, dto.idempotencyKey⟩)
  | bookIn (sender recipient : Wallet) : May userId dto (.outBooked sender recipient)
      (.ledgerEntryCreate ⟨recipient.id, .TRANSFER_IN, dto.amount,
        Decimal.plus recipient.balance.toDecimal dto.amount, dto.idempotencyKey⟩)
  | commit (result : TransferResult) : May userId dto (.ready result) .commit
  | rollback (err : Err) : May userId dto (.failing err) .rollback
  | save (result : TransferResult) : May userId dto (.made result)
      (.redisSet (WalletService.idemKey userId dto.idempotencyKey) result)

/-- The transfer ends at a transit with the given result. -/
inductive Outcome (userId : Uuid) (dto : TransferDto) :
    Transit → Except Err TransferResult → Prop where
  | toSelf (self : dto.toUserId = userId) :
      Outcome userId dto .asked (.error (.badRequest "Cannot transfer to yourself"))
  | answered (result : TransferResult) : Outcome userId dto (.answered result) (.ok result)
  | refused (err : Err) : Outcome userId dto (.refused err) (.error err)

end Transit

/-! ## The machine as a discipline -/

/-- Only transfers write to the cache. -/
def CacheSilent : Stmt → Prop
  | .redisSet .. => False
  | _ => True

/-- Where a call stands: on its way with a transfer, or busy with something else. -/
inductive Errand where
  | other
  | sending (userId : Uuid) (dto : TransferDto) (transit : Transit)

def Errand.start : Request → Errand
  | .transfer userId dto => .sending userId dto .asked
  | _ => .other

def Errand.next : Errand → (o : Stmt) → Except Err o.Reply → Errand
  | .other, _, _ => .other
  | .sending userId dto t, o, r => .sending userId dto (t.next dto o r)

/-- The transfer a request asks for. -/
def Request.transfer? : Request → Option (Uuid × TransferDto)
  | .transfer userId dto => some (userId, dto)
  | _ => none

/-- The transfer a call is making. -/
def Errand.transfer? : Errand → Option (Uuid × TransferDto)
  | .other => none
  | .sending userId dto _ => some (userId, dto)

theorem Request.transfer?_eq_some {r : Request} {userId : Uuid} {dto : TransferDto} :
    r.transfer? = some (userId, dto) ↔ r = .transfer userId dto := by
  cases r <;> simp [transfer?]

theorem Errand.of_transfer {e : Errand} {userId : Uuid} {dto : TransferDto}
    (h : e.transfer? = some (userId, dto)) : ∃ t, e = .sending userId dto t := by
  cases e with
  | other => cases h
  | sending u d t => cases h; exact ⟨t, rfl⟩

@[simp] theorem transfer?_start (r : Request) : (Errand.start r).transfer? = r.transfer? := by
  cases r <;> rfl

@[simp] theorem transfer?_next (e : Errand) (o : Stmt) (r : Except Err o.Reply) :
    (e.next o r).transfer? = e.transfer? := by
  cases e <;> rfl

def transferring : Discipline sql Err Errand where
  pre o
    | .other => CacheSilent o
    | .sending userId dto t => Transit.May userId dto t o
  post o e r e' := e' = e.next o r ∧ o.Answers r

/-- The answer of a transfer fits its transit. -/
def transferringAnswer (_ : Request) (r : Except Err Response) : Errand → Prop
  | .other => True
  | .sending userId dto t => ∃ r', Transit.Outcome userId dto t r' ∧ r = r'.map Response.transferred

namespace WalletService

variable {α : Type} {userId : Uuid} {dto : TransferDto} {t : Transit}

theorem transits_issue {Q : Except Err α → Errand → Prop} {o : Stmt} {f : o.Reply → Service α}
    (may : Transit.May userId dto t o)
    (hok : ∀ v, o.Answers (.ok v) →
      (f v).Keeps transferring Q (.sending userId dto (t.next dto o (.ok v))))
    (herr : ∀ e, Q (.error e) (.sending userId dto (t.next dto o (.error e)))) :
    ((issue o).bind f).Keeps transferring Q (.sending userId dto t) := by
  refine Prog.Keeps.issue may (fun v p h => ?_) fun e p h => ?_
  · obtain ⟨rfl, hanswers⟩ := h
    exact hok v hanswers
  · obtain ⟨rfl, -⟩ := h
    exact herr e

/-- How the body of a transfer may leave its transaction. -/
inductive Carried (userId : Uuid) (dto : TransferDto) : Except Err TransferResult → Errand → Prop where
  | ready (v : TransferResult) : Carried userId dto (.ok v) (.sending userId dto (.ready v))
  | failing (err : Err) : Carried userId dto (.error err) (.sending userId dto (.failing err))
  | short (sender recipient : Wallet) (short : sender.balance.cents < dto.amount) :
      Carried userId dto (.error (.badRequest "Insufficient balance"))
        (.sending userId dto (.locked sender recipient))

theorem moveFunds_transits (sender recipient : Wallet) :
    (moveFunds sender recipient dto.amount dto.idempotencyKey).Keeps transferring
      (Carried userId dto) (.sending userId dto (.locked sender recipient)) := by
  unfold moveFunds
  dsimp only
  split
  · rename_i hshort
    exact .short sender recipient (Decimal.lt_iff.mp hshort)
  · rename_i hfunds
    have hfunds : dto.amount ≤ sender.balance.cents := Int.not_lt.mp (mt Decimal.lt_iff.mpr hfunds)
    refine transits_issue (.debit sender recipient hfunds) (fun _ _ => ?_) fun e => .failing e
    refine transits_issue (.credit sender recipient) (fun _ _ => ?_) fun e => .failing e
    refine transits_issue (.bookOut sender recipient) (fun _ _ => ?_) fun e => .failing e
    exact transits_issue (.bookIn sender recipient) (fun _ _ => .ready _) fun e => .failing e

/-- How a lock on one of the two rows may leave the body. -/
inductive Carried.Locks (userId : Uuid) (dto : TransferDto) (t : Wallet → Transit) :
    Except Err Wallet → Errand → Prop where
  | locked (row : Wallet) : Locks userId dto t (.ok row) (.sending userId dto (t row))
  | failing (err : Err) : Locks userId dto t (.error err) (.sending userId dto (.failing err))

theorem transferTx_transits :
    (transferTx userId dto).Keeps transferring (Carried userId dto) (.sending userId dto .missed) := by
  refine transits_issue .findSender (fun senderRef _ => ?_) fun e => .failing e
  refine transits_issue (.findRecipient senderRef) (fun receiverRef _ => ?_) fun e => ?_
  · cases senderRef with
    | none => cases receiverRef <;> exact .failing _
    | some senderRef =>
    cases receiverRef with
    | none => exact .failing _
    | some receiverRef =>
    refine transits_issue (.findDebit senderRef.id receiverRef.id) (fun found _ => ?_)
      fun e => .failing e
    cases found with
    | some existingOut => exact .ready _
    | none =>
      refine Prog.Keeps.seq (R := Carried.Locks userId dto (.waiting senderRef.id receiverRef.id)) ?_
        (fun first p h => ?_) fun e p h => ?_
      · refine transits_issue (.lockFirst senderRef.id receiverRef.id) (fun found _ => ?_) fun e => .failing e
        cases found with
        | none => exact .failing _
        | some first => exact .locked first
      · cases h
        refine Prog.Keeps.seq (R := Carried.Locks userId dto fun second =>
          .locked (if first.id = senderRef.id then first else second)
            (if first.id = receiverRef.id then first else second)) ?_ (fun second p h => ?_) fun e p h => ?_
        · refine transits_issue (.lockSecond senderRef.id receiverRef.id first) (fun found _ => ?_)
            fun e => .failing e
          cases found with
          | none => exact .failing _
          | some second => exact .locked second
        · cases h
          exact moveFunds_transits _ _
        · cases h
          exact .failing e
      · cases h
        exact .failing e
  · cases senderRef <;> exact .failing e

theorem transferTransaction_transits :
    (transaction (transferTx userId dto)).Keeps transferring (fun r p => match r with
      | .ok v => p = .sending userId dto (.made v)
      | .error err => p = .sending userId dto (.refused err)) (.sending userId dto .missed) := by
  refine transferTx_transits.recover fun r p h => ?_
  cases h with
  | ready v => exact transits_issue (.commit v) (fun _ _ => rfl) fun e => rfl
  | failing err => exact transits_issue (.rollback err) (fun _ _ => rfl) fun e => rfl
  | short sender recipient short =>
    exact transits_issue (.refuse sender recipient short) (fun _ _ => rfl) fun e => rfl

/-- **`transfer` is the machine.** -/
theorem transfer_transits :
    (transfer userId dto).Keeps transferring
      (fun r p => ∃ t, p = .sending userId dto t ∧ Transit.Outcome userId dto t r)
      (.sending userId dto .asked) := by
  unfold transfer
  split
  · rename_i hself
    exact ⟨_, rfl, .toSelf hself⟩
  · rename_i hother
    refine transits_issue (.look hother) (fun found _ => ?_) fun e => ⟨_, rfl, .refused e⟩
    cases found with
    | some cached => exact ⟨_, rfl, .answered cached⟩
    | none =>
      refine Prog.Keeps.seq transferTransaction_transits (fun v p h => ?_)
        fun e p h => ⟨_, h, .refused e⟩
      subst h
      exact transits_issue (.save v) (fun _ _ => ⟨_, rfl, .answered v⟩) fun e => ⟨_, rfl, .refused e⟩

end WalletService

/-! ## Every handler -/

theorem cacheSilent_of_banking {o : Stmt} (h : Banking o) : CacheSilent o := by
  cases o <;> first | exact trivial | exact h.elim

theorem transferring_other {α : Type} {p : Service α} (h : p.Uses CacheSilent) :
    p.Keeps transferring (fun _ e => e = .other) .other :=
  .of_uses h (fun _ ho => ho) fun _ _ _ _ hpost => hpost.1

/-- A purchase does not write to the cache. -/
theorem purchase_unnoticed (userId : Uuid) (dto : PurchaseFlashSaleDto) :
    (FlashSaleService.purchase userId dto).Keeps transferring (fun _ e => e = .other) .other := by
  refine FlashSaleService.purchase_stages.unnoticed
    (I := fun p : Progress => ∃ s, p = .buying userId dto s) ⟨.looking, rfl⟩ ?_ ?_ fun _ => rfl
  · rintro o p ⟨s, rfl⟩ may
    cases (may : May userId dto s o) <;> trivial
  · rintro o p r e' ⟨s, rfl⟩ may ⟨rfl, hanswers⟩
    exact ⟨rfl, .buying userId dto (s.next o r), ⟨_, rfl⟩, rfl, hanswers⟩

/-- **Every handler runs its errand**: a transfer is the machine, and nothing else writes to the
cache. -/
theorem handler_transits (req : Request) :
    req.handler.Keeps transferring (transferringAnswer req) (.start req) := by
  have hother : ∀ {α : Type} {p : Service α} {f : α → Service Response},
      p.Keeps transferring (fun _ e => e = .other) .other → (∀ a, ∃ r, f a = .done r) →
      (p.bind f).Keeps transferring (transferringAnswer req) .other := fun hp hf =>
    hp.seq (fun a e he => by obtain ⟨r, hr⟩ := hf a; rw [hr]; subst he; trivial)
      fun _ _ he => by subst he; trivial
  cases req with
  | provisionWallet userId =>
    exact hother (transferring_other (uses_issue trivial fun _ => trivial)) fun _ => ⟨_, rfl⟩
  | deposit userId dto =>
    exact hother (transferring_other ((WalletService.deposit_banking userId dto).mono
      fun _ => cacheSilent_of_banking)) fun _ => ⟨_, rfl⟩
  | purchaseDeduct userId amount referenceId =>
    exact hother (transferring_other ((WalletService.purchaseDeduct_banking userId amount
      referenceId).mono fun _ => cacheSilent_of_banking)) fun _ => ⟨_, rfl⟩
  | createEvent dto =>
    refine hother (transferring_other (uses_issue trivial fun found => ?_)) fun _ => ⟨_, rfl⟩
    cases found with
    | none => trivial
    | some product => exact Prog.uses_perform (S := sql) trivial
  | purchase userId dto => exact hother (purchase_unnoticed userId dto) fun _ => ⟨_, rfl⟩
  | transfer userId dto =>
    refine WalletService.transfer_transits.seq ?_ ?_
    · rintro v p ⟨t, rfl, hend⟩
      exact ⟨_, hend, rfl⟩
    · rintro e p ⟨t, rfl, hend⟩
      exact ⟨_, hend, rfl⟩

/-- Each call runs the errand its request asks for. -/
abbrev OnErrands (calls : List ServiceCall) (es : List Errand) : Prop :=
  Platform.Matched (fun _ call e => e.transfer? = call.request.transfer?) calls es

/-- Any state that is reached has its errands. -/
theorem errands_of_run {ok : State → Event → Prop} {tr : Trace} {c : State}
    (hrun : RunFrom State.initial ok tr c) :
    ∃ es, OnErrands c.calls es ∧ Platform.Aligned transferring transferringAnswer c.calls es := by
  have hbooks : Platform.Bookkeeping system transferring transferringAnswer Errand.start
      (fun _ c es => OnErrands c.calls es) ok State.initial :=
    { handlers := fun _ r _ => handler_transits r
      arrive := fun _ c es r _ hlen h _ => h.arrive hlen (transfer?_start r)
      exec := fun tr c es i r o k e x reply w _ _ h _ hi he _ hexec =>
        have hasked : e.transfer? = r.transfer? := h i _ e hi he
        ⟨e.next o reply, ⟨rfl, (World.Served.of_exec hexec).answers⟩,
          h.set (fun _ _ _ _ hq => hq) ((transfer?_next e o reply).trans hasked)⟩
      crash := fun tr c es i r o k e _ _ h _ hi he =>
        ⟨e, h.set (fun _ _ _ _ hq => hq) (show e.transfer? = r.transfer? from h i _ e hi he)⟩
      env := fun tr c es en w _ _ h _ _ => h }
  exact hbooks.sound .nil .nil hrun

end FlashWallet
