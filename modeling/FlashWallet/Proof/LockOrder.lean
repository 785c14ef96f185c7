import FlashWallet.Proof.Stages
import FlashWallet.Proof.References
import Mathlib.Data.String.Basic

/-!
# Locks are taken in order

The rows of a transaction are locked in the order of their identifiers. `ordered` says so of one
call: its books are the rows it holds, and the row it asks for comes after all of them. What is
updated, and what an entry is booked on, is held already, whatever the order of the updates.
Identifiers are drawn, and wallets and sales created, with nothing held.

Every service function keeps the discipline, so in every run the books are the rows held.
-/

set_option autoImplicit false

namespace FlashWallet

open Lib

/-- The row whose lock a statement needs. -/
def Stmt.wants? : Stmt → Option Uuid
  | .walletForUpdate id => some id
  | .walletUpdate id _ => some id
  | .ledgerEntryCreate d => some d.walletId
  | _ => none

/-- The statement draws an identifier. -/
def Stmt.draws : Stmt → Bool
  | .randomUUID | .walletCreate .. | .flashSaleEventCreate .. => true
  | _ => false

/-! ## The discipline -/

/-- The rows a call holds after a reply. -/
def hold : (o : Stmt) → Except Err o.Reply → List Uuid → List Uuid
  | .walletForUpdate id, .ok (some _), held => id :: held
  | .commit, _, _ | .rollback, _, _ => []
  | _, _, held => held

def orderedPre : Stmt → List Uuid → Prop
  | .walletForUpdate id, held => ∀ id' ∈ held, id'.text ≤ id.text
  | .walletUpdate id _, held => id ∈ held
  | .ledgerEntryCreate d, held => d.walletId ∈ held
  | .randomUUID, held | .walletCreate .., held | .flashSaleEventCreate .., held => held = []
  | _, _ => True

def ordered : Discipline sql Err (List Uuid) where
  pre := orderedPre
  post o held r held' := held' = hold o r held ∧ o.Answers r

/-- The call holds nothing any more. -/
abbrev Freed {α : Type} : Except Err α → List Uuid → Prop := fun _ held => held = []

section

variable {α β : Type} {held : List Uuid}

theorem ordered_issue {Q : Except Err β → List Uuid → Prop} {o : Stmt} {f : o.Reply → Service β}
    (hpre : orderedPre o held)
    (hok : ∀ v, o.Answers (.ok v) → (f v).Keeps ordered Q (hold o (.ok v) held))
    (herr : ∀ e, Q (.error e) (hold o (.error e) held)) :
    ((issue o).bind f).Keeps ordered Q held := by
  refine Prog.Keeps.issue hpre (fun v held' h => ?_) fun e held' h => ?_
  · obtain ⟨rfl, hanswers⟩ := h
    exact hok v hanswers
  · obtain ⟨rfl, -⟩ := h
    exact herr e

/-- Inside a transaction an error needs no books: the rollback frees whatever is held. -/
theorem ordered_step {Q : β → List Uuid → Prop} {o : Stmt} {f : o.Reply → Service β}
    (hpre : orderedPre o held)
    (hok : ∀ v, o.Answers (.ok v) →
      (f v).Keeps ordered (fun r held' => ∀ b, r = .ok b → Q b held') (hold o (.ok v) held)) :
    ((issue o).bind f).Keeps ordered (fun r held' => ∀ b, r = .ok b → Q b held') held :=
  ordered_issue hpre hok fun e b h => by cases h

/-- A program that asks for no lock, begun with nothing held. -/
theorem ordered_of_uses {p : Service α} (hp : p.Uses fun o => Stmt.wants? o = none) :
    p.Keeps ordered Freed [] := by
  refine .of_uses hp (fun o ho => ?_) fun o r held' ho h => ?_
  · cases o with
    | walletForUpdate | walletUpdate | ledgerEntryCreate => cases ho
    | randomUUID | walletCreate | flashSaleEventCreate => rfl
    | _ => trivial
  · obtain ⟨rfl, -⟩ := h
    cases o with
    | walletForUpdate | walletUpdate | ledgerEntryCreate => cases ho
    | _ => rfl

/-- A transaction ends with nothing held. -/
theorem transaction_ordered {body : Service α} (hbody : body.Keeps ordered (fun _ _ => True) held) :
    (WalletService.transaction body).Keeps ordered Freed held := by
  refine hbody.recover fun r held' _ => ?_
  cases r with
  | ok a => exact ordered_issue (o := .commit) trivial (fun _ _ => rfl) fun _ => rfl
  | error e => exact ordered_issue (o := .rollback) trivial (fun _ _ => rfl) fun _ => rfl

end

/-! ## `WalletService` -/

namespace WalletService

variable {β : Type} {held : List Uuid}

theorem lockWalletById_ordered {id : Uuid} (hafter : ∀ id' ∈ held, id'.text ≤ id.text) :
    (lockWalletById id).Keeps ordered
      (fun r held' => ∀ row, r = .ok row → row.id = id ∧ held' = id :: held) held := by
  refine ordered_step (o := .walletForUpdate id) hafter fun found hid => ?_
  cases found with
  | none => exact fun row h => by cases h
  | some row =>
    intro row' h
    cases h
    exact ⟨hid, rfl⟩

theorem lockWalletByUserId_ordered (userId : Uuid) :
    (lockWalletByUserId userId).Keeps ordered
      (fun r held' => ∀ row, r = .ok row → held' = [row.id]) [] := by
  refine ordered_step (o := .walletFindUnique userId) trivial fun found _ => ?_
  cases found with
  | none => exact fun row h => by cases h
  | some wallet =>
    refine (lockWalletById_ordered (by simp [hold])).mono fun r held' h row hrow => ?_
    obtain ⟨hid, rfl⟩ := h row hrow
    rw [hid]
    rfl

/-- A balance and an entry, under a lock that is held. -/
theorem book_ordered {row : Wallet} {newBalance : Int} {d : NewLedgerEntry} {f : Wallet → LedgerEntry → β}
    (hrow : row.id ∈ held) (hd : d.walletId = row.id) :
    (((issue (.walletUpdate row.id newBalance)).bind fun updated =>
      (issue (.ledgerEntryCreate d)).bind fun entry => .done (f updated entry)) : Service β).Keeps
      ordered (fun _ _ => True) held :=
  ordered_issue hrow (fun _ _ => ordered_issue (o := .ledgerEntryCreate d)
    (show d.walletId ∈ held from hd ▸ hrow) (fun _ _ => trivial) fun _ => trivial) fun _ => trivial

theorem deposit_ordered (userId : Uuid) (dto : DepositDto) :
    (deposit userId dto).Keeps ordered Freed [] := by
  refine ordered_issue (o := .randomUUID) rfl (fun referenceId _ => transaction_ordered ?_) fun _ => rfl
  refine Prog.Keeps.seq (lockWalletByUserId_ordered userId) (fun wallet held h => ?_)
    fun _ _ _ => trivial
  obtain rfl := h wallet rfl
  exact book_ordered (List.mem_singleton.mpr rfl) rfl

theorem purchaseDeduct_ordered (userId : Uuid) (amount : Int) (referenceId : String) :
    (purchaseDeduct userId amount referenceId).Keeps ordered Freed [] := by
  refine transaction_ordered ?_
  refine Prog.Keeps.seq (lockWalletByUserId_ordered userId) (fun wallet held h => ?_)
    fun _ _ _ => trivial
  obtain rfl := h wallet rfl
  refine ordered_issue (o := .ledgerEntryFindUnique wallet.id referenceId .PURCHASE) trivial
    (fun found _ => ?_) fun _ => trivial
  cases found with
  | some existing => trivial
  | none =>
    dsimp only
    split
    · trivial
    · exact book_ordered (List.mem_singleton.mpr rfl) rfl

/-- The updates need not follow the order of the locks: both rows are held. -/
theorem moveFunds_ordered {sender receiver : Wallet} (amount : Int) (key : String)
    (hsender : sender.id ∈ held) (hreceiver : receiver.id ∈ held) :
    (moveFunds sender receiver amount key).Keeps ordered (fun _ _ => True) held := by
  unfold moveFunds
  split
  · trivial
  refine ordered_issue (o := .walletUpdate sender.id _) hsender (fun _ _ => ?_) fun _ => trivial
  refine ordered_issue (o := .walletUpdate receiver.id _) hreceiver (fun _ _ => ?_) fun _ => trivial
  refine ordered_issue (o := .ledgerEntryCreate _) hsender (fun _ _ => ?_) fun _ => trivial
  exact ordered_issue (o := .ledgerEntryCreate _) hreceiver (fun _ _ => trivial) fun _ => trivial

/-- `sort` sorts. -/
theorem sort_le (a b : Uuid) : (sort a b).1.text ≤ (sort a b).2.text := by
  unfold sort
  split
  · rename_i hlt
    exact le_of_lt hlt
  · rename_i hlt
    exact not_lt.mp hlt

theorem transferTx_ordered (userId : Uuid) (dto : TransferDto) :
    (transferTx userId dto).Keeps ordered (fun _ _ => True) [] := by
  refine ordered_issue (o := .walletFindUnique userId) trivial (fun senderRef _ => ?_)
    fun _ => trivial
  refine ordered_issue (o := .walletFindUnique dto.toUserId) trivial (fun receiverRef _ => ?_)
    fun _ => trivial
  cases senderRef with
  | none => trivial
  | some senderRef =>
  cases receiverRef with
  | none => trivial
  | some receiverRef =>
  refine ordered_issue (o := .ledgerEntryFindUnique senderRef.id dto.idempotencyKey .TRANSFER_OUT)
    trivial (fun found _ => ?_) fun _ => trivial
  cases found with
  | some existingOut => trivial
  | none =>
    dsimp only
    have hle := sort_le senderRef.id receiverRef.id
    generalize sort senderRef.id receiverRef.id = sorted at hle ⊢
    obtain ⟨firstId, secondId⟩ := sorted
    refine Prog.Keeps.seq (lockWalletById_ordered fun _ hid => absurd hid List.not_mem_nil)
      (fun first held h => ?_) fun _ _ _ => trivial
    obtain ⟨hfirst, rfl⟩ := h first rfl
    refine Prog.Keeps.seq (lockWalletById_ordered ?_) (fun second held h => ?_)
      fun _ _ _ => trivial
    · intro id' hid'
      exact List.mem_singleton.mp hid' ▸ hle
    · obtain ⟨hsecond, rfl⟩ := h second rfl
      -- whichever of the two rows is the sender's, it is held
      exact moveFunds_ordered _ _ (by split <;> simp [hfirst, hsecond])
        (by split <;> simp [hfirst, hsecond])

theorem transfer_ordered (userId : Uuid) (dto : TransferDto) :
    (transfer userId dto).Keeps ordered Freed [] := by
  unfold transfer
  split
  · rfl
  refine ordered_issue (o := .redisGet _) trivial (fun found _ => ?_) fun _ => rfl
  cases found with
  | some cached => rfl
  | none =>
    refine Prog.Keeps.seq (transaction_ordered (transferTx_ordered userId dto))
      (fun v held h => ?_) fun _ _ h => h
    obtain rfl := h
    exact ordered_issue (o := .redisSet _ v) trivial (fun _ _ => rfl) fun _ => rfl

end WalletService

/-! ## `FlashSaleService`: no lock but the wallet's -/

namespace FlashSaleService

/-- The statement needs no row lock. -/
abbrev Lockless (o : Stmt) : Prop := o.wants? = none

theorem confirm_lockless (userId : Uuid) (dto : PurchaseFlashSaleDto) (orderId : Uuid) :
    (confirm userId dto orderId).Uses Lockless := by
  refine Prog.uses_bind (finalizeOrder_uses Lockless rfl rfl rfl) fun order => ?_
  split
  · exact Prog.uses_bind (Prog.uses_attempt (Prog.uses_perform rfl)) fun _ => trivial
  · trivial

theorem settle_ordered (userId : Uuid) (dto : PurchaseFlashSaleDto) (price : Money) :
    (settle userId dto price).Keeps ordered Freed [] := by
  refine ordered_issue (o := .randomUUID) rfl (fun orderId _ => ?_) fun _ => rfl
  refine (WalletService.purchaseDeduct_ordered userId price.toDecimal _).recover fun r held h => ?_
  obtain rfl := h
  cases r with
  | error err =>
    exact ordered_of_uses (compensate_uses Lockless (fun _ => rfl) rfl (fun _ _ => rfl) err)
  | ok booked => exact ordered_of_uses (confirm_lockless userId dto orderId)

theorem purchase_ordered (userId : Uuid) (dto : PurchaseFlashSaleDto) :
    (purchase userId dto).Keeps ordered Freed [] := by
  refine ordered_issue (o := .orderFindUnique _ _) trivial (fun found _ => ?_) fun _ => rfl
  cases found with
  | some existing => rfl
  | none =>
  refine ordered_issue (o := .flashSaleEventFindUnique dto.eventId) trivial (fun found _ => ?_)
    fun _ => rfl
  cases found with
  | none => rfl
  | some found =>
  obtain ⟨event, product⟩ := found
  refine ordered_issue (o := .now) trivial (fun now _ => ?_) fun _ => rfl
  split
  · rfl
  refine ordered_issue (o := .reserveUnit dto.eventId) trivial (fun reserved _ => ?_) fun _ => rfl
  split
  · exact settle_ordered userId dto product.price
  · refine ordered_of_uses (Prog.uses_bind (poll_uses Lockless rfl rfl 5) fun found => ?_)
    cases found <;> trivial

theorem createEvent_ordered (dto : CreateFlashSaleEventDto) :
    (createEvent dto).Keeps ordered Freed [] := by
  refine ordered_of_uses (uses_issue (o := .productFindUnique dto.productId) rfl fun found => ?_)
  cases found with
  | none => trivial
  | some product => exact Prog.uses_perform (S := sql) (o := .flashSaleEventCreate ..) rfl

end FlashSaleService

/-- **Every handler takes its locks in order**, and holds none when it has ended. -/
theorem handler_ordered (req : Request) : req.handler.Keeps ordered Freed [] := by
  have hfinish : ∀ {α : Type} {p : Service α} {f : α → Response}, p.Keeps ordered Freed [] →
      (f <$> p).Keeps ordered Freed [] :=
    fun h => h.seq (fun _ _ h => h) fun _ _ h => h
  cases req with
  | provisionWallet userId =>
    exact ordered_of_uses (Prog.uses_bind (uses_issue (o := .walletCreate userId 0) rfl fun _ => trivial)
      fun _ => trivial)
  | deposit userId dto => exact hfinish (WalletService.deposit_ordered userId dto)
  | purchaseDeduct userId amount referenceId =>
    exact hfinish (WalletService.purchaseDeduct_ordered userId amount referenceId)
  | transfer userId dto => exact hfinish (WalletService.transfer_ordered userId dto)
  | createEvent dto => exact hfinish (FlashSaleService.createEvent_ordered dto)
  | purchase userId dto => exact hfinish (FlashSaleService.purchase_ordered userId dto)

/-! ## Soundness -/

/-- A call's books name the rows it holds, and a call that was cut off holds none. -/
structure Holds (w : World) (i : Nat) (call : ServiceCall) (held : List Uuid) : Prop where
  rows : ∀ id, w.holder id = some i ↔ id ∈ held
  crashed : call.crashed = true → held = []

/-- The books of all calls. A row is held by a call that has arrived. -/
structure Held (c : State) (hs : List (List Uuid)) : Prop where
  books : Platform.Matched (Holds c.world) c.calls hs
  beyond : ∀ i, c.calls.length ≤ i → ∀ id, c.world.holder id ≠ some i

theorem World.release_frees (w : World) (i : Nat) (id : Uuid) : (w.release i).holder id ≠ some i := by
  unfold release
  simp only
  split
  · exact fun h => by cases h
  · assumption

/-- What a call holds after its own statement. -/
theorem World.Served.held {i : Nat} {w w' : World} {o : Stmt} {r : Except Err o.Reply} {held : List Uuid}
    (hs : Served i w o r w') (hpre : orderedPre o held) (h : ∀ id, w.holder id = some i ↔ id ∈ held)
    (id : Uuid) : w'.holder id = some i ↔ id ∈ hold o r held := by
  have hlock : ∀ {id' : Uuid}, (w.lock i id').holder id = some i ↔ id = id' ∨ id ∈ held := by
    intro id'
    simp only [lock]
    split
    · rename_i heq
      simp [heq]
    · rename_i hne
      simp [hne, h id]
  -- a row that is locked again was held before
  have hrelock : ∀ {id' : Uuid}, id' ∈ held → ((w.lock i id').holder id = some i ↔ id ∈ held) := by
    intro id' hmem
    rw [hlock]
    exact or_iff_right_of_imp fun heq => heq ▸ hmem
  cases hs with
  | locked id' row free found =>
    rw [hlock]
    exact List.mem_cons.symm
  | updated => exact hrelock hpre
  | entered => exact hrelock hpre
  | committed | commitFailed | rolledBack => exact iff_of_false (release_frees _ i id) List.not_mem_nil
  | read _ v answer => cases o <;> first | exact h id | cases answer
  | failed _ remote open' =>
    cases o with
    | commit => exact absurd rfl open'
    | rollback => cases remote
    | _ => exact h id
  | refused _ e reason => cases o <;> first | exact h id | exact reason.elim
  | _ => exact h id

theorem ordered_bookkeeping (ok : State → Event → Prop) :
    Platform.Bookkeeping system ordered (fun _ => Freed) (fun _ => []) (fun _ => Held) ok
      State.initial where
  handlers _ r _ := handler_ordered r
  arrive _ c hs r _ hlen h _ := by
    refine ⟨h.books.arrive hlen ⟨fun id => ?_, fun _ => rfl⟩, fun i hi => h.beyond i ?_⟩
    · exact iff_of_false (h.beyond _ le_rfl id) List.not_mem_nil
    · simp only [Platform.arrive, List.length_append, List.length_singleton] at hi
      exact Nat.le_of_succ_le hi
  exec tr c hs i r o k held x reply w hrun hlen h _ hi hg hpre hexec := by
    have hserved := World.Served.of_exec hexec
    have hrely : ∀ j, j ≠ i → c.world.Rely j w := fun j hij =>
      .served (Reachable.worldOk ⟨tr, hrun⟩) hserved hij
    refine ⟨hold o reply held, ⟨rfl, hserved.answers⟩, ?_, fun j hj id heq => ?_⟩
    · exact h.books.set (fun j _ _ hij hj => ⟨fun id => ((hrely j hij).holder id).trans (hj.rows id),
        hj.crashed⟩) ⟨hserved.held hpre (h.books i _ held hi hg).rows, fun h => Bool.noConfusion h⟩
    · simp only [List.length_set] at hj
      have hlt := (List.getElem?_eq_some_iff.mp hi).1
      exact h.beyond j hj id (((hrely j (by omega)).holder id).mp heq)
  crash tr c hs i r o k held hrun hlen h _ hi hg := by
    refine ⟨[], ?_, fun j hj id heq => ?_⟩
    · refine h.books.set (fun j _ _ hij hj => ⟨fun id => ?_, hj.crashed⟩) ⟨fun id => ?_, fun _ => rfl⟩
      · exact ((World.Rely.release hij).holder id).trans (hj.rows id)
      · exact iff_of_false (World.release_frees c.world i id) List.not_mem_nil
    · simp only [List.length_set] at hj
      have hlt := (List.getElem?_eq_some_iff.mp hi).1
      exact h.beyond j hj id (((World.Rely.release (by omega)).holder id).mp heq)
  env tr c hs e w hrun hlen h _ he := by
    refine ⟨h.books.mono fun j _ _ hj => ⟨fun id => ?_, hj.crashed⟩, fun j hj id heq => ?_⟩
    · exact ((World.Rely.env he).holder id).trans (hj.rows id)
    · exact h.beyond j hj id (((World.Rely.env (j := j) he).holder id).mp heq)

/-- **Locks are taken in order**, in every run. -/
theorem held_of_run {ok : State → Event → Prop} {tr : Trace} {c : State}
    (hrun : RunFrom State.initial ok tr c) :
    ∃ hs, Held c hs ∧ Platform.Aligned ordered (fun _ => Freed) c.calls hs :=
  (ordered_bookkeeping ok).sound
    ⟨.nil, fun _ _ => by simp [State.initial, World.initial]⟩ .nil hrun

end FlashWallet
