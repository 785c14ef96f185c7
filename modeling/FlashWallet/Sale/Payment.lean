import FlashWallet.Proof.Debits
import FlashWallet.Proof.Runs

/-!
# Goods are paid for

Custody says that a confirmed order's payment is in the ledger. What is added here is the amount,
which takes that nobody but `purchase` debits a wallet for a purchase, and that one payment never
pays for two orders, which takes that the reference can be read back.
-/

set_option autoImplicit false

namespace FlashWallet

open Lib

/-- Entry `e` pays for order `o`: the price, out of the wallet of the order's user. -/
structure World.Pays (w : World) (e : LedgerEntry) (o : Order) : Prop where
  booked : e ∈ w.ledger
  type : e.type = .PURCHASE
  reference : e.referenceId =
    FlashSaleService.walletReferenceId o.flashSaleEventId o.idempotencyKey
  wallet : w.Owns e.walletId o.userId
  priced : ∃ p, w.Priced o.flashSaleEventId p
  amount : ∀ p, w.Priced o.flashSaleEventId p → e.amount.cents = -p.cents

/-- **No goods without payment.** In every state any run reaches, whatever dies or fails on the
way: every confirmed order is paid for at its event's price out of its user's wallet, no entry
pays for two of them, and prices never change. -/
theorem confirmed_paid {c : State} (h : Reachable viaApi c) :
    (∀ o ∈ c.world.orders, o.status = .CONFIRMED → ∃ e, c.world.Pays e o) ∧
    (∀ o ∈ c.world.orders, ∀ o' ∈ c.world.orders, ∀ e, c.world.Pays e o → c.world.Pays e o' → o = o') ∧
    (∀ ok tr c', RunFrom c ok tr c' → ∀ e p p', c.world.Priced e p → c'.world.Priced e p' → p' = p) := by
  have hworld := h.worldOk
  refine ⟨fun o ho hstatus => ?_, fun o ho o' ho' e hpays hpays' => ?_,
    fun ok tr c' hrun e p p' hp hp' => ?_⟩
  · obtain ⟨tr, hrun⟩ := h
    obtain ⟨bs, hkept, -⟩ := kept_of_run hrun
    obtain ⟨e, he, htype, href, howns⟩ := hkept.orders o ho hstatus
    obtain ⟨userId, dto, p, -, -, hprice, hamount, href'⟩ :=
      purchase_entry (fun _ _ h => h) hrun he htype
    obtain ⟨hevent, -⟩ := FlashSaleService.walletReferenceId_inj (href.symm.trans href')
    rw [← hevent] at hprice
    exact ⟨e, he, htype, href, howns, ⟨p, hprice⟩,
      fun p' hp' => by rw [hworld.price_unique hp' hprice]; exact hamount⟩
  · obtain ⟨hevent, hkey⟩ :=
      FlashSaleService.walletReferenceId_inj (hpays.reference.symm.trans hpays'.reference)
    exact hworld.order_ext ho ho' (Prod.ext hevent hkey)
  · exact (worldOk_of_run hworld hrun).price_unique hp' ((evolves_of_run hrun).1.priced e p hp)

section

open Sample

set_option maxRecDepth 4000 in
theorem confirmed_paid_bought :
    aliceOrder ∈ (stateAfter State.initial bought).world.orders ∧
      ∃ e, (stateAfter State.initial bought).world.Pays e aliceOrder :=
  have hrun := run_stateAfter (fun _ l => !l.isBareDebit) State.initial bought (by decide)
  have horder : aliceOrder ∈ (stateAfter State.initial bought).world.orders := by decide
  ⟨horder, (confirmed_paid ⟨_, hrun.mono fun _ _ h => by simpa [viaApi] using h⟩).1 aliceOrder
    horder rfl⟩

end

end FlashWallet
