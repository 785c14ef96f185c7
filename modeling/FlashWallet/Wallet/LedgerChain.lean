import FlashWallet.Proof.Runs

/-!
# The ledger is a chain

Each wallet's entries, in commit order, carry the running sums of their amounts; the last is the
stored balance, none is negative, and `version` counts them. The argument is the bank's: the
service refines it, and nothing that happens to a bank unsettles it.
-/

set_option autoImplicit false

namespace FlashWallet

open Lib

/-- **The ledger chain invariant**, in every state any run reaches: whatever fails, dies or is
forgotten, and whatever amount `purchaseDeduct` is asked for. -/
theorem ledger_chain {c : State} (h : Reachable anyStep c) {row : Wallet}
    (hrow : row ∈ c.world.wallets) :
    (∀ n (hn : n < (listing c.world.ledger row.id).length),
      (listing c.world.ledger row.id)[n].balanceAfter.cents =
        sumAmounts ((listing c.world.ledger row.id).take (n + 1))) ∧
    (∀ e ∈ listing c.world.ledger row.id, 0 ≤ e.balanceAfter.cents) ∧
    row.balance.cents =
      ((listing c.world.ledger row.id).getLast?.map fun e => e.balanceAfter.cents).getD 0 ∧
    row.version = (listing c.world.ledger row.id).length := by
  obtain ⟨tr, hrun⟩ := h
  obtain ⟨bs, hkept, -⟩ := kept_of_run hrun
  have hsettled := hkept.bank.settled row hrow
  have hlast : _ = sumAmounts (listing c.world.ledger row.id) := hsettled.chained.last
  exact ⟨hsettled.chained, hsettled.nonneg, hsettled.balance.trans hlast.symm, hsettled.version⟩

section

open Sample

/-- Alice registers, deposits, and sends Bob half of it. -/
def paidBob : List Event :=
  register 0 alice aliceWallet ++ register 1 bob bobWallet ++ fund 2 alice id₁ ++
    [.arrive (.transfer alice toBob)] ++ runs 3 12

set_option maxRecDepth 4000 in
theorem ledger_chain_paidBob :
    aliceHalf ∈ (stateAfter State.initial paidBob).world.wallets ∧
      aliceHalf.version =
        (listing (stateAfter State.initial paidBob).world.ledger aliceWallet).length :=
  have hrow : aliceHalf ∈ (stateAfter State.initial paidBob).world.wallets := by decide
  ⟨hrow, (ledger_chain (reachable_stateAfter paidBob (by decide)) hrow).2.2.2⟩

end

end FlashWallet
