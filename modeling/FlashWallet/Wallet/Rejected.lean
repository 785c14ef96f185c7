import FlashWallet.Proof.WalletCalls

/-!
# A transfer that rejects

A transfer spans two stores, and commits in the first before it writes to the second. Every step that can
fail before the commit leaves wallets and ledger as they were; the one behind it does not.
-/

set_option autoImplicit false

namespace FlashWallet

open Lib

/-- Entries that have been posted are in the ledger. -/
theorem Posted.ledger_ne {w w' : World} {req : Request} (h : Posted w w' req) : w'.ledger ≠ w.ledger := by
  obtain ⟨es, hexactly, hbank⟩ := h
  have hledger : w'.ledger = w.ledger ++ es := congrArg Bank.ledger hbank
  intro hsame
  exact hexactly.some (List.self_eq_append_right.mp (hsame.symm.trans hledger))

/-- **A transfer that rejects has changed nothing, unless it is its write to Redis that has failed.** By
then, as the twelfth statement, the money has been moved. -/
theorem rejected_transfer {c c' : State} {userId : Uuid} {dto : TransferDto} {xs : List Choice} {e : Err}
    (fresh : c.world.tx c.calls.length = .empty) (h : Alone c (.transfer userId dto) xs (.error e) c') :
    (c'.world.wallets = c.world.wallets ∧ c'.world.ledger = c.world.ledger) ↔ xs[11]? ≠ some .fault := by
  have hfeed : (Response.transferred <$> WalletService.transfer userId dto).feed (World.exec c.calls.length) xs
      c.world = some (.error e, c'.world) := h.feed
  obtain ⟨_, _, _, _, rfl, -, hdone⟩ | ⟨_, hr, htransfer⟩ := Prog.feed_bind hfeed
  · cases (Prog.feed_done hdone).1
  cases hr
  rcases WalletService.transfer_posts fresh htransfer with ⟨hsame, hnone, -⟩ | ⟨hposted, hfault⟩
  · refine iff_of_true ⟨congrArg Bank.wallets hsame, congrArg Bank.ledger hsame⟩ ?_
    rw [hnone _ rfl]
    exact nofun
  · refine iff_of_false (fun hsame => hposted.ledger_ne hsame.2) ?_
    exact not_not_intro (hfault _ rfl)

section

open Sample

/-- Alice has ten units of money, and Bob a wallet. -/
def beforeRent : State :=
  stateAfter State.initial (register 0 alice aliceWallet ++ register 1 bob bobWallet ++ fund 2 alice id₁)

/-- Alice sends Bob five units. -/
def fiveToBob : TransferDto := toBob

/-- Where the transfer leads when it takes all the steps. -/
def afterRent (xs : List Choice) : State :=
  stateAfter (system.arrive beforeRent (.transfer alice fiveToBob)) (xs.map (.exec 3))

/-- The transfer commits, and Redis is not there when the answer is to be kept. -/
def unkept : List Choice := List.replicate 11 .ok ++ [.fault]

/-- The second entry cannot be written. -/
def halfWritten : List Choice := List.replicate 9 .ok ++ [.fault, .ok]

set_option maxRecDepth 8000 in
/-- A transfer cut off between its two entries leaves no trace. -/
theorem rejected_transfer_halfWritten :
    (afterRent halfWritten).world.wallets = beforeRent.world.wallets ∧
      (afterRent halfWritten).world.ledger = beforeRent.world.ledger :=
  (rejected_transfer rfl (.of_isSome (r := .error .unavailable) (by decide) (by decide) rfl)).mpr (by decide)

set_option maxRecDepth 8000 in
/-- Alice is told that Redis is down, and has paid. -/
theorem not_unchanged_unkept :
    Alone beforeRent (.transfer alice fiveToBob) unkept (.error .unavailable) (afterRent unkept) ∧
      aliceHalf ∈ (afterRent unkept).world.wallets ∧ aliceHalf ∉ beforeRent.world.wallets ∧
      (afterRent unkept).world.ledger.length = beforeRent.world.ledger.length + 2 :=
  ⟨.of_isSome (by decide) (by decide) rfl, by decide, by decide, by decide⟩

end

end FlashWallet
