import FlashWallet.Proof.Moves

/-!
# The order of the ledger and its dates

An entry is dated when it is written, and in the ledger when its transaction commits. Within one wallet the two
orders agree: who writes holds the row, and keeps it to the commit.
-/

set_option autoImplicit false

namespace FlashWallet

open Lib

/-- Nothing is dated in the future, and what a wallet has in the ledger, or is about to have, is in the order of
its dates. -/
structure World.Dated (w : World) : Prop where
  past : ∀ i, ∀ e ∈ w.ledger ++ (w.tx i).entries, e.createdAt ≤ w.clock
  ordered : ∀ i, (w.ledger ++ (w.tx i).entries).Pairwise fun e e' =>
    e.walletId = e'.walletId → e.createdAt ≤ e'.createdAt

namespace World.Dated

variable {w w' : World} {i : Nat}

theorem initial : World.initial.Dated where
  past _ _ he := by simp [World.initial, Tx.empty] at he
  ordered _ := by simp [World.initial, Tx.empty]

theorem of_same (h : w.Dated) (hledger : w'.ledger = w.ledger) (htx : ∀ j, (w'.tx j).entries = (w.tx j).entries)
    (hclock : w.clock ≤ w'.clock) : w'.Dated where
  past j e he := (h.past j e (by rwa [hledger, htx] at he)).trans hclock
  ordered j := by
    rw [hledger, htx]
    exact h.ordered j

theorem release (h : w.Dated) (i : Nat) : (w.release i).Dated := by
  -- what a transaction has written is thrown away, and the rest stays
  have hsub : ∀ j, ((w.release i).ledger ++ ((w.release i).tx j).entries).Sublist (w.ledger ++ (w.tx j).entries) := by
    intro j
    by_cases hj : j = i
    · subst hj
      rw [World.release_tx_self, World.release_ledger]
      exact List.Sublist.append_left (List.nil_sublist _) _
    · rw [World.release_tx_other w hj, World.release_ledger]
  exact ⟨fun j e he => h.past j e ((hsub j).subset he), fun j => (h.ordered j).sublist (hsub j)⟩

theorem commit (h : w.Dated) (hw : w.Ok) (i : Nat) : (w.commit i).Dated := by
  have hposted : ∀ j, j ≠ i → (w.ledger ++ (w.tx i).entries ++ (w.tx j).entries).Pairwise fun e e' =>
      e.walletId = e'.walletId → e.createdAt ≤ e'.createdAt := by
    intro j hj
    have hi := h.ordered i
    have hj' := List.pairwise_append.mp (h.ordered j)
    refine List.pairwise_append.mpr ⟨hi, hj'.2.1, fun e he e' he' hwallet => ?_⟩
    rcases List.mem_append.mp he with he | he
    · exact hj'.2.2 e he e' he' hwallet
    · -- two open transactions never write to one wallet
      have hholder := hw.entriesLocked i e he
      rw [hwallet, hw.entriesLocked j e' he'] at hholder
      exact absurd (Option.some.inj hholder) hj
  constructor
  · intro j e he
    have he : e ∈ w.ledger ++ (w.tx i).entries ++ ((w.release i).tx j).entries := he
    rcases List.mem_append.mp he with he | he
    · exact h.past i e he
    · exact (h.release i).past j e (List.mem_append_right _ he)
  · intro j
    show (w.ledger ++ (w.tx i).entries ++ ((w.release i).tx j).entries).Pairwise _
    by_cases hj : j = i
    · subst hj
      rw [World.release_tx_self, Tx.empty, List.append_nil]
      exact h.ordered j
    · rw [World.release_tx_other w hj]
      exact hposted j hj

/-- An entry has the date of its writing. -/
theorem createdAt_of_exec {d : NewLedgerEntry} {x : Choice} {e : LedgerEntry}
    (h : World.exec i (.ledgerEntryCreate d) x w = some (.ok e, w')) : e.createdAt = w.clock := by
  cases x with
  | ok =>
    change w.ledgerEntryCreate i d = _ at h
    simp only [World.ledgerEntryCreate] at h
    split at h
    · split at h
      · cases h
      · split at h
        · cases h
        · cases h
          rfl
      · cases h
    · cases h
  | fault => cases h
  | lose => cases h
  | fresh id =>
    simp only [World.exec] at h
    split at h <;> cases h

theorem exec {o : Stmt} {x : Choice} {r : Except Err o.Reply} (h : w.Dated) (hw : w.Ok)
    (hexec : World.exec i o x w = some (r, w')) : w'.Dated := by
  have hs := World.Served.of_exec hexec
  cases hs with
  | committed => exact h.commit hw i
  | commitFailed | rolledBack => exact h.release i
  | updated id balance row m free found fits =>
    refine h.of_same rfl (fun j => ?_) le_rfl
    by_cases hj : j = i
    · subst hj
      rw [World.setTx_self]
    · rw [World.setTx_other _ _ hj, World.lock_tx]
  | entered d e row free found amount balanceAfter key unique =>
    have hdate := createdAt_of_exec hexec
    have hwritten : ∀ j,
        (((w.lock i d.walletId).setTx i { w.tx i with entries := (w.tx i).entries ++ [e] }).tx j).entries =
        (w.tx j).entries ++ if j = i then [e] else [] := by
      intro j
      by_cases hj : j = i
      · subst hj
        rw [World.setTx_self, if_pos rfl]
      · rw [World.setTx_other _ _ hj, World.lock_tx, if_neg hj, List.append_nil]
    have hpast : ∀ j, ∀ e' ∈ if j = i then [e] else [], e'.createdAt = w.clock := by
      intro j e' he'
      split at he'
      · obtain rfl := List.mem_singleton.mp he'
        exact hdate
      · cases he'
    constructor
    · intro j e' he'
      rw [hwritten, World.setTx_ledger, World.lock_ledger, ← List.append_assoc] at he'
      rcases List.mem_append.mp he' with he' | he'
      · exact h.past j e' he'
      · exact (hpast j e' he').le
    · intro j
      rw [hwritten, World.setTx_ledger, World.lock_ledger, ← List.append_assoc]
      refine List.pairwise_append.mpr ⟨h.ordered j, ?_, fun e₁ he₁ e₂ he₂ _ => ?_⟩
      · split
        · exact List.pairwise_singleton _ _
        · exact List.Pairwise.nil
      · rw [hpast j e₂ he₂]
        exact h.past j e₁ he₁
  | _ => exact h.of_same rfl (fun _ => rfl) le_rfl

theorem env {e : Env} (h : w.Dated) (he : e.run w = some w') : w'.Dated := by
  cases e with
  | tick ms =>
    cases he
    exact h.of_same rfl (fun _ => rfl) (Nat.le_add_right _ _)
  | evict key =>
    cases he
    exact h.of_same rfl (fun _ => rfl) le_rfl
  | seedProduct p =>
    simp only [Env.run] at he
    split at he
    · cases he
    · cases he
      exact h.of_same rfl (fun _ => rfl) le_rfl

end World.Dated

/-- The dates are in order all along. -/
theorem dated_of_run {ok : State → Event → Prop} {tr : Trace} {c : State} (hrun : RunFrom State.initial ok tr c) :
    c.world.Dated := by
  have hboth : c.world.Ok ∧ c.world.Dated := by
    refine hrun.invariant (I := fun c => c.world.Ok ∧ c.world.Dated) ⟨.initial, .initial⟩ fun c l c' hc _ hstep => ?_
    obtain ⟨hw, hdated⟩ := hc
    cases l with
    | arrive r =>
      cases hstep
      exact ⟨hw, hdated⟩
    | exec i x =>
      obtain ⟨r, o, k, reply, w, _, hexec, rfl⟩ := system.step_exec hstep
      exact ⟨hw.served (.of_exec hexec), hdated.exec hw hexec⟩
    | crash i =>
      obtain ⟨r, o, k, _, rfl⟩ := system.step_crash hstep
      exact ⟨hw.release i, hdated.release i⟩
    | env e =>
      obtain ⟨w, hw', rfl⟩ := system.step_env hstep
      exact ⟨hw.env hw', hdated.env hw'⟩
  exact hboth.2

/-- A wallet's own entries come in the order of their dates. -/
theorem listing_dated {ok : State → Event → Prop} {tr : Trace} {c : State} (hrun : RunFrom State.initial ok tr c)
    (id : Uuid) : (listing c.world.ledger id).Pairwise fun e e' => e.createdAt ≤ e'.createdAt := by
  have hordered := (List.pairwise_append.mp ((dated_of_run hrun).ordered 0)).1
  refine (hordered.filter _).imp_of_mem fun {e e'} he he' h => h ?_
  exact (mem_listing.mp he).2.trans (mem_listing.mp he').2.symm

end FlashWallet
