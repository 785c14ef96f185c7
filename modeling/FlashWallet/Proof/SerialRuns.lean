import FlashWallet.Lib.Finish
import FlashWallet.Proof.Draft
import FlashWallet.Proof.Exchanges

/-!
# A transaction run again, alone

What a transaction has been told in the crowd, it is told again when it runs by itself on the rows as they are at its
commit: the rules below run the body of a transaction along the replies it has had. Only the rows it looked up before
it locked them may show another balance now, and it makes nothing of that.
-/

set_option autoImplicit false

namespace FlashWallet

open Lib

/-- No transaction is open. -/
structure World.Idle (w : World) : Prop where
  holder : ∀ id, w.holder id = none
  tx : ∀ i, w.tx i = .empty

/-- The clock shows another time. -/
def Dated (w w' : World) : Prop := ∃ t, w' = { w with clock := t }

/-- The program of call `i`, run by itself: every statement is served, and the clock shows any time. -/
abbrev FinishesAlone {α : Type} (i : Nat) (p : Service α) (w : World) (a : α) (w' : World) : Prop :=
  p.Finishes (World.exec i) (· = .ok) Dated w (.ok a) w'

theorem Dated.refl (w : World) : Dated w w := ⟨w.clock, rfl⟩

theorem Dated.trans (w w₁ w₂ : World) (h : Dated w w₁) (h' : Dated w₁ w₂) : Dated w w₂ := by
  obtain ⟨t, rfl⟩ := h
  obtain ⟨t', rfl⟩ := h'
  exact ⟨t', rfl⟩

/-- Call `i` alone has a transaction open, over the rows of `w₀`. -/
structure Desk (w₀ w : World) (i : Nat) (t : Tx) : Prop where
  wallets : w.wallets = w₀.wallets
  ledger : w.ledger = w₀.ledger
  free : ∀ id, w.canLock i id = true
  others : ∀ j, j ≠ i → w.tx j = .empty
  tx : w.tx i = t

namespace Desk

variable {w₀ w : World} {i : Nat} {t : Tx}

theorem start (hidle : w.Idle) (hwallets : w.wallets = w₀.wallets) (hledger : w.ledger = w₀.ledger) :
    Desk w₀ w i .empty where
  wallets := hwallets
  ledger := hledger
  free id := by simp [World.canLock, hidle.holder id]
  others j _ := hidle.tx j
  tx := hidle.tx i

theorem dated (h : Desk w₀ w i t) (time : Nat) : Desk w₀ { w with clock := time } i t :=
  ⟨h.wallets, h.ledger, h.free, h.others, h.tx⟩

theorem wallet? (h : Desk w₀ w i t) (id : Uuid) : w.wallet? id = w₀.wallet? id := by
  rw [World.wallet?, h.wallets, World.wallet?]

theorem lock (h : Desk w₀ w i t) (id : Uuid) : Desk w₀ (w.lock i id) i t :=
  ⟨h.wallets, h.ledger, fun id' => World.canLock_lock (h.free id'), h.others, h.tx⟩

theorem setTx (h : Desk w₀ w i t) (t' : Tx) : Desk w₀ (w.setTx i t') i t' where
  wallets := h.wallets
  ledger := h.ledger
  free := h.free
  others j hj := (World.setTx_other w t' hj).trans (h.others j hj)
  tx := World.setTx_self w i t'

/-- The commit leaves no transaction open. -/
theorem commit (h : Desk w₀ w i t) : (w.commit i).Idle where
  holder id := by
    have hfree : w.holder id = none ∨ w.holder id = some i := by simpa [World.canLock] using h.free id
    rcases hfree with hid | hid <;> simp [World.commit, World.apply, World.release, World.setTx, hid]
  tx j := by
    by_cases hj : j = i
    · subst hj
      exact World.release_tx_self _ j
    · exact (World.release_tx_other _ hj).trans (h.others j hj)

end Desk

/-- Alone on the rows of `w₀`, the program answers `a`, told by then what `log'` says. -/
def Closes {α : Type} (i : Nat) (w₀ : World) (p : Service α) (log : List Exchange) (a : α)
    (log' : List Exchange) : Prop :=
  ∀ w, Desk w₀ w i (buffered log) → ∃ w', FinishesAlone i p w a w' ∧ Desk w₀ w' i (buffered log')

namespace Closes

variable {α β : Type} {i : Nat} {w₀ : World} {log log₁ log' : List Exchange} {a : α} {b : β}

theorem done (a : α) (h : log = log') : Closes i w₀ (.done a) log a log' :=
  fun w hw => ⟨w, .done a (Dated.refl w), h ▸ hw⟩

theorem bind {p : Service β} {f : β → Service α} (hp : Closes i w₀ p log b log₁)
    (hf : Closes i w₀ (f b) log₁ a log') : Closes i w₀ (p.bind f) log a log' := by
  intro w h
  obtain ⟨w₁, hfinish, h₁⟩ := hp w h
  obtain ⟨w', hrest, h'⟩ := hf w₁ h₁
  exact ⟨w', hfinish.bind Dated.trans hrest, h'⟩

/-- One statement that is answered `v`, whatever it is that is kept of it. -/
theorem issue {o : Stmt} {f : o.Reply → Service α} {v v' : o.Reply}
    (hserve : ∀ w, Desk w₀ w i (buffered log) →
      ∃ time w₁, World.exec i o .ok { w with clock := time } = some (.ok v, w₁) ∧
      Desk w₀ w₁ i (buffered (log ++ [⟨o, .ok v'⟩])))
    (hf : Closes i w₀ (f v) (log ++ [⟨o, .ok v'⟩]) a log') :
    Closes i w₀ ((FlashWallet.issue o).bind f) log a log' := by
  intro w h
  obtain ⟨time, w₁, hexec, h₁⟩ := hserve w h
  obtain ⟨w', hrest, h'⟩ := hf w₁ h₁
  exact ⟨w', .issue ⟨time, rfl⟩ rfl hexec hrest, h'⟩

/-- The wallet of a user is the same, though its balance may not be. -/
theorem find {userId : Uuid} {f : Option Wallet → Service α} {row : Wallet}
    (h : Exchange.Holds i w₀ ⟨.walletFindUnique userId, .ok (some row)⟩)
    (hf : ∀ row' : Wallet, row'.id = row.id →
      Closes i w₀ (f (some row')) (log ++ [⟨.walletFindUnique userId, .ok (some row)⟩]) a log') :
    Closes i w₀ ((FlashWallet.issue (.walletFindUnique userId)).bind f) log a log' := by
  obtain ⟨row', hrow', hid⟩ := Option.map_eq_some_iff.mp h
  refine issue (o := .walletFindUnique userId) (v := some row') (fun w hw => ⟨w.clock, w, ?_, ?_⟩) (hf row' hid)
  · rw [← hrow', World.walletOf?, ← hw.wallets]
    rfl
  · rw [buffered_concat]
    simpa [Exchange.writes, Exchange.entries] using hw

theorem lock {id : Uuid} {f : Option Wallet → Service α} {row : Wallet}
    (h : Exchange.Holds i w₀ ⟨.walletForUpdate id, .ok (some row)⟩)
    (hf : Closes i w₀ (f (some row)) (log ++ [⟨.walletForUpdate id, .ok (some row)⟩]) a log') :
    Closes i w₀ ((FlashWallet.issue (.walletForUpdate id)).bind f) log a log' := by
  refine issue (o := .walletForUpdate id) (fun w hw => ⟨w.clock, w.lock i id, ?_, ?_⟩) hf
  · simp [World.exec, World.serve, World.walletForUpdate, hw.free, hw.wallet?, h.2]
  · rw [buffered_concat]
    simpa [Exchange.writes, Exchange.entries] using hw.lock id

/-- What is found under a key, or that nothing is. -/
theorem look {walletId : Uuid} {referenceId : String} {type : LedgerType} {f : Option LedgerEntry → Service α}
    {found : Option LedgerEntry} (h : w₀.entryOf? (walletId, referenceId, type) = found)
    (hf : Closes i w₀ (f found) (log ++ [⟨.ledgerEntryFindUnique walletId referenceId type, .ok found⟩]) a log') :
    Closes i w₀ ((FlashWallet.issue (.ledgerEntryFindUnique walletId referenceId type)).bind f) log a log' := by
  refine issue (o := .ledgerEntryFindUnique walletId referenceId type) (fun w hw => ⟨w.clock, w, ?_, ?_⟩) hf
  · rw [← h, World.entryOf?, ← hw.ledger]
    rfl
  · rw [buffered_concat]
    simpa [Exchange.writes, Exchange.entries] using hw

theorem update {id : Uuid} {balance : Int} {f : Wallet → Service α} {updated : Wallet}
    (h : Exchange.Holds i w₀ ⟨.walletUpdate id balance, .ok updated⟩)
    (hf : Closes i w₀ (f updated) (log ++ [⟨.walletUpdate id balance, .ok updated⟩]) a log') :
    Closes i w₀ ((FlashWallet.issue (.walletUpdate id balance)).bind f) log a log' := by
  obtain ⟨-, row, m, hrow, hfits, rfl⟩ := h
  refine issue (o := .walletUpdate id balance) (fun w hw =>
    ⟨w.clock, (w.lock i id).setTx i ⟨(w.tx i).writes ++ [(id, m)], (w.tx i).entries⟩, ?_, ?_⟩) hf
  · simp only [World.exec, World.serve, World.walletUpdate, if_pos (hw.free id), hw.wallet?, hrow, hfits]
    rfl
  · rw [buffered_concat]
    simpa [Exchange.writes, Exchange.entries, hw.tx] using (hw.lock id).setTx _

/-- An entry is dated as it was. -/
theorem enter {d : NewLedgerEntry} {f : LedgerEntry → Service α} {e : LedgerEntry}
    (h : Exchange.Holds i w₀ ⟨.ledgerEntryCreate d, .ok e⟩) (hown : ∀ e' ∈ (buffered log).entries, e'.key ≠ e.key)
    (hf : Closes i w₀ (f e) (log ++ [⟨.ledgerEntryCreate d, .ok e⟩]) a log') :
    Closes i w₀ ((FlashWallet.issue (.ledgerEntryCreate d)).bind f) log a log' := by
  obtain ⟨-, hrow, hamount, hafter, hkey, hunique⟩ := h
  obtain ⟨row, hrow⟩ := Option.isSome_iff_exists.mp hrow
  have hentry : (⟨d.walletId, d.type, e.amount, e.balanceAfter, d.referenceId, e.createdAt⟩ : LedgerEntry) = e := by
    simp only [LedgerEntry.key, Prod.mk.injEq] at hkey
    rw [← hkey.1, ← hkey.2.1, ← hkey.2.2]
  refine issue (o := .ledgerEntryCreate d) (fun w hw => ⟨e.createdAt, (({ w with clock := e.createdAt } : World).lock i
    d.walletId).setTx i ⟨(w.tx i).writes, (w.tx i).entries ++ [e]⟩, ?_, ?_⟩) hf
  · have hnew : e.key ∉ (w.ledger ++ (w.tx i).entries).map LedgerEntry.key := by
      rw [hw.ledger, hw.tx, List.mem_map]
      rintro ⟨e', he', heq⟩
      rcases List.mem_append.mp he' with he' | he'
      · exact hunique e' he' heq
      · exact hown e' he' heq
    have hserve : ({ w with clock := e.createdAt } : World).canLock i d.walletId = true := hw.free d.walletId
    have hfound : ({ w with clock := e.createdAt } : World).wallet? d.walletId = some row :=
      (hw.wallet? d.walletId).trans hrow
    simp only [World.exec, World.serve, World.ledgerEntryCreate, if_pos hserve, hfound, hamount, hafter, hentry]
    exact if_neg hnew
  · rw [buffered_concat]
    simpa [Exchange.writes, Exchange.entries, hw.tx] using ((hw.dated e.createdAt).lock d.walletId).setTx _

end Closes

/-- Alone on the rows of `w`, the transaction answers `a` and commits what it has buffered in `w`. -/
def Replays {α : Type} (i : Nat) (w : World) (p : Service α) (a : α) : Prop :=
  ∀ v : World, v.Idle → v.wallets = w.wallets → v.ledger = w.ledger →
    ∃ v', FinishesAlone i p v a v' ∧ v'.Idle ∧ v'.wallets = (w.commit i).wallets ∧ v'.ledger = (w.commit i).ledger

theorem Closes.replays {α : Type} {i : Nat} {w : World} {body : Service α} {a : α} {log : List Exchange}
    (h : Closes i w body [] a log) (htx : w.tx i = buffered log) : Replays i w (WalletService.transaction body) a := by
  intro v hidle hwallets hledger
  obtain ⟨v₁, hbody, h₁⟩ := h v (Desk.start hidle hwallets hledger)
  refine ⟨v₁.commit i, hbody.recover Dated.trans (.issue (Dated.refl _) rfl (v := ()) rfl (.done a (Dated.refl _))),
    h₁.commit, ?_, ?_⟩
  · show (v₁.tx i).writes.foldl World.writeBalance v₁.wallets = (w.tx i).writes.foldl World.writeBalance w.wallets
    rw [h₁.tx, htx, h₁.wallets]
  · show v₁.ledger ++ (v₁.tx i).entries = w.ledger ++ (w.tx i).entries
    rw [h₁.tx, htx, h₁.ledger]

theorem Replays.map {α β : Type} {i : Nat} {w : World} {p : Service α} {a : α} (h : Replays i w p a) (f : α → β) :
    Replays i w (p.bind fun a => .done (f a)) (f a) := by
  intro v hidle hwallets hledger
  obtain ⟨v', hfinish, hrest⟩ := h v hidle hwallets hledger
  exact ⟨v', hfinish.bind Dated.trans (.done (f a) (Dated.refl v')), hrest⟩

end FlashWallet
