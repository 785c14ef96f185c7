import FlashWallet.Proof.Engine

/-!
# A transaction nobody disturbs

What `Served` is for a statement among others, `Draft` is for a call that has the rows it needs: which
rows call `i` holds and what it has buffered, over a database that is still the one the transaction
began with. Each lemma is one statement **forwards**: it is answered, so, and the draft grows by that.
-/

set_option autoImplicit false

namespace FlashWallet

open Lib

/-- Call `i` holds the rows `ids` and has buffered writes and entries; nothing is committed since
`w₀`. -/
structure Draft (w₀ w : World) (i : Nat) (ids : List Uuid) (writes : List (Uuid × Money))
    (entries : List LedgerEntry) : Prop where
  wallets : w.wallets = w₀.wallets
  ledger : w.ledger = w₀.ledger
  held : ∀ id ∈ ids, w.holder id = some i
  tx : w.tx i = ⟨writes, entries⟩

/-- A lock that could be taken still can after the call has taken another. -/
theorem World.canLock_lock {w : World} {i : Nat} {id id' : Uuid} (free : w.canLock i id' = true) :
    (w.lock i id).canLock i id' = true := by
  by_cases hid : id' = id
  · simp [canLock, lock, hid]
  · simpa [canLock, lock, hid] using free

namespace Draft

variable {w₀ w : World} {i : Nat} {ids : List Uuid} {writes : List (Uuid × Money)}
  {entries : List LedgerEntry}

/-- A transaction that has done nothing. -/
theorem start (htx : w.tx i = .empty) : Draft w w i [] [] [] :=
  ⟨rfl, rfl, by simp, htx⟩

theorem wallet? (h : Draft w₀ w i ids writes entries) (id : Uuid) : w.wallet? id = w₀.wallet? id := by
  rw [World.wallet?, h.wallets, World.wallet?]

theorem canLock (h : Draft w₀ w i ids writes entries) {id : Uuid} (hid : id ∈ ids) : w.canLock i id = true := by
  simp [World.canLock, h.held id hid]

/-- Buffering more keeps the rows. -/
theorem buffer (h : Draft w₀ w i ids writes entries) {id : Uuid} (free : w.canLock i id = true) (t : Tx) :
    Draft w₀ ((w.lock i id).setTx i t) i ids t.writes t.entries where
  wallets := h.wallets
  ledger := h.ledger
  held _ hid' := World.lock_holder free (h.held _ hid')
  tx := World.setTx_self _ _ _

theorem lock (h : Draft w₀ w i ids writes entries) {row : Wallet} (free : w.canLock i row.id = true)
    (found : w₀.wallet? row.id = some row) :
    w.serve i (.walletForUpdate row.id) = some (.ok (some row), w.lock i row.id) ∧
      Draft w₀ (w.lock i row.id) i (row.id :: ids) writes entries := by
  refine ⟨by simp [World.serve, World.walletForUpdate, free, h.wallet?, found], ?_⟩
  exact { wallets := h.wallets, ledger := h.ledger, tx := h.tx
          held := fun id hid => by
            rcases List.mem_cons.mp hid with rfl | hid
            · exact World.lock_holder_self w i row.id
            · exact World.lock_holder free (h.held id hid) }

theorem update (h : Draft w₀ w i ids writes entries) {row : Wallet} {balance : Int} {m : Money}
    (hid : row.id ∈ ids) (found : w₀.wallet? row.id = some row)
    (fits : Money.ofDecimal? balance = some m) :
    ∃ (v : Wallet) (w' : World), w.serve i (.walletUpdate row.id balance) = some (.ok v, w') ∧
      Draft w₀ w' i ids (writes ++ [(row.id, m)]) entries := by
  have free := h.canLock hid
  refine ⟨{ row with balance := m, version := row.version + 1 }, _, ?_, h.buffer free ⟨_, _⟩⟩
  simp only [World.serve, World.walletUpdate, if_pos free, h.wallet?, found, fits, h.tx]
  rfl

theorem enter (h : Draft w₀ w i ids writes entries) {d : NewLedgerEntry} {row : Wallet} {amount after : Money}
    (hid : d.walletId ∈ ids) (found : w₀.wallet? d.walletId = some row)
    (hamount : Money.ofDecimal? d.amount = some amount)
    (hafter : Money.ofDecimal? d.balanceAfter = some after)
    (unique : ∀ e ∈ w₀.ledger ++ entries, e.key ≠ (d.walletId, d.referenceId, d.type)) :
    ∃ (e : LedgerEntry) (w' : World), w.serve i (.ledgerEntryCreate d) = some (.ok e, w') ∧
      e.key = (d.walletId, d.referenceId, d.type) ∧ e.amount = amount ∧
      Draft w₀ w' i ids writes (entries ++ [e]) := by
  have free := h.canLock hid
  refine ⟨⟨d.walletId, d.type, amount, after, d.referenceId, w.clock⟩, _, ?_, rfl, rfl,
    h.buffer free ⟨_, _⟩⟩
  have hnew : (d.walletId, d.referenceId, d.type) ∉
      (w.ledger ++ (w.tx i).entries).map LedgerEntry.key := by
    rw [h.ledger, h.tx, List.mem_map]
    rintro ⟨e, he, hkey⟩
    exact unique e he hkey
  simp only [World.serve, World.ledgerEntryCreate, if_pos free, h.wallet?, found, hamount, hafter]
  rw [if_neg (show LedgerEntry.key _ ∉ _ from hnew), h.tx]
  rfl

/-- The unique index at work. -/
theorem clash (h : Draft w₀ w i ids writes entries) {d : NewLedgerEntry} {row : Wallet} {amount after : Money}
    (hid : d.walletId ∈ ids) (found : w₀.wallet? d.walletId = some row)
    (hamount : Money.ofDecimal? d.amount = some amount)
    (hafter : Money.ofDecimal? d.balanceAfter = some after)
    {e : LedgerEntry} (he : e ∈ w₀.ledger) (hkey : e.key = (d.walletId, d.referenceId, d.type)) :
    w.serve i (.ledgerEntryCreate d) = some (.error .uniqueViolation, w) := by
  have hold : (d.walletId, d.referenceId, d.type) ∈
      (w.ledger ++ (w.tx i).entries).map LedgerEntry.key :=
    List.mem_map.mpr ⟨e, List.mem_append_left _ (h.ledger ▸ he), hkey⟩
  simp only [World.serve, World.ledgerEntryCreate, if_pos (h.canLock hid), h.wallet?, found, hamount,
    hafter]
  exact if_pos hold

/-! ## The commit -/

theorem commit_wallets (h : Draft w₀ w i ids writes entries) :
    (w.commit i).wallets = writes.foldl World.writeBalance w₀.wallets := by
  show (w.tx i).writes.foldl World.writeBalance w.wallets = _
  rw [h.tx, h.wallets]

theorem commit_ledger (h : Draft w₀ w i ids writes entries) : (w.commit i).ledger = w₀.ledger ++ entries := by
  show w.ledger ++ (w.tx i).entries = _
  rw [h.tx, h.ledger]

end Draft

/-- A user's row after a balance has been written. -/
theorem World.find_writeBalance (wallets : List Wallet) (write : Uuid × Money) (userId : Uuid) :
    (writeBalance wallets write).find? (·.userId = userId) =
      (wallets.find? (·.userId = userId)).map fun row =>
        if row.id = write.1 then { row with balance := write.2, version := row.version + 1 }
        else row := by
  have huser : ∀ row : Wallet, (if row.id = write.1 then
      { row with balance := write.2, version := row.version + 1 } else row).userId = row.userId :=
    fun row => by split <;> rfl
  simp only [writeBalance, List.find?_map, Function.comp_def, huser]

end FlashWallet
