import FlashWallet.Lib.Journal
import FlashWallet.Proof.Evolves

/-!
# The bank: wallets and ledger as one atomic thing

What the wallet service is *for*, without statements, locks or transactions: a `Bank` is the
committed wallets with the ledger, and the only things that happen to it are that a wallet is
opened and that a **voucher** is posted. A voucher is a list of ledger entries, at most one per
wallet, each booked on its wallet's current balance and leaving it at zero or above.

`Bank.Ok` (every ledger is a chain of running balances ending in the stored balance) is kept by
both. That the interleaved service really does nothing else to its wallets and ledger is
`Custody.lean`'s theorem.
-/

set_option autoImplicit false

namespace FlashWallet

open Lib

structure Bank where
  wallets : List Wallet
  ledger : List LedgerEntry
deriving DecidableEq

/-- The committed wallets and ledger of a world. -/
def World.bank (w : World) : Bank := ⟨w.wallets, w.ledger⟩

theorem World.bank_env {e : Env} {w w' : World} (he : e.run w = some w') : w'.bank = w.bank := by
  have hsame := World.env_same he
  rw [World.bank, World.bank, hsame.wallets, hsame.ledger]

/-- A wallet's own entries, in commit order. -/
def listing (ledger : List LedgerEntry) (id : Uuid) : List LedgerEntry :=
  ledger.filter (·.walletId = id)

theorem listing_append (l l' : List LedgerEntry) (id : Uuid) :
    listing (l ++ l') id = listing l id ++ listing l' id := List.filter_append ..

theorem mem_listing {ledger : List LedgerEntry} {id : Uuid} {e : LedgerEntry} :
    e ∈ listing ledger id ↔ e ∈ ledger ∧ e.walletId = id := by
  simp [listing]

/-- Total of a list of entries, in cents. -/
abbrev sumAmounts (es : List LedgerEntry) : Int := total (fun e : LedgerEntry => e.amount.cents) es

theorem sumAmounts_append (es es' : List LedgerEntry) :
    sumAmounts (es ++ es') = sumAmounts es + sumAmounts es' := total_append es es'

namespace Bank

/-- The rows as the voucher's updates leave them, and its entries at the end of the ledger. -/
def post (b : Bank) (es : List LedgerEntry) : Bank where
  wallets := (es.map fun e => (e.walletId, e.balanceAfter)).foldl World.writeBalance b.wallets
  ledger := b.ledger ++ es

def openWallet (b : Bank) (row : Wallet) : Bank := ⟨b.wallets ++ [row], b.ledger⟩

/-- A voucher that may be posted. -/
structure Balanced (b : Bank) (es : List LedgerEntry) : Prop where
  distinct : (es.map LedgerEntry.walletId).Nodup
  booked : ∀ e ∈ es, ∃ row ∈ b.wallets, row.id = e.walletId ∧
    e.balanceAfter.cents = row.balance.cents + e.amount.cents ∧ 0 ≤ e.balanceAfter.cents

/-- What can happen to a bank. -/
inductive Step (b : Bank) : Bank → Prop where
  | idle : Step b b
  | opened (row : Wallet) (balance : row.balance.cents = 0) (version : row.version = 0)
      (fresh : ∀ row' ∈ b.wallets, row'.id ≠ row.id) (blank : listing b.ledger row.id = []) :
      Step b (b.openWallet row)
  | posted (es : List LedgerEntry) (balanced : b.Balanced es) : Step b (b.post es)

/-- A wallet row and its entries agree. -/
structure Settled (row : Wallet) (es : List LedgerEntry) : Prop where
  chained : Chained (fun e : LedgerEntry => e.amount.cents) (fun e => e.balanceAfter.cents) es
  nonneg : ∀ e ∈ es, 0 ≤ e.balanceAfter.cents
  balance : row.balance.cents = sumAmounts es
  version : row.version = es.length

/-- Row ids are unique, every row agrees with its entries, and every entry has its row. -/
structure Ok (b : Bank) : Prop where
  ids : (b.wallets.map Wallet.id).Nodup
  settled : ∀ row ∈ b.wallets, Settled row (listing b.ledger row.id)
  owned : ∀ e ∈ b.ledger, e.walletId ∈ b.wallets.map Wallet.id

theorem Settled.blank {row : Wallet} (balance : row.balance.cents = 0) (version : row.version = 0) :
    Settled row [] where
  chained := .nil
  nonneg := by simp
  balance := by simpa using balance
  version := by simpa using version

/-- Booking one entry on the current balance. -/
theorem Settled.book {row : Wallet} {es : List LedgerEntry} (h : Settled row es) {e : LedgerEntry}
    (hafter : e.balanceAfter.cents = row.balance.cents + e.amount.cents)
    (hnonneg : 0 ≤ e.balanceAfter.cents) :
    Settled { row with balance := e.balanceAfter, version := row.version + 1 } (es ++ [e]) where
  chained := h.chained.snoc (by rw [hafter, h.balance])
  nonneg e' he' := by
    rcases List.mem_append.mp he' with he' | he'
    · exact h.nonneg e' he'
    · exact List.mem_singleton.mp he' ▸ hnonneg
  balance := by
    show e.balanceAfter.cents = _
    rw [hafter, h.balance]
    simp
  version := by simp [h.version]

variable {b b' : Bank}

theorem post_cons (b : Bank) (e : LedgerEntry) (es : List LedgerEntry) :
    b.post (e :: es) = (b.post [e]).post es := by
  simp [post]

theorem post_nil (b : Bank) : b.post [] = b := by simp [post]

/-- A row of the bank after a single posting. -/
theorem mem_post_singleton {e : LedgerEntry} {row : Wallet} :
    row ∈ (b.post [e]).wallets ↔ ∃ row₀ ∈ b.wallets, row =
      if row₀.id = e.walletId then
        { row₀ with balance := e.balanceAfter, version := row₀.version + 1 }
      else row₀ := by
  simp [post, World.writeBalance, eq_comm]

/-- The rest of a voucher is still bookable after its first entry, which is about another
wallet. -/
theorem Balanced.tail {e : LedgerEntry} {es : List LedgerEntry} (h : b.Balanced (e :: es)) :
    (b.post [e]).Balanced es where
  distinct := (List.nodup_cons.mp (List.map_cons .. ▸ h.distinct)).2
  booked e' he' := by
    obtain ⟨row, hrow, hid, hafter⟩ := h.booked e' (List.mem_cons_of_mem _ he')
    have hother : row.id ≠ e.walletId := by
      rintro heq
      have hnotin := (List.nodup_cons.mp (List.map_cons .. ▸ h.distinct)).1
      exact hnotin (by rw [← heq, hid]; exact List.mem_map_of_mem he')
    exact ⟨row, mem_post_singleton.mpr ⟨row, hrow, by rw [if_neg hother]⟩, hid, hafter⟩

theorem post_singleton_ids (b : Bank) (e : LedgerEntry) :
    (b.post [e]).wallets.map Wallet.id = b.wallets.map Wallet.id :=
  World.writeBalance_map_id b.wallets (e.walletId, e.balanceAfter)

theorem Ok.post_singleton (h : b.Ok) {e : LedgerEntry} (hb : b.Balanced [e]) : (b.post [e]).Ok where
  ids := post_singleton_ids b e ▸ h.ids
  owned e' he' := by
    rw [post_singleton_ids]
    rcases List.mem_append.mp he' with he' | he'
    · exact h.owned e' he'
    · obtain rfl := List.mem_singleton.mp he'
      obtain ⟨row, hrow, hid, -⟩ := hb.booked e' List.mem_cons_self
      exact List.mem_map.mpr ⟨row, hrow, hid⟩
  settled row hrow := by
    obtain ⟨row₀, hrow₀, rfl⟩ := mem_post_singleton.mp hrow
    have hsettled := h.settled row₀ hrow₀
    by_cases hid : row₀.id = e.walletId
    · rw [if_pos hid]
      obtain ⟨row₁, hrow₁, hid₁, hafter, hnonneg⟩ := hb.booked e List.mem_cons_self
      obtain rfl := List.inj_on_of_nodup_map h.ids hrow₀ hrow₁ (hid.trans hid₁.symm)
      have hone : listing [e] row₀.id = [e] := by simp [listing, hid]
      show Settled _ (listing (b.ledger ++ [e]) row₀.id)
      rw [listing_append, hone]
      exact hsettled.book hafter hnonneg
    · rw [if_neg hid]
      have hnone : listing [e] row₀.id = [] := by simp [listing, Ne.symm hid]
      show Settled _ (listing (b.ledger ++ [e]) row₀.id)
      rw [listing_append, hnone, List.append_nil]
      exact hsettled

theorem Ok.post {es : List LedgerEntry} (h : b.Ok) (hb : b.Balanced es) : (b.post es).Ok := by
  induction es generalizing b with
  | nil => rw [post_nil]; exact h
  | cons e es ih =>
    have hone : b.Balanced [e] :=
      ⟨by simp, fun e' he' => hb.booked e' (List.mem_singleton.mp he' ▸ List.mem_cons_self)⟩
    rw [post_cons]
    exact ih (h.post_singleton hone) hb.tail

theorem Ok.openWallet (h : b.Ok) {row : Wallet} (balance : row.balance.cents = 0)
    (version : row.version = 0) (fresh : ∀ row' ∈ b.wallets, row'.id ≠ row.id)
    (blank : listing b.ledger row.id = []) : (b.openWallet row).Ok where
  ids := by
    show ((b.wallets ++ [row]).map Wallet.id).Nodup
    rw [List.map_append]
    refine World.nodup_concat h.ids fun hmem => ?_
    obtain ⟨row', hrow', hid⟩ := List.mem_map.mp hmem
    exact fresh row' hrow' hid
  settled row' hrow' := by
    rcases List.mem_append.mp hrow' with hrow' | hrow'
    · exact h.settled row' hrow'
    · obtain rfl := List.mem_singleton.mp hrow'
      show Settled row' (listing b.ledger row'.id)
      rw [blank]
      exact .blank balance version
  owned e he := by
    show e.walletId ∈ (b.wallets ++ [row]).map Wallet.id
    rw [List.map_append]
    exact List.mem_append_left _ (h.owned e he)

/-- **Nothing that happens to a bank unsettles it.** -/
theorem Ok.step (h : b.Ok) (hs : Step b b') : b'.Ok := by
  cases hs with
  | idle => exact h
  | opened row balance version fresh blank => exact h.openWallet balance version fresh blank
  | posted es balanced => exact h.post balanced

theorem Ok.initial : (World.initial.bank).Ok where
  ids := by simp [World.bank, World.initial]
  settled := by simp [World.bank, World.initial]
  owned := by simp [World.bank, World.initial]

/-- Nobody is overdrawn. -/
theorem Ok.solvent (h : b.Ok) {row : Wallet} (hrow : row ∈ b.wallets) : 0 ≤ row.balance.cents := by
  have hs := h.settled row hrow
  have hlast : _ = sumAmounts (listing b.ledger row.id) := hs.chained.last
  rw [hs.balance, ← hlast]
  cases hl : (listing b.ledger row.id).getLast? with
  | none => simp
  | some e => exact hs.nonneg e (List.mem_of_getLast? hl)

/-- The balance of wallet `id`, zero if there is none. -/
def balanceOf (b : Bank) (id : Uuid) : Int :=
  ((b.wallets.find? (·.id = id)).map fun row => row.balance.cents).getD 0

theorem Ok.find_of_mem (h : b.Ok) {row : Wallet} (hrow : row ∈ b.wallets) :
    b.wallets.find? (·.id = row.id) = some row := by
  cases hf : b.wallets.find? (·.id = row.id) with
  | none => exact absurd (List.find?_eq_none.mp hf row hrow) (by simp)
  | some row' =>
    have hmem := List.mem_of_find?_eq_some hf
    have hid : row'.id = row.id := by simpa using List.find?_some hf
    rw [List.inj_on_of_nodup_map h.ids hmem hrow hid]

theorem Ok.balanceOf_row (h : b.Ok) {row : Wallet} (hrow : row ∈ b.wallets) :
    b.balanceOf row.id = row.balance.cents := by
  simp [balanceOf, h.find_of_mem hrow]

/-- **In a settled bank every balance is the total of its entries.** -/
theorem Ok.balanceOf_eq (h : b.Ok) (id : Uuid) :
    b.balanceOf id = sumAmounts (listing b.ledger id) := by
  by_cases hid : id ∈ b.wallets.map Wallet.id
  · obtain ⟨row, hrow, rfl⟩ := List.mem_map.mp hid
    rw [h.balanceOf_row hrow, (h.settled row hrow).balance]
  · have hfind : b.wallets.find? (·.id = id) = none := List.find?_eq_none.mpr fun row hrow heq =>
      hid (List.mem_map.mpr ⟨row, hrow, by simpa using heq⟩)
    have hnone : listing b.ledger id = [] := List.filter_eq_nil_iff.mpr fun e he heq =>
      hid (by rw [decide_eq_true_iff] at heq; exact heq ▸ h.owned e he)
    simp [balanceOf, hfind, hnone]

end Bank

end FlashWallet
