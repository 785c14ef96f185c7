import FlashWallet.Proof.Served
import Mathlib.Data.List.Nodup

/-!
# What the database enforces by itself

`World.Ok` collects the facts that hold whatever the services do, because a statement that would
break one is refused or waits: primary keys and unique indexes, over what is committed **and**
what each open transaction is about to commit; and every buffered write sits under a row lock
its transaction holds. The last one is why two transactions never hold entries with one key:
the key names the wallet, and the wallet has one holder.
-/

set_option autoImplicit false

namespace FlashWallet

open Lib

namespace World

variable {w w' : World} {i j : Nat}

/-! ## Small facts about the pieces of a world -/

@[simp] theorem setTx_self (w : World) (i : Nat) (t : Tx) : (w.setTx i t).tx i = t := by
  simp [setTx]

theorem setTx_other (w : World) (t : Tx) (h : j ≠ i) : (w.setTx i t).tx j = w.tx j := by
  simp [setTx, h]

/-- What holds of a new buffer, and of every buffer before, holds of every buffer. -/
theorem forall_setTx {P : Nat → Tx → Prop} {t : Tx} (hself : P i t) (hothers : ∀ j, P j (w.tx j)) (j : Nat) :
    P j ((w.setTx i t).tx j) := by
  by_cases hij : j = i
  · subst hij
    rw [setTx_self]
    exact hself
  · rw [setTx_other w t hij]
    exact hothers j

@[simp] theorem setTx_holder (w : World) (i : Nat) (t : Tx) : (w.setTx i t).holder = w.holder := rfl
@[simp] theorem setTx_wallets (w : World) (i : Nat) (t : Tx) : (w.setTx i t).wallets = w.wallets := rfl
@[simp] theorem setTx_ledger (w : World) (i : Nat) (t : Tx) : (w.setTx i t).ledger = w.ledger := rfl
@[simp] theorem lock_tx (w : World) (i : Nat) (id : Uuid) : (w.lock i id).tx = w.tx := rfl
@[simp] theorem lock_wallets (w : World) (i : Nat) (id : Uuid) : (w.lock i id).wallets = w.wallets := rfl
@[simp] theorem lock_ledger (w : World) (i : Nat) (id : Uuid) : (w.lock i id).ledger = w.ledger := rfl
@[simp] theorem lock_holder_self (w : World) (i : Nat) (id : Uuid) : (w.lock i id).holder id = some i := by
  simp [lock]

@[simp] theorem release_tx_self (w : World) (i : Nat) : (w.release i).tx i = .empty := by
  simp [release, setTx]

theorem release_tx_other (w : World) (h : j ≠ i) : (w.release i).tx j = w.tx j := by
  simp [release, setTx, h]

@[simp] theorem release_wallets (w : World) (i : Nat) : (w.release i).wallets = w.wallets := rfl
@[simp] theorem release_ledger (w : World) (i : Nat) : (w.release i).ledger = w.ledger := rfl

/-- Releasing one call's locks leaves the others'. -/
theorem release_holder (w : World) {id : Uuid} (h : w.holder id = some j) (hij : j ≠ i) :
    (w.release i).holder id = some j := by
  simp [release, h, hij]

/-- A lock that is taken keeps every other call's locks. -/
theorem lock_holder {id id' : Uuid} (free : w.canLock i id = true) (h : w.holder id' = some j) :
    (w.lock i id).holder id' = some j := by
  unfold lock
  by_cases hid : id' = id
  · subst hid
    simp [canLock, h] at free
    simp [free]
  · simpa [hid] using h

theorem wallet?_eq_some {id : Uuid} {row : Wallet} (h : w.wallet? id = some row) :
    row ∈ w.wallets ∧ row.id = id :=
  ⟨List.mem_of_find?_eq_some h, by simpa using List.find?_some h⟩

theorem walletOf?_eq_some {userId : Uuid} {row : Wallet} (h : w.walletOf? userId = some row) :
    row ∈ w.wallets ∧ row.userId = userId :=
  ⟨List.mem_of_find?_eq_some h, by simpa using List.find?_some h⟩

theorem entryOf?_eq_some {key : Uuid × String × LedgerType} {e : LedgerEntry}
    (h : w.entryOf? key = some e) : e ∈ w.ledger ∧ e.key = key :=
  ⟨List.mem_of_find?_eq_some h, by simpa using List.find?_some h⟩

theorem order?_eq_some {key : Uuid × String} {o : Order} (h : w.order? key = some o) :
    o ∈ w.orders ∧ o.key = key :=
  ⟨List.mem_of_find?_eq_some h, by simpa using List.find?_some h⟩

theorem order?_eq_none {key : Uuid × String} :
    w.order? key = none ↔ ∀ o ∈ w.orders, o.key ≠ key := by
  simp [order?]

theorem entryOf?_eq_none {key : Uuid × String × LedgerType} :
    w.entryOf? key = none ↔ ∀ e ∈ w.ledger, e.key ≠ key := by
  simp [entryOf?]

theorem event?_eq_some {id : Uuid} {ev : FlashSaleEvent} (h : w.event? id = some ev) :
    ev ∈ w.events ∧ ev.id = id :=
  ⟨List.mem_of_find?_eq_some h, by simpa using List.find?_some h⟩

theorem product?_eq_some {id : Uuid} {p : Product} (h : w.product? id = some p) :
    p ∈ w.products ∧ p.id = id :=
  ⟨List.mem_of_find?_eq_some h, by simpa using List.find?_some h⟩

/-- What `Stmt.Answers` says is so. -/
theorem Served.answers {o : Stmt} {r : Except Err o.Reply} (h : Served i w o r w') :
    o.Answers r := by
  cases h with
  | read o v answer =>
    cases o with
    | walletFindUnique userId =>
      cases v with
      | none => trivial
      | some row => exact (walletOf?_eq_some (Option.some.inj answer)).2
    | ledgerEntryFindUnique walletId referenceId type =>
      cases v with
      | none => trivial
      | some e => exact (entryOf?_eq_some (Option.some.inj answer)).2
    | flashSaleEventFindUnique id =>
      cases v with
      | none => trivial
      | some found =>
        obtain ⟨ev, hev, hmap⟩ := Option.bind_eq_some_iff.mp (Option.some.inj answer)
        obtain ⟨product, hproduct, rfl⟩ := Option.map_eq_some_iff.mp hmap
        exact ⟨(event?_eq_some hev).2, (product?_eq_some hproduct).2⟩
    | orderFindUnique eventId key =>
      cases v with
      | none => trivial
      | some o => exact (order?_eq_some (Option.some.inj answer)).2
    | _ => trivial
  | locked id row free found => exact (wallet?_eq_some found).2
  | updated id balance row m free found fits =>
    exact ⟨(wallet?_eq_some found).2, Money.ofDecimal?_eq_some.mp fits⟩
  | entered d e row free found amount balanceAfter key unique =>
    exact ⟨key, Money.ofDecimal?_eq_some.mp amount, Money.ofDecimal?_eq_some.mp balanceAfter⟩
  | ordered d o event found shape freshId freshKey =>
    subst shape
    exact ⟨rfl, rfl, rfl, rfl⟩
  | failed o remote open' => cases o <;> trivial
  | refused o e reason => cases o <;> trivial
  | _ => trivial

/-! ### Writing balances keeps identities -/

theorem writeBalance_map_id (wallets : List Wallet) (write : Uuid × Money) :
    (writeBalance wallets write).map Wallet.id = wallets.map Wallet.id := by
  simp only [writeBalance, List.map_map]
  refine List.map_congr_left fun row _ => ?_
  simp only [Function.comp]
  split <;> rfl

theorem writeBalance_map_userId (wallets : List Wallet) (write : Uuid × Money) :
    (writeBalance wallets write).map (fun row => (row.id, row.userId)) =
      wallets.map fun row => (row.id, row.userId) := by
  simp only [writeBalance, List.map_map]
  refine List.map_congr_left fun row _ => ?_
  simp only [Function.comp]
  split <;> rfl

/-- The identities of the rows: which wallet belongs to whom. -/
def identities (wallets : List Wallet) : List (Uuid × Uuid) :=
  wallets.map fun row => (row.id, row.userId)

theorem identities_foldl_writeBalance (writes : List (Uuid × Money)) (wallets : List Wallet) :
    identities (writes.foldl writeBalance wallets) = identities wallets := by
  induction writes generalizing wallets with
  | nil => rfl
  | cons write writes ih =>
    rw [List.foldl_cons, ih]
    exact writeBalance_map_userId wallets write

@[simp] theorem identities_commit (w : World) (i : Nat) :
    identities (w.commit i).wallets = identities w.wallets :=
  identities_foldl_writeBalance _ _

theorem identities_map_fst (wallets : List Wallet) :
    (identities wallets).map Prod.fst = wallets.map Wallet.id := by
  simp [identities]

theorem identities_map_snd (wallets : List Wallet) :
    (identities wallets).map Prod.snd = wallets.map Wallet.userId := by
  simp [identities]

/-- A row that no write names is as it was. -/
theorem mem_foldl_writeBalance {writes : List (Uuid × Money)} {wallets : List Wallet}
    {row : Wallet} (h : row ∈ wallets) (hno : ∀ write ∈ writes, write.1 ≠ row.id) :
    row ∈ writes.foldl writeBalance wallets := by
  induction writes generalizing wallets with
  | nil => exact h
  | cons write writes ih =>
    rw [List.foldl_cons]
    refine ih ?_ fun write' hw => hno write' (List.mem_cons_of_mem _ hw)
    refine List.mem_map.mpr ⟨row, h, if_neg fun heq => ?_⟩
    exact hno write List.mem_cons_self heq.symm

/-! ## The invariant -/

/-- What primary keys, unique indexes, foreign keys and row locks guarantee. -/
structure Ok (w : World) : Prop where
  walletIds : ((identities w.wallets).map Prod.fst).Nodup
  walletUsers : ((identities w.wallets).map Prod.snd).Nodup
  walletsDrawn : ∀ p ∈ identities w.wallets, p.1 ∈ w.drawn
  entryKeys : ∀ i, ((w.ledger ++ (w.tx i).entries).map LedgerEntry.key).Nodup
  entriesOwned : ∀ i, ∀ e ∈ w.ledger ++ (w.tx i).entries,
    e.walletId ∈ (identities w.wallets).map Prod.fst
  entriesLocked : ∀ i, ∀ e ∈ (w.tx i).entries, w.holder e.walletId = some i
  writesLocked : ∀ i, ∀ write ∈ (w.tx i).writes, w.holder write.1 = some i
  orderIds : (w.orders.map Order.id).Nodup
  orderKeys : (w.orders.map Order.key).Nodup
  eventIds : (w.events.map FlashSaleEvent.id).Nodup
  eventsDrawn : ∀ ev ∈ w.events, ev.id ∈ w.drawn
  productIds : (w.products.map Product.id).Nodup
  productsDrawn : ∀ p ∈ w.products, p.id ∈ w.drawn

theorem Ok.initial : Ok initial where
  walletIds := by simp [World.initial, identities]
  walletUsers := by simp [World.initial, identities]
  walletsDrawn := by simp [World.initial, identities]
  entryKeys := by simp [World.initial, Tx.empty]
  entriesOwned := by simp [World.initial, Tx.empty]
  entriesLocked := by simp [World.initial, Tx.empty]
  writesLocked := by simp [World.initial, Tx.empty]
  orderIds := by simp [World.initial]
  orderKeys := by simp [World.initial]
  eventIds := by simp [World.initial]
  eventsDrawn := by simp [World.initial]
  productIds := by simp [World.initial]
  productsDrawn := by simp [World.initial]

/-- Rows are determined by their id. -/
theorem Ok.wallet_ext (h : Ok w) {row row' : Wallet} (hr : row ∈ w.wallets)
    (hr' : row' ∈ w.wallets) (hid : row.id = row'.id) : row = row' :=
  List.inj_on_of_nodup_map (identities_map_fst w.wallets ▸ h.walletIds) hr hr' hid

/-- A user has one wallet. -/
theorem Ok.wallet_ext_user (h : Ok w) {row row' : Wallet} (hr : row ∈ w.wallets)
    (hr' : row' ∈ w.wallets) (huser : row.userId = row'.userId) : row = row' :=
  List.inj_on_of_nodup_map (identities_map_snd w.wallets ▸ h.walletUsers) hr hr' huser

theorem Ok.ledger_nodup (h : Ok w) : (w.ledger.map LedgerEntry.key).Nodup := by
  have hkeys := h.entryKeys 0
  rw [List.map_append] at hkeys
  exact hkeys.of_append_left

/-- The unique index on the ledger. -/
theorem Ok.entry_ext (h : Ok w) {e e' : LedgerEntry} (he : e ∈ w.ledger) (he' : e' ∈ w.ledger)
    (hkey : e.key = e'.key) : e = e' :=
  List.inj_on_of_nodup_map h.ledger_nodup he he' hkey

/-- The unique index on the orders. -/
theorem Ok.order_ext (h : Ok w) {o o' : Order} (ho : o ∈ w.orders) (ho' : o' ∈ w.orders)
    (hkey : o.key = o'.key) : o = o' :=
  List.inj_on_of_nodup_map h.orderKeys ho ho' hkey

theorem Ok.order_ext_id (h : Ok w) {o o' : Order} (ho : o ∈ w.orders) (ho' : o' ∈ w.orders)
    (hid : o.id = o'.id) : o = o' :=
  List.inj_on_of_nodup_map h.orderIds ho ho' hid

theorem Ok.event_ext (h : Ok w) {ev ev' : FlashSaleEvent} (he : ev ∈ w.events)
    (he' : ev' ∈ w.events) (hid : ev.id = ev'.id) : ev = ev' :=
  List.inj_on_of_nodup_map h.eventIds he he' hid

theorem Ok.product_ext (h : Ok w) {p p' : Product} (hp : p ∈ w.products)
    (hp' : p' ∈ w.products) (hid : p.id = p'.id) : p = p' :=
  List.inj_on_of_nodup_map h.productIds hp hp' hid

theorem Ok.wallet?_of_mem (h : Ok w) {row : Wallet} (hr : row ∈ w.wallets) :
    w.wallet? row.id = some row := by
  cases hf : w.wallet? row.id with
  | none => exact absurd (List.find?_eq_none.mp hf row hr) (by simp)
  | some row' =>
    obtain ⟨hr', hid⟩ := wallet?_eq_some hf
    rw [h.wallet_ext hr' hr hid]

theorem Ok.walletOf?_of_mem (h : Ok w) {row : Wallet} (hr : row ∈ w.wallets) :
    w.walletOf? row.userId = some row := by
  cases hf : w.walletOf? row.userId with
  | none => exact absurd (List.find?_eq_none.mp hf row hr) (by simp)
  | some row' =>
    obtain ⟨hr', huser⟩ := walletOf?_eq_some hf
    rw [h.wallet_ext_user hr' hr huser]

theorem Ok.event?_of_mem (h : Ok w) {ev : FlashSaleEvent} (he : ev ∈ w.events) :
    w.event? ev.id = some ev := by
  cases hf : w.event? ev.id with
  | none => exact absurd (List.find?_eq_none.mp hf ev he) (by simp)
  | some ev' =>
    obtain ⟨he', hid⟩ := event?_eq_some hf
    rw [h.event_ext he' he hid]

theorem Ok.product?_of_mem (h : Ok w) {p : Product} (hp : p ∈ w.products) :
    w.product? p.id = some p := by
  cases hf : w.product? p.id with
  | none => exact absurd (List.find?_eq_none.mp hf p hp) (by simp)
  | some p' =>
    obtain ⟨hp', hid⟩ := product?_eq_some hf
    rw [h.product_ext hp' hp hid]

/-! ## It is kept -/

/-- A world that differs in locks and buffers alone. -/
theorem Ok.of_buffers (h : Ok w) (hw : w'.wallets = w.wallets)
    (ho : w'.orders = w.orders) (he : w'.events = w.events) (hp : w'.products = w.products)
    (hd : w'.drawn = w.drawn)
    (entryKeys : ∀ i, ((w'.ledger ++ (w'.tx i).entries).map LedgerEntry.key).Nodup)
    (entriesOwned : ∀ i, ∀ e ∈ w'.ledger ++ (w'.tx i).entries,
      e.walletId ∈ (identities w.wallets).map Prod.fst)
    (entriesLocked : ∀ i, ∀ e ∈ (w'.tx i).entries, w'.holder e.walletId = some i)
    (writesLocked : ∀ i, ∀ write ∈ (w'.tx i).writes, w'.holder write.1 = some i) : Ok w' where
  walletIds := hw ▸ h.walletIds
  walletUsers := hw ▸ h.walletUsers
  walletsDrawn := hw ▸ hd ▸ h.walletsDrawn
  entryKeys := entryKeys
  entriesOwned := hw ▸ entriesOwned
  entriesLocked := entriesLocked
  writesLocked := writesLocked
  orderIds := ho ▸ h.orderIds
  orderKeys := ho ▸ h.orderKeys
  eventIds := he ▸ h.eventIds
  eventsDrawn := he ▸ hd ▸ h.eventsDrawn
  productIds := hp ▸ h.productIds
  productsDrawn := hp ▸ hd ▸ h.productsDrawn

/-- What stays true of the buffers after call `i`'s has been replaced. -/
theorem Ok.release (h : Ok w) (i : Nat) : Ok (w.release i) := by
  refine h.of_buffers rfl rfl rfl rfl rfl ?_ ?_ ?_ ?_
  · intro j
    by_cases hij : j = i
    · subst hij
      simpa [Tx.empty] using h.ledger_nodup
    · rw [release_tx_other w hij]
      exact h.entryKeys j
  · intro j e he
    by_cases hij : j = i
    · subst hij
      rw [release_tx_self, Tx.empty, List.append_nil] at he
      exact h.entriesOwned j e (List.mem_append_left _ he)
    · rw [release_tx_other w hij] at he
      exact h.entriesOwned j e he
  · intro j e he
    by_cases hij : j = i
    · subst hij
      simp [Tx.empty] at he
    · rw [release_tx_other w hij] at he
      exact release_holder w (h.entriesLocked j e he) hij
  · intro j write hw
    by_cases hij : j = i
    · subst hij
      simp [Tx.empty] at hw
    · rw [release_tx_other w hij] at hw
      exact release_holder w (h.writesLocked j write hw) hij

theorem Ok.lock (h : Ok w) {id : Uuid} (free : w.canLock i id = true) : Ok (w.lock i id) :=
  h.of_buffers rfl rfl rfl rfl rfl h.entryKeys h.entriesOwned
    (fun j e he => lock_holder free (h.entriesLocked j e he))
    (fun j write hw => lock_holder free (h.writesLocked j write hw))

/-- Buffering one more entry under a lock that is held, its key being free so far. -/
theorem Ok.addEntry (h : Ok w) {e : LedgerEntry} (held : w.holder e.walletId = some i)
    (owned : e.walletId ∈ (identities w.wallets).map Prod.fst)
    (unique : ∀ e' ∈ w.ledger ++ (w.tx i).entries, e'.key ≠ e.key) :
    Ok (w.setTx i { w.tx i with entries := (w.tx i).entries ++ [e] }) := by
  refine h.of_buffers rfl rfl rfl rfl rfl ?_ ?_ ?_ ?_
  · refine forall_setTx (P := fun _ t => ((w.ledger ++ t.entries).map LedgerEntry.key).Nodup) ?_ h.entryKeys
    rw [← List.append_assoc, List.map_append]
    refine (h.entryKeys i).append (List.nodup_singleton _) ?_
    rw [List.map_singleton, List.disjoint_singleton]
    intro hmem
    obtain ⟨e', he', hkey⟩ := List.mem_map.mp hmem
    exact unique e' he' hkey
  · refine forall_setTx (P := fun _ t => ∀ e ∈ w.ledger ++ t.entries,
      e.walletId ∈ (identities w.wallets).map Prod.fst) (fun e' he' => ?_) h.entriesOwned
    rw [← List.append_assoc, List.mem_append] at he'
    rcases he' with he' | he'
    · exact h.entriesOwned i e' he'
    · rw [List.mem_singleton.mp he']
      exact owned
  · refine forall_setTx (P := fun j t => ∀ e ∈ t.entries, w.holder e.walletId = some j) (fun e' he' => ?_)
      h.entriesLocked
    rcases List.mem_append.mp he' with he' | he'
    · exact h.entriesLocked i e' he'
    · rw [List.mem_singleton.mp he']
      exact held
  · exact forall_setTx (P := fun j t => ∀ write ∈ t.writes, w.holder write.1 = some j) (h.writesLocked i)
      h.writesLocked

theorem Ok.addWrite (h : Ok w) {write : Uuid × Money} (held : w.holder write.1 = some i) :
    Ok (w.setTx i { w.tx i with writes := (w.tx i).writes ++ [write] }) := by
  refine h.of_buffers rfl rfl rfl rfl rfl ?_ ?_ ?_ ?_
  · exact forall_setTx (P := fun _ t => ((w.ledger ++ t.entries).map LedgerEntry.key).Nodup) (h.entryKeys i)
      h.entryKeys
  · exact forall_setTx (P := fun _ t => ∀ e ∈ w.ledger ++ t.entries,
      e.walletId ∈ (identities w.wallets).map Prod.fst) (h.entriesOwned i) h.entriesOwned
  · exact forall_setTx (P := fun j t => ∀ e ∈ t.entries, w.holder e.walletId = some j) (h.entriesLocked i)
      h.entriesLocked
  · refine forall_setTx (P := fun j t => ∀ write ∈ t.writes, w.holder write.1 = some j) (fun write' hw => ?_)
      h.writesLocked
    rcases List.mem_append.mp hw with hw | hw
    · exact h.writesLocked i write' hw
    · rw [List.mem_singleton.mp hw]
      exact held

/-- **Two open transactions never hold entries with one key.** -/
theorem Ok.entries_disjoint (h : Ok w) (hij : i ≠ j) {e e' : LedgerEntry}
    (he : e ∈ (w.tx i).entries) (he' : e' ∈ (w.tx j).entries) : e.key ≠ e'.key := by
  intro hkey
  have hwallet : e.walletId = e'.walletId := congrArg Prod.fst hkey
  have hholder := h.entriesLocked i e he
  rw [hwallet, h.entriesLocked j e' he'] at hholder
  exact hij (Option.some.inj hholder).symm

/-- Committing a buffer: its entries join the ledger under keys nobody else holds. -/
theorem Ok.commit (h : Ok w) (i : Nat) : Ok (w.commit i) where
  walletIds := by rw [identities_commit]; exact h.walletIds
  walletUsers := by rw [identities_commit]; exact h.walletUsers
  walletsDrawn := by rw [identities_commit]; exact h.walletsDrawn
  entryKeys j := by
    by_cases hij : j = i
    · subst hij
      show ((w.ledger ++ (w.tx j).entries ++ ((w.commit j).tx j).entries).map _).Nodup
      rw [World.commit, release_tx_self]
      simpa [Tx.empty] using h.entryKeys j
    · show ((w.ledger ++ (w.tx i).entries ++ ((w.commit i).tx j).entries).map _).Nodup
      rw [World.commit, release_tx_other _ hij]
      show ((w.ledger ++ (w.tx i).entries ++ (w.tx j).entries).map _).Nodup
      rw [List.map_append]
      have hj := h.entryKeys j
      rw [List.map_append] at hj
      refine (h.entryKeys i).append hj.of_append_right fun key hki hkj => ?_
      obtain ⟨e', he', rfl⟩ := List.mem_map.mp hkj
      obtain ⟨e, he, hkey⟩ := List.mem_map.mp hki
      -- against the ledger the other buffer's keys are free already, against this buffer the locks keep them apart
      rcases List.mem_append.mp he with he | he
      · exact List.disjoint_of_nodup_append hj (List.mem_map_of_mem he)
          (hkey ▸ List.mem_map_of_mem he')
      · exact h.entries_disjoint (Ne.symm hij) he he' hkey
  entriesOwned j e he := by
    rw [identities_commit]
    have hmem : e ∈ w.ledger ++ (w.tx i).entries ∨ e ∈ ((w.release i).tx j).entries :=
      List.mem_append.mp he
    rcases hmem with hmem | hmem
    · exact h.entriesOwned i e hmem
    · exact (h.release i).entriesOwned j e (List.mem_append_right _ hmem)
  entriesLocked := (h.release i).entriesLocked
  writesLocked := (h.release i).writesLocked
  orderIds := h.orderIds
  orderKeys := h.orderKeys
  eventIds := h.eventIds
  eventsDrawn := h.eventsDrawn
  productIds := h.productIds
  productsDrawn := h.productsDrawn

theorem reserveUnit_map_id (w : World) (eventId : Uuid) :
    (w.reserveUnit eventId).2.events.map FlashSaleEvent.id = w.events.map FlashSaleEvent.id := by
  simp only [reserveUnit, List.map_map]
  refine List.map_congr_left fun ev _ => ?_
  simp only [Function.comp]
  split <;> rfl

theorem releaseUnit_map_id (w : World) (eventId : Uuid) :
    (w.releaseUnit eventId).events.map FlashSaleEvent.id = w.events.map FlashSaleEvent.id := by
  simp only [releaseUnit, List.map_map]
  refine List.map_congr_left fun ev _ => ?_
  simp only [Function.comp]
  split <;> rfl

/-- A world whose events have the same ids and nothing else is new. -/
theorem Ok.of_events (h : Ok w) {events : List FlashSaleEvent}
    (hids : events.map FlashSaleEvent.id = w.events.map FlashSaleEvent.id) :
    Ok { w with events := events } :=
  { h with
    eventIds := hids ▸ h.eventIds
    eventsDrawn := fun ev hev => by
      have hmem : ev.id ∈ w.events.map FlashSaleEvent.id := hids ▸ List.mem_map_of_mem hev
      obtain ⟨ev', hev', hid⟩ := List.mem_map.mp hmem
      exact hid ▸ h.eventsDrawn ev' hev' }

theorem nodup_concat {α : Type} {l : List α} {a : α} (h : l.Nodup) (ha : a ∉ l) :
    (l ++ [a]).Nodup :=
  h.append (List.nodup_singleton a) (by simpa [List.disjoint_singleton] using ha)

/-- **The step lemma.** Whatever a statement does, the database's guarantees stand. -/
theorem Ok.served {o : Stmt} {r : Except Err o.Reply} (h : Ok w) (hs : Served i w o r w') :
    Ok w' := by
  cases hs with
  | read | failed | refused | lockMissing | dropped | missed => exact h
  | locked id row free found => exact h.lock free
  | updated id balance row m free found fits =>
    have held : (w.lock i id).holder (id, m).1 = some i := lock_holder_self w i id
    exact (h.lock free).addWrite held
  | entered d e row free found amount balanceAfter key unique =>
    have hwallet : e.walletId = d.walletId := congrArg Prod.fst key
    obtain ⟨hrow, hid⟩ := wallet?_eq_some found
    have howned : e.walletId ∈ (identities w.wallets).map Prod.fst := by
      rw [identities_map_fst, hwallet, ← hid]
      exact List.mem_map_of_mem hrow
    exact (h.lock free).addEntry (by simp [hwallet]) howned unique
  | committed => exact h.commit i
  | commitFailed | rolledBack => exact h.release i
  | walletCreated userId balance row fresh user fits version unique =>
    -- the identifier is freshly drawn, the user is checked by the unique index
    have hid : row.id ∉ (identities w.wallets).map Prod.fst := fun hmem => by
      obtain ⟨p, hp, hrow⟩ := List.mem_map.mp hmem
      exact fresh (hrow ▸ h.walletsDrawn p hp)
    have huser : row.userId ∉ (identities w.wallets).map Prod.snd := fun hmem => by
      rw [identities_map_snd, List.mem_map] at hmem
      obtain ⟨row', hrow', heq⟩ := hmem
      exact absurd (List.find?_eq_none.mp unique row' hrow') (by simp [heq, user])
    exact { h with
      walletIds := by
        rw [identities, List.map_append, List.map_append]
        exact nodup_concat h.walletIds hid
      walletUsers := by
        rw [identities, List.map_append, List.map_append]
        exact nodup_concat h.walletUsers huser
      walletsDrawn := fun p hp => by
        rw [identities, List.map_append, List.mem_append] at hp
        rcases hp with hp | hp
        · exact List.mem_cons_of_mem _ (h.walletsDrawn p hp)
        · rw [List.map_singleton, List.mem_singleton] at hp
          exact hp ▸ List.mem_cons_self
      entriesOwned := fun j e he => by
        rw [identities, List.map_append, List.map_append]
        exact List.mem_append_left _ (h.entriesOwned j e he)
      eventsDrawn := fun ev hev => List.mem_cons_of_mem _ (h.eventsDrawn ev hev)
      productsDrawn := fun p hp => List.mem_cons_of_mem _ (h.productsDrawn p hp) }
  | cached key value => exact { h with }
  | drew id fresh =>
    exact { h with
      walletsDrawn := fun p hp => List.mem_cons_of_mem _ (h.walletsDrawn p hp)
      eventsDrawn := fun ev hev => List.mem_cons_of_mem _ (h.eventsDrawn ev hev)
      productsDrawn := fun p hp => List.mem_cons_of_mem _ (h.productsDrawn p hp) }
  | eventCreated productId totalStock remaining startsAt endsAt id product fresh found =>
    have hid : id ∉ w.events.map FlashSaleEvent.id := fun hmem => by
      obtain ⟨ev, hev, heq⟩ := List.mem_map.mp hmem
      exact fresh (heq ▸ h.eventsDrawn ev hev)
    exact { h with
      walletsDrawn := fun p hp => List.mem_cons_of_mem _ (h.walletsDrawn p hp)
      eventIds := by
        rw [List.map_append]
        exact nodup_concat h.eventIds hid
      eventsDrawn := fun ev hev => by
        rcases List.mem_append.mp hev with hev | hev
        · exact List.mem_cons_of_mem _ (h.eventsDrawn ev hev)
        · rw [List.mem_singleton.mp hev]
          exact List.mem_cons_self
      productsDrawn := fun p hp => List.mem_cons_of_mem _ (h.productsDrawn p hp) }
  | reserved eventId => exact h.of_events (reserveUnit_map_id w eventId)
  | released eventId => exact h.of_events (releaseUnit_map_id w eventId)
  | ordered d o event found shape freshId freshKey =>
    exact { h with
      orderIds := by
        rw [List.map_append]
        refine nodup_concat h.orderIds fun hmem => ?_
        obtain ⟨o', ho', hid⟩ := List.mem_map.mp hmem
        exact freshId o' ho' hid
      orderKeys := by
        rw [List.map_append]
        refine nodup_concat h.orderKeys fun hmem => ?_
        obtain ⟨o', ho', hkey⟩ := List.mem_map.mp hmem
        exact freshKey o' ho' hkey }
  | queued job => exact { h with }

theorem Ok.env (h : Ok w) {e : Env} (he : e.run w = some w') : Ok w' := by
  cases e with
  | tick ms => cases he; exact { h with }
  | evict key => cases he; exact { h with }
  | seedProduct p =>
    simp only [Env.run] at he
    split at he
    · cases he
    · rename_i fresh
      cases he
      have hid : p.id ∉ w.products.map Product.id := fun hmem => by
        obtain ⟨p', hp', heq⟩ := List.mem_map.mp hmem
        exact fresh (heq ▸ h.productsDrawn p' hp')
      exact { h with
        walletsDrawn := fun p' hp' => List.mem_cons_of_mem _ (h.walletsDrawn p' hp')
        eventsDrawn := fun ev hev => List.mem_cons_of_mem _ (h.eventsDrawn ev hev)
        productIds := by
          rw [List.map_append]
          exact nodup_concat h.productIds hid
        productsDrawn := fun p' hp' => by
          rcases List.mem_append.mp hp' with hp' | hp'
          · exact List.mem_cons_of_mem _ (h.productsDrawn p' hp')
          · rw [List.mem_singleton.mp hp']
            exact List.mem_cons_self }

end World

/-- **The run lemma**: the database's guarantees hold all along. -/
theorem worldOk_of_run {ok : State → Event → Prop} {tr : Trace} {c₀ c : State}
    (h₀ : c₀.world.Ok) (hrun : RunFrom c₀ ok tr c) : c.world.Ok := by
  refine hrun.invariant (I := fun c => c.world.Ok) h₀ fun c l c' hc _ hstep => ?_
  cases l with
  | arrive r => cases hstep; exact hc
  | exec i x =>
    obtain ⟨r, o, k, reply, w, _, hexec, rfl⟩ := system.step_exec hstep
    exact hc.served (.of_exec hexec)
  | crash i =>
    obtain ⟨r, o, k, _, rfl⟩ := system.step_crash hstep
    exact hc.release i
  | env e =>
    obtain ⟨w, hw, rfl⟩ := system.step_env hstep
    exact hc.env hw

theorem Reachable.worldOk {ok : State → Event → Prop} {c : State} (h : Reachable ok c) :
    c.world.Ok :=
  let ⟨_, hrun⟩ := h
  worldOk_of_run .initial hrun

end FlashWallet
