import FlashWallet.Proof.Bank

/-!
# The books of a call

A call's `Books` hold what it has learnt and what it has buffered: the wallet rows it has locked
(still the committed rows, because it holds the locks), its buffered updates and entries, and
facts nobody can take back (owners of wallets, prices of events, committed entries, orders).
`Books.True` says that they are true of the world, and every lemma here is about how they stay
true: under anything another call does, and under each statement of the call itself.

A buffer that may be committed is a **voucher**: `Balanced` against the locked rows, and one
that the call's own request accounts for (`Request.Posts`).
-/

set_option autoImplicit false

namespace FlashWallet

open Lib

/-! ## What a request may post -/

/-- The entries request `req` accounts for. `owns` tells whose a wallet is, `price` what an event
costs. -/
def Request.Posts (req : Request) (owns : Uuid → Uuid → Prop) (price : Uuid → Money → Prop)
    (es : List LedgerEntry) : Prop :=
  es = [] ∨ match req with
    | .deposit userId dto =>
      ∃ e, es = [e] ∧ e.type = .DEPOSIT ∧ e.amount.cents = dto.amount ∧ owns e.walletId userId
    | .purchaseDeduct userId amount referenceId =>
      ∃ e, es = [e] ∧ e.type = .PURCHASE ∧ e.amount.cents = -amount ∧
        e.referenceId = referenceId ∧ owns e.walletId userId
    | .purchase userId dto =>
      ∃ e p, es = [e] ∧ e.type = .PURCHASE ∧ price dto.eventId p ∧ e.amount.cents = -p.cents ∧
        e.referenceId = FlashSaleService.walletReferenceId dto.eventId dto.idempotencyKey ∧
        owns e.walletId userId
    | .transfer userId dto =>
      ∃ out inn, es = [out, inn] ∧ out.type = .TRANSFER_OUT ∧ out.amount.cents = -dto.amount ∧
        out.referenceId = dto.idempotencyKey ∧ owns out.walletId userId ∧
        inn.type = .TRANSFER_IN ∧ inn.amount.cents = dto.amount ∧
        inn.referenceId = dto.idempotencyKey ∧ owns inn.walletId dto.toUserId
    | _ => False

theorem Request.Posts.mono {req : Request} {owns owns' : Uuid → Uuid → Prop}
    {price price' : Uuid → Money → Prop} {es : List LedgerEntry} (h : req.Posts owns price es)
    (ho : ∀ id user, owns id user → owns' id user) (hp : ∀ e p, price e p → price' e p) :
    req.Posts owns' price' es := by
  refine h.imp id fun h => ?_
  cases req with
  | deposit userId dto =>
    obtain ⟨e, hes, htype, hamount, howns⟩ := h
    exact ⟨e, hes, htype, hamount, ho _ _ howns⟩
  | purchaseDeduct userId amount referenceId =>
    obtain ⟨e, hes, htype, hamount, href, howns⟩ := h
    exact ⟨e, hes, htype, hamount, href, ho _ _ howns⟩
  | purchase userId dto =>
    obtain ⟨e, p, hes, htype, hprice, hamount, href, howns⟩ := h
    exact ⟨e, p, hes, htype, hp _ _ hprice, hamount, href, ho _ _ howns⟩
  | transfer userId dto =>
    obtain ⟨out, inn, hes, hot, hoa, hor, hoo, hit, hia, hir, hio⟩ := h
    exact ⟨out, inn, hes, hot, hoa, hor, ho _ _ hoo, hit, hia, hir, ho _ _ hio⟩
  | provisionWallet | createEvent => exact h

/-- The answer `v` of a transfer is about the ledger entry `e`. -/
structure TransferResult.Reports (v : TransferResult) (e : LedgerEntry) : Prop where
  type : e.type = .TRANSFER_OUT
  fromWalletId : v.fromWalletId = e.walletId
  amount : v.amount = -e.amount.cents
  fromBalance : v.fromBalance = e.balanceAfter.cents
  referenceId : v.referenceId = e.referenceId

namespace World

/-- A confirmed order's payment is in the ledger, from the wallet of the order's user. -/
def Paid (w : World) (userId eventId : Uuid) (key : String) : Prop :=
  ∃ e ∈ w.ledger, e.type = .PURCHASE ∧
    e.referenceId = FlashSaleService.walletReferenceId eventId key ∧ w.Owns e.walletId userId

/-- A cached answer is about a committed transfer of the user and key it is filed under. -/
def Filed (w : World) (key : String) (v : TransferResult) : Prop :=
  ∃ userId idempotencyKey, key = WalletService.idemKey userId idempotencyKey ∧
    ∃ e ∈ w.ledger, v.Reports e ∧ e.referenceId = idempotencyKey ∧ w.Owns e.walletId userId

theorem Paid.mono {w w' : World} {userId eventId : Uuid} {key : String}
    (h : w.Paid userId eventId key) (hw : w.Evolves w') : w'.Paid userId eventId key :=
  let ⟨e, he, htype, href, howns⟩ := h
  ⟨e, hw.mem_ledger he, htype, href, hw.owns _ _ howns⟩

theorem Filed.mono {w w' : World} {key : String} {v : TransferResult} (h : w.Filed key v)
    (hw : w.Evolves w') : w'.Filed key v :=
  let ⟨u, k, hkey, e, he, hv, href, howns⟩ := h
  ⟨u, k, hkey, e, hw.mem_ledger he, hv, href, hw.owns _ _ howns⟩

end World

/-! ## Books -/

structure Books where
  request : Request
  rows : List Wallet
  writes : List (Uuid × Money)
  entries : List LedgerEntry
  owners : List (Uuid × Uuid)
  prices : List (Uuid × Money)
  posted : List LedgerEntry
  orders : List Order
  filed : List (String × TransferResult)

namespace Books

/-- A call that has not issued anything. -/
def opening (req : Request) : Books := ⟨req, [], [], [], [], [], [], [], []⟩

/-- No transaction is open. -/
def Idle (b : Books) : Prop := b.rows = [] ∧ b.writes = [] ∧ b.entries = []

/-- The transaction is over. -/
def cleared (b : Books) : Books := { b with rows := [], writes := [], entries := [] }

/-- The transaction is over and its entries are in the ledger. -/
def committed (b : Books) : Books := { b.cleared with posted := b.entries ++ b.posted }

theorem cleared_idle (b : Books) : b.cleared.Idle := ⟨rfl, rfl, rfl⟩

theorem committed_idle (b : Books) : b.committed.Idle := ⟨rfl, rfl, rfl⟩

/-- What the call may conclude from its books alone: wallets have one owner and users one wallet,
and nobody is overdrawn. -/
structure Coherent (b : Books) : Prop where
  owners : ∀ p ∈ b.owners, ∀ q ∈ b.owners, p.1 = q.1 ↔ p.2 = q.2
  solvent : ∀ row ∈ b.rows, 0 ≤ row.balance.cents

/-- The buffer is a voucher against the locked rows. -/
structure Balanced (b : Books) : Prop where
  writes : b.writes = b.entries.map fun e => (e.walletId, e.balanceAfter)
  distinct : (b.entries.map LedgerEntry.walletId).Nodup
  booked : ∀ e ∈ b.entries, ∃ row ∈ b.rows, row.id = e.walletId ∧
    e.balanceAfter.cents = row.balance.cents + e.amount.cents ∧ 0 ≤ e.balanceAfter.cents

/-- The call's request accounts for the buffer. -/
def Accounted (b : Books) : Prop :=
  b.request.Posts (fun id user => (id, user) ∈ b.owners) (fun e p => (e, p) ∈ b.prices) b.entries

def KnowsPaid (b : Books) (userId eventId : Uuid) (key : String) : Prop :=
  ∃ e ∈ b.posted, e.type = .PURCHASE ∧
    e.referenceId = FlashSaleService.walletReferenceId eventId key ∧
    (e.walletId, userId) ∈ b.owners

/-- The call has the answer of a transfer, from the ledger entry or from the cache. -/
def KnowsTransfer (b : Books) (userId : Uuid) (key : String) (v : TransferResult) : Prop :=
  (∃ e ∈ b.posted, v.Reports e ∧ e.referenceId = key ∧ (e.walletId, userId) ∈ b.owners) ∨
    (WalletService.idemKey userId key, v) ∈ b.filed

/-- The books are true of the world, for call `i`. -/
structure True (b : Books) (i : Nat) (w : World) : Prop where
  tx : w.tx i = ⟨b.writes, b.entries⟩
  locks : ∀ id, w.holder id = some i ↔ ∃ row ∈ b.rows, row.id = id
  rows : ∀ row ∈ b.rows, row ∈ w.wallets
  owners : ∀ p ∈ b.owners, w.Owns p.1 p.2
  prices : ∀ p ∈ b.prices, w.Priced p.1 p.2
  posted : ∀ e ∈ b.posted, e ∈ w.ledger
  orders : ∀ o ∈ b.orders, o ∈ w.orders
  filed : ∀ p ∈ b.filed, w.Filed p.1 p.2

variable {b b' : Books} {i j : Nat} {w w' : World}

theorem True.coherent (h : b.True i w) (hw : w.Ok) (hbank : w.bank.Ok) : b.Coherent where
  owners p hp q hq :=
    ⟨fun heq => hw.owner_unique (h.owners p hp) (heq ▸ h.owners q hq),
     fun heq => hw.owned_unique (h.owners p hp) (heq ▸ h.owners q hq)⟩
  solvent row hrow := hbank.solvent (h.rows row hrow)

/-- **Nobody else's step makes the books false.** -/
theorem True.rely (h : b.True j w) (hr : w.Rely j w') : b.True j w' where
  tx := hr.tx.trans h.tx
  locks id := (hr.holder id).trans (h.locks id)
  rows row hrow := hr.rows row (h.rows row hrow) ((h.locks row.id).mpr ⟨row, hrow, rfl⟩)
  owners p hp := hr.owns _ _ (h.owners p hp)
  prices p hp := hr.priced _ _ (h.prices p hp)
  posted e he := hr.mem_ledger (h.posted e he)
  orders o ho := hr.mem_orders (h.orders o ho)
  filed p hp := (h.filed p hp).mono hr.toEvolves

/-- Facts survive anything, the call's own steps included. -/
theorem True.facts (h : b.True i w) (hw : w.Evolves w') :
    (∀ p ∈ b.owners, w'.Owns p.1 p.2) ∧ (∀ p ∈ b.prices, w'.Priced p.1 p.2) ∧
      (∀ e ∈ b.posted, e ∈ w'.ledger) ∧ (∀ o ∈ b.orders, o ∈ w'.orders) ∧
      ∀ p ∈ b.filed, w'.Filed p.1 p.2 :=
  ⟨fun p hp => hw.owns _ _ (h.owners p hp), fun p hp => hw.priced _ _ (h.prices p hp),
   fun e he => hw.mem_ledger (h.posted e he), fun o ho => hw.mem_orders (h.orders o ho),
   fun p hp => (h.filed p hp).mono hw⟩

/-- A step that touches neither wallets nor locks nor buffers keeps everybody's books true. -/
theorem True.evolves (h : b.True i w) (hw : w.Evolves w') (htx : w'.tx = w.tx)
    (hh : w'.holder = w.holder) (hwallets : w'.wallets = w.wallets) : b.True i w' :=
  h.rely (.of_evolves hw htx hh hwallets)

theorem True.knowsPaid (h : b.True i w) {userId eventId : Uuid} {key : String}
    (hb : b.KnowsPaid userId eventId key) : w.Paid userId eventId key :=
  let ⟨e, he, htype, href, howns⟩ := hb
  ⟨e, h.posted e he, htype, href, h.owners _ howns⟩

theorem True.knowsTransfer (h : b.True i w) {userId : Uuid} {key : String} {v : TransferResult}
    (hb : b.KnowsTransfer userId key v) : w.Filed (WalletService.idemKey userId key) v := by
  rcases hb with ⟨e, he, hv, href, howns⟩ | hfiled
  · exact ⟨userId, key, rfl, e, h.posted e he, hv, href, h.owners _ howns⟩
  · exact h.filed _ hfiled

/-! ### After the call's own statements -/

theorem True.opening {req : Request} (htx : w.tx i = .empty) (hh : ∀ id, w.holder id ≠ some i) :
    (opening req).True i w where
  tx := htx
  locks id := by simp [Books.opening, hh]
  rows := by simp [Books.opening]
  owners := by simp [Books.opening]
  prices := by simp [Books.opening]
  posted := by simp [Books.opening]
  orders := by simp [Books.opening]
  filed := by simp [Books.opening]

theorem True.addOwner (h : b.True i w) {id user : Uuid} (ho : w.Owns id user) :
    { b with owners := (id, user) :: b.owners }.True i w :=
  { h with
    owners := fun p hp => by
      rcases List.mem_cons.mp hp with rfl | hp
      · exact ho
      · exact h.owners p hp }

theorem True.addPosted (h : b.True i w) {e : LedgerEntry} (he : e ∈ w.ledger) :
    { b with posted := e :: b.posted }.True i w :=
  { h with
    posted := fun e' he' => by
      rcases List.mem_cons.mp he' with rfl | he'
      · exact he
      · exact h.posted e' he' }

theorem True.addPrice (h : b.True i w) {e : Uuid} {p : Money} (hp : w.Priced e p) :
    { b with prices := (e, p) :: b.prices }.True i w :=
  { h with
    prices := fun q hq => by
      rcases List.mem_cons.mp hq with rfl | hq
      · exact hp
      · exact h.prices q hq }

theorem True.addOrder (h : b.True i w) {o : Order} (ho : o ∈ w.orders) :
    { b with orders := o :: b.orders }.True i w :=
  { h with
    orders := fun o' ho' => by
      rcases List.mem_cons.mp ho' with rfl | ho'
      · exact ho
      · exact h.orders o' ho' }

theorem True.addFiled (h : b.True i w) {key : String} {v : TransferResult} (hv : w.Filed key v) :
    { b with filed := (key, v) :: b.filed }.True i w :=
  { h with
    filed := fun p hp => by
      rcases List.mem_cons.mp hp with rfl | hp
      · exact hv
      · exact h.filed p hp }

theorem True.release (h : b.True i w) : b.cleared.True i (w.release i) := by
  obtain ⟨howners, hprices, hposted, horders, hfiled⟩ := h.facts (.release w i)
  exact { tx := World.release_tx_self w i
          locks := fun id => by
            simp only [World.release, cleared]
            split <;> simp_all
          rows := by simp [cleared]
          owners := howners, prices := hprices, posted := hposted, orders := horders
          filed := hfiled }

theorem True.commit (h : b.True i w) : b.committed.True i (w.commit i) := by
  obtain ⟨howners, hprices, hposted, horders, hfiled⟩ := h.facts (.served .committed)
  exact { tx := World.release_tx_self _ i
          locks := fun id => by
            simp only [World.commit, World.release, committed, cleared]
            split <;> simp_all [World.apply]
          rows := by simp [committed, cleared]
          owners := howners
          prices := hprices
          posted := fun e he => by
            rcases List.mem_append.mp he with he | he
            · show e ∈ w.ledger ++ (w.tx i).entries
              rw [h.tx]
              exact List.mem_append_right _ he
            · exact hposted e he
          orders := horders
          filed := hfiled }

theorem True.lock (h : b.True i w) {row : Wallet} (hrow : row ∈ w.wallets) :
    { b with rows := row :: b.rows }.True i (w.lock i row.id) :=
  { h with
    locks := fun id => by
      by_cases hid : id = row.id
      · subst hid
        simp
      · simp only [World.lock, if_neg hid, h.locks id, List.exists_mem_cons_iff]
        simp [Ne.symm hid]
    rows := fun row' hrow' => by
      rcases List.mem_cons.mp hrow' with rfl | hrow'
      · exact hrow
      · exact h.rows row' hrow' }

/-- Locking again a row that is held changes nothing. -/
theorem True.relock (h : b.True i w) {id : Uuid} (held : ∃ row ∈ b.rows, row.id = id) :
    w.lock i id = w := by
  have hheld := (h.locks id).mpr held
  have hholder : (fun id' => if id' = id then some i else w.holder id') = w.holder := by
    funext id'
    by_cases hid : id' = id
    · subst hid
      simp [hheld]
    · simp [hid]
  simp only [World.lock, hholder]

theorem True.addWrite (h : b.True i w) (write : Uuid × Money) :
    { b with writes := b.writes ++ [write] }.True i
      (w.setTx i { w.tx i with writes := (w.tx i).writes ++ [write] }) :=
  { h with tx := by rw [World.setTx_self, h.tx] }

theorem True.addEntry (h : b.True i w) (e : LedgerEntry) :
    { b with entries := b.entries ++ [e] }.True i
      (w.setTx i { w.tx i with entries := (w.tx i).entries ++ [e] }) :=
  { h with tx := by rw [World.setTx_self, h.tx] }

end Books

end FlashWallet
