import FlashWallet.Proof.Books

/-!
# Custody: the discipline every service function keeps

The demand that matters is the one on `commit`: the buffer must be a voucher that the call's own
request accounts for. The others keep three facts about what is stored: a cached answer is about
a transfer that was made, a confirmed order is paid for, a new wallet is empty.

From that, and nothing else about the service functions, follows what any step of any run can do
to the bank (`bank_moves`), whatever fails, dies or is forgotten on the way.
-/

set_option autoImplicit false

namespace FlashWallet

open Lib

namespace Books

/-- What a call writes down about a reply. -/
def note (b : Books) : (o : Stmt) → Except Err o.Reply → Books
  | .walletFindUnique userId, .ok (some row) => { b with owners := (row.id, userId) :: b.owners }
  | .walletForUpdate _, .ok (some row) => { b with rows := row :: b.rows }
  | .walletUpdate .., .ok row => { b with writes := b.writes ++ [(row.id, row.balance)] }
  | .ledgerEntryFindUnique .., .ok (some e) => { b with posted := e :: b.posted }
  | .ledgerEntryCreate _, .ok (e : LedgerEntry) => { b with entries := b.entries ++ [e] }
  | .commit, .ok _ => b.committed
  | .commit, .error _ => b.cleared
  | .rollback, _ => b.cleared
  | .flashSaleEventFindUnique id, .ok (some (_, p)) => { b with prices := (id, p.price) :: b.prices }
  | .redisGet key, .ok (some v) => { b with filed := (key, v) :: b.filed }
  | .orderFindUnique .., .ok (some o) => { b with orders := o :: b.orders }
  | .orderCreate _, .ok o => { b with orders := o :: b.orders }
  | _, _ => b

/-- Facts are only ever added. -/
structure Grows (b b' : Books) : Prop where
  request : b'.request = b.request
  owners : b.owners ⊆ b'.owners
  prices : b.prices ⊆ b'.prices
  posted : b.posted ⊆ b'.posted
  orders : b.orders ⊆ b'.orders
  filed : b.filed ⊆ b'.filed

variable {b b' b'' : Books} {i : Nat} {w w' : World}

theorem Grows.refl (b : Books) : b.Grows b := ⟨rfl, by simp, by simp, by simp, by simp, by simp⟩

theorem Grows.trans (h : b.Grows b') (h' : b'.Grows b'') : b.Grows b'' where
  request := h'.request.trans h.request
  owners := List.Subset.trans h.owners h'.owners
  prices := List.Subset.trans h.prices h'.prices
  posted := List.Subset.trans h.posted h'.posted
  orders := List.Subset.trans h.orders h'.orders
  filed := List.Subset.trans h.filed h'.filed

theorem grows_cleared (b : Books) : b.Grows b.cleared := { Grows.refl b with }

theorem grows_committed (b : Books) : b.Grows b.committed :=
  { Grows.refl b with posted := List.subset_append_right .. }

theorem grows_note (b : Books) (o : Stmt) (r : Except Err o.Reply) : b.Grows (b.note o r) := by
  cases o with
  | commit =>
    cases r with
    | ok _ => exact b.grows_committed
    | error _ => exact b.grows_cleared
  | rollback => exact b.grows_cleared
  | walletUpdate | ledgerEntryCreate =>
    cases r with
    | ok _ => exact { Grows.refl b with }
    | error _ => exact .refl b
  | orderCreate =>
    cases r with
    | ok _ => exact { Grows.refl b with orders := List.subset_cons_self .. }
    | error _ => exact .refl b
  | walletFindUnique | walletForUpdate | ledgerEntryFindUnique | redisGet | flashSaleEventFindUnique
  | orderFindUnique =>
    rcases r with _ | _ | _
    · exact .refl b
    · exact .refl b
    · constructor <;> simp [note]
  | _ => exact .refl b

end Books

/-! ## The discipline -/

/-- What must be on the books before a statement is issued. -/
def custodyPre : Stmt → Books → Prop
  | .walletCreate userId balance, b => balance = 0 ∧ b.request = .provisionWallet userId
  | .walletUpdate id _, b => ∃ row ∈ b.rows, row.id = id
  | .ledgerEntryCreate d, b => ∃ row ∈ b.rows, row.id = d.walletId
  | .commit, b => b.Balanced ∧ b.Accounted
  | .redisSet key v, b =>
    ∃ userId k, key = WalletService.idemKey userId k ∧ b.KnowsTransfer userId k v
  | .orderCreate d, b =>
    d.status = .CONFIRMED → b.KnowsPaid d.userId d.flashSaleEventId d.idempotencyKey
  | _, _ => True

def custody : Discipline sql Err Books where
  pre := custodyPre
  post o b r b' := b' = b.note o r ∧ b'.Coherent ∧ o.Answers r

/-- What the books say when a call has answered. -/
def custodyAnswer (req : Request) (r : Except Err Response) (b : Books) : Prop :=
  b.Idle ∧ match req, r with
    | .transfer userId dto, .ok (.transferred v) => b.KnowsTransfer userId dto.idempotencyKey v
    | .purchase _ dto, .ok (.purchased v) =>
      ∃ o ∈ b.orders, o.key = (dto.eventId, dto.idempotencyKey) ∧
        v = FlashSaleService.toOrderResult o v.replayed
    | _, _ => True

/-! ## Statements -/

namespace Books

variable {b b' : Books} {i : Nat} {w w' : World}

/-- **The call's own statement, issued as the discipline demands, keeps its books true.** -/
theorem True.served {o : Stmt} {r : Except Err o.Reply} (h : b.True i w)
    (hpre : custodyPre o b) (hcache : ∀ key v, w.cache key = some v → w.Filed key v)
    (hs : World.Served i w o r w') : (b.note o r).True i w' := by
  have hevolves := World.Evolves.served hs
  cases hs with
  | read o v answer =>
    cases o with
    | walletFindUnique userId =>
      cases v with
      | none => exact h
      | some row =>
        obtain ⟨hrow, rfl⟩ := World.walletOf?_eq_some (Option.some.inj answer)
        exact h.addOwner (World.owns_of_mem hrow)
    | ledgerEntryFindUnique walletId referenceId type =>
      cases v with
      | none => exact h
      | some e => exact h.addPosted (World.entryOf?_eq_some (Option.some.inj answer)).1
    | redisGet key =>
      cases v with
      | none => exact h
      | some v => exact h.addFiled (hcache key v (Option.some.inj answer))
    | flashSaleEventFindUnique id =>
      cases v with
      | none => exact h
      | some found =>
        obtain ⟨ev, hev, hmap⟩ := Option.bind_eq_some_iff.mp (Option.some.inj answer)
        obtain ⟨product, hproduct, rfl⟩ := Option.map_eq_some_iff.mp hmap
        obtain ⟨hev, hid⟩ := World.event?_eq_some hev
        obtain ⟨hproduct, hpid⟩ := World.product?_eq_some hproduct
        exact h.addPrice ⟨ev, hev, hid, product, hproduct, hpid, rfl⟩
    | orderFindUnique eventId key =>
      cases v with
      | none => exact h
      | some o => exact h.addOrder (World.order?_eq_some (Option.some.inj answer)).1
    | now | sleep => exact h
    | productFindUnique => cases v <;> exact h
    | _ => cases answer
  | failed o remote open' =>
    cases o with
    | commit => exact absurd rfl open'
    | rollback => cases remote
    | _ => exact h
  | refused o e reason => cases o <;> first | exact h | exact reason.elim
  | lockMissing => exact h
  | locked id row free found =>
    obtain ⟨hrow, rfl⟩ := World.wallet?_eq_some found
    exact h.lock hrow
  | updated id balance row m free found fits =>
    obtain ⟨_, rfl⟩ := World.wallet?_eq_some found
    -- the discipline has the row locked already: the update takes no lock of its own
    rw [h.relock hpre]
    exact h.addWrite _
  | entered d e row free found amount balanceAfter key unique =>
    rw [h.relock hpre]
    exact h.addEntry e
  | committed => exact h.commit
  | commitFailed | rolledBack => exact h.release
  | ordered d o event found shape freshId freshKey =>
    exact (h.evolves hevolves rfl rfl rfl).addOrder (List.mem_append_right _ List.mem_cons_self)
  | walletCreated userId balance row fresh user fits version unique =>
    obtain ⟨howners, hprices, hposted, horders, hfiled⟩ := h.facts hevolves
    exact { tx := h.tx
            locks := h.locks
            rows := fun row' hrow' => List.mem_append_left _ (h.rows row' hrow')
            owners := howners
            prices := hprices
            posted := hposted
            orders := horders
            filed := hfiled }
  | cached | drew | eventCreated | reserved | released | queued | dropped | missed =>
    exact h.evolves hevolves rfl rfl rfl

/-- A true voucher is one the bank accepts. -/
theorem True.balanced (h : b.True i w) (hb : b.Balanced) : w.bank.Balanced b.entries where
  distinct := hb.distinct
  booked e he :=
    let ⟨row, hrow, hbooked⟩ := hb.booked e he
    ⟨row, h.rows row hrow, hbooked⟩

/-- Committing a true voucher posts it. -/
theorem True.bank_commit (h : b.True i w) (hb : b.Balanced) :
    (w.commit i).bank = w.bank.post b.entries := by
  have htx := h.tx
  simp only [World.bank, World.commit, World.apply, World.release_wallets, World.release_ledger,
    htx, hb.writes, Bank.post]

theorem True.posts (h : b.True i w) (hb : b.Accounted) : b.request.Posts w.Owns w.Priced b.entries :=
  Request.Posts.mono hb (fun _ _ hp => h.owners _ hp) (fun _ _ hp => h.prices _ hp)

end Books

end FlashWallet
