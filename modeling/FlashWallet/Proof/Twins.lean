import FlashWallet.Proof.Debits
import FlashWallet.Proof.Transfers

/-!
# Identical transfers

Any number of calls make one and the same transfer, and nobody else touches the two wallets. Until one
of them has committed, both wallets are what they were at the start, so what happens behind the locks
does not depend on which of the calls it happens to: either the start admits the transfer
(`World.Admits`) and whoever gets there first commits it, or it does not and everybody is refused.
What breaks this is a call that gets there second: it made up its mind before it waited for the lock.
-/

set_option autoImplicit false

namespace FlashWallet

open Lib

/-! ## The two wallets -/

/-- A transfer by `userId` under `key` is in the ledger. -/
def World.Sent (w : World) (userId : Uuid) (key : String) : Prop :=
  ∃ e ∈ w.ledger, e.type = .TRANSFER_OUT ∧ e.referenceId = key ∧ w.Owns e.walletId userId

/-- The recipient's balance after the transfer fits its column. -/
def Wallet.takes (recipient : Wallet) (amount : Int) : Prop :=
  (Decimal.plus recipient.balance.toDecimal amount).natAbs < columnBound

/-- Two wallets between which the transfer can be booked. -/
structure World.Carries (w : World) (dto : TransferDto) (sender recipient : Wallet) : Prop where
  funds : dto.amount ≤ sender.balance.cents
  takes : recipient.takes dto.amount
  free : ∀ e ∈ w.ledger, e.key ≠ (recipient.id, dto.idempotencyKey, .TRANSFER_IN)

/-- The transfer would go through. -/
def World.Admits (w : World) (userId : Uuid) (dto : TransferDto) : Prop :=
  dto.toUserId ≠ userId ∧ ∃ sender ∈ w.wallets, ∃ recipient ∈ w.wallets, sender.userId = userId ∧
    recipient.userId = dto.toUserId ∧ w.Carries dto sender recipient

/-- Call `i` has locked the row, and it is the committed one. -/
def World.Holds (w : World) (i : Nat) (row : Wallet) : Prop :=
  row ∈ w.wallets ∧ w.holder row.id = some i

theorem World.Holds.rely {w w' : World} {i : Nat} {row : Wallet} (h : w.Holds i row)
    (hr : w.Rely i w') : w'.Holds i row :=
  ⟨hr.rows row h.1 h.2, (hr.holder row.id).mpr h.2⟩

theorem World.Sent.mono {w w' : World} {userId : Uuid} {key : String} (h : w.Sent userId key)
    (hw : w.Evolves w') : w'.Sent userId key :=
  let ⟨e, he, htype, href, howns⟩ := h
  ⟨e, hw.mem_ledger he, htype, href, hw.owns _ _ howns⟩

/-- Whose wallet an entry was booked in is known when it is booked. -/
theorem World.Ok.owns_back {w w' : World} (hw : w.Ok) (hw' : w'.Ok) (h : w.Evolves w') {e : LedgerEntry}
    (he : e ∈ w.ledger) {userId : Uuid} (howns : w'.Owns e.walletId userId) :
    w.Owns e.walletId userId := by
  obtain ⟨⟨id, u⟩, hp, rfl⟩ := List.mem_map.mp (hw.entriesOwned 0 e (List.mem_append_left _ he))
  obtain rfl := hw'.owner_unique (h.owns _ _ hp) howns
  exact hp

/-- A transfer comes into the ledger by a commit of the call that holds the sender's row. -/
theorem World.Ok.sent_served {w w' : World} (hw : w.Ok) {i : Nat} {o : Stmt} {r : Except Err o.Reply}
    (hs : World.Served i w o r w') {userId : Uuid} {key : String} (hsent : w'.Sent userId key) :
    w.Sent userId key ∨ Commits o r ∧ ∃ id, w'.Owns id userId ∧ w.holder id = some i := by
  obtain ⟨e, he, htype, href, howns⟩ := hsent
  rcases World.posted_held hw hs he with he | ⟨hcommits, hheld⟩
  · exact Or.inl ⟨e, he, htype, href, hw.owns_back (hw.served hs) (.served hs) he howns⟩
  · exact Or.inr ⟨hcommits, e.walletId, howns, hheld⟩

/-! ## The scene -/

/-- How far the world `w` may have moved from `w₀` while only such transfers touch the two wallets. -/
structure Scene (w₀ w : World) (userId : Uuid) (dto : TransferDto) : Prop where
  world₀ : w₀.Ok
  bank₀ : w₀.bank.Ok
  world : w.Ok
  bank : w.bank.Ok
  evolves : w₀.Evolves w
  owned : ∀ id u, u = userId ∨ u = dto.toUserId → w.Owns id u → w₀.Owns id u
  untouched : ¬w.Sent userId dto.idempotencyKey → ∀ id u, u = userId ∨ u = dto.toUserId →
    w.Owns id u → listing w.ledger id = listing w₀.ledger id
  sent : w.Sent userId dto.idempotencyKey → w₀.Admits userId dto
  cache : ∀ v, w.cache (WalletService.idemKey userId dto.idempotencyKey) = some v →
    w.Owns v.toWalletId dto.toUserId

/-- Call `i` holds both rows, and nobody has sent the transfer. -/
structure Grip (w₀ w : World) (i : Nat) (userId : Uuid) (dto : TransferDto)
    (sender recipient : Wallet) : Prop where
  other : dto.toUserId ≠ userId
  ownsSender : w₀.Owns sender.id userId
  ownsRecipient : w₀.Owns recipient.id dto.toUserId
  holdsSender : w.Holds i sender
  holdsRecipient : w.Holds i recipient
  unsent : ¬w.Sent userId dto.idempotencyKey

section

variable {w₀ w : World} {i : Nat} {userId : Uuid} {dto : TransferDto} {sender recipient : Wallet}

/-- Before the transfer is sent, a wallet's balance is the one it had at the start. -/
theorem Scene.balance (h : Scene w₀ w userId dto) (hno : ¬w.Sent userId dto.idempotencyKey) {u : Uuid}
    (hu : u = userId ∨ u = dto.toUserId) {row row₀ : Wallet} (hrow : row ∈ w.wallets)
    (huser : row.userId = u) (hrow₀ : row₀ ∈ w₀.wallets) (hid : row₀.id = row.id) :
    row.balance = row₀.balance := by
  have hlisting := h.untouched hno row.id u hu (huser ▸ World.owns_of_mem hrow)
  have hsettled := (h.bank.settled row hrow).balance
  rw [show listing w.bank.ledger row.id = listing w₀.ledger row.id from hlisting, ← hid] at hsettled
  exact Money.ext (hsettled.trans (h.bank₀.settled row₀ hrow₀).balance.symm)

/-- The two rows a call holds are those of the start. -/
theorem Grip.rows (h : Grip w₀ w i userId dto sender recipient) (hscene : Scene w₀ w userId dto) :
    ∃ sender₀ ∈ w₀.wallets, ∃ recipient₀ ∈ w₀.wallets, sender₀.userId = userId ∧
      recipient₀.userId = dto.toUserId ∧ sender₀.balance = sender.balance ∧
      recipient₀.id = recipient.id ∧ recipient₀.balance = recipient.balance := by
  obtain ⟨sender₀, hsender₀, hsid, hsuser⟩ := h.ownsSender.row
  obtain ⟨recipient₀, hrecipient₀, hrid, hruser⟩ := h.ownsRecipient.row
  have howner : ∀ {row : Wallet} {u : Uuid}, w.Holds i row → w₀.Owns row.id u → row.userId = u :=
    fun hrow hu => hscene.world.owner_unique (World.owns_of_mem hrow.1) (hscene.evolves.owns _ _ hu)
  exact ⟨sender₀, hsender₀, recipient₀, hrecipient₀, hsuser, hruser,
    (hscene.balance h.unsent (Or.inl rfl) h.holdsSender.1 (howner h.holdsSender h.ownsSender) hsender₀
      hsid).symm, hrid,
    (hscene.balance h.unsent (Or.inr rfl) h.holdsRecipient.1 (howner h.holdsRecipient h.ownsRecipient)
      hrecipient₀ hrid).symm⟩

/-- The recipient's entries are those of the start. -/
theorem Grip.free (h : Grip w₀ w i userId dto sender recipient) (hscene : Scene w₀ w userId dto) :
    (∀ e ∈ w.ledger, e.key ≠ (recipient.id, dto.idempotencyKey, .TRANSFER_IN)) ↔
      ∀ e ∈ w₀.ledger, e.key ≠ (recipient.id, dto.idempotencyKey, .TRANSFER_IN) := by
  have hlisting := hscene.untouched h.unsent recipient.id _ (Or.inr rfl)
    (hscene.evolves.owns _ _ h.ownsRecipient)
  have hkeyed : ∀ {e : LedgerEntry}, e.key = (recipient.id, dto.idempotencyKey, .TRANSFER_IN) →
      e.walletId = recipient.id := fun hkey => congrArg Prod.fst hkey
  refine ⟨fun hfree e he hkey => hfree e ?_ hkey, fun hfree e he hkey => hfree e ?_ hkey⟩
  · exact (mem_listing.mp (hlisting ▸ mem_listing.mpr ⟨he, hkeyed hkey⟩)).1
  · exact (mem_listing.mp (hlisting ▸ mem_listing.mpr ⟨he, hkeyed hkey⟩)).1

/-- **Behind the locks a call sees what the start admits.** -/
theorem Grip.admits (h : Grip w₀ w i userId dto sender recipient) (hscene : Scene w₀ w userId dto) :
    w.Carries dto sender recipient ↔ w₀.Admits userId dto := by
  obtain ⟨sender₀, hsender₀, recipient₀, hrecipient₀, hsuser, hruser, hsbalance, hrid, hrbalance⟩ :=
    h.rows hscene
  constructor
  · intro hcarries
    refine ⟨h.other, sender₀, hsender₀, recipient₀, hrecipient₀, hsuser, hruser, ?_, ?_, ?_⟩
    · rw [hsbalance]
      exact hcarries.funds
    · rw [Wallet.takes, hrbalance]
      exact hcarries.takes
    · rw [hrid]
      exact (h.free hscene).mp hcarries.free
  · rintro ⟨-, sender₁, hsender₁, recipient₁, hrecipient₁, hsuser₁, hruser₁, hcarries⟩
    obtain rfl := hscene.world₀.wallet_ext_user hsender₀ hsender₁ (hsuser.trans hsuser₁.symm)
    obtain rfl := hscene.world₀.wallet_ext_user hrecipient₀ hrecipient₁ (hruser.trans hruser₁.symm)
    refine ⟨?_, ?_, ?_⟩
    · rw [← hsbalance]
      exact hcarries.funds
    · rw [Wallet.takes, ← hrbalance]
      exact hcarries.takes
    · refine (h.free hscene).mpr ?_
      rw [← hrid]
      exact hcarries.free

theorem Grip.rely {w' : World} (h : Grip w₀ w i userId dto sender recipient)
    (hr : w.Rely i w') (hunsent : ¬w'.Sent userId dto.idempotencyKey) :
    Grip w₀ w' i userId dto sender recipient :=
  ⟨h.other, h.ownsSender, h.ownsRecipient, h.holdsSender.rely hr, h.holdsRecipient.rely hr, hunsent⟩

/-! ## What a transit says -/

/-- What call `i` has found out, and what it holds, when it is at a transit. -/
def Transit.Fits (w₀ w : World) (i : Nat) (userId : Uuid) (dto : TransferDto) : Transit → Prop
  | .asked | .missed => True
  | .known none => ¬w₀.Admits userId dto
  | .known (some row) => w₀.Owns row.id userId
  | .named sender recipient | .unsent sender recipient =>
    w₀.Owns sender userId ∧ w₀.Owns recipient dto.toUserId
  | .waiting sender recipient first =>
    w₀.Owns sender userId ∧ w₀.Owns recipient dto.toUserId ∧ w.Holds i first ∧
      first.id = (WalletService.sort sender recipient).1 ∧
      (first.id = sender → ¬w.Sent userId dto.idempotencyKey)
  | .locked sender recipient => Grip w₀ w i userId dto sender recipient
  | .debited sender recipient =>
    Grip w₀ w i userId dto sender recipient ∧ dto.amount ≤ sender.balance.cents
  | .credited sender recipient | .outBooked sender recipient =>
    Grip w₀ w i userId dto sender recipient ∧ dto.amount ≤ sender.balance.cents ∧
      recipient.takes dto.amount
  | .ready result => w.Owns result.toWalletId dto.toUserId ∧
    (w.Sent userId dto.idempotencyKey ∨ w₀.Admits userId dto)
  | .failing _ | .refused _ => ¬w₀.Admits userId dto
  | .made result | .answered result => w.Owns result.toWalletId dto.toUserId

/-- The entries call `i` has written so far, at a transit. -/
def Transit.Written (entries : List LedgerEntry) : Transit → Prop
  | .outBooked .. => ∀ e ∈ entries, e.type = .TRANSFER_OUT
  | .ready _ | .failing _ | .made _ | .answered _ | .refused _ => True
  | _ => entries = []

/-- **Others keep a transit true**: they neither take a row away nor send the transfer while the
sender's row is held. -/
theorem Transit.Fits.rely {w' : World} {t : Transit} (h : t.Fits w₀ w i userId dto)
    (hr : w.Rely i w') (hevolves : w₀.Evolves w)
    (hquiet : ∀ id, w.Owns id userId → w.holder id = some i →
      ¬w.Sent userId dto.idempotencyKey → ¬w'.Sent userId dto.idempotencyKey) :
    t.Fits w₀ w' i userId dto := by
  have hgrip : ∀ {sender recipient : Wallet}, Grip w₀ w i userId dto sender recipient →
      Grip w₀ w' i userId dto sender recipient := fun hg =>
    hg.rely hr (hquiet _ (hevolves.owns _ _ hg.ownsSender) hg.holdsSender.2 hg.unsent)
  cases t with
  | known found => cases found <;> exact h
  | waiting sender recipient first =>
    obtain ⟨hs, hrec, hholds, hid, hunsent⟩ := h
    exact ⟨hs, hrec, hholds.rely hr, hid, fun heq =>
      hquiet _ (hevolves.owns _ _ (heq ▸ hs)) hholds.2 (hunsent heq)⟩
  | locked => exact hgrip h
  | debited => exact ⟨hgrip h.1, h.2⟩
  | credited | outBooked => exact ⟨hgrip h.1, h.2⟩
  | ready result => exact ⟨hr.owns _ _ h.1, h.2.imp_left fun hsent => hsent.mono hr.toEvolves⟩
  | made | answered => exact hr.owns _ _ h
  | _ => exact h

/-- Locking and buffering leave the ledger alone, so nothing is sent. -/
theorem World.sent_congr {w' : World} {key : String} (hledger : w'.ledger = w.ledger)
    (hwallets : w'.wallets = w.wallets) : w'.Sent userId key ↔ w.Sent userId key := by
  simp only [World.Sent, World.Owns, hledger, hwallets]

/-- A call that writes under its locks keeps its grip. -/
theorem Grip.writes (h : Grip w₀ w i userId dto sender recipient) {w' : World}
    (hheld : ∀ id', w.holder id' = some i → w'.holder id' = some i)
    (hledger : w'.ledger = w.ledger) (hwallets : w'.wallets = w.wallets) :
    Grip w₀ w' i userId dto sender recipient where
  other := h.other
  ownsSender := h.ownsSender
  ownsRecipient := h.ownsRecipient
  holdsSender := ⟨hwallets ▸ h.holdsSender.1, hheld _ h.holdsSender.2⟩
  holdsRecipient := ⟨hwallets ▸ h.holdsRecipient.1, hheld _ h.holdsRecipient.2⟩
  unsent := (World.sent_congr hledger hwallets).not.mpr h.unsent

/-! ## What a call's own statements make of it -/

variable {w' : World} {x : Choice}

/-- A lock is granted on the committed row. -/
theorem lock_next (hscene : Scene w₀ w userId dto) (hx : x ≠ .fault) {id u : Uuid}
    {reply : Except Err (Option Wallet)}
    (hexec : World.exec i (.walletForUpdate id) x w = some (reply, w')) (howns : w₀.Owns id u) :
    ∃ row, reply = .ok (some row) ∧ row.id = id ∧ w'.Holds i row ∧ w'.ledger = w.ledger ∧
      w'.wallets = w.wallets ∧ ∀ row', w.Holds i row' → w'.Holds i row' := by
  obtain ⟨v, rfl⟩ := World.answered hx hexec rfl
  have hs := World.Served.of_exec hexec
  obtain ⟨row, hfound, -⟩ := (hscene.evolves.owns _ _ howns).found hscene.world
  obtain ⟨hrow, rfl⟩ := World.wallet?_eq_some hfound
  generalize hr : (Except.ok v : Except Err (Option Wallet)) = r at hs
  cases hs with
  | read _ _ answer => cases answer
  | lockMissing id missing => rw [hfound] at missing; cases missing
  | locked id row' free found =>
    cases hr
    obtain rfl := Option.some.inj (hfound.symm.trans found)
    exact ⟨row, rfl, rfl, ⟨hrow, World.lock_holder_self w i row.id⟩, rfl, rfl,
      fun row' hheld => ⟨hheld.1, World.lock_holder free hheld.2⟩⟩

/-- Writing a balance of a wallet that is held. -/
theorem update_next (hscene : Scene w₀ w userId dto) (hx : x ≠ .fault)
    (hgrip : Grip w₀ w i userId dto sender recipient) {row : Wallet} {balance : Int}
    {reply : Except Err Wallet} (hrow : row ∈ w.wallets)
    (hexec : World.exec i (.walletUpdate row.id balance) x w = some (reply, w')) :
    (∃ updated, reply = .ok updated ∧ balance.natAbs < columnBound ∧
      Grip w₀ w' i userId dto sender recipient ∧ (w'.tx i).entries = (w.tx i).entries) ∨
    ∃ err, reply = .error err ∧ columnBound ≤ balance.natAbs := by
  have hfound := hscene.world.wallet?_of_mem hrow
  cases reply with
  | error err =>
    rcases World.refuses_of_error hx hexec with ⟨-, hmissing⟩ | ⟨-, hoverflow⟩
    · rw [hfound] at hmissing
      cases hmissing
    · exact Or.inr ⟨err, rfl, hoverflow⟩
  | ok updated =>
    have hs := World.Served.of_exec hexec
    generalize hr : (Except.ok updated : Except Err Wallet) = r at hs
    cases hs with
    | read _ _ answer => cases answer
    | failed | refused => cases hr
    | updated _ _ row' m free found fits =>
      refine Or.inl ⟨updated, hr.symm ▸ rfl, ?_, ?_, by rw [World.setTx_self]⟩
      · rw [← Money.ofDecimal?_eq_some.mp fits]
        exact m.inColumn
      · exact hgrip.writes (fun _ hheld => World.lock_holder free hheld) rfl rfl

/-- Writing an entry of a wallet that is held. -/
theorem entry_next (hscene : Scene w₀ w userId dto) (hx : x ≠ .fault)
    (hgrip : Grip w₀ w i userId dto sender recipient) {row : Wallet} (hrow : row ∈ w.wallets)
    {d : NewLedgerEntry} (hd : d.walletId = row.id) {reply : Except Err LedgerEntry}
    (hamount : d.amount.natAbs < columnBound) (hafter : d.balanceAfter.natAbs < columnBound)
    (hexec : World.exec i (.ledgerEntryCreate d) x w = some (reply, w')) :
    (∃ e, reply = .ok e ∧ e.key = (d.walletId, d.referenceId, d.type) ∧
      (∀ e' ∈ w.ledger, e'.key ≠ (d.walletId, d.referenceId, d.type)) ∧
      (w'.tx i).entries = (w.tx i).entries ++ [e] ∧ Grip w₀ w' i userId dto sender recipient) ∨
    ∃ err, reply = .error err ∧
      ∃ e' ∈ w.ledger ++ (w.tx i).entries, e'.key = (d.walletId, d.referenceId, d.type) := by
  have hfound := hscene.world.wallet?_of_mem hrow
  cases reply with
  | error err =>
    rcases World.refuses_of_error hx hexec with ⟨-, hmissing⟩ | ⟨-, hoverflow⟩ | ⟨-, htaken⟩
    · rw [hd, hfound] at hmissing
      cases hmissing
    · omega
    · exact Or.inr ⟨err, rfl, htaken⟩
  | ok e =>
    have hs := World.Served.of_exec hexec
    generalize hr : (Except.ok e : Except Err LedgerEntry) = r at hs
    cases hs with
    | read _ _ answer => cases answer
    | failed | refused => cases hr
    | entered _ e' row' free found amount balanceAfter key unique =>
      cases hr
      refine Or.inl ⟨e, rfl, key, fun e' he' => key ▸ unique e' (List.mem_append_left _ he'),
        by rw [World.setTx_self], ?_⟩
      exact hgrip.writes (fun _ hheld => World.lock_holder free hheld) rfl rfl

/-- A user without a wallet neither sends nor receives. -/
theorem not_admits_of_missing (hevolves : w₀.Evolves w) {u : Uuid}
    (hu : u = userId ∨ u = dto.toUserId) (hmissing : w.walletOf? u = none) :
    ¬w₀.Admits userId dto := by
  rintro ⟨-, sender, hsender, recipient, hrecipient, hsuser, hruser, -⟩
  have hno : ∀ row ∈ w.wallets, row.userId ≠ u := fun row hrow heq =>
    absurd (List.find?_eq_none.mp hmissing row hrow) (by simp [heq])
  have hkept : ∀ row ∈ w₀.wallets, row.userId ≠ u := fun row hrow heq => by
    obtain ⟨row', hrow', -, huser⟩ := (hevolves.owns _ _ (World.owns_of_mem hrow)).row
    exact hno row' hrow' (huser.trans heq)
  rcases hu with rfl | rfl
  · exact hkept sender hsender hsuser
  · exact hkept recipient hrecipient hruser

/-- Whichever of the two rows comes first, both are somebody's. -/
theorem sort_owned {w : World} {sender recipient u u' : Uuid} (hsender : w.Owns sender u)
    (hrecipient : w.Owns recipient u') :
    (∃ v, w.Owns (WalletService.sort sender recipient).1 v) ∧
      ∃ v, w.Owns (WalletService.sort sender recipient).2 v := by
  rcases WalletService.sort_cases sender recipient with hsort | hsort <;> rw [hsort]
  · exact ⟨⟨_, hsender⟩, _, hrecipient⟩
  · exact ⟨⟨_, hrecipient⟩, _, hsender⟩

/-- **A call's own statement keeps its transit true**, as long as it does not lock the sender's row
when the transfer has been sent. -/
theorem fits_next {t : Transit} {o : Stmt} {reply : Except Err o.Reply}
    (hscene : Scene w₀ w userId dto) (hx : x ≠ .fault)
    (hexec : World.exec i o x w = some (reply, w')) (may : Transit.May userId dto t o)
    (hother : t ≠ .asked → dto.toUserId ≠ userId)
    (hearly : ∀ id, o = .walletForUpdate id → w₀.Owns id userId →
      ¬w.Sent userId dto.idempotencyKey)
    (hwritten : t.Written (w.tx i).entries) (h : t.Fits w₀ w i userId dto) :
    (t.next dto o reply).Fits w₀ w' i userId dto := by
  have hs := World.Served.of_exec hexec
  have hevolves := World.Evolves.served hs
  have hpositive := dto.isPositive
  cases may with
  | look other =>
    obtain ⟨found, rfl⟩ := World.answered hx hexec rfl
    cases found with
    | none => trivial
    | some cached =>
      generalize hr : (Except.ok (some cached) : Except Err (Option TransferResult)) = r at hs
      cases hs with
      | read _ v answer =>
        cases hr
        exact hscene.cache cached (Option.some.inj answer)
  | findSender =>
    obtain ⟨found, rfl⟩ := World.answered hx hexec rfl
    obtain ⟨rfl, rfl⟩ := hs.of_read rfl (by simp)
    cases hfound : w'.walletOf? userId with
    | none => exact not_admits_of_missing hscene.evolves (Or.inl rfl) hfound
    | some row =>
      obtain ⟨hrow, huser⟩ := World.walletOf?_eq_some hfound
      exact hscene.owned _ _ (Or.inl rfl) (huser ▸ World.owns_of_mem hrow)
  | findRecipient sender =>
    obtain ⟨found, rfl⟩ := World.answered hx hexec rfl
    obtain ⟨rfl, rfl⟩ := hs.of_read rfl (by simp)
    cases sender with
    | none => exact h
    | some sender =>
      cases hfound : w'.walletOf? dto.toUserId with
      | none => exact not_admits_of_missing hscene.evolves (Or.inr rfl) hfound
      | some row =>
        obtain ⟨hrow, huser⟩ := World.walletOf?_eq_some hfound
        exact ⟨h, hscene.owned _ _ (Or.inr rfl) (huser ▸ World.owns_of_mem hrow)⟩
  | findDebit sender recipient =>
    obtain ⟨found, rfl⟩ := World.answered hx hexec rfl
    obtain ⟨rfl, rfl⟩ := hs.of_read rfl (by simp)
    cases hfound : w'.entryOf? (sender, dto.idempotencyKey, .TRANSFER_OUT) with
    | none => exact h
    | some existing =>
      obtain ⟨hmem, hkey⟩ := World.entryOf?_eq_some hfound
      simp only [LedgerEntry.key, Prod.mk.injEq] at hkey
      exact ⟨hscene.evolves.owns _ _ h.2, Or.inl ⟨existing, hmem, hkey.2.2, hkey.2.1,
        hkey.1 ▸ hscene.evolves.owns _ _ h.1⟩⟩
  | lockFirst sender recipient =>
    obtain ⟨hsender, hrecipient⟩ := h
    obtain ⟨⟨u, howns⟩, -⟩ := sort_owned hsender hrecipient
    obtain ⟨first, rfl, hid, hholds, hledger, hwallets, -⟩ := lock_next hscene hx hexec howns
    -- locking the sender's row is what `hearly` asks to come before the transfer is sent
    refine ⟨hsender, hrecipient, hholds, hid, fun heq => ?_⟩
    exact (World.sent_congr hledger hwallets).not.mpr (hearly _ rfl (hid ▸ heq ▸ hsender))
  | lockSecond sender recipient first =>
    obtain ⟨hsender, hrecipient, hfirst, hfid, hunsent⟩ := h
    obtain ⟨-, u, howns⟩ := sort_owned hsender hrecipient
    obtain ⟨second, rfl, hsid, hsecond, hledger, hwallets, hheld⟩ := lock_next hscene hx hexec howns
    obtain ⟨hsi, hri⟩ := WalletService.locked_ids hfid hsid
    have hboth : ∀ b : Prop, [Decidable b] → w'.Holds i (if b then first else second) := fun b _ => by
      split
      exacts [hheld first hfirst, hsecond]
    refine ⟨hother (by rintro ⟨⟩), hsi.symm ▸ hsender, hri.symm ▸ hrecipient, hboth _, hboth _, ?_⟩
    refine (World.sent_congr hledger hwallets).not.mpr ?_
    by_cases heq : first.id = sender
    · exact hunsent heq
    · rw [if_neg heq] at hsi
      exact hearly _ rfl (hsid ▸ hsi.symm ▸ hsender)
  | refuse sender recipient short =>
    obtain ⟨v, rfl⟩ := World.answered hx hexec rfl
    exact fun hadmits => absurd ((Grip.admits h hscene).mpr hadmits).funds (Int.not_le.mpr short)
  | debit sender recipient funds =>
    rcases update_next hscene hx h h.holdsSender.1 hexec with
      ⟨updated, rfl, -, hgrip, -⟩ | ⟨err, rfl, hoverflow⟩
    · exact ⟨hgrip, funds⟩
    -- a debit that is covered cannot overflow the column
    · exact absurd hoverflow (Nat.not_le.mpr (Decimal.minus_inColumn (by omega) funds))
  | credit sender recipient =>
    obtain ⟨hgrip, hfunds⟩ := h
    rcases update_next hscene hx hgrip hgrip.holdsRecipient.1 hexec with
      ⟨updated, rfl, htakes, hgrip', -⟩ | ⟨err, rfl, hoverflow⟩
    · exact ⟨hgrip', hfunds, htakes⟩
    -- a credit can, and then the wallets do not admit the transfer either
    · exact fun hadmits => absurd ((hgrip.admits hscene).mpr hadmits).takes (Nat.not_lt.mpr hoverflow)
  | bookOut sender recipient =>
    obtain ⟨hgrip, hfunds, htakes⟩ := h
    have hcolumn := sender.balance.inColumn
    rcases entry_next hscene hx hgrip hgrip.holdsSender.1 rfl
      (by simp only [Decimal.negated, Int.natAbs_neg]; omega)
      (Decimal.minus_inColumn (by omega) hfunds) hexec with
      ⟨e, rfl, -, -, -, hgrip'⟩ | ⟨err, rfl, e, he, hkey⟩
    · exact ⟨hgrip', hfunds, htakes⟩
    · rw [show (w.tx i).entries = [] from hwritten, List.append_nil] at he
      simp only [LedgerEntry.key, Prod.mk.injEq] at hkey
      exact absurd ⟨e, he, hkey.2.2, hkey.2.1,
        hkey.1 ▸ hscene.evolves.owns _ _ hgrip.ownsSender⟩ hgrip.unsent
  | bookIn sender recipient =>
    obtain ⟨hgrip, hfunds, htakes⟩ := h
    have hcolumn := sender.balance.inColumn
    rcases entry_next hscene hx hgrip hgrip.holdsRecipient.1 rfl (by dsimp only; omega)
      (by exact htakes) hexec with
      ⟨e, rfl, -, hfree, -, hgrip'⟩ | ⟨err, rfl, e, he, hkey⟩
    · exact ⟨hevolves.owns _ _ (hscene.evolves.owns _ _ hgrip.ownsRecipient),
        Or.inr ((hgrip.admits hscene).mp ⟨hfunds, htakes, hfree⟩)⟩
    -- the index answers for a row of the ledger, or for one this transaction has written itself
    · rcases List.mem_append.mp he with he | he
      · exact fun hadmits => ((hgrip.admits hscene).mpr hadmits).free e he hkey
      · simp only [LedgerEntry.key, Prod.mk.injEq] at hkey
        exact absurd (hkey.2.2.symm.trans (hwritten e he)) (by decide)
  | commit result =>
    obtain ⟨v, rfl⟩ := World.answered hx hexec rfl
    exact hevolves.owns _ _ h.1
  | rollback err =>
    obtain ⟨v, rfl⟩ := World.answered hx hexec rfl
    exact h
  | save result =>
    obtain ⟨v, rfl⟩ := World.answered hx hexec rfl
    exact hevolves.owns _ _ h

/-- What a call's own statement leaves in its buffer. -/
theorem written_next {t : Transit} {o : Stmt} {reply : Except Err o.Reply}
    (hs : World.Served i w o reply w') (may : Transit.May userId dto t o) (h : t.Written (w.tx i).entries) :
    (t.next dto o reply).Written (w'.tx i).entries := by
  have hkept : o.buffers = false → (w'.tx i).entries = (w.tx i).entries := World.entries_served hs
  cases may with
  | findRecipient sender =>
    rw [hkept rfl]
    rcases reply with _ | _ | _ <;> cases sender <;> first | exact h | trivial
  | look | findSender | findDebit | lockFirst | lockSecond =>
    rw [hkept rfl]
    rcases reply with _ | _ | _ <;> first | exact h | trivial
  | debit | credit =>
    rw [hkept rfl]
    cases reply <;> first | exact h | trivial
  | bookOut sender recipient =>
    cases reply with
    | error err => trivial
    | ok e =>
      have hentries : (w.tx i).entries = [] := h
      have htype : e.type = .TRANSFER_OUT := congrArg (·.2.2) hs.answers.1
      generalize hr : (Except.ok e : Except Err LedgerEntry) = r at hs
      cases hs with
      | read _ _ answer => cases answer
      | entered =>
        cases hr
        rw [World.setTx_self, hentries]
        intro e' he'
        exact List.mem_singleton.mp he' ▸ htype
  | bookIn => cases reply <;> trivial
  | commit => cases reply <;> trivial
  | refuse | rollback | save => cases reply <;> trivial

/-! ## A call among its twins -/

/-- Call `i` makes the transfer, and is at a transit that is true of the world. -/
structure Twin (w₀ w : World) (i : Nat) (userId : Uuid) (dto : TransferDto) (t : Transit) : Prop where
  fits : t.Fits w₀ w i userId dto
  written : t.Written (w.tx i).entries
  other : t ≠ .asked → dto.toUserId ≠ userId

theorem Twin.rely {t : Transit} (h : Twin w₀ w i userId dto t) (hr : w.Rely i w')
    (hevolves : w₀.Evolves w)
    (hquiet : ∀ id, w.Owns id userId → w.holder id = some i →
      ¬w.Sent userId dto.idempotencyKey → ¬w'.Sent userId dto.idempotencyKey) :
    Twin w₀ w' i userId dto t where
  fits := h.fits.rely hr hevolves hquiet
  written := hr.tx ▸ h.written
  other := h.other

theorem Twin.next {t : Transit} {o : Stmt} {reply : Except Err o.Reply}
    (h : Twin w₀ w i userId dto t) (hscene : Scene w₀ w userId dto) (hx : x ≠ .fault)
    (hexec : World.exec i o x w = some (reply, w')) (may : Transit.May userId dto t o)
    (hearly : ∀ id, o = .walletForUpdate id → w₀.Owns id userId →
      ¬w.Sent userId dto.idempotencyKey) : Twin w₀ w' i userId dto (t.next dto o reply) where
  fits := fits_next hscene hx hexec may h.other hearly h.written h.fits
  written := written_next (.of_exec hexec) may h.written
  other _ := by
    cases may with
    | look other => exact other
    | _ => exact h.other nofun

/-- What a twin sends, the start admits. -/
theorem Twin.admits {t : Transit} {o : Stmt} {reply : Except Err o.Reply}
    (h : Twin w₀ w i userId dto t) (may : Transit.May userId dto t o)
    (hs : World.Served i w o reply w') (hw : w.Ok) (hno : ¬w.Sent userId dto.idempotencyKey)
    (hsent : w'.Sent userId dto.idempotencyKey) : w₀.Admits userId dto := by
  obtain ⟨hcommits, -⟩ := (hw.sent_served hs hsent).resolve_left hno
  cases may with
  | commit result => exact h.fits.2.resolve_left hno
  | _ => exact hcommits.elim

end

end FlashWallet
