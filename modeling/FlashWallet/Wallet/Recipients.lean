import FlashWallet.Lib.Solo
import FlashWallet.Proof.Draft
import FlashWallet.Proof.References
import FlashWallet.Proof.Runs
import FlashWallet.Proof.Transfers

/-!
# Senders and their common recipient

A transfer with the database to itself goes through, if it is the sender's first under its key and the
sender can pay: unless somebody else has paid the recipient under the same key. The key is the sender's
own, in the cache and in the lookup; as the reference of the recipient's entry it meets those of every
other sender, in one unique index.

What follows runs `transfer` through, statement by statement, up to the one statement that may be
refused.
-/

set_option autoImplicit false

namespace FlashWallet

open Lib

/-! ## What is asked -/

/-- Request `r` is made in state `c`, and its call takes `n` steps, nobody else any. -/
def runAlone (c : State) (r : Request) (n : Nat) : Option State :=
  execute system.step (system.arrive c r) (runs c.calls.length n)

/-- The amount has gone from one balance to the other, and the transfer's two entries are what the
ledger has gained. -/
structure World.Transferred (w w' : World) (userId : Uuid) (dto : TransferDto)
    (sender recipient : Wallet) : Prop where
  debited : ∃ row, w'.walletOf? userId = some row ∧
    row.balance.cents = sender.balance.cents - dto.amount
  credited : ∃ row, w'.walletOf? dto.toUserId = some row ∧
    row.balance.cents = recipient.balance.cents + dto.amount
  booked : ∃ out inn, w'.ledger = w.ledger ++ [out, inn] ∧
    out.key = (sender.id, dto.idempotencyKey, .TRANSFER_OUT) ∧ out.amount.cents = -dto.amount ∧
    inn.key = (recipient.id, dto.idempotencyKey, .TRANSFER_IN) ∧ inn.amount.cents = dto.amount

/-- Run alone from `c`, the transfer returns a result and is committed. -/
def CommitsAlone (c : State) (userId : Uuid) (dto : TransferDto) (sender recipient : Wallet) : Prop :=
  ∃ n c' v, runAlone c (.transfer userId dto) n = some c' ∧
    c'.calls[c.calls.length]?.bind Call.result? = some (.ok (.transferred v)) ∧
    c.world.Transferred c'.world userId dto sender recipient

/-- The transfer can be made: the two users are not one, they have wallets, the sender can pay, the
recipient's column can hold the sum, and the sender has made none under this key. -/
structure World.Payable (w : World) (userId : Uuid) (dto : TransferDto) (sender recipient : Wallet) :
    Prop where
  other : dto.toUserId ≠ userId
  ofSender : w.walletOf? userId = some sender
  ofRecipient : w.walletOf? dto.toUserId = some recipient
  funds : dto.amount ≤ sender.balance.cents
  fits : (recipient.balance.cents + dto.amount).natAbs < columnBound
  unsent : w.entryOf? (sender.id, dto.idempotencyKey, .TRANSFER_OUT) = none

/-- No open transaction holds either wallet. -/
def World.Unlocked (w : World) (sender recipient : Wallet) : Prop :=
  w.holder sender.id = none ∧ w.holder recipient.id = none

/-! ## The transfer, run through -/

section

variable {w₀ w : World} {i : Nat} {userId : Uuid} {dto : TransferDto} {sender recipient : Wallet}

theorem World.Payable.wallets (h : w.Payable userId dto sender recipient) (hw : w.Ok) :
    w.wallet? sender.id = some sender ∧ w.wallet? recipient.id = some recipient ∧
      sender.id ≠ recipient.id := by
  obtain ⟨hsender, hsuser⟩ := World.walletOf?_eq_some h.ofSender
  obtain ⟨hrecipient, hruser⟩ := World.walletOf?_eq_some h.ofRecipient
  refine ⟨hw.wallet?_of_mem hsender, hw.wallet?_of_mem hrecipient, fun hid => h.other ?_⟩
  rw [← hruser, ← hsuser, hw.wallet_ext hsender hrecipient hid]

/-- What the transfer writes fits its columns. -/
theorem World.Payable.columns (h : w.Payable userId dto sender recipient) :
    ∃ debited credited amount negated,
      Money.ofDecimal? (Decimal.minus sender.balance.toDecimal dto.amount) = some debited ∧
      Money.ofDecimal? (Decimal.plus recipient.balance.toDecimal dto.amount) = some credited ∧
      Money.ofDecimal? dto.amount = some amount ∧
      Money.ofDecimal? (Decimal.negated dto.amount) = some negated := by
  have hpositive := dto.isPositive
  have hcolumn := sender.balance.inColumn
  have hfunds := h.funds
  obtain ⟨debited, hdebited, -⟩ := Money.exists_ofDecimal?
    (Decimal.minus_inColumn (by omega) hfunds)
  obtain ⟨credited, -, hcredited⟩ := Money.exists_ofDecimal? h.fits
  obtain ⟨amount, hamount, -⟩ := Money.exists_ofDecimal? (d := dto.amount) (by omega)
  obtain ⟨negated, hnegated, -⟩ := Money.exists_ofDecimal?
    (d := Decimal.negated dto.amount) (by simp only [Decimal.negated, Int.natAbs_neg]; omega)
  exact ⟨debited, credited, amount, negated, hdebited, Decimal.ofDecimal?_plus.mpr hcredited, hamount,
    hnegated⟩

/-- Nobody has paid the recipient under this key. -/
def World.Free (w : World) (dto : TransferDto) (recipient : Wallet) : Prop :=
  w.entryOf? (recipient.id, dto.idempotencyKey, .TRANSFER_IN) = none

/-- The balances and the entries of the transfer. -/
structure Figures (dto : TransferDto) (sender recipient : Wallet) (debited credited : Money)
    (out inn : LedgerEntry) : Prop where
  debited : debited.cents = sender.balance.cents - dto.amount
  credited : credited.cents = recipient.balance.cents + dto.amount
  outKey : out.key = (sender.id, dto.idempotencyKey, .TRANSFER_OUT)
  outAmount : out.amount.cents = -dto.amount
  innKey : inn.key = (recipient.id, dto.idempotencyKey, .TRANSFER_IN)
  innAmount : inn.amount.cents = dto.amount

/-- How the body of the transaction ends: with the transfer in the buffer if the recipient's reference
is free, refused if it is taken. -/
def Lands (w₀ w : World) (i : Nat) (dto : TransferDto) (sender recipient : Wallet) :
    Except Err TransferResult → Prop
  | .ok _ => w₀.Free dto recipient ∧ ∃ ids debited credited out inn,
    Draft w₀ w i ids [(sender.id, debited), (recipient.id, credited)] [out, inn] ∧
      Figures dto sender recipient debited credited out inn
  | .error _ => ¬w₀.Free dto recipient

namespace WalletService

/-- Behind the locks: two updates, the sender's entry, and then the recipient's, which is where it is
decided. -/
theorem moveFunds_ends (hpay : w₀.Payable userId dto sender recipient) (hw : w₀.Ok) {ids : List Uuid}
    (h : Draft w₀ w i ids [] []) (hs : sender.id ∈ ids) (hr : recipient.id ∈ ids) :
    ∃ r w', (moveFunds sender recipient dto.amount dto.idempotencyKey).Ends (fun o w => w.serve i o)
      w r w' ∧ Lands w₀ w' i dto sender recipient r := by
  obtain ⟨hsender, hrecipient, hne⟩ := hpay.wallets hw
  obtain ⟨debited, credited, amount, negated, hdebited, hcredited, hamount, hnegated⟩ := hpay.columns
  obtain ⟨v₁, w₁, hdebit, h₁⟩ := h.update hs hsender hdebited
  obtain ⟨v₂, w₂, hcredit, h₂⟩ := h₁.update hr hrecipient hcredited
  obtain ⟨out, w₃, hout, hkey, rfl, h₃⟩ := h₂.enter
    (d := ⟨sender.id, .TRANSFER_OUT, Decimal.negated dto.amount,
      Decimal.minus sender.balance.toDecimal dto.amount, dto.idempotencyKey⟩) hs hsender hnegated
    hdebited (by simpa using World.entryOf?_eq_none.mp hpay.unsent)
  have hrest : ∀ r w',
      ((issue (.ledgerEntryCreate ⟨recipient.id, .TRANSFER_IN, dto.amount,
        Decimal.plus recipient.balance.toDecimal dto.amount, dto.idempotencyKey⟩)).bind fun _ =>
          .done (Transit.sentResult sender recipient dto)).Ends (fun o w => w.serve i o) w₃ r w' →
      (moveFunds sender recipient dto.amount dto.idempotencyKey).Ends (fun o w => w.serve i o) w r w' := by
    intro r w' hends
    unfold moveFunds
    rw [if_neg (by rw [Decimal.lt_iff]; exact Int.not_lt.mpr hpay.funds)]
    exact .issue hdebit (.issue hcredit (.issue hout hends))
  cases hfree : w₀.entryOf? (recipient.id, dto.idempotencyKey, .TRANSFER_IN) with
  | some e =>
    obtain ⟨he, hekey⟩ := World.entryOf?_eq_some hfree
    have hclash := h₃.clash (d := ⟨recipient.id, .TRANSFER_IN, dto.amount,
      Decimal.plus recipient.balance.toDecimal dto.amount, dto.idempotencyKey⟩) hr hrecipient hamount
      hcredited he hekey
    exact ⟨_, w₃, hrest _ _ (.refuse hclash), by simp [Lands, World.Free, hfree]⟩
  | none =>
    have hunique : ∀ e ∈ w₀.ledger ++ [out], e.key ≠ (recipient.id, dto.idempotencyKey, .TRANSFER_IN) := by
      intro e he hekey
      rcases List.mem_append.mp he with he | he
      · exact World.entryOf?_eq_none.mp hfree e he hekey
      · rw [List.mem_singleton.mp he, hkey] at hekey
        exact hne (congrArg Prod.fst hekey)
    obtain ⟨inn, w₄, hinn, hinnKey, rfl, h₄⟩ := h₃.enter (d := ⟨recipient.id, .TRANSFER_IN, dto.amount,
      Decimal.plus recipient.balance.toDecimal dto.amount, dto.idempotencyKey⟩) hr hrecipient hamount
      hcredited hunique
    exact ⟨.ok _, w₄, hrest _ _ (.issue hinn rfl), hfree, ids, debited, credited, out, inn, h₄,
      { debited := Decimal.ofDecimal?_minus.mp hdebited
        credited := Decimal.ofDecimal?_plus.mp hcredited
        outKey := hkey
        outAmount := Money.ofDecimal?_eq_some.mp hnegated
        innKey := hinnKey
        innAmount := Money.ofDecimal?_eq_some.mp hamount }⟩

/-- A row that can be locked is. -/
theorem lockWalletById_ends {ids : List Uuid} {writes : List (Uuid × Money)} {entries : List LedgerEntry}
    (h : Draft w₀ w i ids writes entries) {row : Wallet} (free : w.canLock i row.id = true)
    (found : w₀.wallet? row.id = some row) :
    (lockWalletById row.id).Ends (fun o w => w.serve i o) w (.ok row) (w.lock i row.id) ∧
      Draft w₀ (w.lock i row.id) i (row.id :: ids) writes entries :=
  ⟨.issue (h.lock free found).1 rfl, (h.lock free found).2⟩

/-- **The body of the transaction**: nothing stands in its way before the locks, nor do the locks. -/
theorem transferTx_ends (hpay : w.Payable userId dto sender recipient) (hw : w.Ok)
    (hfree : w.Unlocked sender recipient) (htx : w.tx i = .empty) :
    ∃ r w', (transferTx userId dto).Ends (fun o w => w.serve i o) w r w' ∧
      Lands w w' i dto sender recipient r := by
  obtain ⟨hsender, hrecipient, hne⟩ := hpay.wallets hw
  -- whichever of the two comes first
  obtain ⟨first, second, hsort, hids⟩ : ∃ first second : Wallet,
      sort sender.id recipient.id = (first.id, second.id) ∧
      (first = sender ∧ second = recipient ∨ first = recipient ∧ second = sender) := by
    rcases sort_cases sender.id recipient.id with hsort | hsort
    · exact ⟨sender, recipient, hsort, Or.inl ⟨rfl, rfl⟩⟩
    · exact ⟨recipient, sender, hsort, Or.inr ⟨rfl, rfl⟩⟩
  have hopen : ∀ row : Wallet, row = sender ∨ row = recipient →
      w.canLock i row.id = true ∧ w.wallet? row.id = some row := by
    rintro row (rfl | rfl)
    · exact ⟨by simp [World.canLock, hfree.1], hsender⟩
    · exact ⟨by simp [World.canLock, hfree.2], hrecipient⟩
  obtain ⟨hfirst, hfound₁⟩ := hopen first (hids.imp And.left And.left)
  obtain ⟨hsecond, hfound₂⟩ := hopen second (hids.symm.imp And.right And.right)
  obtain ⟨hlock₁, h₁⟩ := lockWalletById_ends (.start htx) hfirst hfound₁
  obtain ⟨hlock₂, h₂⟩ := lockWalletById_ends h₁ (World.canLock_lock hsecond) hfound₂
  have hrows : (if first.id = sender.id then first else second) = sender ∧
      (if first.id = recipient.id then first else second) = recipient := by
    rcases hids with ⟨rfl, rfl⟩ | ⟨rfl, rfl⟩ <;> simp [hne, hne.symm]
  have hheld : sender.id ∈ [second.id, first.id] ∧ recipient.id ∈ [second.id, first.id] := by
    rcases hids with ⟨rfl, rfl⟩ | ⟨rfl, rfl⟩ <;> simp
  obtain ⟨r, w', hmove, hlands⟩ := moveFunds_ends hpay hw h₂ hheld.1 hheld.2
  refine ⟨r, w', ?_, hlands⟩
  refine .issue (congrArg (fun v => some (Except.ok v, w)) hpay.ofSender) ?_
  refine .issue (congrArg (fun v => some (Except.ok v, w)) hpay.ofRecipient) ?_
  refine .issue (congrArg (fun v => some (Except.ok v, w)) hpay.unsent) ?_
  dsimp only
  rw [hsort]
  refine hlock₁.bind (hlock₂.bind ?_)
  rw [hrows.1, hrows.2]
  exact hmove

/-- What is committed is the transfer. -/
theorem transferred_commit {w₁ : World} (hpay : w.Payable userId dto sender recipient) (hw : w.Ok)
    {ids : List Uuid} {debited credited : Money} {out inn : LedgerEntry}
    (h : Draft w w₁ i ids [(sender.id, debited), (recipient.id, credited)] [out, inn])
    (hfigures : Figures dto sender recipient debited credited out inn) :
    w.Transferred (w₁.commit i) userId dto sender recipient := by
  obtain ⟨-, -, hne⟩ := hpay.wallets hw
  have hfind : ∀ u, (w₁.commit i).walletOf? u =
      (List.foldl World.writeBalance w.wallets
        [(sender.id, debited), (recipient.id, credited)]).find? (·.userId = u) := fun u => by
    rw [World.walletOf?, h.commit_wallets]
  simp only [List.foldl_cons, List.foldl_nil, World.find_writeBalance] at hfind
  have hsender : w.wallets.find? (·.userId = userId) = some sender := hpay.ofSender
  have hrecipient : w.wallets.find? (·.userId = dto.toUserId) = some recipient := hpay.ofRecipient
  refine ⟨⟨{ sender with balance := debited, version := sender.version + 1 }, ?_, hfigures.debited⟩,
    ⟨{ recipient with balance := credited, version := recipient.version + 1 }, ?_, hfigures.credited⟩,
    out, inn, h.commit_ledger, hfigures.outKey, hfigures.outAmount, hfigures.innKey,
    hfigures.innAmount⟩
  · simp [hfind, hsender, hne]
  · simp [hfind, hrecipient, hne.symm]

/-- The transaction commits what landed, and nothing otherwise. -/
theorem transferTransaction_ends (hpay : w.Payable userId dto sender recipient) (hw : w.Ok)
    (hfree : w.Unlocked sender recipient) (htx : w.tx i = .empty) :
    ∃ r w', (transaction (transferTx userId dto)).Ends (fun o w => w.serve i o) w r w' ∧
      match r with
      | .ok _ => w.Free dto recipient ∧ w.Transferred w' userId dto sender recipient
      | .error _ => ¬w.Free dto recipient := by
  obtain ⟨r, w₁, hbody, hlands⟩ := transferTx_ends hpay hw hfree htx
  cases r with
  | error err =>
    refine ⟨.error err, w₁.release i, hbody.recover ?_, hlands⟩
    exact .issue rfl rfl
  | ok v =>
    obtain ⟨hno, ids, debited, credited, out, inn, hdraft, hfigures⟩ := hlands
    refine ⟨.ok v, w₁.commit i, hbody.recover ?_, hno, transferred_commit hpay hw hdraft hfigures⟩
    exact .issue rfl rfl

/-- **The transfer, run alone**: committed if the recipient's reference is free, refused if it is
taken. -/
theorem transfer_ends (hpay : w.Payable userId dto sender recipient) (hw : w.Ok)
    (hfree : w.Unlocked sender recipient) (htx : w.tx i = .empty)
    (hcache : w.cache (idemKey userId dto.idempotencyKey) = none) :
    ∃ r w', (transfer userId dto).Ends (fun o w => w.serve i o) w r w' ∧
      match r with
      | .ok _ => w.Free dto recipient ∧ w.Transferred w' userId dto sender recipient
      | .error _ => ¬w.Free dto recipient := by
  obtain ⟨r, w₁, htransaction, hends⟩ := transferTransaction_ends hpay hw hfree htx
  unfold transfer
  rw [if_neg hpay.other]
  cases r with
  | error err =>
    refine ⟨.error err, w₁, .issue (congrArg (fun v => some (Except.ok v, w)) hcache) ?_, hends⟩
    exact htransaction.throws
  | ok v =>
    refine ⟨.ok v, w₁.redisSet (idemKey userId dto.idempotencyKey) v,
      .issue (congrArg (fun v => some (Except.ok v, w)) hcache) ?_, hends.1, ?_⟩
    · exact htransaction.bind (.issue rfl rfl)
    · exact { hends.2 with }

end WalletService

end

/-! ## Every reachable state -/

section

variable {c : State} {userId : Uuid} {dto : TransferDto} {sender recipient : Wallet}

/-- A transfer that has not been made is not cached. -/
theorem Kept.cache_unsent {bs : List Books} (h : Kept c bs) (hw : c.world.Ok)
    (hpay : c.world.Payable userId dto sender recipient) :
    c.world.cache (WalletService.idemKey userId dto.idempotencyKey) = none := by
  cases hcached : c.world.cache (WalletService.idemKey userId dto.idempotencyKey) with
  | none => rfl
  | some v =>
    obtain ⟨u, key, hkey, e, he, hreports, href, howns⟩ := h.cache _ v hcached
    obtain ⟨rfl, rfl⟩ := WalletService.idemKey_inj hkey
    obtain ⟨hsender, hsuser⟩ := World.walletOf?_eq_some hpay.ofSender
    have hid : e.walletId = sender.id :=
      hw.owned_unique howns (hsuser ▸ World.owns_of_mem hsender)
    refine absurd ?_ (World.entryOf?_eq_none.mp hpay.unsent e he)
    simp only [LedgerEntry.key, hid, href, hreports.type]

/-- The call that is made in `c` is the one that runs alone. -/
theorem runAlone_iff {r : Request} {c' : State} {out : Except Err Response} :
    (∃ n, runAlone c r n = some c' ∧
      c'.calls[c.calls.length]?.bind Call.result? = some out) ↔
    ∃ w, r.handler.Ends (fun o w => w.serve c.calls.length o) c.world out w ∧
      c' = ⟨w, (system.arrive c r).calls.set c.calls.length ⟨r, .ended out, false⟩⟩ :=
  system.execute_solo (c := system.arrive c r) (by simp [Platform.arrive, system])

/-- How a transfer that can be made ends when it is run alone. -/
theorem transfer_alone (h : Reachable anyStep c) (hpay : c.world.Payable userId dto sender recipient)
    (hunlocked : c.world.Unlocked sender recipient) :
    ∃ (r : Except Err TransferResult) (w : World),
      (Request.transfer userId dto).handler.Ends (fun o w => w.serve c.calls.length o)
        c.world (r.map Response.transferred) w ∧
      match r with
      | .ok _ => c.world.Free dto recipient ∧ c.world.Transferred w userId dto sender recipient
      | .error _ => ¬c.world.Free dto recipient := by
  obtain ⟨tr, hrun⟩ := h
  obtain ⟨bs, hkept, -⟩ := kept_of_run hrun
  have hw := Reachable.worldOk ⟨tr, hrun⟩
  obtain ⟨r, w, hends, hmatch⟩ := WalletService.transfer_ends hpay hw hunlocked
    (hkept.beyond _ le_rfl).1 (hkept.cache_unsent hw hpay)
  cases r with
  | error err => exact ⟨.error err, w, hends.throws, hmatch⟩
  | ok v => exact ⟨.ok v, w, hends.bind rfl, hmatch⟩

/-- **Senders block one another exactly when they share a key towards the recipient**: in every state
any run reaches, a transfer that can be made, run alone, commits and moves the amount if and only if the
recipient's wallet has no incoming transfer under its key. -/
theorem commits_alone (h : Reachable anyStep c) (hpay : c.world.Payable userId dto sender recipient)
    (hunlocked : c.world.Unlocked sender recipient) :
    CommitsAlone c userId dto sender recipient ↔
      c.world.entryOf? (recipient.id, dto.idempotencyKey, .TRANSFER_IN) = none := by
  obtain ⟨r, w, hends, hmatch⟩ := transfer_alone h hpay hunlocked
  constructor
  · rintro ⟨n, c', v, hrun, hout, -⟩
    obtain ⟨w', hends', -⟩ := runAlone_iff.mp ⟨n, hrun, hout⟩
    cases r with
    | error err => cases (hends.unique hends').1
    | ok v => exact hmatch.1
  · intro hfree
    cases r with
    | error err => exact absurd hfree hmatch
    | ok v =>
      obtain ⟨n, hrun, hout⟩ := runAlone_iff.mpr ⟨w, hends, rfl⟩
      exact ⟨n, _, v, hrun, hout, hmatch.2⟩

end

section

open Sample

/-- Alice and Bob have ten units of money each, Carol has a wallet. -/
def threeUsers : List Event :=
  register 0 alice aliceWallet ++ register 1 bob bobWallet ++ register 2 carol carolWallet ++
    fund 3 alice id₁ ++ fund 4 bob id₂

/-- Five units for Carol. -/
def rent : TransferDto := { toBob with toUserId := carol }

/-- Bob has paid Carol his rent. -/
def bobPaid : List Event := threeUsers ++ [.arrive (.transfer bob rent)] ++ runs 5 12

def aliceFunded : Wallet := ⟨aliceWallet, alice, ten, 1⟩

def carolPaid : Wallet := ⟨carolWallet, carol, five, 1⟩

def carolBlank : Wallet := ⟨carolWallet, carol, Money.zero, 0⟩

set_option maxRecDepth 8000 in
/-- Bob has paid Carol under the key Alice uses, so Alice is refused by the unique index, with her money
in her wallet and no transfer of hers in the ledger. -/
theorem blocked_bobPaid :
    Reachable calm (stateAfter State.initial bobPaid) ∧
      (stateAfter State.initial bobPaid).world.Payable alice rent aliceFunded carolPaid ∧
      (stateAfter State.initial bobPaid).world.Unlocked aliceFunded carolPaid ∧
      ¬CommitsAlone (stateAfter State.initial bobPaid) alice rent aliceFunded carolPaid := by
  refine ⟨calm_stateAfter _ (by decide), ⟨by decide, by decide, by decide, by decide, by decide,
    by decide⟩, ⟨by decide, by decide⟩, ?_⟩
  rintro ⟨n, c', v, hrun, hout, -⟩
  have hrefused : (runAlone (stateAfter State.initial bobPaid) (.transfer alice rent) 11).bind
      (fun c => c.calls[6]?.bind Call.result?) = some (.error .uniqueViolation) := by decide
  obtain ⟨c'', hrun', hout'⟩ := Option.bind_eq_some_iff.mp hrefused
  obtain ⟨w', hends', -⟩ := runAlone_iff.mp ⟨n, hrun, hout⟩
  obtain ⟨w'', hends'', -⟩ := runAlone_iff.mp ⟨11, hrun', hout'⟩
  cases (hends'.unique hends'').1

set_option maxRecDepth 8000 in
theorem commits_alone_threeUsers :
    CommitsAlone (stateAfter State.initial threeUsers) alice rent aliceFunded carolBlank :=
  (commits_alone (reachable_stateAfter threeUsers (by decide)) ⟨by decide, by decide, by decide,
    by decide, by decide, by decide⟩ ⟨by decide, by decide⟩).mpr (by decide)

end

end FlashWallet
