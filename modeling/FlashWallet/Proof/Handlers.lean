import FlashWallet.Proof.Custody

/-!
# The service functions keep custody

One specification for each function of the two services, proved from the functions it calls and
never from their bodies. What a function says about errors is only what its callers need: inside
a transaction nothing, because the rollback clears the books whatever they hold.
-/

set_option autoImplicit false

namespace FlashWallet

open Lib

variable {α β : Type} {b b' : Books}

/-! ## Rules for the discipline -/

theorem custody_frame {Q : Except Err α → Books → Prop} {p : Service α}
    (hp : p.Keeps custody Q b) : p.Keeps custody (fun r b' => Q r b' ∧ b.Grows b') b :=
  hp.frame Books.Grows.refl Books.Grows.trans fun o _ r _ h => h.1 ▸ Books.grows_note _ o r

/-- Issue a statement and go on. -/
theorem custody_issue {Q : Except Err β → Books → Prop} {o : Stmt} {f : o.Reply → Service β}
    (hpre : custodyPre o b)
    (hok : ∀ v, o.Answers (.ok v) → (b.note o (.ok v)).Coherent →
      (f v).Keeps custody Q (b.note o (.ok v)))
    (herr : ∀ e, Q (.error e) (b.note o (.error e))) :
    ((issue o).bind f).Keeps custody Q b := by
  refine Prog.Keeps.issue hpre (fun v b' h => ?_) fun e b' h => ?_
  · obtain ⟨rfl, hcoherent, hanswers⟩ := h
    exact hok v hanswers hcoherent
  · obtain ⟨rfl, -, -⟩ := h
    exact herr e

/-- Issue a statement under a `try`. -/
theorem custody_try {Q : Except Err β → Books → Prop} {o : Stmt} {f : Except Err o.Reply → Service β}
    (hpre : custodyPre o b)
    (h : ∀ r, o.Answers r → (f r).Keeps custody Q (b.note o r)) :
    ((issue o).attempt.bind f).Keeps custody Q b := by
  refine ⟨hpre, fun r b' hpost => ?_⟩
  obtain ⟨rfl, -, hanswers⟩ := hpost
  cases r <;> exact h _ hanswers

/-- **The transaction rule.** The body hands over a voucher; afterwards nothing is open, and what
the body promises of the committed books holds if the transaction returned. -/
theorem transaction_keeps {R : α → Books → Prop} {body : Service α}
    (hbody : body.Keeps custody
      (fun r b' => ∀ a, r = .ok a → b'.Balanced ∧ b'.Accounted ∧ R a b'.committed) b) :
    (WalletService.transaction body).Keeps custody
      (fun r b' => b'.Idle ∧ ∀ a, r = .ok a → R a b') b := by
  refine hbody.recover fun r b' h => ?_
  cases r with
  | ok a =>
    obtain ⟨hbalanced, haccounted, hR⟩ := h a rfl
    refine custody_issue (o := .commit) ⟨hbalanced, haccounted⟩ (fun _ _ _ => ?_) fun e => ?_
    · exact ⟨b'.committed_idle, fun a' ha' => by cases ha'; exact hR⟩
    · exact ⟨b'.cleared_idle, fun a' ha' => by cases ha'⟩
  | error e =>
    refine custody_issue (o := .rollback) trivial (fun _ _ _ => ?_) fun e => ?_
    · exact ⟨b'.cleared_idle, fun a' ha' => by cases ha'⟩
    · exact ⟨b'.cleared_idle, fun a' ha' => by cases ha'⟩

/-! ## `WalletService` -/

namespace WalletService

/-- Locking adds the row, and touches nothing else. -/
theorem lockWalletById_keeps (id : Uuid) (b : Books) :
    (lockWalletById id).Keeps custody (fun r b' => ∀ row, r = .ok row →
      row.id = id ∧ b'.Coherent ∧ b' = { b with rows := row :: b.rows }) b := by
  refine custody_issue (o := .walletForUpdate id) trivial (fun found hid hcoherent => ?_) fun e => ?_
  · cases found with
    | none => exact fun row hrow => by cases hrow
    | some row =>
      intro row' hrow
      cases hrow
      exact ⟨hid, hcoherent, rfl⟩
  · exact fun row hrow => by cases hrow

/-- The first lock of a transaction: one row, the user's. -/
theorem lockWalletByUserId_keeps (userId : Uuid) (hidle : b.Idle) :
    (lockWalletByUserId userId).Keeps custody (fun r b' => ∀ row, r = .ok row →
      b'.Coherent ∧ b' = { b with rows := [row], owners := (row.id, userId) :: b.owners }) b := by
  refine custody_issue (o := .walletFindUnique userId) trivial (fun found hanswers _ => ?_) fun e => ?_
  · cases found with
    | none => exact fun row hrow => by cases hrow
    | some wallet =>
      refine (lockWalletById_keeps wallet.id _).mono fun r b' h row hrow => ?_
      obtain ⟨hid, hcoherent, rfl⟩ := h row hrow
      refine ⟨hcoherent, ?_⟩
      simp [Books.note, hid, hidle.1]
  · exact fun row hrow => by cases hrow

/-- A row updated and one entry about it: a voucher, if the entry leads to the new balance. -/
theorem balanced_one (row updated : Wallet) (e : LedgerEntry)
    (hrows : row ∈ b.rows) (hwrites : b.writes = [(updated.id, updated.balance)])
    (hentries : b.entries = [e]) (hid : updated.id = row.id) (hwallet : e.walletId = row.id)
    (hafter : e.balanceAfter.cents = updated.balance.cents)
    (hbooked : updated.balance.cents = row.balance.cents + e.amount.cents)
    (hnonneg : 0 ≤ updated.balance.cents) : b.Balanced where
  writes := by rw [hwrites, hentries, hid, List.map_singleton, hwallet, Money.ext hafter]
  distinct := by simp [hentries]
  booked e' he' := by
    obtain rfl := List.mem_singleton.mp (hentries ▸ he')
    exact ⟨row, hrows, hwallet.symm, by rw [hafter, hbooked], by rw [hafter]; exact hnonneg⟩

/-- What `deposit` and `purchaseDeduct` do once they hold the row: write a balance and book the
difference. -/
theorem book_keeps (row : Wallet) (amount : Int) {newBalance : Int} {type : LedgerType}
    {referenceId : String} {β : Type} {f : Wallet → LedgerEntry → β} {R : β → Books → Prop}
    (hrows : b.rows = [row]) (hwrites : b.writes = []) (hentries : b.entries = [])
    (hbooked : ∀ m : Money, m.cents = newBalance → m.cents = row.balance.cents + amount)
    (hnonneg : 0 ≤ row.balance.cents + amount)
    (hposts : ∀ e : LedgerEntry, e.walletId = row.id → e.type = type → e.amount.cents = amount →
      e.referenceId = referenceId →
      b.request.Posts (fun id user => (id, user) ∈ b.owners) (fun ev p => (ev, p) ∈ b.prices) [e])
    (hR : ∀ updated e b', e.walletId = row.id → e.type = type → e.referenceId = referenceId →
      e ∈ b'.posted → b.Grows b' → R (f updated e) b') :
    (((issue (.walletUpdate row.id newBalance)).bind fun updated =>
      (issue (.ledgerEntryCreate ⟨row.id, type, amount, newBalance, referenceId⟩)).bind
        fun entry => .done (f updated entry)) : Service β).Keeps custody
      (fun r b' => ∀ a, r = .ok a → b'.Balanced ∧ b'.Accounted ∧ R a b'.committed) b := by
  have hrow : row ∈ b.rows := by simp [hrows]
  refine custody_issue (o := .walletUpdate row.id newBalance) ⟨row, hrow, rfl⟩
    (fun (updated : Wallet) hupdated _ => ?_) fun e a h => by cases h
  refine custody_issue (o := .ledgerEntryCreate ⟨row.id, type, amount, newBalance, referenceId⟩)
    ⟨row, hrow, rfl⟩ (fun (e : LedgerEntry) he _ => ?_) fun e a h => by cases h
  obtain ⟨hid, hbalance⟩ := hupdated
  obtain ⟨hkey, hamount, hafter⟩ := he
  obtain ⟨hwallet, href, htype⟩ : e.walletId = row.id ∧ e.referenceId = referenceId ∧ e.type = type := by
    simpa [LedgerEntry.key] using hkey
  have hnew := hbooked updated.balance hbalance
  intro a ha
  cases ha
  refine ⟨balanced_one row updated e hrow (by simp [Books.note, hwrites])
    (by simp [Books.note, hentries]) hid hwallet (hafter.trans hbalance.symm) (by rw [hnew, hamount])
    (by rw [hnew]; exact hnonneg), ?_, ?_⟩
  · simpa [Books.Accounted, Books.note, hentries] using hposts e hwallet htype hamount href
  · exact hR updated e _ hwallet htype href (by simp [Books.note, Books.committed])
      ((b.grows_note (.walletUpdate row.id newBalance) (.ok updated)).trans
        (((Books.grows_note _ (.ledgerEntryCreate _) (.ok e))).trans (Books.grows_committed _)))

theorem deposit_keeps {userId : Uuid} {dto : DepositDto} (hidle : b.Idle)
    (hreq : b.request = .deposit userId dto) :
    (deposit userId dto).Keeps custody (fun _ b' => b'.Idle) b := by
  refine custody_issue (o := .randomUUID) trivial (fun referenceId _ _ => ?_) fun _ => hidle
  refine (transaction_keeps (R := fun _ _ => True) ?_).mono fun _ _ h => h.1
  refine Prog.Keeps.seq (lockWalletByUserId_keeps userId hidle) (fun row b₁ h₁ => ?_)
    fun e b₁ _ a h => by cases h
  obtain ⟨hcoherent, rfl⟩ := h₁ row rfl
  have hpositive := dto.isPositive
  have hsolvent := hcoherent.solvent row List.mem_cons_self
  apply book_keeps row dto.amount (R := fun _ _ => True)
  · rfl
  · exact hidle.2.1
  · exact hidle.2.2
  · exact fun m hm => Decimal.ofDecimal?_plus.mp (Money.ofDecimal?_eq_some.mpr hm)
  · omega
  · intro e hwallet htype hamount _
    show b.request.Posts _ _ [e]
    rw [hreq]
    exact Or.inr ⟨e, rfl, htype, hamount, by simp [hwallet]⟩
  · exact fun _ _ _ _ _ _ _ _ => trivial

/-- The debit of a purchase. Whether it is booked now or was booked by an earlier attempt, the
ledger holds it when the function returns. -/
theorem purchaseDeduct_keeps (userId : Uuid) (amount : Int) (referenceId : String) (hidle : b.Idle)
    (hposts : ∀ (owners : List (Uuid × Uuid)) (e : LedgerEntry), (e.walletId, userId) ∈ owners →
      e.type = .PURCHASE → e.amount.cents = -amount → e.referenceId = referenceId →
      b.request.Posts (fun id user => (id, user) ∈ owners) (fun ev p => (ev, p) ∈ b.prices) [e]) :
    (purchaseDeduct userId amount referenceId).Keeps custody (fun r b' => b'.Idle ∧ ∀ a, r = .ok a →
      ∃ e ∈ b'.posted, e.type = .PURCHASE ∧ e.referenceId = referenceId ∧
        (e.walletId, userId) ∈ b'.owners) b := by
  refine transaction_keeps ?_
  refine Prog.Keeps.seq (lockWalletByUserId_keeps userId hidle) (fun row b₁ h₁ => ?_)
    fun e b₁ _ a h => by cases h
  obtain ⟨hcoherent, rfl⟩ := h₁ row rfl
  refine custody_issue (o := .ledgerEntryFindUnique row.id referenceId .PURCHASE) trivial
    (fun found hfound _ => ?_) fun e a h => by cases h
  cases found with
  | some existing =>
    obtain ⟨hwallet, href, htype⟩ :
        existing.walletId = row.id ∧ existing.referenceId = referenceId ∧ existing.type = .PURCHASE := by
      simpa [Stmt.Answers, LedgerEntry.key] using hfound
    intro a ha
    refine ⟨⟨by simp [Books.note, hidle.2.1, hidle.2.2], by simp [Books.note, hidle.2.2],
      by simp [Books.note, hidle.2.2]⟩, Or.inl (by simp [Books.note, hidle.2.2]), existing, ?_, htype,
      href, ?_⟩
    · simp [Books.note, Books.committed]
    · simp [Books.note, Books.committed, Books.cleared, hwallet]
  | none =>
    dsimp only
    split
    · exact fun a h => by cases h
    · rename_i hfunds
      have hfunds : amount ≤ row.balance.cents := Int.not_lt.mp (mt Decimal.lt_iff.mpr hfunds)
      apply book_keeps row (-amount) (R := fun _ b' => ∃ e ∈ b'.posted, e.type = .PURCHASE ∧
        e.referenceId = referenceId ∧ (e.walletId, userId) ∈ b'.owners)
      · rfl
      · exact hidle.2.1
      · exact hidle.2.2
      · exact fun m hm => (Decimal.ofDecimal?_minus.mp (Money.ofDecimal?_eq_some.mpr hm)).trans
          (Int.sub_eq_add_neg ..)
      · omega
      · exact fun e hwallet htype hamount href =>
          hposts _ e (by simp [Books.note, hwallet]) htype hamount href
      · exact fun updated e b' hwallet htype href hposted hgrows =>
          ⟨e, hposted, htype, href, hgrows.owners (by simp [Books.note, hwallet])⟩

theorem sort_cases (a b : Uuid) : sort a b = (a, b) ∨ sort a b = (b, a) := by
  unfold sort
  split
  · exact Or.inr rfl
  · exact Or.inl rfl

/-- The two locks are the two wallets, whichever comes first. -/
theorem locked_ids {s r : Uuid} {first second : Wallet}
    (hfirst : first.id = (sort s r).1) (hsecond : second.id = (sort s r).2) :
    (if first.id = s then first else second).id = s ∧
      (if first.id = r then first else second).id = r := by
  rcases sort_cases s r with hsort | hsort <;> rw [hsort] at hfirst hsecond
  · refine ⟨by rw [if_pos hfirst]; exact hfirst, ?_⟩
    split
    · assumption
    · exact hsecond
  · refine ⟨?_, by rw [if_pos hfirst]; exact hfirst⟩
    split
    · assumption
    · exact hsecond

/-- Two rows updated, two entries about them. -/
theorem moveFunds_keeps {userId : Uuid} {dto : TransferDto} {sender receiver : Wallet}
    (hreq : b.request = .transfer userId dto) (hcoherent : b.Coherent)
    (hs : sender ∈ b.rows) (hr : receiver ∈ b.rows) (hne : sender.id ≠ receiver.id)
    (hso : (sender.id, userId) ∈ b.owners) (hro : (receiver.id, dto.toUserId) ∈ b.owners)
    (hwrites : b.writes = []) (hentries : b.entries = []) :
    (moveFunds sender receiver dto.amount dto.idempotencyKey).Keeps custody
      (fun r b' => ∀ v, r = .ok v → b'.Balanced ∧ b'.Accounted ∧
        b'.committed.KnowsTransfer userId dto.idempotencyKey v) b := by
  unfold moveFunds
  dsimp only
  split
  · exact fun v h => by cases h
  rename_i hfunds
  have hfunds : dto.amount ≤ sender.balance.cents := Int.not_lt.mp (mt Decimal.lt_iff.mpr hfunds)
  have hpositive := dto.isPositive
  have hsolvent := hcoherent.solvent receiver hr
  refine custody_issue (o := .walletUpdate ..) ⟨sender, hs, rfl⟩
    (fun (s' : Wallet) ⟨hsid, hsbal⟩ _ => ?_) fun e v h => by cases h
  refine custody_issue (o := .walletUpdate ..) ⟨receiver, hr, rfl⟩
    (fun (r' : Wallet) ⟨hrid, hrbal⟩ _ => ?_) fun e v h => by cases h
  refine custody_issue (o := .ledgerEntryCreate _) ⟨sender, hs, rfl⟩
    (fun (out : LedgerEntry) ⟨hokey, hoamount, hoafter⟩ _ => ?_) fun e v h => by cases h
  refine custody_issue (o := .ledgerEntryCreate _) ⟨receiver, hr, rfl⟩
    (fun (inn : LedgerEntry) ⟨hikey, hiamount, hiafter⟩ _ => ?_) fun e v h => by cases h
  obtain ⟨howallet, horef, hotype⟩ : out.walletId = sender.id ∧
      out.referenceId = dto.idempotencyKey ∧ out.type = .TRANSFER_OUT := by
    simpa [LedgerEntry.key] using hokey
  obtain ⟨hiwallet, hiref, hitype⟩ : inn.walletId = receiver.id ∧
      inn.referenceId = dto.idempotencyKey ∧ inn.type = .TRANSFER_IN := by
    simpa [LedgerEntry.key] using hikey
  have hsnew := Decimal.ofDecimal?_minus.mp (Money.ofDecimal?_eq_some.mpr hsbal)
  have hrnew := Decimal.ofDecimal?_plus.mp (Money.ofDecimal?_eq_some.mpr hrbal)
  simp only [Money.toDecimal] at hsnew hrnew
  have hoafter' : out.balanceAfter = s'.balance := Money.ext (hoafter.trans hsbal.symm)
  have hiafter' : inn.balanceAfter = r'.balance := Money.ext (hiafter.trans hrbal.symm)
  simp only [Decimal.negated] at hoamount
  intro v hv
  cases hv
  refine ⟨⟨?_, ?_, ?_⟩, ?_, ?_⟩
  · simp [Books.note, hwrites, hentries, howallet, hiwallet, hsid, hrid, hoafter', hiafter']
  · simp [Books.note, hentries, howallet, hiwallet, hne]
  · intro e he
    have he : e = out ∨ e = inn := by simpa [Books.note, hentries] using he
    rcases he with rfl | rfl
    · exact ⟨sender, hs, howallet.symm, by rw [hoafter', hsnew, hoamount]; omega,
        by rw [hoafter', hsnew]; omega⟩
    · exact ⟨receiver, hr, hiwallet.symm, by rw [hiafter', hrnew, hiamount],
        by rw [hiafter', hrnew]; omega⟩
  · have hboth : b.request.Posts (fun id user => (id, user) ∈ b.owners)
        (fun ev p => (ev, p) ∈ b.prices) [out, inn] := by
      rw [hreq]
      exact Or.inr ⟨out, inn, rfl, hotype, hoamount, horef, howallet ▸ hso, hitype, hiamount, hiref,
        hiwallet ▸ hro⟩
    simpa [Books.Accounted, Books.note, hentries] using hboth
  · refine Or.inl ⟨out, by simp [Books.note, Books.committed], ⟨hotype, howallet.symm, ?_, ?_, horef.symm⟩,
      horef, ?_⟩
    · simp only [hoamount]; omega
    · exact hoafter.symm
    · simpa [Books.note, Books.committed, Books.cleared, howallet] using hso

theorem transferTx_keeps {userId : Uuid} {dto : TransferDto} (hidle : b.Idle)
    (hreq : b.request = .transfer userId dto) (hself : dto.toUserId ≠ userId) :
    (transferTx userId dto).Keeps custody
      (fun r b' => ∀ v, r = .ok v → b'.Balanced ∧ b'.Accounted ∧
        b'.committed.KnowsTransfer userId dto.idempotencyKey v) b := by
  refine custody_issue (o := .walletFindUnique userId) trivial (fun senderRef _ _ => ?_)
    fun e v h => by cases h
  refine custody_issue (o := .walletFindUnique dto.toUserId) trivial (fun receiverRef _ hcoherent => ?_)
    fun e v h => by cases h
  cases senderRef with
  | none => exact fun v h => by cases h
  | some senderRef =>
  cases receiverRef with
  | none => exact fun v h => by cases h
  | some receiverRef =>
  -- two users, hence two wallets: a wallet has one owner
  have hne : senderRef.id ≠ receiverRef.id := fun heq => hself <|
    ((hcoherent.owners (senderRef.id, userId) (by simp [Books.note])
      (receiverRef.id, dto.toUserId) (by simp [Books.note])).mp heq).symm
  refine custody_issue (o := .ledgerEntryFindUnique senderRef.id dto.idempotencyKey .TRANSFER_OUT)
    trivial (fun found hfound _ => ?_) fun e v h => by cases h
  cases found with
  | some existingOut =>
    obtain ⟨hwallet, href, htype⟩ : existingOut.walletId = senderRef.id ∧
        existingOut.referenceId = dto.idempotencyKey ∧ existingOut.type = .TRANSFER_OUT := by
      simpa [Stmt.Answers, LedgerEntry.key] using hfound
    intro v hv
    cases hv
    refine ⟨⟨by simp [Books.note, hidle.2.1, hidle.2.2], by simp [Books.note, hidle.2.2],
      by simp [Books.note, hidle.2.2]⟩, Or.inl (by simp [Books.note, hidle.2.2]), Or.inl ?_⟩
    exact ⟨existingOut, by simp [Books.note, Books.committed],
      ⟨htype, hwallet.symm, rfl, rfl, href.symm⟩, href,
      by simp [Books.note, Books.committed, Books.cleared, hwallet]⟩
  | none =>
    obtain ⟨firstId, secondId, hsort, hids⟩ : ∃ firstId secondId,
        sort senderRef.id receiverRef.id = (firstId, secondId) ∧
          (firstId = senderRef.id ∧ secondId = receiverRef.id ∨
            firstId = receiverRef.id ∧ secondId = senderRef.id) := by
      rcases sort_cases senderRef.id receiverRef.id with h | h
      · exact ⟨_, _, h, Or.inl ⟨rfl, rfl⟩⟩
      · exact ⟨_, _, h, Or.inr ⟨rfl, rfl⟩⟩
    dsimp only
    rw [hsort]
    refine Prog.Keeps.seq (lockWalletById_keeps firstId _) (fun first b₁ h₁ => ?_)
      fun e b₁ _ v h => by cases h
    obtain ⟨hfirst, -, rfl⟩ := h₁ first rfl
    refine Prog.Keeps.seq (lockWalletById_keeps secondId _) (fun second b₂ h₂ => ?_)
      fun e b₂ _ v h => by cases h
    obtain ⟨hsecond, hcoherent₂, rfl⟩ := h₂ second rfl
    -- whichever was locked first, the money moves from the sender to the receiver
    rcases hids with ⟨hf, hs⟩ | ⟨hf, hs⟩
    · rw [if_pos (hfirst.trans hf), if_neg (by rw [hfirst, hf]; exact hne)]
      exact moveFunds_keeps hreq hcoherent₂ (by simp) (by simp)
        (by rw [hfirst, hsecond, hf, hs]; exact hne) (by simp [Books.note, hfirst, hf])
        (by simp [Books.note, hsecond, hs]) hidle.2.1 hidle.2.2
    · rw [if_neg (by rw [hfirst, hf]; exact hne.symm), if_pos (hfirst.trans hf)]
      exact moveFunds_keeps hreq hcoherent₂ (by simp) (by simp)
        (by rw [hfirst, hsecond, hf, hs]; exact hne) (by simp [Books.note, hsecond, hs])
        (by simp [Books.note, hfirst, hf]) hidle.2.1 hidle.2.2

theorem transfer_keeps {userId : Uuid} {dto : TransferDto} (hidle : b.Idle)
    (hreq : b.request = .transfer userId dto) :
    (transfer userId dto).Keeps custody (fun r b' => b'.Idle ∧ ∀ v, r = .ok v →
      b'.KnowsTransfer userId dto.idempotencyKey v) b := by
  unfold transfer
  split
  · exact ⟨hidle, fun v h => by cases h⟩
  rename_i hself
  refine custody_issue (o := .redisGet (idemKey userId dto.idempotencyKey)) trivial
    (fun found _ _ => ?_) fun e => ⟨hidle, fun v h => by cases h⟩
  cases found with
  | some cached =>
    refine ⟨hidle, fun v h => ?_⟩
    cases h
    exact Or.inr List.mem_cons_self
  | none =>
    have hbody := transaction_keeps (R := fun v b' => b'.KnowsTransfer userId dto.idempotencyKey v)
      (transferTx_keeps hidle hreq hself)
    refine Prog.Keeps.seq hbody (fun v b₁ h₁ => ?_) fun e b₁ h₁ => ⟨h₁.1, fun v h => by cases h⟩
    have hknows := h₁.2 v rfl
    refine custody_issue (o := .redisSet (idemKey userId dto.idempotencyKey) v)
      ⟨userId, dto.idempotencyKey, rfl, hknows⟩ (fun _ _ _ => ?_)
      fun e => ⟨h₁.1, fun v h => by cases h⟩
    refine ⟨h₁.1, fun v' h => ?_⟩
    cases h
    exact hknows

theorem provisionWallet_keeps {userId : Uuid} (hidle : b.Idle)
    (hreq : b.request = .provisionWallet userId) :
    (provisionWallet userId).Keeps custody (fun _ b' => b'.Idle) b :=
  custody_issue (o := .walletCreate userId 0) ⟨rfl, hreq⟩ (fun _ _ _ => hidle) fun _ => hidle

end WalletService

/-! ## `FlashSaleService` -/

namespace FlashSaleService

theorem createEvent_keeps (dto : CreateFlashSaleEventDto) (hidle : b.Idle) :
    (createEvent dto).Keeps custody (fun _ b' => b'.Idle) b := by
  refine custody_issue (o := .productFindUnique dto.productId) trivial (fun found _ _ => ?_) fun _ => hidle
  cases found with
  | none => exact hidle
  | some product =>
    refine Prog.Keeps.perform trivial fun r b' h => ?_
    obtain ⟨rfl, -, -⟩ := h
    exact hidle

/-- An order a call has seen under the key it asked for. -/
def Found (eventId : Uuid) (key : String) (o : Order) (b : Books) : Prop :=
  o ∈ b.orders ∧ o.key = (eventId, key)

theorem findExistingOrder_keeps (eventId : Uuid) (key : String) (hidle : b.Idle) :
    (findExistingOrder eventId key).Keeps custody
      (fun r b' => b'.Idle ∧ ∀ o, r = .ok (some o) → Found eventId key o b') b := by
  refine Prog.Keeps.perform trivial fun r b' h => ?_
  obtain ⟨rfl, -, hanswers⟩ := h
  rcases r with e | _ | o
  · exact ⟨hidle, fun o h => by cases h⟩
  · exact ⟨hidle, fun o h => by cases h⟩
  · refine ⟨hidle, fun o' h => ?_⟩
    cases h
    exact ⟨List.mem_cons_self, hanswers⟩

theorem poll_keeps (eventId : Uuid) (key : String) (delayMs n : Nat) (hidle : b.Idle) :
    (poll eventId key delayMs n).Keeps custody
      (fun r b' => b'.Idle ∧ ∀ o, r = .ok (some o) → Found eventId key o b') b := by
  induction n generalizing b with
  | zero => exact ⟨hidle, fun o h => by cases h⟩
  | succ n ih =>
    refine Prog.Keeps.seq (findExistingOrder_keeps eventId key hidle) (fun found b₁ h₁ => ?_)
      fun e b₁ h₁ => ⟨h₁.1, fun o h => by cases h⟩
    cases found with
    | some order =>
      refine ⟨h₁.1, fun o h => ?_⟩
      cases h
      exact h₁.2 order rfl
    | none =>
      dsimp only
      split
      · exact custody_issue (o := .sleep delayMs) trivial (fun _ _ _ => ih h₁.1)
          fun e => ⟨h₁.1, fun o h => by cases h⟩
      · exact ih h₁.1

theorem releaseUnit_keeps (eventId : Uuid) (hidle : b.Idle) :
    (releaseUnit eventId).Keeps custody (fun _ b' => b'.Idle) b := by
  refine Prog.Keeps.perform trivial fun r b' h => ?_
  obtain ⟨rfl, -, -⟩ := h
  exact hidle

theorem finalizeOrder_keeps {data : NewOrder} {eventId : Uuid} (hidle : b.Idle)
    (hpaid : data.status = .CONFIRMED →
      b.KnowsPaid data.userId data.flashSaleEventId data.idempotencyKey) :
    (finalizeOrder data (releaseUnit eventId)).Keeps custody (fun r b' => b'.Idle ∧
      ∀ f, r = .ok f → Found data.flashSaleEventId data.idempotencyKey f.order b') b := by
  refine custody_try (o := .orderCreate data) hpaid fun r hr => ?_
  cases r with
  | ok order =>
    refine ⟨hidle, fun f h => ?_⟩
    cases h
    exact ⟨List.mem_cons_self, hr.2.2.1⟩
  | error err =>
    dsimp only
    split
    · exact ⟨hidle, fun f h => by cases h⟩
    · refine Prog.Keeps.seq (releaseUnit_keeps eventId hidle) (fun _ b₁ h₁ => ?_)
        fun e b₁ h₁ => ⟨h₁, fun f h => by cases h⟩
      refine Prog.Keeps.seq (findExistingOrder_keeps _ _ h₁) (fun found b₂ h₂ => ?_)
        fun e b₂ h₂ => ⟨h₂.1, fun f h => by cases h⟩
      cases found with
      | none => exact ⟨h₂.1, fun f h => by cases h⟩
      | some existing =>
        refine ⟨h₂.1, fun f h => ?_⟩
        cases h
        exact h₂.2 existing rfl

/-- What a purchase says of its answer. -/
def Answered (dto : PurchaseFlashSaleDto) (r : Except Err OrderResult) (b : Books) : Prop :=
  b.Idle ∧ ∀ v, r = .ok v → ∃ o, Found dto.eventId dto.idempotencyKey o b ∧
    v = toOrderResult o v.replayed

theorem Answered.error {dto : PurchaseFlashSaleDto} {e : Err} (hidle : b.Idle) :
    Answered dto (.error e) b := ⟨hidle, fun v h => by cases h⟩

theorem Answered.ok {dto : PurchaseFlashSaleDto} {o : Order} {replayed : Bool} (hidle : b.Idle)
    (ho : Found dto.eventId dto.idempotencyKey o b) :
    Answered dto (.ok (toOrderResult o replayed)) b :=
  ⟨hidle, fun v h => by cases h; exact ⟨o, ho, rfl⟩⟩

theorem compensate_keeps (userId : Uuid) (dto : PurchaseFlashSaleDto) (orderId : Uuid) (err : Err)
    (hidle : b.Idle) : (compensate userId dto orderId err).Keeps custody (Answered dto) b := by
  refine Prog.Keeps.seq (releaseUnit_keeps dto.eventId hidle) (fun _ b₁ h₁ => ?_)
    fun e b₁ h₁ => .error h₁
  refine Prog.Keeps.seq (finalizeOrder_keeps h₁ fun h => by cases h) (fun f b₂ h₂ => ?_)
    fun e b₂ h₂ => .error h₂.1
  split
  · exact .ok h₂.1 (h₂.2 f rfl)
  · exact .error h₂.1

theorem confirm_keeps {userId : Uuid} {dto : PurchaseFlashSaleDto} (orderId : Uuid) (hidle : b.Idle)
    (hpaid : b.KnowsPaid userId dto.eventId dto.idempotencyKey) :
    (confirm userId dto orderId).Keeps custody (Answered dto) b := by
  refine Prog.Keeps.seq (finalizeOrder_keeps hidle fun _ => hpaid) (fun f b₁ h₁ => ?_)
    fun e b₁ h₁ => .error h₁.1
  split
  · exact custody_try (o := .queueAdd ⟨f.order.id, userId⟩) trivial fun r _ => .ok h₁.1 (h₁.2 f rfl)
  · exact .ok h₁.1 (h₁.2 f rfl)

theorem settle_keeps {userId : Uuid} {dto : PurchaseFlashSaleDto} {price : Money} (hidle : b.Idle)
    (hreq : b.request = .purchase userId dto) (hprice : (dto.eventId, price) ∈ b.prices) :
    (settle userId dto price).Keeps custody (Answered dto) b := by
  refine custody_issue (o := .randomUUID) trivial (fun orderId _ _ => ?_) fun e => .error hidle
  have hdeduct := WalletService.purchaseDeduct_keeps (b := b.note .randomUUID (.ok orderId))
    userId price.toDecimal (walletReferenceId dto.eventId dto.idempotencyKey) hidle
    fun owners e howns htype hamount href => by
      rw [show (b.note .randomUUID (.ok orderId)).request = _ from hreq]
      exact Or.inr ⟨e, price, rfl, htype, hprice, hamount, href, howns⟩
  refine hdeduct.recover fun r b₁ h₁ => ?_
  cases r with
  | error err => exact compensate_keeps userId dto orderId err h₁.1
  | ok booked =>
    obtain ⟨e, he, htype, href, howns⟩ := h₁.2 booked rfl
    exact confirm_keeps orderId h₁.1 ⟨e, he, htype, href, howns⟩

theorem purchase_keeps {userId : Uuid} {dto : PurchaseFlashSaleDto} (hidle : b.Idle)
    (hreq : b.request = .purchase userId dto) :
    (purchase userId dto).Keeps custody (Answered dto) b := by
  refine Prog.Keeps.seq (custody_frame (findExistingOrder_keeps dto.eventId dto.idempotencyKey hidle))
    (fun found b₁ h₁ => ?_) fun e b₁ h₁ => .error h₁.1.1
  obtain ⟨⟨hidle₁, hfound⟩, hgrows⟩ := h₁
  cases found with
  | some existing => exact .ok hidle₁ (hfound existing rfl)
  | none =>
    refine custody_issue (o := .flashSaleEventFindUnique dto.eventId) trivial (fun found _ _ => ?_)
      fun e => .error hidle₁
    cases found with
    | none => exact .error hidle₁
    | some found =>
      obtain ⟨event, product⟩ := found
      refine custody_issue (o := .now) trivial (fun now _ _ => ?_) fun e => .error hidle₁
      split
      · exact .error hidle₁
      refine custody_issue (o := .reserveUnit dto.eventId) trivial (fun reserved _ _ => ?_)
        fun e => .error hidle₁
      split
      · exact settle_keeps hidle₁ (hgrows.request.trans hreq) List.mem_cons_self
      · refine Prog.Keeps.seq (poll_keeps dto.eventId dto.idempotencyKey 40 5 hidle₁)
          (fun found b₂ h₂ => ?_) fun e b₂ h₂ => .error h₂.1
        cases found with
        | none => exact .error h₂.1
        | some raced => exact .ok h₂.1 (h₂.2 raced rfl)

end FlashSaleService

/-! ## Requests -/

/-- **Every handler keeps custody**, from empty books. -/
theorem handler_keeps (req : Request) :
    req.handler.Keeps custody (custodyAnswer req) (.opening req) := by
  have hidle : (Books.opening req).Idle := ⟨rfl, rfl, rfl⟩
  cases req with
  | provisionWallet userId =>
    exact (WalletService.provisionWallet_keeps hidle rfl).seq (fun _ _ h => ⟨h, trivial⟩)
      fun _ _ h => ⟨h, trivial⟩
  | deposit userId dto =>
    exact (WalletService.deposit_keeps hidle rfl).seq (fun _ _ h => ⟨h, trivial⟩)
      fun _ _ h => ⟨h, trivial⟩
  | purchaseDeduct userId amount referenceId =>
    have hdeduct := WalletService.purchaseDeduct_keeps userId amount referenceId hidle
      fun owners e howns htype hamount href => Or.inr ⟨e, rfl, htype, hamount, href, howns⟩
    exact hdeduct.seq (fun _ _ h => ⟨h.1, trivial⟩) fun _ _ h => ⟨h.1, trivial⟩
  | transfer userId dto =>
    exact (WalletService.transfer_keeps hidle rfl).seq (fun v _ h => ⟨h.1, h.2 v rfl⟩)
      fun _ _ h => ⟨h.1, trivial⟩
  | createEvent dto =>
    exact (FlashSaleService.createEvent_keeps dto hidle).seq (fun _ _ h => ⟨h, trivial⟩)
      fun _ _ h => ⟨h, trivial⟩
  | purchase userId dto =>
    refine (FlashSaleService.purchase_keeps hidle rfl).seq (fun v b h => ⟨h.1, ?_⟩)
      fun _ _ h => ⟨h.1, trivial⟩
    obtain ⟨o, ⟨ho, hkey⟩, hv⟩ := h.2 v rfl
    exact ⟨o, ho, hkey, hv⟩

end FlashWallet
