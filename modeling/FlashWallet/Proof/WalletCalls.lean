import FlashWallet.Lib.Finish
import FlashWallet.Proof.Handlers
import FlashWallet.Proof.Runs

/-!
# A wallet call by itself

`Does` is a small logic of the body of a transaction that runs without interruption, from any state
whatever: the committed wallets and ledger stay as they are, at most so many statements are issued, and
where the body returns its postcondition says what has been buffered.
-/

set_option autoImplicit false

namespace FlashWallet

open Lib

/-- Call after call: `request` comes in, and is answered `r` when it has taken all the steps, the outside deciding
as `xs` says. -/
structure Alone (c : State) (request : Request) (xs : List Choice) (r : Except Err Response) (c' : State) :
    Prop where
  executes : execute system.step (system.arrive c request) (xs.map (.exec c.calls.length)) = some c'
  answers : c'.calls[c.calls.length]?.bind Call.result? = some r

/-- The steps can be taken, and this is where they lead. -/
theorem Alone.of_isSome {c : State} {request : Request} {xs : List Choice} {r : Except Err Response} {i : Nat}
    (hi : c.calls.length = i)
    (h : (execute system.step (system.arrive c request) (xs.map (.exec i))).isSome = true)
    (hr : (stateAfter (system.arrive c request) (xs.map (.exec i))).calls[i]?.bind Call.result? = some r) :
    Alone c request xs r (stateAfter (system.arrive c request) (xs.map (.exec i))) where
  executes := by
    obtain ⟨c', hc'⟩ := Option.isSome_iff_exists.mp h
    simp [stateAfter, hi, hc']
  answers := hi ▸ hr

theorem Alone.feed {c c' : State} {request : Request} {xs : List Choice} {r : Except Err Response}
    (h : Alone c request xs r c') :
    request.handler.feed (World.exec c.calls.length) xs c.world = some (r, c'.world) := by
  have hlast : (system.arrive c request).calls[c.calls.length]? = some ⟨request, request.handler, false⟩ :=
    List.getElem?_concat_length
  obtain ⟨w', hfeed, heq⟩ := Platform.execute_feed (P := system) hlast h.executes h.answers
  rw [heq]
  exact hfeed

/-- Statements that leave the committed wallets and ledger alone. -/
def Stmt.sparesBank : Stmt → Bool
  | .commit | .walletCreate .. => false
  | _ => true

theorem World.bank_served {i : Nat} {w w' : World} {o : Stmt} {r : Except Err o.Reply}
    (hs : Served i w o r w') (ho : o.sparesBank = true) : w'.bank = w.bank := by
  cases hs with
  | committed | walletCreated => cases ho
  | _ => rfl

/-- The body of a transaction leaves the bank alone and issues at most `n` statements; where it returns `a`,
having issued `k`, `Q a w' k` holds. -/
def Does {α : Type} (i : Nat) (p : Service α) (w : World) (n : Nat) (Q : α → World → Nat → Prop) : Prop :=
  ∀ xs r w', p.feed (World.exec i) xs w = some (r, w') →
    w'.bank = w.bank ∧ xs.length ≤ n ∧ ∀ a, r = .ok a → Q a w' xs.length

section

variable {α β : Type} {i n : Nat} {w : World} {Q : β → World → Nat → Prop}

theorem does_done {a : β} (h : Q a w 0) : Does i (.done a) w n Q := by
  intro xs r w' hfeed
  obtain ⟨rfl, rfl, rfl⟩ := Prog.feed_done hfeed
  exact ⟨rfl, Nat.zero_le n, fun _ ha => Except.ok.inj ha ▸ h⟩

theorem does_fail (e : Err) : Does i (.fail e) w n Q := by
  intro xs r w' hfeed
  obtain ⟨rfl, rfl, rfl⟩ := Prog.feed_fail hfeed
  exact ⟨rfl, Nat.zero_le n, nofun⟩

theorem does_issue {o : Stmt} {f : o.Reply → Service β} (ho : o.sparesBank = true)
    (h : ∀ v w₁, World.Served i w o (.ok v) w₁ → Does i (f v) w₁ n fun a w' k => Q a w' (k + 1)) :
    Does i ((issue o).bind f) w (n + 1) Q := by
  intro xs r w' hfeed
  obtain ⟨x, xs', reply, w₁, rfl, hexec, ⟨v, rfl, hrest⟩ | ⟨e, rfl, rfl, rfl, rfl⟩⟩ := Prog.feed_issue hfeed
  · have hs := World.Served.of_exec hexec
    obtain ⟨hbank, hlength, hok⟩ := h v w₁ hs xs' r w' hrest
    exact ⟨hbank.trans (World.bank_served hs ho), Nat.succ_le_succ hlength, hok⟩
  · exact ⟨World.bank_served (.of_exec hexec) ho, by simp, nofun⟩

theorem does_bind {p : Service α} {f : α → Service β} {m : Nat} {P : α → World → Nat → Prop} (hp : Does i p w m P)
    (hf : ∀ a w₁ k, P a w₁ k → Does i (f a) w₁ n fun b w' k' => Q b w' (k + k')) :
    Does i (p.bind f) w (m + n) Q := by
  intro xs r w' hfeed
  rcases Prog.feed_bind hfeed with ⟨xs₁, xs₂, a, w₁, rfl, h₁, h₂⟩ | ⟨e, rfl, h₁⟩
  · obtain ⟨hbank₁, hlength₁, hok₁⟩ := hp xs₁ _ w₁ h₁
    obtain ⟨hbank₂, hlength₂, hok₂⟩ := hf a w₁ xs₁.length (hok₁ a rfl) xs₂ r w' h₂
    rw [List.length_append]
    exact ⟨hbank₂.trans hbank₁, Nat.add_le_add hlength₁ hlength₂, hok₂⟩
  · obtain ⟨hbank₁, hlength₁, -⟩ := hp xs _ w' h₁
    exact ⟨hbank₁, Nat.le_add_right_of_le hlength₁, nofun⟩

/-- What a transaction does: nothing, or what its body has buffered. -/
theorem feed_transaction {body : Service β} (h : Does i body w n Q) {xs : List Choice} {r : Except Err β}
    {w' : World} (hfeed : (WalletService.transaction body).feed (World.exec i) xs w = some (r, w')) :
    ((∃ e, r = .error e) ∧ w'.bank = w.bank ∧ xs.length ≤ n + 1) ∨
      ∃ a w₁ k, r = .ok a ∧ xs.length = k + 1 ∧ Q a w₁ k ∧ w₁.bank = w.bank ∧ w' = w₁.commit i := by
  obtain ⟨xs₁, xs₂, r₁, w₁, rfl, hbody, hrest⟩ := Prog.feed_attempt hfeed
  obtain ⟨hbank, hlength, hok⟩ := h xs₁ r₁ w₁ hbody
  cases r₁ with
  | ok a =>
    obtain ⟨x, xs', reply, w₂, rfl, hexec, hrest⟩ := Prog.feed_issue hrest
    have hs := World.Served.of_exec hexec
    rcases hrest with ⟨v, rfl, hrest⟩ | ⟨e, rfl, rfl, rfl, rfl⟩
    · obtain ⟨rfl, rfl, rfl⟩ := Prog.feed_done hrest
      cases hs with
      | read _ _ answer => cases answer
      | committed => exact Or.inr ⟨a, w₁, xs₁.length, rfl, by simp, hok a rfl, hbank, rfl⟩
    · refine Or.inl ⟨⟨e, rfl⟩, ?_, by simpa using hlength⟩
      cases hs with
      | failed _ _ open' => exact absurd rfl open'
      | refused _ _ reason => exact reason.elim
      | commitFailed => exact hbank
  | error e =>
    obtain ⟨x, xs', reply, w₂, rfl, hexec, hrest⟩ := Prog.feed_issue hrest
    have hbank₂ := World.bank_served (.of_exec hexec) rfl
    rcases hrest with ⟨v, rfl, hrest⟩ | ⟨e', rfl, rfl, rfl, rfl⟩
    · obtain ⟨rfl, rfl, rfl⟩ := Prog.feed_fail hrest
      exact Or.inl ⟨⟨e, rfl⟩, hbank₂.trans hbank, by simpa using hlength⟩
    · exact Or.inl ⟨⟨e', rfl⟩, hbank₂.trans hbank, by simpa using hlength⟩

end

/-! ## What is buffered -/

/-- The entries are booked in these amounts, each on the balance its wallet has: nothing is rounded. -/
structure Bank.Exact (b : Bank) (amounts : List (LedgerType × Int)) (es : List LedgerEntry) : Prop where
  amounts : es.map (fun e => (e.type, e.amount.cents)) = amounts
  booked : ∀ e ∈ es, ∃ row ∈ b.wallets, row.id = e.walletId ∧ e.balanceAfter.cents = row.balance.cents + e.amount.cents

/-- The amounts a request posts, if it posts any. -/
def Request.amounts : Request → List (LedgerType × Int)
  | .deposit _ dto => [(.DEPOSIT, dto.amount)]
  | .purchaseDeduct _ amount _ => [(.PURCHASE, -amount)]
  | .transfer _ dto => [(.TRANSFER_OUT, -dto.amount), (.TRANSFER_IN, dto.amount)]
  | _ => []

/-- The entries are those of the request, in wallets of the users it names, and exact. As long as no two wallets have
one identifier, no two entries are in one wallet. -/
structure Request.Exactly (req : Request) (owns : Uuid → Uuid → Prop) (price : Uuid → Money → Prop) (b : Bank)
    (es : List LedgerEntry) : Prop where
  some : es ≠ []
  posts : req.Posts owns price es
  distinct : (b.wallets.map Wallet.id).Nodup → (es.map LedgerEntry.walletId).Nodup
  exact : b.Exact req.amounts es

/-- Call `i` has buffered the entries of the request. -/
def Buffered (i : Nat) (w w' : World) (req : Request) : Prop :=
  ∃ es, req.Exactly w.Owns w.Priced w.bank es ∧ w'.tx i = ⟨es.map fun e => (e.walletId, e.balanceAfter), es⟩

/-- The bank is as it was, but for the entries of the request. -/
def Posted (w w' : World) (req : Request) : Prop :=
  ∃ es, req.Exactly w.Owns w.Priced w.bank es ∧ w'.bank = w.bank.post es

theorem Buffered.commit {i : Nat} {w w₁ : World} {req : Request} (h : Buffered i w w₁ req)
    (hbank : w₁.bank = w.bank) : Posted w (w₁.commit i) req := by
  obtain ⟨es, hexact, htx⟩ := h
  refine ⟨es, hexact, ?_⟩
  have hcommit : (w₁.commit i).bank = w₁.bank.post es := by
    simp only [World.bank, World.commit, World.apply, World.release_wallets, World.release_ledger, htx, Bank.post]
  rw [hcommit, hbank]

/-- The request has been met before, and this is the answer it gets: the one that Redis has kept, or one that is made
of the entry there is. -/
inductive Repeats (w : World) : Request → Response → Prop where
  | paid (userId : Uuid) (amount : Int) (referenceId : String) (e : LedgerEntry) (booked : e ∈ w.ledger)
      (owns : w.Owns e.walletId userId) (key : e.key = (e.walletId, referenceId, .PURCHASE)) :
      Repeats w (.purchaseDeduct userId amount referenceId) (.booked ⟨e.walletId, e.balanceAfter, e⟩)
  | sent (userId : Uuid) (dto : TransferDto) (v : TransferResult) (e : LedgerEntry) (booked : e ∈ w.ledger)
      (owns : w.Owns e.walletId userId) (key : e.key = (e.walletId, dto.idempotencyKey, .TRANSFER_OUT))
      (reports : v.Reports e) : Repeats w (.transfer userId dto) (.transferred v)
  | kept (userId : Uuid) (dto : TransferDto) (v : TransferResult)
      (stored : w.cache (WalletService.idemKey userId dto.idempotencyKey) = some v) :
      Repeats w (.transfer userId dto) (.transferred v)

namespace WalletService

variable {i : Nat} {w : World}

theorem lockWalletById_does (id : Uuid) :
    Does i (lockWalletById id) w 1 fun row w' k =>
      w.wallet? row.id = some row ∧ row.id = id ∧ w' = w.lock i id ∧ k = 1 := by
  refine does_issue rfl fun v w₁ hs => ?_
  obtain ⟨rfl, rfl⟩ := World.Served.of_lock hs
  cases hfound : w.wallet? id with
  | none => exact does_fail _
  | some row =>
    have hid := (World.wallet?_eq_some hfound).2
    exact does_done ⟨hid ▸ hfound, hid, rfl, rfl⟩

theorem lockWalletByUserId_does (userId : Uuid) :
    Does i (lockWalletByUserId userId) w 2 fun row w' k =>
      w.wallet? row.id = some row ∧ w.Owns row.id userId ∧ (∃ id, w' = w.lock i id) ∧ k = 2 := by
  refine does_issue rfl fun v w₁ hs => ?_
  obtain ⟨rfl, rfl⟩ := World.Served.of_read hs rfl nofun
  cases hfound : w₁.walletOf? userId with
  | none => exact does_fail _
  | some ref =>
    obtain ⟨href, huser⟩ := World.walletOf?_eq_some hfound
    intro xs r w' hfeed
    obtain ⟨hbank, hlength, hok⟩ := lockWalletById_does ref.id xs r w' hfeed
    refine ⟨hbank, hlength, fun a ha => ?_⟩
    obtain ⟨hrow, hid, rfl, hk⟩ := hok a ha
    exact ⟨hrow, by rw [hid, ← huser]; exact World.owns_of_mem href, ⟨ref.id, rfl⟩, by rw [hk]⟩

theorem update_buffers {id : Uuid} {balance : Int} {v : Wallet} {w' : World}
    (hs : World.Served i w (.walletUpdate id balance) (.ok v) w') :
    ∃ m, Money.ofDecimal? balance = some m ∧ w'.wallets = w.wallets ∧
      w'.tx i = { w.tx i with writes := (w.tx i).writes ++ [(id, m)] } := by
  cases hs with
  | read _ _ answer => cases answer
  | updated _ _ row m free found fits => exact ⟨m, fits, rfl, World.setTx_self _ _ _⟩

theorem create_buffers {d : NewLedgerEntry} {e : LedgerEntry} {w' : World}
    (hs : World.Served i w (.ledgerEntryCreate d) (.ok e) w') :
    e.walletId = d.walletId ∧ e.type = d.type ∧ e.referenceId = d.referenceId ∧
      Money.ofDecimal? d.amount = some e.amount ∧ Money.ofDecimal? d.balanceAfter = some e.balanceAfter ∧
      w'.wallets = w.wallets ∧ w'.tx i = { w.tx i with entries := (w.tx i).entries ++ [e] } := by
  cases hs with
  | read _ _ answer => cases answer
  | entered _ _ row free found amount balanceAfter key unique =>
    exact ⟨congrArg (·.1) key, congrArg (·.2.2) key, congrArg (·.2.1) key, amount, balanceAfter, rfl,
      World.setTx_self _ _ _⟩

/-- The last two statements of `deposit` and `purchaseDeduct`: the new balance, and its entry. -/
theorem book_does (req : Request) (row : Wallet) (type : LedgerType) (amount newBalance : Int) (referenceId : String)
    (hrow : w.wallet? row.id = some row) (htx : w.tx i = .empty) (hamounts : req.amounts = [(type, amount)])
    (hposts : ∀ e : LedgerEntry, e.walletId = row.id → e.type = type → e.amount.cents = amount →
      e.referenceId = referenceId → req.Posts w.Owns w.Priced [e])
    (hsum : ∀ m, Money.ofDecimal? newBalance = some m → m.cents = row.balance.cents + amount) :
    Does i (do
      let updated ← issue (.walletUpdate row.id newBalance)
      let entry ← issue (.ledgerEntryCreate ⟨row.id, type, amount, newBalance, referenceId⟩)
      return ({ walletId := row.id, balance := updated.balance, entry := entry } : BookedResult)) w 2
      fun _ w' _ => Buffered i w w' req := by
  refine does_issue rfl fun v w₁ hs => does_issue rfl fun (e : LedgerEntry) w₂ hs' => does_done ?_
  obtain ⟨m, hm, -, htx₁⟩ := update_buffers hs
  obtain ⟨hwallet, htype, href, hamount, hafter, -, htx₂⟩ := create_buffers hs'
  obtain rfl : m = e.balanceAfter := Option.some.inj (hm.symm.trans hafter)
  have hcents : e.amount.cents = amount := Money.ofDecimal?_eq_some.mp hamount
  have htype : e.type = type := htype
  have hwallet : e.walletId = row.id := hwallet
  have hexact : w.bank.Exact req.amounts [e] := by
    refine ⟨by simp [hamounts, htype, hcents], fun e' he' => ?_⟩
    obtain rfl := List.mem_singleton.mp he'
    exact ⟨row, (World.wallet?_eq_some hrow).1, hwallet.symm, by rw [hcents]; exact hsum _ hafter⟩
  refine ⟨[e], ⟨List.cons_ne_nil e [], hposts e hwallet htype hcents href, fun _ => List.nodup_singleton _, hexact⟩, ?_⟩
  rw [htx₂, htx₁, htx]
  simp [Tx.empty, hwallet]

theorem moveFunds_does {userId : Uuid} {dto : TransferDto} (sender receiver : Wallet)
    (hsender : w.wallet? sender.id = some sender) (hreceiver : w.wallet? receiver.id = some receiver)
    (hsends : w.Owns sender.id userId) (hreceives : w.Owns receiver.id dto.toUserId)
    (hdistinct : (w.wallets.map Wallet.id).Nodup → sender.id ≠ receiver.id) (htx : w.tx i = .empty) :
    Does i (moveFunds sender receiver dto.amount dto.idempotencyKey) w 4 fun _ w' k =>
      Buffered i w w' (.transfer userId dto) ∧ k = 4 := by
  unfold moveFunds
  split
  · exact does_fail _
  refine does_issue rfl fun _ w₁ hs₁ => does_issue rfl fun _ w₂ hs₂ => ?_
  refine does_issue rfl fun (out : LedgerEntry) w₃ hs₃ => ?_
  refine does_issue rfl fun (inn : LedgerEntry) w₄ hs₄ => does_done ⟨?_, rfl⟩
  obtain ⟨m₁, hm₁, hwallets₁, htx₁⟩ := update_buffers hs₁
  obtain ⟨m₂, hm₂, hwallets₂, htx₂⟩ := update_buffers hs₂
  obtain ⟨hwallet₃, htype₃, href₃, hamount₃, hafter₃, -, htx₃⟩ := create_buffers hs₃
  obtain ⟨hwallet₄, htype₄, href₄, hamount₄, hafter₄, -, htx₄⟩ := create_buffers hs₄
  obtain rfl : m₁ = out.balanceAfter := Option.some.inj (hm₁.symm.trans hafter₃)
  obtain rfl : m₂ = inn.balanceAfter := Option.some.inj (hm₂.symm.trans hafter₄)
  have hout : out.amount.cents = -dto.amount := Money.ofDecimal?_eq_some.mp hamount₃
  have hinn : inn.amount.cents = dto.amount := Money.ofDecimal?_eq_some.mp hamount₄
  have htype₃ : out.type = .TRANSFER_OUT := htype₃
  have htype₄ : inn.type = .TRANSFER_IN := htype₄
  have hwallet₃ : out.walletId = sender.id := hwallet₃
  have hwallet₄ : inn.walletId = receiver.id := hwallet₄
  have hposts : (Request.transfer userId dto).Posts w.Owns w.Priced [out, inn] :=
    Or.inr ⟨out, inn, rfl, htype₃, hout, href₃, hwallet₃ ▸ hsends, htype₄, hinn, href₄, hwallet₄ ▸ hreceives⟩
  have hexact : w.bank.Exact (Request.transfer userId dto).amounts [out, inn] := by
    refine ⟨by simp [Request.amounts, htype₃, htype₄, hout, hinn], fun e he => ?_⟩
    rcases List.mem_cons.mp he with rfl | he
    · refine ⟨sender, (World.wallet?_eq_some hsender).1, hwallet₃.symm, ?_⟩
      rw [Decimal.ofDecimal?_minus.mp hm₁, hout]
      rfl
    · obtain rfl := List.mem_singleton.mp he
      refine ⟨receiver, (World.wallet?_eq_some hreceiver).1, hwallet₄.symm, ?_⟩
      rw [Decimal.ofDecimal?_plus.mp hm₂, hinn]
      rfl
  refine ⟨[out, inn], ⟨List.cons_ne_nil out [inn], hposts, fun hids => ?_, hexact⟩, ?_⟩
  · simpa [hwallet₃, hwallet₄] using hdistinct hids
  · rw [htx₄, htx₃, htx₂, htx₁, htx]
    simp [Tx.empty, hwallet₃, hwallet₄]

/-- Two users' wallets are two, as long as no two wallets have one identifier. -/
theorem ids_ne {ref ref' : Wallet} {userId userId' : Uuid} (h : w.walletOf? userId = some ref)
    (h' : w.walletOf? userId' = some ref') (hne : userId' ≠ userId) (hids : (w.wallets.map Wallet.id).Nodup) :
    ref.id ≠ ref'.id := by
  obtain ⟨hmem, huser⟩ := World.walletOf?_eq_some h
  obtain ⟨hmem', huser'⟩ := World.walletOf?_eq_some h'
  intro hid
  obtain rfl := List.inj_on_of_nodup_map hids hmem hmem' hid
  exact hne (huser'.symm.trans huser)

theorem transferTx_does (userId : Uuid) (dto : TransferDto) (hother : dto.toUserId ≠ userId) (htx : w.tx i = .empty) :
    Does i (transferTx userId dto) w 9 fun v w' k =>
      w'.tx i = .empty ∧ k = 3 ∧ Repeats w (.transfer userId dto) (.transferred v) ∨
        Buffered i w w' (.transfer userId dto) ∧ k = 9 := by
  refine does_issue rfl fun (senderRef : Option Wallet) w₁ hs => ?_
  obtain ⟨rfl, hsender⟩ := World.Served.of_read hs rfl nofun
  refine does_issue rfl fun (receiverRef : Option Wallet) w₂ hs => ?_
  obtain ⟨rfl, hreceiver⟩ := World.Served.of_read hs rfl nofun
  cases senderRef with
  | none => exact does_fail _
  | some senderRef =>
  cases receiverRef with
  | none => exact does_fail _
  | some receiverRef =>
  obtain ⟨hsends, hsenderUser⟩ := World.walletOf?_eq_some hsender.symm
  obtain ⟨hreceives, hreceiverUser⟩ := World.walletOf?_eq_some hreceiver.symm
  have hsends := hsenderUser ▸ World.owns_of_mem hsends
  have hreceives := hreceiverUser ▸ World.owns_of_mem hreceives
  refine does_issue rfl fun (existing : Option LedgerEntry) w₃ hs => ?_
  obtain ⟨rfl, hexisting⟩ := World.Served.of_read hs rfl nofun
  cases existing with
  | some existingOut =>
    obtain ⟨hbooked, hkey⟩ := World.entryOf?_eq_some hexisting.symm
    obtain ⟨hwallet, href, htype⟩ : existingOut.walletId = senderRef.id ∧
        existingOut.referenceId = dto.idempotencyKey ∧ existingOut.type = .TRANSFER_OUT := by
      simpa [LedgerEntry.key] using hkey
    refine does_done (Or.inl ⟨htx, rfl, .sent userId dto _ existingOut hbooked (hwallet ▸ hsends) ?_ ?_⟩)
    · rw [LedgerEntry.key, href, htype]
    · exact ⟨htype, hwallet.symm, rfl, rfl, href.symm⟩
  | none =>
    refine does_bind (m := 1) (n := 5) (lockWalletById_does _) fun first w₄ k₄ hlock => ?_
    obtain ⟨hfirst, hfirstId, rfl, rfl⟩ := hlock
    refine does_bind (m := 1) (n := 4) (lockWalletById_does _) fun second w₅ k₅ hlock => ?_
    obtain ⟨hsecond, hsecondId, rfl, rfl⟩ := hlock
    -- whichever is the sender, the row is the one that is stored
    have hrow : ∀ (p : Prop) [Decidable p], w₃.wallet? (if p then first else second).id =
        some (if p then first else second) := by
      intro p _
      split
      · exact hfirst
      · exact hsecond
    obtain ⟨hsenderId, hreceiverId⟩ := locked_ids hfirstId hsecondId
    intro xs r w' hfeed
    have hdistinct := fun hids => ids_ne hsender.symm hreceiver.symm hother hids
    rw [← hsenderId] at hsends hdistinct
    rw [← hreceiverId] at hreceives hdistinct
    obtain ⟨hbank, hlength, hok⟩ := moveFunds_does (w := (w₃.lock i _).lock i _) _ _ (hrow _) (hrow _) hsends hreceives
      hdistinct htx xs r w' hfeed
    refine ⟨hbank, hlength, fun v hv => Or.inr ?_⟩
    obtain ⟨hbuffered, hk⟩ := hok v hv
    exact ⟨hbuffered, by rw [hk]⟩

/-! ## Handler by handler -/

variable {xs : List Choice} {w' : World}

theorem deposit_posts {userId : Uuid} {dto : DepositDto} {r : Except Err BookedResult} (htx : w.tx i = .empty)
    (h : (deposit userId dto).feed (World.exec i) xs w = some (r, w')) :
    (∃ e, r = .error e) ∧ w'.bank = w.bank ∨ Posted w w' (.deposit userId dto) := by
  obtain ⟨x, xs', reply, w₁, rfl, hexec, ⟨referenceId, rfl, h⟩ | ⟨e, rfl, rfl, rfl, rfl⟩⟩ := Prog.feed_issue h
  rotate_left
  · exact Or.inl ⟨⟨e, rfl⟩, World.bank_served (.of_exec hexec) rfl⟩
  -- drawing an identifier leaves the wallets, the ledger and the transaction alone
  obtain ⟨drawn, rfl⟩ : ∃ drawn, w₁ = { w with drawn := drawn } := by
    cases World.Served.of_exec hexec with
    | read _ _ answer => cases answer
    | drew => exact ⟨_, rfl⟩
  refine (feed_transaction (does_bind (m := 2) (n := 2)
    (Q := fun _ w' _ => Buffered i w w' (.deposit userId dto))
    (lockWalletByUserId_does userId) fun row w₂ k hlock => ?_) h).imp (fun hsame => ⟨hsame.1, hsame.2.1⟩) ?_
  · obtain ⟨hrow, howns, ⟨id, rfl⟩, rfl⟩ := hlock
    exact book_does (w := World.lock { w with drawn := drawn } i id) (.deposit userId dto) row .DEPOSIT dto.amount _ _
      hrow htx rfl (fun e hwallet htype hamount _ => Or.inr ⟨e, rfl, htype, hamount, hwallet ▸ howns⟩)
      fun m hm => Decimal.ofDecimal?_plus.mp hm
  · rintro ⟨a, w₂, k, rfl, -, hbuffered, hbank₂, rfl⟩
    exact hbuffered.commit hbank₂

theorem purchaseDeduct_posts {userId : Uuid} {amount : Int} {referenceId : String} {r : Except Err BookedResult}
    (htx : w.tx i = .empty) (h : (purchaseDeduct userId amount referenceId).feed (World.exec i) xs w = some (r, w')) :
    w'.bank = w.bank ∧ (∀ a, r = .ok a → Repeats w (.purchaseDeduct userId amount referenceId) (.booked a)) ∨
      Posted w w' (.purchaseDeduct userId amount referenceId) := by
  refine (feed_transaction (does_bind (m := 2) (n := 3)
    (Q := fun a w' _ => w'.tx i = .empty ∧ Repeats w (.purchaseDeduct userId amount referenceId) (.booked a) ∨
      Buffered i w w' (.purchaseDeduct userId amount referenceId))
    (lockWalletByUserId_does userId) fun row w₂ k hlock => ?_) h).elim (fun hsame => Or.inl ⟨hsame.2.1, ?_⟩) ?_
  · obtain ⟨hrow, howns, ⟨id, rfl⟩, rfl⟩ := hlock
    refine does_issue rfl fun (existing : Option LedgerEntry) w₃ hs => ?_
    obtain ⟨rfl, hexisting⟩ := World.Served.of_read hs rfl nofun
    cases existing with
    | some existing =>
      obtain ⟨hbooked, hkey⟩ := World.entryOf?_eq_some hexisting.symm
      have hwallet : existing.walletId = row.id := congrArg Prod.fst hkey
      refine does_done (Or.inl ⟨htx, ?_⟩)
      rw [← hwallet] at howns hkey ⊢
      exact .paid userId amount referenceId existing hbooked howns hkey
    | none =>
      show Does i (if Decimal.lt row.balance.toDecimal amount then _ else _) _ _ _
      split
      · exact does_fail _
      · intro xs r w' hfeed
        obtain ⟨hbank, hlength, hok⟩ := book_does (w := w.lock i id)
          (.purchaseDeduct userId amount referenceId) row .PURCHASE (-amount)
          (Decimal.minus row.balance.toDecimal amount) referenceId hrow htx rfl
          (fun e hwallet htype hamount href => Or.inr ⟨e, rfl, htype, hamount, href, hwallet ▸ howns⟩)
          (fun m hm => (Decimal.ofDecimal?_minus.mp hm).trans (sub_eq_add_neg _ _)) xs r w' hfeed
        exact ⟨hbank, hlength, fun a ha => Or.inr (hok a ha)⟩
  · obtain ⟨⟨e, rfl⟩, -⟩ := hsame
    exact nofun
  · rintro ⟨a, w₁, k, rfl, -, ⟨hempty, hrepeats⟩ | hbuffered, hbank, rfl⟩
    · refine Or.inl ⟨?_, fun a' ha => Except.ok.inj ha ▸ hrepeats⟩
      rw [← hbank]
      simp [World.bank, World.commit, World.apply, hempty, Tx.empty]
    · exact Or.inr (hbuffered.commit hbank)

/-- The only statement of a transfer that can fail when the money has been moved is the twelfth, the write to
Redis. -/
theorem transfer_posts {userId : Uuid} {dto : TransferDto} {r : Except Err TransferResult} (htx : w.tx i = .empty)
    (h : (transfer userId dto).feed (World.exec i) xs w = some (r, w')) :
    w'.bank = w.bank ∧ (∀ e, r = .error e → xs[11]? = none) ∧
        (∀ v, r = .ok v → Repeats w (.transfer userId dto) (.transferred v)) ∨
      Posted w w' (.transfer userId dto) ∧ ∀ e, r = .error e → xs[11]? = some .fault := by
  unfold transfer at h
  split at h
  · obtain ⟨rfl, rfl, rfl⟩ := Prog.feed_fail h
    exact Or.inl ⟨rfl, fun _ _ => rfl, nofun⟩
  rename_i hother
  obtain ⟨x, xs', reply, w₁, rfl, hexec, ⟨cached, rfl, h⟩ | ⟨e, rfl, rfl, rfl, rfl⟩⟩ := Prog.feed_issue h
  rotate_left
  · exact Or.inl ⟨World.bank_served (.of_exec hexec) rfl, fun _ _ => rfl, nofun⟩
  have hs := World.Served.of_exec hexec
  obtain rfl : w₁ = w := by cases hs <;> rfl
  cases cached with
  | some cached =>
    obtain ⟨rfl, rfl, rfl⟩ := Prog.feed_done h
    refine Or.inl ⟨rfl, nofun, fun v hv => ?_⟩
    obtain rfl := Except.ok.inj hv
    cases hs with
    | read _ _ answer => exact .kept userId dto _ (Option.some.inj answer)
  | none =>
    rcases Prog.feed_bind h with ⟨xs₁, xs₂, v, w₂, rfl, htransaction, h⟩ | ⟨e, rfl, htransaction⟩
    · rcases feed_transaction (transferTx_does userId dto hother htx) htransaction with ⟨⟨_, hr⟩, -⟩ |
        ⟨v', w₃, k, hr, hlength, hdone, hbank, rfl⟩
      · cases hr
      obtain rfl := Except.ok.inj hr
      obtain ⟨x', xs₃, reply, w₄, rfl, hexec, hset⟩ := Prog.feed_issue h
      have hbank₄ : w₄.bank = (w₃.commit i).bank := World.bank_served (.of_exec hexec) rfl
      have hend : w' = w₄ ∧ xs₃ = [] ∧ (∀ e, r = .error e → x' = .fault) ∧ ∀ v', r = .ok v' → v' = v := by
        rcases hset with ⟨_, rfl, h⟩ | ⟨e, rfl, rfl, rfl, rfl⟩
        · obtain ⟨rfl, rfl, rfl⟩ := Prog.feed_done h
          exact ⟨rfl, rfl, nofun, fun v' hv' => (Except.ok.inj hv').symm⟩
        · refine ⟨rfl, rfl, fun _ _ => ?_, nofun⟩
          by_contra hx
          exact World.refuses_of_error hx hexec
      obtain ⟨rfl, rfl, hfault, hsame⟩ := hend
      rcases hdone with ⟨hempty, rfl, hrepeats⟩ | ⟨hbuffered, rfl⟩
      · refine Or.inl ⟨?_, fun _ _ => by simp [hlength], fun v' hv' => hsame v' hv' ▸ hrepeats⟩
        rw [hbank₄, ← hbank]
        simp [World.bank, World.commit, World.apply, hempty, Tx.empty]
      · refine Or.inr ⟨?_, fun e he => ?_⟩
        · obtain ⟨es, hexact, hpost⟩ := hbuffered.commit hbank
          exact ⟨es, hexact, hbank₄.trans hpost⟩
        · have hlast : (x :: (xs₁ ++ [x']))[11]? = some x' := by
            rw [List.getElem?_cons_succ, List.getElem?_append_right (by omega), hlength]
            rfl
          rw [hlast, hfault e he]
    · rcases feed_transaction (transferTx_does userId dto hother htx) htransaction with ⟨-, hsame, hlength⟩ |
        ⟨v', w₃, k, hr, _⟩
      · exact Or.inl ⟨hsame, fun _ _ => List.getElem?_eq_none (by rw [List.length_cons]; omega), nofun⟩
      · cases hr

end WalletService

end FlashWallet
