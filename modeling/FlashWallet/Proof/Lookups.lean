import FlashWallet.Lib.Machine
import FlashWallet.Proof.Debits
import FlashWallet.Proof.LockOrder

/-!
# Purchase entries are looked for under the lock

What a call knows of the purchase entry it is about to insert: that it has the row lock, that it has looked and
found none, and has written none itself. Nobody else can insert one before the lock is free again, so the
unique index never has anything to say.
-/

set_option autoImplicit false

namespace FlashWallet

open Lib

inductive Lookup where
  | idle
  | locked (walletId : Uuid)
  | absent (walletId : Uuid) (referenceId : String)
  | wrote
  | refused

namespace Lookup

def onWalletForUpdate : Lookup → Except Err (Option Wallet) → Lookup
  | .refused, _ => .refused
  | _, .ok (some row) => .locked row.id
  | g, _ => g

/-- Only what is looked for under the lock is known to be absent. -/
def onFind (walletId : Uuid) (referenceId : String) : LedgerType → Lookup → Except Err (Option LedgerEntry) → Lookup
  | .PURCHASE, .locked id, .ok none => if walletId = id then .absent walletId referenceId else .locked id
  | _, g, _ => g

def onLedgerEntryCreate : LedgerType → Lookup → Except Err LedgerEntry → Lookup
  | _, .refused, _ => .refused
  | _, _, .ok _ => .wrote
  | .PURCHASE, _, .error .uniqueViolation => .refused
  | _, g, .error _ => g

/-- The transaction is over. -/
def onEnd : Lookup → Lookup
  | .refused => .refused
  | _ => .idle

def next (g : Lookup) : (o : Stmt) → Except Err o.Reply → Lookup
  | .walletForUpdate _, r => g.onWalletForUpdate r
  | .ledgerEntryFindUnique walletId referenceId type, r => onFind walletId referenceId type g r
  | .ledgerEntryCreate d, r => onLedgerEntryCreate d.type g r
  | .commit, _ | .rollback, _ => g.onEnd
  | _, _ => g

/-- No lock is taken by a transaction that has written into the ledger, and no purchase entry is inserted that
has not been looked for. -/
def may (g : Lookup) : Stmt → Prop
  | .walletForUpdate _ => g ≠ .wrote
  | .ledgerEntryCreate d => d.type = .PURCHASE → g = .absent d.walletId d.referenceId
  | _ => True

/-- What call `i` knows is so. -/
def Known (w : World) (i : Nat) : Lookup → Prop
  | .idle => (w.tx i).entries = []
  | .locked id => (w.tx i).entries = [] ∧ w.holder id = some i
  | .absent id referenceId => (w.tx i).entries = [] ∧ w.holder id = some i ∧
      ∀ e ∈ w.ledger, e.key ≠ (id, referenceId, .PURCHASE)
  | .wrote => True
  | .refused => False

end Lookup

/-- Statements that insert under a unique index. -/
def Stmt.collides : Stmt → Bool
  | .walletCreate .. | .ledgerEntryCreate _ | .orderCreate _ => true
  | _ => false

theorem World.Served.collides {i : Nat} {w w' : World} {o : Stmt} {r : Except Err o.Reply}
    (hs : Served i w o r w') (hr : r = .error .uniqueViolation) : o.collides = true := by
  cases hs with
  | refused _ e reason =>
    cases hr
    cases o with
    | walletCreate | ledgerEntryCreate | orderCreate => rfl
    | walletUpdate => rcases reason with ⟨he, -⟩ | ⟨he, -⟩ <;> cases he
    | flashSaleEventCreate => cases reason.1
    | _ => exact reason.elim
  | _ => cases hr

def lookups : Machine sql Err Lookup where
  may g o := g.may o
  next g o r := g.next o r
  tells o r := r = .error .uniqueViolation → o.collides = true

/-- A unique index has been violated by nobody but a call that is at that stage. -/
def Blames {α : Type} (r : Except Err α) (g : Lookup) : Prop := r = .error .uniqueViolation → g = .refused

theorem unblamed {α : Type} {o : Stmt} {e : Err} {g : Lookup} (htells : lookups.tells o (.error e))
    (ho : o.collides = false) : Blames (.error e : Except Err α) g := by
  intro hr
  rw [htells (by cases hr; rfl)] at ho
  cases ho

section

variable {α β : Type} {g : Lookup}

/-- Without locks and entries there is nothing to know. -/
theorem looking_of_uses {p : Service α} (hp : p.Uses fun o => Stmt.wants? o = none) :
    p.Keeps lookups.discipline (fun _ _ => True) g := by
  induction p generalizing g with
  | done a => trivial
  | fail e => trivial
  | call o k ih =>
    refine ⟨?_, fun r g' _ => ih r (hp.2 r)⟩
    have ho := hp.1
    cases o with
    | walletForUpdate | ledgerEntryCreate => cases ho
    | _ => trivial

theorem looking_issue {o : Stmt} {f : o.Reply → Service β} (hmay : g.may o)
    (hok : ∀ v, (f v).Keeps lookups.discipline (fun _ _ => True) (g.next o (.ok v))) :
    ((issue o).bind f).Keeps lookups.discipline (fun _ _ => True) g :=
  Machine.keeps_issue (M := lookups) hmay (fun v _ => hok v) fun _ _ => trivial

theorem transaction_looking {body : Service α} (hbody : body.Keeps lookups.discipline (fun _ _ => True) g) :
    (WalletService.transaction body).Keeps lookups.discipline (fun _ _ => True) g := by
  refine hbody.recover fun r g' _ => ?_
  cases r with
  | ok a => exact looking_issue (o := .commit) trivial fun _ => trivial
  | error e => exact looking_issue (o := .rollback) trivial fun _ => trivial

end

namespace WalletService

theorem lockWalletById_looking (id : Uuid) {g : Lookup} (hwrote : g ≠ .wrote) :
    (lockWalletById id).Keeps lookups.discipline (fun _ g' => g' ≠ .wrote) g := by
  refine Machine.keeps_issue (M := lookups) hwrote (fun found _ => ?_) fun e _ => ?_
  · cases found with
    | none => cases g <;> exact hwrote
    | some row => cases g <;> exact nofun
  · cases g <;> exact hwrote

/-- The lock on the user's wallet, and nothing written. -/
theorem lockWalletByUserId_looking (userId : Uuid) :
    (lockWalletByUserId userId).Keeps lookups.discipline
      (fun r g => Blames r g ∧ ∀ row, r = .ok row → g = .locked row.id) .idle := by
  refine Machine.keeps_issue (M := lookups) (g := .idle) trivial (fun found _ => ?_) fun e he => ?_
  · cases found with
    | none => exact ⟨nofun, nofun⟩
    | some wallet =>
      refine Machine.keeps_issue (M := lookups) (g := .idle) (o := .walletForUpdate wallet.id) nofun
        (fun found _ => ?_) fun e he => ?_
      · cases found with
        | none => exact ⟨nofun, nofun⟩
        | some row =>
          refine ⟨nofun, fun row' hrow => ?_⟩
          rw [← Except.ok.inj hrow]
          rfl
      · exact ⟨unblamed he rfl, nofun⟩
  · exact ⟨unblamed he rfl, nofun⟩

theorem deposit_looking (userId : Uuid) (dto : DepositDto) :
    (deposit userId dto).Keeps lookups.discipline (fun _ _ => True) .idle := by
  refine looking_issue (o := .randomUUID) trivial fun referenceId => transaction_looking ?_
  refine (lockWalletByUserId_looking userId).seq (fun row g h => ?_) fun _ _ _ => trivial
  obtain rfl := h.2 row rfl
  refine looking_issue (o := .walletUpdate ..) trivial fun updated => ?_
  exact looking_issue (o := .ledgerEntryCreate _) nofun fun entry => trivial

theorem purchaseDeduct_looking (userId : Uuid) (amount : Int) (referenceId : String) :
    (purchaseDeduct userId amount referenceId).Keeps lookups.discipline Blames .idle := by
  refine Prog.Keeps.recover (R := Blames) ?_ fun r g h => ?_
  · refine (lockWalletByUserId_looking userId).seq (fun row g h => ?_) fun e g h => ?_
    · obtain rfl := h.2 row rfl
      refine Machine.keeps_issue (M := lookups) (g := .locked row.id) trivial (fun found _ => ?_)
        fun e he => unblamed he rfl
      cases found with
      | some existing => exact nofun
      | none =>
        dsimp only
        split
        · exact nofun
        -- it has looked, and under the lock
        have habsent : lookups.next (.locked row.id) (.ledgerEntryFindUnique row.id referenceId .PURCHASE)
            (.ok none) = .absent row.id referenceId := if_pos rfl
        rw [habsent]
        refine Machine.keeps_issue (M := lookups) (g := .absent row.id referenceId) trivial (fun updated _ => ?_)
          fun e he => unblamed he rfl
        refine Machine.keeps_issue (M := lookups) (g := .absent row.id referenceId) (fun _ => rfl)
          (fun entry _ => nofun) fun e _ hr => ?_
        obtain rfl := Except.error.inj hr
        rfl
    · exact fun hr => h.1 (by cases hr; rfl)
  · cases r with
    | ok a =>
      exact Machine.keeps_issue (M := lookups) (o := .commit) trivial (fun _ _ => nofun)
        fun e he => unblamed he rfl
    | error err =>
      refine Machine.keeps_issue (M := lookups) (o := .rollback) trivial (fun _ _ hr => ?_)
        fun e he => unblamed he rfl
      obtain rfl := h (by cases hr; rfl)
      rfl

theorem moveFunds_looking (sender receiver : Wallet) (amount : Int) (key : String) {g : Lookup} :
    (moveFunds sender receiver amount key).Keeps lookups.discipline (fun _ _ => True) g := by
  unfold moveFunds
  split
  · trivial
  refine looking_issue (o := .walletUpdate ..) trivial fun _ => ?_
  refine looking_issue (o := .walletUpdate ..) trivial fun _ => ?_
  refine looking_issue (o := .ledgerEntryCreate _) nofun fun _ => ?_
  exact looking_issue (o := .ledgerEntryCreate _) nofun fun _ => trivial

theorem transferTx_looking (userId : Uuid) (dto : TransferDto) :
    (transferTx userId dto).Keeps lookups.discipline (fun _ _ => True) .idle := by
  refine looking_issue (o := .walletFindUnique userId) trivial fun senderRef => ?_
  refine looking_issue (o := .walletFindUnique dto.toUserId) trivial fun receiverRef => ?_
  cases senderRef with
  | none => trivial
  | some senderRef =>
  cases receiverRef with
  | none => trivial
  | some receiverRef =>
  refine looking_issue (o := .ledgerEntryFindUnique senderRef.id dto.idempotencyKey .TRANSFER_OUT) trivial
    fun found => ?_
  cases found with
  | some existingOut => trivial
  | none =>
    rcases sort senderRef.id receiverRef.id with ⟨firstId, secondId⟩
    refine (lockWalletById_looking firstId (g := .idle) nofun).seq (fun first g h => ?_) fun _ _ _ => trivial
    exact (lockWalletById_looking secondId h).seq (fun second g h => moveFunds_looking ..) fun _ _ _ => trivial

theorem transfer_looking (userId : Uuid) (dto : TransferDto) :
    (transfer userId dto).Keeps lookups.discipline (fun _ _ => True) .idle := by
  unfold transfer
  split
  · trivial
  refine looking_issue (o := .redisGet _) trivial fun found => ?_
  cases found with
  | some cached => trivial
  | none =>
    refine (transaction_looking (transferTx_looking userId dto)).seq (fun v g _ => ?_) fun _ _ _ => trivial
    exact looking_issue (o := .redisSet _ v) trivial fun _ => trivial

end WalletService

namespace FlashSaleService

theorem settle_looking (userId : Uuid) (dto : PurchaseFlashSaleDto) (price : Money) :
    (settle userId dto price).Keeps lookups.discipline (fun _ _ => True) .idle := by
  refine looking_issue (o := .randomUUID) trivial fun orderId => ?_
  refine (WalletService.purchaseDeduct_looking userId price.toDecimal _).recover fun r g _ => ?_
  cases r with
  | error err => exact looking_of_uses (compensate_uses Lockless (fun _ => rfl) rfl (fun _ _ => rfl) err)
  | ok booked => exact looking_of_uses (confirm_lockless userId dto orderId)

theorem purchase_looking (userId : Uuid) (dto : PurchaseFlashSaleDto) :
    (purchase userId dto).Keeps lookups.discipline (fun _ _ => True) .idle := by
  refine looking_issue (o := .orderFindUnique _ _) trivial fun found => ?_
  cases found with
  | some existing => trivial
  | none =>
  refine looking_issue (o := .flashSaleEventFindUnique dto.eventId) trivial fun found => ?_
  cases found with
  | none => trivial
  | some found =>
  refine looking_issue (o := .now) trivial fun now => ?_
  split
  · trivial
  refine looking_issue (o := .reserveUnit dto.eventId) trivial fun reserved => ?_
  split
  · exact settle_looking userId dto found.2.price
  · refine looking_of_uses (Prog.uses_bind (poll_uses Lockless rfl rfl 5) fun found => ?_)
    cases found <;> trivial

end FlashSaleService

/-- A deduction answers that a unique index was violated only where one was. -/
def Blamed : Request → Except Err Response → Lookup → Prop
  | .purchaseDeduct .. => Blames
  | _ => fun _ _ => True

theorem handler_looking (req : Request) : req.handler.Keeps lookups.discipline (Blamed req) .idle := by
  cases req with
  | provisionWallet userId =>
    exact looking_of_uses (Prog.uses_bind (uses_issue (o := .walletCreate userId 0) rfl fun _ => trivial)
      fun _ => trivial)
  | deposit userId dto =>
    exact (WalletService.deposit_looking userId dto).seq (fun _ _ _ => trivial) fun _ _ _ => trivial
  | purchaseDeduct userId amount referenceId =>
    refine (WalletService.purchaseDeduct_looking userId amount referenceId).seq (fun _ _ _ => nofun) fun e g h => ?_
    exact fun hr => h (by cases hr; rfl)
  | transfer userId dto =>
    exact (WalletService.transfer_looking userId dto).seq (fun _ _ _ => trivial) fun _ _ _ => trivial
  | createEvent dto =>
    refine looking_of_uses (Prog.uses_bind (uses_issue (o := .productFindUnique dto.productId) rfl fun found => ?_)
      fun _ => trivial)
    cases found with
    | none => trivial
    | some product => exact Prog.uses_perform (S := sql) (o := .flashSaleEventCreate ..) rfl
  | purchase userId dto =>
    exact (FlashSaleService.purchase_looking userId dto).seq (fun _ _ _ => trivial) fun _ _ _ => trivial

/-! ## Soundness -/

section

variable {w w' : World} {i j : Nat} {g : Lookup}

/-- Nobody else inserts what has been looked for. -/
theorem Lookup.Known.served {o : Stmt} {r : Except Err o.Reply} (h : g.Known w j) (hw : w.Ok)
    (hs : World.Served i w o r w') (hij : j ≠ i) : g.Known w' j := by
  have hrely : w.Rely j w' := .served hw hs hij
  cases g with
  | idle => exact (congrArg Tx.entries hrely.tx).trans h
  | locked id => exact ⟨(congrArg Tx.entries hrely.tx).trans h.1, (hrely.holder id).mpr h.2⟩
  | absent id referenceId =>
    obtain ⟨hentries, hholder, habsent⟩ := h
    refine ⟨(congrArg Tx.entries hrely.tx).trans hentries, (hrely.holder id).mpr hholder, fun e he hkey => ?_⟩
    rcases World.posted_held hw hs he with he | ⟨-, hheld⟩
    · exact habsent e he hkey
    · rw [show e.walletId = id from congrArg Prod.fst hkey, hholder] at hheld
      exact hij (Option.some.inj hheld)
  | wrote => trivial
  | refused => exact h

theorem Lookup.Known.same (h : g.Known w j) (htx : (w'.tx j).entries = (w.tx j).entries)
    (hholder : ∀ id, w.holder id = some j → w'.holder id = some j) (hledger : w'.ledger = w.ledger) :
    g.Known w' j := by
  cases g with
  | idle => exact htx.trans h
  | locked id => exact ⟨htx.trans h.1, hholder id h.2⟩
  | absent id referenceId => exact ⟨htx.trans h.1, hholder id h.2.1, hledger ▸ h.2.2⟩
  | wrote => trivial
  | refused => exact h

/-- An error that is no violation of the index says nothing. -/
theorem Lookup.next_error {o : Stmt} {e : Err} (ho : o ≠ .commit) (ho' : o ≠ .rollback)
    (he : ∀ d, o = .ledgerEntryCreate d → d.type = .PURCHASE → e ≠ .uniqueViolation) :
    g.next o (.error e) = g := by
  cases o with
  | commit => exact absurd rfl ho
  | rollback => exact absurd rfl ho'
  | walletForUpdate id => cases g <;> rfl
  | ledgerEntryFindUnique walletId referenceId type => cases type <;> cases g <;> rfl
  | ledgerEntryCreate d =>
    have he := he d rfl
    change onLedgerEntryCreate d.type g (.error e) = g
    revert he
    cases d.type <;> cases e <;> cases g <;> intro he <;> first | rfl | exact absurd rfl (he rfl)
  | _ => rfl

theorem Lookup.Known.entries (h : g.Known w i) (hwrote : g ≠ .wrote) : (w.tx i).entries = [] := by
  cases g with
  | idle => exact h
  | locked | absent => exact h.1
  | wrote => exact absurd rfl hwrote
  | refused => exact h.elim

/-- What is looked for under the lock and not found is absent. -/
theorem Lookup.Known.find {walletId : Uuid} {referenceId : String} {type : LedgerType} (h : g.Known w i) :
    (onFind walletId referenceId type g (.ok (w.entryOf? (walletId, referenceId, type)))).Known w i := by
  unfold onFind
  split
  · rename_i id hnone
    obtain ⟨hentries, hholder⟩ := h
    split
    · rename_i heq
      subst heq
      exact ⟨hentries, hholder, World.entryOf?_eq_none.mp (Except.ok.inj hnone)⟩
    · exact ⟨hentries, hholder⟩
  · exact h

/-- The entry a call is about to insert is not there. -/
theorem Lookup.Known.unique {d : NewLedgerEntry} (h : g.Known w i) (hmay : g.may (.ledgerEntryCreate d))
    (htype : d.type = .PURCHASE) :
    ∀ e ∈ w.ledger ++ (w.tx i).entries, e.key ≠ (d.walletId, d.referenceId, d.type) := by
  obtain rfl := hmay htype
  obtain ⟨hentries, -, habsent⟩ := h
  rw [hentries, List.append_nil, htype]
  exact habsent

theorem Lookup.Known.end (h : g.Known w i) (htx : w'.tx i = .empty) : g.onEnd.Known w' i := by
  cases g with
  | refused => exact h
  | _ => exact congrArg Tx.entries htx

/-- What the call itself knows after its statement. -/
theorem Lookup.Known.next {o : Stmt} {r : Except Err o.Reply} (h : g.Known w i) (hmay : g.may o)
    (hs : World.Served i w o r w') : (g.next o r).Known w' i := by
  cases hs with
  | read _ v answer =>
    cases o with
    | ledgerEntryFindUnique walletId referenceId type =>
      obtain rfl := Option.some.inj answer
      exact h.find
    | walletForUpdate | ledgerEntryCreate | commit | rollback => cases answer
    | _ => exact h
  | failed _ remote open' =>
    have hsame := next_error (g := g) (e := .unavailable) open' (by rintro rfl; cases remote) fun _ _ _ => nofun
    exact hsame.symm ▸ h
  | refused _ e reason =>
    have hsame : g.next o (.error e) = g := by
      refine next_error (by rintro rfl; exact reason) (by rintro rfl; exact reason) ?_
      -- what it has looked for is not there
      rintro d rfl htype rfl
      rcases reason with ⟨he, -⟩ | ⟨he, -⟩ | ⟨-, e', he', hkey⟩
      · cases he
      · cases he
      · exact h.unique hmay htype e' he' hkey
    exact hsame.symm ▸ h
  | lockMissing id missing =>
    have hsame : g.next (.walletForUpdate id) (.ok none) = g := by cases g <;> rfl
    exact hsame.symm ▸ h
  | locked id row free found =>
    have hentries := h.entries hmay
    obtain rfl := (World.wallet?_eq_some found).2
    cases g with
    | refused => exact h
    | _ => exact ⟨hentries, if_pos rfl⟩
  | updated id balance row m free found fits =>
    exact h.same (by rw [World.setTx_self]) (fun id' hheld => World.lock_holder free hheld) rfl
  | entered d =>
    cases g with
    | refused => exact h
    | _ => cases d.type <;> trivial
  | committed | commitFailed | rolledBack => exact h.end (World.release_tx_self _ i)
  | _ => exact h.same rfl (fun _ => id) rfl

end

theorem lookups_bookkeeping (ok : State → Event → Prop) :
    Platform.Bookkeeping system lookups.discipline Blamed (fun _ => .idle)
      (fun _ c gs => Platform.Matched (fun i _ g => Lookup.Known c.world i g) c.calls gs) ok State.initial where
  handlers _ r _ := handler_looking r
  arrive tr c gs r hrun hlen h _ := by
    obtain ⟨bs, hkept, -⟩ := kept_of_run hrun
    exact h.arrive hlen (congrArg Tx.entries (hkept.beyond _ le_rfl).1)
  exec tr c gs i r o k g x reply w hrun _ h _ hi hg hmay hexec := by
    have hs := World.Served.of_exec hexec
    have hw := Reachable.worldOk ⟨tr, hrun⟩
    exact ⟨g.next o reply, ⟨rfl, hs.collides⟩,
      h.set (fun j _ _ hij hj => hj.served hw hs hij) ((h i _ g hi hg).next hmay hs)⟩
  crash tr c gs i r o k g hrun _ h _ hi hg := by
    refine ⟨.idle, h.set (fun j _ _ hij hj => ?_) (congrArg Tx.entries (World.release_tx_self _ i))⟩
    exact hj.same (congrArg Tx.entries (World.release_tx_other _ hij))
      (fun id => ((World.Rely.release hij).holder id).mpr) rfl
  env tr c gs e w hrun _ h _ he := by
    have hsame := World.env_same he
    exact h.mono fun j _ _ hj => hj.same (congrArg (fun tx => (tx j).entries) hsame.tx)
      (fun id hheld => (congrFun hsame.holder id).trans hheld) hsame.ledger

/-- What all calls know, in every run. -/
theorem lookups_of_run {ok : State → Event → Prop} {tr : Trace} {c : State}
    (hrun : RunFrom State.initial ok tr c) :
    ∃ gs, Platform.Matched (fun i _ g => Lookup.Known c.world i g) c.calls gs ∧
      Platform.Aligned lookups.discipline Blamed c.calls gs :=
  (lookups_bookkeeping ok).sound .nil .nil hrun

/-- **No deduction fails with a violation of the unique index**, whatever else goes on. -/
theorem unviolated {ok : State → Event → Prop} {tr : Trace} {c : State} (hrun : RunFrom State.initial ok tr c)
    {i : Nat} {call : ServiceCall} {userId : Uuid} {amount : Int} {referenceId : String}
    (hi : c.calls[i]? = some call) (hreq : call.request = .purchaseDeduct userId amount referenceId) :
    call.result? ≠ some (.error .uniqueViolation) := by
  obtain ⟨gs, hknown, ha⟩ := lookups_of_run hrun
  obtain ⟨g, hg⟩ := ha.books hi
  intro hr
  obtain ⟨hlive, hprog⟩ := Call.result?_eq_some hr
  have hkeeps := ha.keeps i call g hi hg hlive
  rw [hprog, hreq] at hkeeps
  obtain rfl : g = .refused := hkeeps rfl
  exact hknown i call _ hi hg

/-- Nor is an insert of a purchase entry ever refused for that reason, in whichever call. -/
theorem uncollided {ok : State → Event → Prop} {tr : Trace} {c : State} (hrun : RunFrom State.initial ok tr c)
    {i : Nat} {r : Request} {d : NewLedgerEntry} {k : Except Err LedgerEntry → Service Response} {x : Choice}
    {w : World} (hi : c.calls[i]? = some ⟨r, .call (S := sql) (.ledgerEntryCreate d) k, false⟩)
    (htype : d.type = .PURCHASE) :
    World.exec i (.ledgerEntryCreate d) x c.world ≠ some (.error .uniqueViolation, w) := by
  obtain ⟨gs, hknown, ha⟩ := lookups_of_run hrun
  obtain ⟨g, hg⟩ := ha.books hi
  have hkeeps := ha.keeps i _ g hi hg rfl
  have hunique := (hknown i _ g hi hg).unique hkeeps.1 htype
  intro hexec
  have hs := World.Served.of_exec hexec
  cases hs with
  | refused _ e reason =>
    rcases reason with ⟨he, -⟩ | ⟨he, -⟩ | ⟨-, e', he', hkey⟩
    · cases he
    · cases he
    · exact hunique e' he' hkey

end FlashWallet
