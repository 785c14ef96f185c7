import FlashWallet.Proof.Handlers
import FlashWallet.Proof.SerialRuns

/-!
# The three transactions, from both sides

Each body is gone through twice: in the crowd, where it ends with the replies it has had, and alone, where these
replies lead it to the same end.
-/

set_option autoImplicit false

namespace FlashWallet

open Lib

namespace WalletService

/-- `deposit` behind its `randomUUID`. -/
def depositTx (userId : Uuid) (dto : DepositDto) (referenceId : String) : Service BookedResult :=
  transaction do
    let wallet ← lockWalletByUserId userId
    let newBalance := Decimal.plus wallet.balance.toDecimal dto.amount
    let updated ← issue (.walletUpdate wallet.id newBalance)
    let entry ← issue (.ledgerEntryCreate {
      walletId := wallet.id
      type := .DEPOSIT
      amount := dto.amount
      balanceAfter := newBalance
      referenceId := referenceId })
    return { walletId := wallet.id, balance := updated.balance, entry := entry }

end WalletService

/-- How a body may leave its transaction: the replies it has had lead it there again. -/
def Course.Leaves {α : Type} (body : Service α) : Except Err α → Course → Prop
  | .ok a, g => ∃ log, g = .running log ∧ ∀ i w, (∀ x ∈ log, Exchange.Holds i w x) → Closes i w body [] a log
  | .error _, g => ∃ log, g = .running log

/-- How a transaction may end. -/
def Course.Ends {α : Type} (p : Service α) : Except Err α → Course → Prop
  | .ok a, g => ∃ log, g = .committed log ∧
      ∀ i w, (∀ x ∈ log, Exchange.Holds i w x) → w.tx i = buffered log → Replays i w p a
  | .error _, g => ∀ log, g ≠ .committed log

theorem transaction_courses {α : Type} {body : Service α}
    (h : body.Keeps courses.discipline (Course.Leaves body) (.running [])) :
    (WalletService.transaction body).Keeps courses.discipline (Course.Ends (WalletService.transaction body))
      (.running []) := by
  refine h.recover fun r g hleaves => ?_
  cases r with
  | ok a =>
    obtain ⟨log, rfl, hcloses⟩ := hleaves
    refine Machine.keeps_issue (M := courses) (.running log .commit rfl) (fun _ _ => ⟨log, rfl, fun i w hlog htx => ?_⟩)
      fun e _ => nofun
    exact (hcloses i w hlog).replays htx
  | error e =>
    obtain ⟨log, rfl⟩ := hleaves
    exact Machine.keeps_issue (M := courses) (.running log .rollback rfl) (fun _ _ => nofun) fun e _ => nofun

/-- What is made of the answer afterwards changes nothing. -/
theorem Course.ends_map {α β : Type} {p : Service α} (f : α → β)
    (h : p.Keeps courses.discipline (Course.Ends p) (.running [])) :
    (p.bind fun a => .done (f a)).Keeps courses.discipline (Course.Ends (p.bind fun a => .done (f a)))
      (.running []) := by
  refine h.seq (fun a g hends => ?_) fun e g h => h
  obtain ⟨log, rfl, hreplays⟩ := hends
  exact ⟨log, rfl, fun i w hlog htx => (hreplays i w hlog htx).map f⟩

/-- A statement of a body. -/
theorem courses_issue {α : Type} {o : Stmt} {f : o.Reply → Service α} {R : Except Err α → Course → Prop}
    {log : List Exchange} (ho : o.isTransactional = true) (hcommit : o ≠ .commit) (hrollback : o ≠ .rollback)
    (hok : ∀ v, (f v).Keeps courses.discipline R (.running (log ++ [⟨o, .ok v⟩])))
    (herr : ∀ e log', R (.error e) (.running log')) :
    ((issue o).bind f).Keeps courses.discipline R (.running log) := by
  have hnext : ∀ r : Except Err o.Reply, (Course.running log).next o r = .running (log ++ [⟨o, r⟩]) :=
    fun r => Course.next_running r hcommit hrollback
  refine Machine.keeps_issue (M := courses) (.running log o ho) (fun v _ => ?_) fun e _ => ?_
  · show (f v).Keeps courses.discipline R ((Course.running log).next o (.ok v))
    rw [hnext]
    exact hok v
  · show R (.error e) ((Course.running log).next o (.error e))
    rw [hnext]
    exact herr e _

/-! ## The lock on a user's wallet -/

/-- How `lockWalletByUserId` ends. -/
def Course.Locks (userId : Uuid) : Except Err Wallet → Course → Prop
  | .ok row, g => ∃ ref : Wallet,
      g = .running [⟨.walletFindUnique userId, .ok (some ref)⟩, ⟨.walletForUpdate ref.id, .ok (some row)⟩]
  | .error _, g => ∃ log, g = .running log

theorem lockWalletByUserId_courses (userId : Uuid) :
    (WalletService.lockWalletByUserId userId).Keeps courses.discipline (Course.Locks userId) (.running []) := by
  refine courses_issue (o := .walletFindUnique userId) rfl nofun nofun (fun found => ?_) fun e log => ⟨log, rfl⟩
  cases found with
  | none => exact ⟨_, rfl⟩
  | some ref =>
    refine courses_issue (o := .walletForUpdate ref.id) rfl nofun nofun (fun found => ?_) fun e log => ⟨log, rfl⟩
    cases found with
    | none => exact ⟨_, rfl⟩
    | some row => exact ⟨ref, rfl⟩

section

variable {i : Nat} {w : World} {log : List Exchange}

theorem lockWalletByUserId_closes {userId : Uuid} {ref row : Wallet}
    (hfind : Exchange.Holds i w ⟨.walletFindUnique userId, .ok (some ref)⟩)
    (hlock : Exchange.Holds i w ⟨.walletForUpdate ref.id, .ok (some row)⟩) :
    Closes i w (WalletService.lockWalletByUserId userId) [] row
      [⟨.walletFindUnique userId, .ok (some ref)⟩, ⟨.walletForUpdate ref.id, .ok (some row)⟩] := by
  refine Closes.find hfind fun ref' hid => ?_
  show Closes i w (WalletService.lockWalletById ref'.id) _ _ _
  rw [hid]
  exact Closes.lock hlock (Closes.done _ rfl)

/-- An entry that could be made was not there. -/
theorem entryOf?_of_entered {d : NewLedgerEntry} {e : LedgerEntry}
    (h : Exchange.Holds i w ⟨.ledgerEntryCreate d, .ok e⟩) : w.entryOf? (d.walletId, d.referenceId, d.type) = none := by
  obtain ⟨-, -, -, -, hkey, hunique⟩ := h
  exact World.entryOf?_eq_none.mpr fun e' he' heq => hunique e' he' (heq.trans hkey.symm)

end

/-! ## A deposit -/

theorem depositTx_courses (userId : Uuid) (dto : DepositDto) (referenceId : String) :
    (WalletService.depositTx userId dto referenceId).Keeps courses.discipline
      (Course.Ends (WalletService.depositTx userId dto referenceId)) (.running []) := by
  refine transaction_courses ((lockWalletByUserId_courses userId).seq (fun row g hlocks => ?_) fun e g h => h)
  obtain ⟨ref, rfl⟩ := hlocks
  refine courses_issue (o := .walletUpdate row.id _) rfl nofun nofun (fun updated => ?_) fun e log => ⟨log, rfl⟩
  refine courses_issue (o := .ledgerEntryCreate _) rfl nofun nofun (fun e => ?_) fun e log => ⟨log, rfl⟩
  refine ⟨_, rfl, fun i w hlog => ?_⟩
  simp only [List.cons_append, List.nil_append, List.forall_mem_cons] at hlog
  obtain ⟨hfind, hlock, hupdate, henter, -⟩ := hlog
  refine (lockWalletByUserId_closes hfind hlock).bind
    (Closes.update hupdate (Closes.enter henter ?_ (Closes.done _ rfl)))
  simp [buffered, Exchange.entries]

/-! ## A debit -/

theorem purchaseDeduct_courses (userId : Uuid) (amount : Int) (referenceId : String) :
    (WalletService.purchaseDeduct userId amount referenceId).Keeps courses.discipline
      (Course.Ends (WalletService.purchaseDeduct userId amount referenceId)) (.running []) := by
  refine transaction_courses ((lockWalletByUserId_courses userId).seq (fun row g hlocks => ?_) fun e g h => h)
  obtain ⟨ref, rfl⟩ := hlocks
  refine courses_issue (o := .ledgerEntryFindUnique row.id referenceId .PURCHASE) rfl nofun nofun (fun found => ?_)
    fun e log => ⟨log, rfl⟩
  cases found with
  | some existing =>
    refine ⟨_, rfl, fun i w hlog => ?_⟩
    simp only [List.cons_append, List.nil_append, List.forall_mem_cons] at hlog
    obtain ⟨hfind, hlock, hlook, -⟩ := hlog
    exact (lockWalletByUserId_closes hfind hlock).bind (Closes.look hlook (Closes.done _ rfl))
  | none =>
    dsimp only
    split
    · exact ⟨_, rfl⟩
    · rename_i hfunds
      refine courses_issue (o := .walletUpdate row.id _) rfl nofun nofun (fun updated => ?_) fun e log => ⟨log, rfl⟩
      refine courses_issue (o := .ledgerEntryCreate _) rfl nofun nofun (fun e => ?_) fun e log => ⟨log, rfl⟩
      refine ⟨_, rfl, fun i w hlog => ?_⟩
      simp only [List.cons_append, List.nil_append, List.forall_mem_cons] at hlog
      obtain ⟨hfind, hlock, -, hupdate, henter, -⟩ := hlog
      refine (lockWalletByUserId_closes hfind hlock).bind (Closes.look (entryOf?_of_entered henter) ?_)
      dsimp only
      rw [if_neg hfunds]
      refine Closes.update hupdate (Closes.enter henter ?_ (Closes.done _ rfl))
      simp [buffered, Exchange.entries]

/-! ## A transfer -/

section

variable {userId : Uuid} {dto : TransferDto}

/-- What moves the funds. -/
def moves (sender receiver : Wallet) (dto : TransferDto) (debited credited : Wallet) (out inn : LedgerEntry) :
    List Exchange :=
  [⟨.walletUpdate sender.id (Decimal.minus sender.balance.toDecimal dto.amount), .ok debited⟩,
    ⟨.walletUpdate receiver.id (Decimal.plus receiver.balance.toDecimal dto.amount), .ok credited⟩,
    ⟨.ledgerEntryCreate ⟨sender.id, .TRANSFER_OUT, Decimal.negated dto.amount,
      Decimal.minus sender.balance.toDecimal dto.amount, dto.idempotencyKey⟩, .ok out⟩,
    ⟨.ledgerEntryCreate ⟨receiver.id, .TRANSFER_IN, dto.amount,
      Decimal.plus receiver.balance.toDecimal dto.amount, dto.idempotencyKey⟩, .ok inn⟩]

/-- How `moveFunds` ends that begins with the replies `log`. -/
def Course.Moves (sender receiver : Wallet) (dto : TransferDto) (log : List Exchange) :
    Except Err TransferResult → Course → Prop
  | .ok a, g => ∃ debited credited out inn, g = .running (log ++ moves sender receiver dto debited credited out inn) ∧
      ∀ i w, (∀ x ∈ moves sender receiver dto debited credited out inn, Exchange.Holds i w x) →
        log.flatMap Exchange.entries = [] →
        Closes i w (WalletService.moveFunds sender receiver dto.amount dto.idempotencyKey) log a
          (log ++ moves sender receiver dto debited credited out inn)
  | .error _, g => ∃ log, g = .running log

theorem moveFunds_courses (sender receiver : Wallet) (log : List Exchange) :
    (WalletService.moveFunds sender receiver dto.amount dto.idempotencyKey).Keeps courses.discipline
      (Course.Moves sender receiver dto log) (.running log) := by
  unfold WalletService.moveFunds
  split
  · exact ⟨_, rfl⟩
  · rename_i hfunds
    refine courses_issue (o := .walletUpdate sender.id _) rfl nofun nofun (fun debited => ?_) fun e log => ⟨log, rfl⟩
    refine courses_issue (o := .walletUpdate receiver.id _) rfl nofun nofun (fun credited => ?_) fun e log => ⟨log, rfl⟩
    refine courses_issue (o := .ledgerEntryCreate _) rfl nofun nofun (fun (out : LedgerEntry) => ?_)
      fun e log => ⟨log, rfl⟩
    refine courses_issue (o := .ledgerEntryCreate _) rfl nofun nofun (fun (inn : LedgerEntry) => ?_)
      fun e log => ⟨log, rfl⟩
    refine ⟨debited, credited, out, inn, by simp [moves], fun i w hmoves hlog => ?_⟩
    simp only [moves, List.forall_mem_cons] at hmoves
    obtain ⟨hdebit, hcredit, hout, hinn, -⟩ := hmoves
    have hkeys : out.key ≠ inn.key := by
      obtain ⟨-, -, -, -, hout, -⟩ := hout
      obtain ⟨-, -, -, -, hinn, -⟩ := hinn
      rw [hout, hinn]
      simp
    unfold WalletService.moveFunds
    rw [if_neg hfunds]
    refine Closes.update hdebit (Closes.update hcredit (Closes.enter hout ?_ (Closes.enter hinn ?_
      (Closes.done _ (by simp [moves])))))
    · simp [buffered, hlog, Exchange.entries]
    · simpa [buffered, hlog, Exchange.entries] using hkeys

/-- How a lock on one of the two rows ends that comes after the replies `log`. -/
def Course.LocksRow (id : Uuid) (log : List Exchange) : Except Err Wallet → Course → Prop
  | .ok row, g => g = .running (log ++ [⟨.walletForUpdate id, .ok (some row)⟩])
  | .error _, g => ∃ log, g = .running log

theorem lockWalletById_courses (id : Uuid) (log : List Exchange) :
    (WalletService.lockWalletById id).Keeps courses.discipline (Course.LocksRow id log) (.running log) := by
  refine courses_issue (o := .walletForUpdate id) rfl nofun nofun (fun found => ?_) fun e log => ⟨log, rfl⟩
  cases found with
  | none => exact ⟨_, rfl⟩
  | some row => rfl

theorem transferTx_courses :
    (WalletService.transferTx userId dto).Keeps courses.discipline
      (Course.Leaves (WalletService.transferTx userId dto)) (.running []) := by
  refine courses_issue (o := .walletFindUnique userId) rfl nofun nofun (fun found => ?_) fun e log => ⟨log, rfl⟩
  refine courses_issue (o := .walletFindUnique dto.toUserId) rfl nofun nofun (fun found' => ?_) fun e log => ⟨log, rfl⟩
  cases found with
  | none => cases found' <;> exact ⟨_, rfl⟩
  | some sref =>
  cases found' with
  | none => exact ⟨_, rfl⟩
  | some rref =>
  refine courses_issue (o := .ledgerEntryFindUnique sref.id dto.idempotencyKey .TRANSFER_OUT) rfl nofun nofun
    (fun found => ?_) fun e log => ⟨log, rfl⟩
  cases found with
  | some existing =>
    refine ⟨_, rfl, fun i w hlog => ?_⟩
    simp only [List.cons_append, List.nil_append, List.forall_mem_cons] at hlog
    obtain ⟨hsender, hreceiver, hlook, -⟩ := hlog
    refine Closes.find hsender fun sref' hs => Closes.find hreceiver fun rref' hr => ?_
    dsimp only
    rw [hs, hr]
    exact Closes.look hlook (Closes.done _ rfl)
  | none =>
    refine (lockWalletById_courses (WalletService.sort sref.id rref.id).1 _).seq (fun first g hfirst => ?_)
      fun e g h => h
    obtain rfl := hfirst
    refine (lockWalletById_courses (WalletService.sort sref.id rref.id).2 _).seq (fun second g hsecond => ?_)
      fun e g h => h
    obtain rfl := hsecond
    refine (moveFunds_courses _ _ _).mono fun r g hmoves => ?_
    cases r with
    | error e => exact hmoves
    | ok a =>
      obtain ⟨debited, credited, out, inn, rfl, hcloses⟩ := hmoves
      refine ⟨_, rfl, fun i w hlog => ?_⟩
      simp only [List.cons_append, List.nil_append, List.forall_mem_cons] at hlog
      obtain ⟨hsender, hreceiver, -, hfirst, hsecond, hmoves⟩ := hlog
      have hunseen : w.entryOf? (sref.id, dto.idempotencyKey, .TRANSFER_OUT) = none := by
        have hids := WalletService.locked_ids (World.wallet?_eq_some hfirst.2).2 (World.wallet?_eq_some hsecond.2).2
        rw [← hids.1]
        exact entryOf?_of_entered (hmoves _ (List.mem_cons_of_mem _ (List.mem_cons_of_mem _ List.mem_cons_self)))
      refine Closes.find hsender fun sref' hs => Closes.find hreceiver fun rref' hr => ?_
      dsimp only
      rw [hs, hr]
      refine Closes.look hunseen ?_
      refine Closes.bind (Closes.lock hfirst (Closes.done _ rfl)) ?_
      refine Closes.bind (Closes.lock hsecond (Closes.done _ rfl)) ?_
      exact hcloses i w hmoves (by simp [Exchange.entries])

end

end FlashWallet
