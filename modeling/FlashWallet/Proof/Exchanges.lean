import FlashWallet.Lib.Machine
import FlashWallet.Proof.Engine

/-!
# What a transaction has been told

A transaction of the wallet keeps the replies it has had. While it is open the others cannot make them untrue: the
rows it has locked stay as they are, wallets keep their owners, and an entry that was there stays there. That no entry
was there is kept only where the row is locked.
-/

set_option autoImplicit false

namespace FlashWallet

open Lib

/-- The statements of the wallet's transactions. -/
def Stmt.isTransactional : Stmt → Bool
  | .walletFindUnique _ | .walletForUpdate _ | .walletUpdate .. | .ledgerEntryFindUnique .. | .ledgerEntryCreate _
  | .commit | .rollback => true
  | _ => false

/-- A statement, and what it was answered. -/
structure Exchange where
  stmt : Stmt
  reply : Except Err stmt.Reply

namespace Exchange

def writes : Exchange → List (Uuid × Money)
  | ⟨.walletUpdate id _, .ok row⟩ => [(id, row.balance)]
  | _ => []

def entries : Exchange → List LedgerEntry
  | ⟨.ledgerEntryCreate _, .ok e⟩ => [e]
  | _ => []

/-- Call `i` would be answered so now, as far as it has looked. -/
def Holds (i : Nat) (w : World) : Exchange → Prop
  | ⟨.walletFindUnique userId, .ok found⟩ => (w.walletOf? userId).map Wallet.id = found.map Wallet.id
  | ⟨.walletForUpdate id, .ok (some row)⟩ => w.holder id = some i ∧ w.wallet? id = some row
  | ⟨.walletUpdate id balance, .ok updated⟩ => w.holder id = some i ∧ ∃ row m, w.wallet? id = some row ∧
      Money.ofDecimal? balance = some m ∧ updated = { row with balance := m, version := row.version + 1 }
  | ⟨.ledgerEntryFindUnique walletId referenceId type, .ok (some e)⟩ =>
    w.entryOf? (walletId, referenceId, type) = some e
  | ⟨.ledgerEntryCreate d, .ok e⟩ => w.holder d.walletId = some i ∧ (w.wallet? d.walletId).isSome = true ∧
      Money.ofDecimal? d.amount = some e.amount ∧ Money.ofDecimal? d.balanceAfter = some e.balanceAfter ∧
      e.key = (d.walletId, d.referenceId, d.type) ∧ ∀ e' ∈ w.ledger, e'.key ≠ e.key
  | _ => True

end Exchange

/-- What the transaction has buffered. -/
def buffered (log : List Exchange) : Tx := ⟨log.flatMap Exchange.writes, log.flatMap Exchange.entries⟩

theorem buffered_concat (log : List Exchange) (x : Exchange) :
    buffered (log ++ [x]) = ⟨(buffered log).writes ++ x.writes, (buffered log).entries ++ x.entries⟩ := by
  simp [buffered]

namespace World

/-- Call `i` finds all it relies on as it was. -/
structure Spares (i : Nat) (w w' : World) : Prop where
  held : ∀ id, w.holder id = some i → w'.holder id = some i ∧ w'.wallet? id = w.wallet? id
  owners : ∀ userId, (w'.walletOf? userId).map Wallet.id = (w.walletOf? userId).map Wallet.id
  entries : ∃ es, w'.ledger = w.ledger ++ es ∧ ∀ e ∈ es, w.holder e.walletId ≠ some i

/-- Nobody has buffered anything for a row it does not hold. -/
structure Guarded (w : World) : Prop where
  writes : ∀ i, ∀ write ∈ (w.tx i).writes, w.holder write.1 = some i
  entries : ∀ i, ∀ e ∈ (w.tx i).entries, w.holder e.walletId = some i

variable {w w' : World} {i j : Nat}

theorem Spares.of_bank (hheld : ∀ id, w.holder id = some i → w'.holder id = some i) (hwallets : w'.wallets = w.wallets)
    (hledger : w'.ledger = w.ledger) : w.Spares i w' where
  held id hid := ⟨hheld id hid, by rw [wallet?, wallet?, hwallets]⟩
  owners userId := by rw [walletOf?, walletOf?, hwallets]
  entries := ⟨[], by rw [hledger, List.append_nil], by simp⟩

/-- Who owns which wallet is no matter of balances. -/
theorem walletOf?_foldl_writeBalance (userId : Uuid) (writes : List (Uuid × Money)) (wallets : List Wallet) :
    ((writes.foldl writeBalance wallets).find? (·.userId = userId)).map Wallet.id =
      (wallets.find? (·.userId = userId)).map Wallet.id := by
  induction writes generalizing wallets with
  | nil => rfl
  | cons write writes ih =>
    rw [List.foldl_cons, ih]
    induction wallets with
    | nil => rfl
    | cons row wallets ihw =>
      by_cases huser : row.userId = userId
      · by_cases hid : row.id = write.1 <;> simp [writeBalance, huser, hid]
      · by_cases hid : row.id = write.1 <;> simpa [writeBalance, huser, hid] using ihw

/-- A row nothing is written to. -/
theorem wallet?_foldl_writeBalance {id : Uuid} {writes : List (Uuid × Money)} (h : ∀ write ∈ writes, write.1 ≠ id)
    (wallets : List Wallet) :
    (writes.foldl writeBalance wallets).find? (·.id = id) = wallets.find? (·.id = id) := by
  induction writes generalizing wallets with
  | nil => rfl
  | cons write writes ih =>
    rw [List.foldl_cons, ih fun write' h' => h write' (List.mem_cons_of_mem _ h')]
    have hne := h write List.mem_cons_self
    induction wallets with
    | nil => rfl
    | cons row wallets ihw =>
      by_cases hid : row.id = write.1
      · have hrow : row.id ≠ id := hid ▸ hne
        simpa [writeBalance, hid, hne, hrow] using ihw
      · by_cases hrow : row.id = id
        · simp [writeBalance, hrow, hrow ▸ hid]
        · simpa [writeBalance, hid, hrow] using ihw

theorem Spares.release (hij : i ≠ j) : w.Spares i (w.release j) :=
  .of_bank (fun _ hid => release_holder w hid hij) rfl rfl

theorem Spares.commit (hw : w.Guarded) (hij : i ≠ j) : w.Spares i (w.commit j) where
  held id hid := by
    refine ⟨release_holder _ hid hij, wallet?_foldl_writeBalance (fun write hwrite heq => ?_) w.wallets⟩
    exact hij (Option.some.inj (hid.symm.trans (heq ▸ hw.writes j write hwrite)))
  owners userId := walletOf?_foldl_writeBalance userId _ w.wallets
  entries := ⟨(w.tx j).entries, rfl, fun e he heq => hij (Option.some.inj (heq.symm.trans (hw.entries j e he)))⟩

/-- What call `j` does spares call `i`, as long as it is not the end of call `i` itself. -/
theorem Spares.served {o : Stmt} {r : Except Err o.Reply} (hw : w.Guarded) (hs : Served j w o r w')
    (ho : o.isTransactional = true) (hij : i = j → o ≠ .commit ∧ o ≠ .rollback) : w.Spares i w' := by
  have hother : o = .commit ∨ o = .rollback → i ≠ j := by
    rintro (rfl | rfl) heq
    · exact (hij heq).1 rfl
    · exact (hij heq).2 rfl
  cases hs with
  | read | failed | refused | lockMissing => exact .of_bank (fun _ hid => hid) rfl rfl
  | locked id row free found => exact .of_bank (fun _ hid => lock_holder free hid) rfl rfl
  | updated id balance row m free found fits => exact .of_bank (fun _ hid => lock_holder free hid) rfl rfl
  | entered d e row free found amount balanceAfter key unique =>
    exact .of_bank (fun _ hid => lock_holder free hid) rfl rfl
  | committed => exact .commit hw (hother (Or.inl rfl))
  | commitFailed => exact .release (hother (Or.inl rfl))
  | rolledBack => exact .release (hother (Or.inr rfl))
  | walletCreated | cached | dropped | missed | drew | eventCreated | reserved | released | ordered | queued =>
    cases ho

theorem Guarded.of_others (hw : w.Guarded) {j : Nat} (htx : ∀ k, k ≠ j → w'.tx k = w.tx k)
    (hheld : ∀ k id, k ≠ j → w.holder id = some k → w'.holder id = some k)
    (hwrites : ∀ write ∈ (w'.tx j).writes, w'.holder write.1 = some j)
    (hentries : ∀ e ∈ (w'.tx j).entries, w'.holder e.walletId = some j) : w'.Guarded where
  writes k write hwrite := by
    by_cases hkj : k = j
    · exact hkj ▸ hwrites write (hkj ▸ hwrite)
    · exact hheld k _ hkj (hw.writes k write (htx k hkj ▸ hwrite))
  entries k e he := by
    by_cases hkj : k = j
    · exact hkj ▸ hentries e (hkj ▸ he)
    · exact hheld k _ hkj (hw.entries k e (htx k hkj ▸ he))

theorem Guarded.release (hw : w.Guarded) (j : Nat) : (w.release j).Guarded := by
  refine hw.of_others (j := j) (fun k hkj => release_tx_other w hkj)
    (fun k id hkj hid => release_holder w hid hkj) ?_ ?_ <;> simp [Tx.empty]

/-- What a statement adds to the buffer of the call. -/
theorem tx_served {o : Stmt} {r : Except Err o.Reply} (hs : Served i w o r w') (ho : o.isTransactional = true)
    (hcommit : o ≠ .commit) (hrollback : o ≠ .rollback) :
    w'.tx i = ⟨(w.tx i).writes ++ Exchange.writes ⟨o, r⟩, (w.tx i).entries ++ Exchange.entries ⟨o, r⟩⟩ := by
  cases hs with
  | read o v answer =>
    cases o with
    | walletFindUnique | ledgerEntryFindUnique => simp [Exchange.writes, Exchange.entries]
    | _ => first | (cases ho; done) | cases answer
  | failed o | refused o => cases o <;> simp [Exchange.writes, Exchange.entries]
  | lockMissing | locked => simp [Exchange.writes, Exchange.entries]
  | updated | entered => simp [Exchange.writes, Exchange.entries]
  | committed | commitFailed => exact absurd rfl hcommit
  | rolledBack => exact absurd rfl hrollback
  | walletCreated | cached | dropped | missed | drew | eventCreated | reserved | released | ordered | queued =>
    cases ho

theorem tx_served_other {o : Stmt} {r : Except Err o.Reply} (hs : Served j w o r w') (hij : i ≠ j) :
    w'.tx i = w.tx i := by
  cases hs with
  | updated | entered => simp [setTx, hij]
  | committed | commitFailed | rolledBack => simp [commit, apply, World.release, setTx, hij]
  | _ => rfl

theorem Guarded.served {o : Stmt} {r : Except Err o.Reply} (hw : w.Guarded) (hs : Served j w o r w')
    (ho : o.isTransactional = true) : w'.Guarded := by
  cases hs with
  | read | failed | refused | lockMissing => exact hw
  | locked id row free found =>
    exact hw.of_others (j := j) (fun _ _ => rfl) (fun k id' _ hid => lock_holder free hid)
      (fun write hwrite => lock_holder free (hw.writes j write hwrite))
      (fun e he => lock_holder free (hw.entries j e he))
  | updated id balance row m free found fits =>
    refine hw.of_others (j := j) (fun k hkj => setTx_other _ _ hkj) (fun k id' _ hid => lock_holder free hid)
      (fun write hwrite => ?_) (fun e he => lock_holder free (hw.entries j e (by simpa using he)))
    rw [setTx_self] at hwrite
    rcases List.mem_append.mp hwrite with hwrite | hwrite
    · exact lock_holder free (hw.writes j write hwrite)
    · obtain rfl := List.mem_singleton.mp hwrite
      exact lock_holder_self w j id
  | entered d e row free found amount balanceAfter key unique =>
    refine hw.of_others (j := j) (fun k hkj => setTx_other _ _ hkj) (fun k id' _ hid => lock_holder free hid)
      (fun write hwrite => lock_holder free (hw.writes j write (by simpa using hwrite))) (fun e' he' => ?_)
    rw [setTx_self] at he'
    rcases List.mem_append.mp he' with he' | he'
    · exact lock_holder free (hw.entries j e' he')
    · obtain rfl := List.mem_singleton.mp he'
      have hid : e'.walletId = d.walletId := congrArg Prod.fst key
      exact hid ▸ lock_holder_self w j d.walletId
  | committed =>
    refine hw.of_others (j := j) (fun k hkj => release_tx_other _ hkj)
      (fun k id hkj hid => release_holder _ hid hkj) ?_ ?_ <;> simp [commit, Tx.empty]
  | commitFailed | rolledBack => exact hw.release j
  | walletCreated | cached | dropped | missed | drew | eventCreated | reserved | released | ordered | queued =>
    cases ho

end World

namespace Exchange

variable {i : Nat} {w w' : World}

/-- **What holds stays.** -/
theorem Holds.spared {x : Exchange} (h : x.Holds i w) (hs : w.Spares i w') : x.Holds i w' := by
  obtain ⟨o, r⟩ := x
  cases r with
  | error e => cases o <;> trivial
  | ok v =>
    cases o with
    | walletFindUnique userId => exact (hs.owners userId).trans h
    | walletForUpdate id =>
      cases v with
      | none => trivial
      | some row => exact ⟨(hs.held id h.1).1, (hs.held id h.1).2.trans h.2⟩
    | walletUpdate id balance =>
      obtain ⟨hid, row, m, hrow, hrest⟩ := h
      exact ⟨(hs.held id hid).1, row, m, (hs.held id hid).2.trans hrow, hrest⟩
    | ledgerEntryFindUnique walletId referenceId type =>
      cases v with
      | none => trivial
      | some e =>
        obtain ⟨es, hledger, -⟩ := hs.entries
        have hfound : w.ledger.find? (·.key = (walletId, referenceId, type)) = some e := h
        show w'.ledger.find? _ = some e
        rw [hledger, List.find?_append, hfound]
        rfl
    | ledgerEntryCreate d =>
      obtain ⟨hid, hrow, hamount, hafter, hkey, hunique⟩ := h
      obtain ⟨hid', hrow'⟩ := hs.held _ hid
      refine ⟨hid', hrow' ▸ hrow, hamount, hafter, hkey, fun e' he' heq => ?_⟩
      obtain ⟨es, hledger, hothers⟩ := hs.entries
      rcases List.mem_append.mp (hledger ▸ he') with he' | he'
      · exact hunique e' he' heq
      · -- an entry of the row would have been made by whoever holds it
        refine hothers e' he' ?_
        rw [show e'.walletId = d.walletId from congrArg Prod.fst (heq.trans hkey)]
        exact hid
    | _ => trivial

/-- A reply holds when it comes. -/
theorem holds_served {o : Stmt} {r : Except Err o.Reply} (hs : World.Served i w o r w')
    (ho : o.isTransactional = true) : Holds i w' ⟨o, r⟩ := by
  cases hs with
  | read o v answer =>
    cases o with
    | walletFindUnique userId =>
      obtain rfl := Option.some.inj answer
      rfl
    | ledgerEntryFindUnique walletId referenceId type =>
      cases v with
      | none => trivial
      | some e => exact Option.some.inj answer
    | _ => first | (cases ho; done) | cases answer
  | failed o | refused o => cases o <;> trivial
  | lockMissing | committed | commitFailed | rolledBack => trivial
  | locked id row free found => exact ⟨World.lock_holder_self w i id, found⟩
  | updated id balance row m free found fits =>
    exact ⟨World.lock_holder_self w i id, row, m, found, fits, rfl⟩
  | entered d e row free found amount balanceAfter key unique =>
    exact ⟨World.lock_holder_self w i d.walletId, Option.isSome_of_eq_some found, amount, balanceAfter, key,
      fun e' he' => unique e' (List.mem_append_left _ he')⟩
  | walletCreated | cached | dropped | missed | drew | eventCreated | reserved | released | ordered | queued =>
    cases ho

end Exchange

/-! ## As a machine -/

/-- Where a transaction is: open, with the replies it has had; committed, with those it had had by then; or over in
another way. -/
inductive Course where
  | running (log : List Exchange)
  | committed (log : List Exchange)
  | over

namespace Course

def next : Course → (o : Stmt) → Except Err o.Reply → Course
  | .running log, .commit, .ok _ => .committed log
  | .running _, .commit, .error _ => .over
  | .running _, .rollback, _ => .over
  | .running log, o, r => .running (log ++ [⟨o, r⟩])
  | g, _, _ => g

inductive May : Course → Stmt → Prop where
  | running (log : List Exchange) (o : Stmt) (transactional : o.isTransactional = true) : May (.running log) o

theorem next_running {log : List Exchange} {o : Stmt} (r : Except Err o.Reply) (hcommit : o ≠ .commit)
    (hrollback : o ≠ .rollback) : (running log).next o r = .running (log ++ [⟨o, r⟩]) := by
  cases o <;> first | exact absurd rfl hcommit | exact absurd rfl hrollback | rfl

end Course

def courses : Machine sql Err Course where
  may := Course.May
  next := Course.next
  tells _ _ := True

end FlashWallet
