import FlashWallet.Lib.Solo
import FlashWallet.Proof.Debits
import FlashWallet.Proof.Stages

/-!
# A deduction as a machine

The deductions of one user under one reference, from the first lookup of the wallet to the answer. What they do
when no entry is found is left open (`billing`): the machine is for those that find one.
-/

set_option autoImplicit false

namespace FlashWallet

open Lib

/-- A bare deduction by `userId` under `referenceId`, of any amount. -/
def Request.isDeduction (userId : Uuid) (referenceId : String) : Request → Bool
  | .purchaseDeduct u _ r => u = userId && r = referenceId
  | _ => false

inductive Deduction where
  | other
  | asked
  | found (walletId : Uuid)
  | locked (row : Wallet)
  | replaying (row : Wallet) (existing : LedgerEntry)
  | billing
  | failing (err : Err)
  | replayed (row : Wallet) (existing : LedgerEntry)
  | failed (err : Err)
  | cut

namespace Deduction

/-- Where the call is once a reply of its own is an error. -/
def onError (err : Err) : Deduction → Deduction
  | .asked | .found _ | .locked _ => .failing err
  | .replaying .. | .failing _ => .failed err
  | g => g

def onWalletFindUnique : Deduction → Option Wallet → Deduction
  | .asked, some row => .found row.id
  | .asked, none => .failing (.notFound "Wallet not found for this user")
  | g, _ => g

def onWalletForUpdate : Deduction → Option Wallet → Deduction
  | .found _, some row => .locked row
  | .found _, none => .failing (.notFound "Wallet not found")
  | g, _ => g

def onLedgerEntryFindUnique : Deduction → Option LedgerEntry → Deduction
  | .locked row, some existing => .replaying row existing
  | .locked _, none => .billing
  | g, _ => g

def onCommit : Deduction → Deduction
  | .replaying row existing => .replayed row existing
  | g => g

def onRollback : Deduction → Deduction
  | .failing err => .failed err
  | g => g

def next (g : Deduction) : (o : Stmt) → Except Err o.Reply → Deduction
  | _, .error err => g.onError err
  | .walletFindUnique _, .ok row => g.onWalletFindUnique row
  | .walletForUpdate _, .ok row => g.onWalletForUpdate row
  | .ledgerEntryFindUnique .., .ok entry => g.onLedgerEntryFindUnique entry
  | .commit, .ok _ => g.onCommit
  | .rollback, .ok _ => g.onRollback
  | _, .ok _ => g

theorem next_other {o : Stmt} (r : Except Err o.Reply) : other.next o r = .other := by
  cases r <;> cases o <;> rfl

theorem next_billing {o : Stmt} (r : Except Err o.Reply) : billing.next o r = .billing := by
  cases r <;> cases o <;> rfl

/-- Statement `o` may be issued at this stage. -/
inductive May (userId : Uuid) (referenceId : String) : Deduction → Stmt → Prop where
  | other (o : Stmt) : May userId referenceId .other o
  | find : May userId referenceId .asked (.walletFindUnique userId)
  | lock (walletId : Uuid) : May userId referenceId (.found walletId) (.walletForUpdate walletId)
  | look (row : Wallet) :
      May userId referenceId (.locked row) (.ledgerEntryFindUnique row.id referenceId .PURCHASE)
  | commit (row : Wallet) (existing : LedgerEntry) : May userId referenceId (.replaying row existing) .commit
  | bill (o : Stmt) (lockless : ∀ id, o ≠ .walletForUpdate id) : May userId referenceId .billing o
  | rollback (err : Err) : May userId referenceId (.failing err) .rollback

/-- The call ends at this stage with this answer. -/
inductive Answered : Except Err Response → Deduction → Prop where
  | other (r : Except Err Response) : Answered r .other
  | billed (r : Except Err Response) : Answered r .billing
  | replayed (row : Wallet) (existing : LedgerEntry) :
      Answered (.ok (.booked ⟨row.id, existing.balanceAfter, existing⟩)) (.replayed row existing)
  | failed (err : Err) : Answered (.error err) (.failed err)

end Deduction

/-- The stages of all calls, with an eye on the deductions of one user under one reference. -/
def deductions (userId : Uuid) (referenceId : String) : Platform.Stages sql Err Response Request Deduction where
  machine :=
    { may := fun g o => Deduction.May userId referenceId g o
      next := fun g o r => g.next o r
      tells := fun _ _ => True }
  start r := if r.isDeduction userId referenceId then .asked else .other
  cut := .cut
  ends _ r g := Deduction.Answered r g

section

variable {userId : Uuid} {referenceId : String}

/-- Nothing is asked of anybody else. -/
theorem deducts_other {p : Service Response} :
    p.Keeps (deductions userId referenceId).machine.discipline Deduction.Answered .other := by
  induction p with
  | done a => exact .other _
  | fail e => exact .other _
  | call o k ih =>
    refine ⟨.other o, fun r g' h => ?_⟩
    obtain rfl := h.1.trans (Deduction.next_other r)
    exact ih r

/-- Nor of a deduction that has found no entry, but that it takes no lock any more. -/
theorem deducts_billing {α : Type} {p : Service α} (hp : p.Uses fun o => ∀ id, o ≠ Stmt.walletForUpdate id) :
    p.Keeps (deductions userId referenceId).machine.discipline (fun _ g => g = .billing) .billing := by
  induction p with
  | done a => rfl
  | fail e => rfl
  | call o k ih =>
    refine ⟨.bill o hp.1, fun r g' h => ?_⟩
    obtain rfl := h.1.trans (Deduction.next_billing r)
    exact ih r (hp.2 r)

/-- How the body of the deduction may leave its transaction. -/
inductive Deduction.Leaves : Except Err BookedResult → Deduction → Prop where
  | replaying (row : Wallet) (existing : LedgerEntry) :
      Leaves (.ok ⟨row.id, existing.balanceAfter, existing⟩) (.replaying row existing)
  | billing (r : Except Err BookedResult) : Leaves r .billing
  | failing (err : Err) : Leaves (.error err) (.failing err)

theorem lockWalletByUserId_deducts :
    (WalletService.lockWalletByUserId userId).Keeps (deductions userId referenceId).machine.discipline
      (fun r g => match r with
        | .ok row => g = .locked row
        | .error err => g = .failing err) .asked := by
  refine Machine.keeps_issue (M := (deductions userId referenceId).machine) .find (fun found _ => ?_) fun e _ => rfl
  cases found with
  | none => rfl
  | some wallet =>
    refine Machine.keeps_issue (M := (deductions userId referenceId).machine) (.lock wallet.id) (fun found _ => ?_)
      fun e _ => rfl
    cases found with
    | none => rfl
    | some row => rfl

theorem purchaseDeduct_deducts (amount : Int) :
    (Request.purchaseDeduct userId amount referenceId).handler.Keeps
      (deductions userId referenceId).machine.discipline Deduction.Answered .asked := by
  refine Prog.Keeps.seq (R := fun r g => Deduction.Answered (r.map Response.booked) g)
    (Prog.Keeps.recover (R := Deduction.Leaves) ?_ fun r g h => ?_) (fun a g h => h) fun e g h => h
  · refine lockWalletByUserId_deducts.seq (fun row g h => ?_) fun e g h => ?_
    · obtain rfl := h
      refine Machine.keeps_issue (M := (deductions userId referenceId).machine) (.look row) (fun found _ => ?_)
        fun e _ => .failing e
      cases found with
      | some existing => exact .replaying row existing
      | none =>
        refine (deducts_billing ?_).mono fun r g h => h ▸ .billing r
        dsimp only
        split
        · trivial
        · refine uses_issue (o := .walletUpdate ..) (fun _ => nofun) fun _ => ?_
          exact uses_issue (o := .ledgerEntryCreate _) (fun _ => nofun) fun _ => trivial
    · obtain rfl := h
      exact .failing e
  · cases h with
    | replaying row existing =>
      exact Machine.keeps_issue (M := (deductions userId referenceId).machine) (.commit row existing)
        (fun _ _ => .replayed row existing) fun e _ => .failed e
    | billing =>
      refine (deducts_billing ?_).mono fun r g h => h ▸ .billed _
      cases r with
      | ok a => exact uses_issue (o := .commit) nofun fun _ => trivial
      | error e => exact uses_issue (o := .rollback) nofun fun _ => trivial
    | failing err =>
      exact Machine.keeps_issue (M := (deductions userId referenceId).machine) (.rollback err)
        (fun _ _ => .failed err) fun e _ => .failed e

theorem deductions_follows : Platform.Follows system (deductions userId referenceId) where
  handlers r := by
    change r.handler.Keeps _ _ (if r.isDeduction userId referenceId then Deduction.asked else .other)
    split
    · rename_i hdeduction
      cases r with
      | purchaseDeduct u amount ref =>
        obtain ⟨rfl, rfl⟩ : u = userId ∧ ref = referenceId := by simpa [Request.isDeduction] using hdeduction
        exact purchaseDeduct_deducts amount
      | _ => cases hdeduction
    · exact deducts_other
  replies _ _ _ _ _ _ _ := trivial

end

/-! ## Once there is an entry -/

/-- A deduction that finds the entry `e`, or has failed for reasons of infrastructure. -/
def Deduction.Repeats (e : LedgerEntry) (faulted : Prop) : Deduction → Prop
  | .found id => id = e.walletId
  | .locked row => row.id = e.walletId
  | .replaying row existing | .replayed row existing => row.id = e.walletId ∧ existing = e
  | .failing err | .failed err => err = .unavailable ∧ faulted
  | .billing => False
  | _ => True

theorem Deduction.Repeats.mono {e : LedgerEntry} {faulted faulted' : Prop} {g : Deduction}
    (h : g.Repeats e faulted) (himp : faulted → faulted') : g.Repeats e faulted' := by
  cases g with
  | failing | failed => exact ⟨h.1, himp h.2⟩
  | _ => exact h

/-- The entry `e` is in the ledger, in a wallet of `userId`. -/
structure World.Charged (w : World) (userId : Uuid) (referenceId : String) (e : LedgerEntry) : Prop where
  mem : e ∈ w.ledger
  owns : w.Owns e.walletId userId
  key : e.key = (e.walletId, referenceId, .PURCHASE)

theorem World.Charged.mono {w w' : World} {userId : Uuid} {referenceId : String} {e : LedgerEntry}
    (h : w.Charged userId referenceId e) (hevolves : w.Evolves w') : w'.Charged userId referenceId e :=
  ⟨hevolves.mem_ledger h.mem, hevolves.owns _ _ h.owns, h.key⟩

theorem World.fault_of_error {i : Nat} {w w' : World} {o : Stmt} {x : Choice} {err : Err}
    (ho : o.isFallible = false) (hexec : World.exec i o x w = some (.error err, w')) :
    x = .fault ∧ err = .unavailable ∧ o.isLocal = false := by
  have hx : x = .fault := by
    by_contra hx
    obtain ⟨v, hv⟩ := World.answered hx hexec ho
    cases hv
  have hs := World.Served.of_exec hexec
  cases hs with
  | failed _ remote => exact ⟨hx, rfl, remote⟩
  | refused _ _ reason =>
    cases o with
    | walletUpdate | walletCreate | ledgerEntryCreate | flashSaleEventCreate | orderCreate => cases ho
    | _ => exact reason.elim
  | commitFailed => exact ⟨hx, rfl, rfl⟩

section

variable {w w' : World} {userId : Uuid} {referenceId : String} {e : LedgerEntry} {i : Nat}

/-- What the statements of a deduction find. -/
theorem World.Charged.walletOf? (h : w.Charged userId referenceId e) (hw : w.Ok) :
    ∃ row, row.id = e.walletId ∧ w.walletOf? userId = some row ∧ w.wallet? e.walletId = some row := by
  obtain ⟨row, hid, huser⟩ := h.owns.found hw
  exact ⟨row, (World.wallet?_eq_some hid).2, huser, hid⟩

theorem World.Charged.entryOf? (h : w.Charged userId referenceId e) (hw : w.Ok) :
    w.entryOf? (e.walletId, referenceId, .PURCHASE) = some e := by
  cases hfound : w.entryOf? (e.walletId, referenceId, .PURCHASE) with
  | none => exact absurd h.key (World.entryOf?_eq_none.mp hfound e h.mem)
  | some e' =>
    obtain ⟨hmem, hkey⟩ := World.entryOf?_eq_some hfound
    rw [hw.entry_ext hmem h.mem (hkey.trans h.key.symm)]

/-- **A deduction goes on repeating**, whatever its next statement is answered. -/
theorem Deduction.Repeats.next {g : Deduction} {faulted : Prop} {o : Stmt} {x : Choice} {r : Except Err o.Reply}
    (h : g.Repeats e faulted) (hcharged : w.Charged userId referenceId e) (hw : w.Ok)
    (hmay : May userId referenceId g o) (hexec : World.exec i o x w = some (r, w')) :
    (g.next o r).Repeats e (faulted ∨ x = .fault) := by
  have hs := World.Served.of_exec hexec
  obtain ⟨row, hid, huser, hrow⟩ := hcharged.walletOf? hw
  cases hmay with
  | other => cases r <;> cases o <;> trivial
  | find =>
    cases r with
    | error err =>
      obtain ⟨hx, rfl, -⟩ := World.fault_of_error rfl hexec
      exact ⟨rfl, Or.inr hx⟩
    | ok v =>
      obtain ⟨-, hv⟩ := World.Served.of_read hs rfl nofun
      obtain rfl : v = some row := hv.trans huser
      exact hid
  | lock walletId =>
    obtain rfl : walletId = e.walletId := h
    cases r with
    | error err =>
      obtain ⟨hx, rfl, -⟩ := World.fault_of_error rfl hexec
      exact ⟨rfl, Or.inr hx⟩
    | ok v =>
      obtain ⟨hv, -⟩ := World.Served.of_lock hs
      obtain rfl : v = some row := hv.trans hrow
      exact hid
  | look row' =>
    have hid' : row'.id = e.walletId := h
    cases r with
    | error err =>
      obtain ⟨hx, rfl, -⟩ := World.fault_of_error rfl hexec
      exact ⟨rfl, Or.inr hx⟩
    | ok v =>
      obtain ⟨-, hv⟩ := World.Served.of_read hs rfl nofun
      -- the second look under the lock finds the entry, whoever has written it
      obtain rfl : v = some e := hv.trans (hid' ▸ hcharged.entryOf? hw)
      exact ⟨hid', rfl⟩
  | commit row' existing =>
    cases r with
    | error err =>
      obtain ⟨hx, rfl, -⟩ := World.fault_of_error rfl hexec
      exact ⟨rfl, Or.inr hx⟩
    | ok v => exact h
  | bill => exact h.elim
  | rollback err =>
    cases r with
    | error err' => cases (World.fault_of_error rfl hexec).2.2
    | ok v => exact ⟨h.1, Or.inl h.2⟩

/-- What a deduction that goes on repeating answers in the end. -/
def Reanswered (e : LedgerEntry) (faulted : Prop) (r : Except Err Response) : Prop :=
  r = .ok (.booked ⟨e.walletId, e.balanceAfter, e⟩) ∨ r = .error .unavailable ∧ faulted

theorem Deduction.Repeats.answered {g : Deduction} {faulted : Prop} {r : Except Err Response}
    (h : g.Repeats e faulted) (hother : g ≠ .other) (hr : Answered r g) : Reanswered e faulted r := by
  cases hr with
  | other => exact absurd rfl hother
  | billed => exact h.elim
  | replayed row existing =>
    obtain ⟨hid, rfl⟩ := h
    exact Or.inl (by rw [hid])
  | failed err =>
    obtain ⟨rfl, hfaulted⟩ := h
    exact Or.inr ⟨rfl, hfaulted⟩

/-- What is left of a deduction at stage `g`. -/
abbrev Deduction.Left (userId : Uuid) (referenceId : String) (g : Deduction) (p : Service Response) : Prop :=
  p.Keeps (deductions userId referenceId).machine.discipline Deduction.Answered g

variable {p : Service Response} {row : Wallet}

theorem Deduction.ends_replaying (hp : Left userId referenceId (.replaying row e) p) :
    p.Ends (fun o => World.exec i o .ok) w (.ok (.booked ⟨row.id, e.balanceAfter, e⟩)) (w.commit i) := by
  refine hp.ends_next (o := .commit) (by rintro r ⟨⟩) (fun o ho => ?_) rfl trivial fun p' hp' => ?_
  · cases ho
    rfl
  · refine Prog.Keeps.ends_here hp' (by rintro o ⟨⟩) fun r hr => ?_
    cases hr
    rfl

theorem Deduction.ends_locked (hp : Left userId referenceId (.locked row) p) (hid : row.id = e.walletId)
    (hcharged : w.Charged userId referenceId e) (hw : w.Ok) :
    p.Ends (fun o => World.exec i o .ok) w (.ok (.booked ⟨e.walletId, e.balanceAfter, e⟩)) (w.commit i) := by
  have hexec : World.exec i (.ledgerEntryFindUnique row.id referenceId .PURCHASE) .ok w = some (.ok (some e), w) := by
    rw [hid, ← hcharged.entryOf? hw]
    rfl
  refine hp.ends_next (by rintro r ⟨⟩) (fun o ho => ?_) hexec trivial fun p' hp' => ?_
  · cases ho
    rfl
  · rw [← hid]
    exact Deduction.ends_replaying hp'

theorem Deduction.ends_found {id : Uuid} (hp : Left userId referenceId (.found id) p) (hid : id = e.walletId)
    (hcharged : w.Charged userId referenceId e) (hw : w.Ok) (hfree : w.canLock i e.walletId = true) :
    p.Ends (fun o => World.exec i o .ok) w (.ok (.booked ⟨e.walletId, e.balanceAfter, e⟩))
      ((w.lock i e.walletId).commit i) := by
  subst hid
  obtain ⟨row, hid, -, hrow⟩ := hcharged.walletOf? hw
  have hlocked : (w.lock i e.walletId).Charged userId referenceId e :=
    hcharged.mono (.served (.locked e.walletId row hfree hrow))
  have hexec : World.exec i (.walletForUpdate e.walletId) .ok w = some (.ok (some row), w.lock i e.walletId) := by
    simp only [World.exec, World.serve, World.walletForUpdate, if_pos hfree, hrow, Option.map_some]
  refine hp.ends_next (by rintro r ⟨⟩) (fun o ho => ?_) hexec trivial fun p' hp' => ?_
  · cases ho
    rfl
  · exact Deduction.ends_locked hp' hid hlocked (hw.lock hfree)

theorem Deduction.ends_asked (hp : Left userId referenceId .asked p) (hcharged : w.Charged userId referenceId e)
    (hw : w.Ok) (hfree : w.canLock i e.walletId = true) :
    p.Ends (fun o => World.exec i o .ok) w (.ok (.booked ⟨e.walletId, e.balanceAfter, e⟩))
      ((w.lock i e.walletId).commit i) := by
  obtain ⟨row, hid, huser, -⟩ := hcharged.walletOf? hw
  have hexec : World.exec i (.walletFindUnique userId) .ok w = some (.ok (some row), w) := by
    rw [← huser]
    rfl
  refine hp.ends_next (by rintro r ⟨⟩) (fun o ho => ?_) hexec trivial fun p' hp' => ?_
  · cases ho
    rfl
  · exact Deduction.ends_found hp' hid hcharged hw hfree

theorem Deduction.ends_failing {err : Err} (hp : Left userId referenceId (.failing err) p) :
    p.Ends (fun o => World.exec i o .ok) w (.error err) (w.release i) := by
  have hexec : World.exec i .rollback .ok w = some (.ok (), w.release i) := rfl
  refine hp.ends_next (by rintro r ⟨⟩) (fun o ho => ?_) hexec trivial fun p' hp' => ?_
  · cases ho
    rfl
  · refine Prog.Keeps.ends_here hp' (by rintro o ⟨⟩) fun r hr => ?_
    cases hr
    rfl

/-- **It gets to its end** by itself, if the row is its own or free. -/
theorem Deduction.Repeats.ends {g : Deduction} {faulted : Prop} (h : g.Repeats e faulted)
    (hp : Left userId referenceId g p) (hother : g ≠ .other) (hcut : g ≠ .cut)
    (hcharged : w.Charged userId referenceId e) (hw : w.Ok) (hfree : w.canLock i e.walletId = true) :
    ∃ r w', p.Ends (fun o => World.exec i o .ok) w r w' ∧ Reanswered e faulted r := by
  cases g with
  | other => exact absurd rfl hother
  | cut => exact absurd rfl hcut
  | asked => exact ⟨_, _, ends_asked hp hcharged hw hfree, Or.inl rfl⟩
  | found id => exact ⟨_, _, ends_found hp h hcharged hw hfree, Or.inl rfl⟩
  | locked row => exact ⟨_, _, ends_locked hp h hcharged hw, Or.inl rfl⟩
  | replaying row existing =>
    obtain ⟨hid, rfl⟩ := h
    exact ⟨_, _, ends_replaying hp, Or.inl (by rw [hid])⟩
  | billing => exact h.elim
  | failing err => exact ⟨_, _, ends_failing hp, Or.inr ⟨congrArg Except.error h.1, h.2⟩⟩
  | replayed row existing =>
    obtain ⟨hid, rfl⟩ := h
    refine ⟨.ok (.booked ⟨row.id, existing.balanceAfter, existing⟩), w,
      hp.ends_here (by rintro o ⟨⟩) fun r hr => ?_, Or.inl (by rw [hid])⟩
    cases hr
    rfl
  | failed err =>
    refine ⟨_, _, hp.ends_here (by rintro o ⟨⟩) fun r hr => ?_, Or.inr ⟨congrArg Except.error h.1, h.2⟩⟩
    cases hr
    rfl

end

/-! ## In every run -/

section

variable {userId : Uuid} {referenceId : String} {e : LedgerEntry} {c₁ c : State} {tr : Trace}
  {ok : State → Event → Prop}

/-- A reply leads nowhere but to a stage of the deduction, if it was at one. -/
theorem Deduction.next_stage {g : Deduction} {o : Stmt} {r : Except Err o.Reply}
    (hmay : May userId referenceId g o) : (g.next o r = .other → g = .other) ∧ g.next o r ≠ .cut := by
  cases hmay with
  | other =>
    rw [Deduction.next_other]
    exact ⟨fun _ => rfl, nofun⟩
  | bill =>
    rw [Deduction.next_billing]
    exact ⟨nofun, nofun⟩
  | commit | rollback => cases r <;> exact ⟨nofun, nofun⟩
  | find | lock | look => rcases r with err | _ | _ <;> refine ⟨fun h => ?_, fun h => ?_⟩ <;> cases h

/-- A deduction of the pair is at a stage of one, until it is cut off. -/
def Asked (userId : Uuid) (referenceId : String) (calls : List ServiceCall) (gs : List Deduction) : Prop :=
  Platform.Matched (fun _ call g => (g = .other → call.request.isDeduction userId referenceId = false) ∧
    (g = .cut → call.crashed = true)) calls gs

theorem asked_staged (userId : Uuid) (referenceId : String) (ok : State → Event → Prop) :
    Platform.Staged system (deductions userId referenceId) ok fun _ c gs => Asked userId referenceId c.calls gs where
  arrive tr c gs r hlen h _ := by
    refine h.arrive hlen ?_
    change ((if r.isDeduction userId referenceId then Deduction.asked else .other) = .other → _) ∧
      ((if r.isDeduction userId referenceId then Deduction.asked else .other) = .cut → _)
    split
    · exact ⟨nofun, nofun⟩
    · rename_i hno
      exact ⟨fun _ => Bool.eq_false_iff.mpr hno, nofun⟩
  exec tr c gs i r o k g x reply w h _ hissues := by
    obtain ⟨hother, hcut⟩ := Deduction.next_stage (r := reply) hissues.may
    have hasked := h i _ g hissues.call hissues.stage
    exact h.set (fun _ _ _ _ hj => hj) ⟨fun hg => hasked.1 (hother hg), fun hg => absurd hg hcut⟩
  crash tr c gs i r o k g _ h _ _ _ := h.set (fun _ _ _ _ hj => hj) ⟨nofun, fun _ => rfl⟩
  env tr c gs e w _ h _ _ := h

/-- Call `i` has taken the lock on wallet `id`. -/
def Locks (id : Uuid) (tr : Trace) (i : Nat) : Prop :=
  ∃ s ∈ tr, s.label = .exec i .ok ∧ nextStmt? s.before s.label = some (.walletForUpdate id)

/-- A statement of call `i` has failed for reasons of infrastructure. -/
def Faulted (tr : Trace) (i : Nat) : Prop := ∃ s ∈ tr, s.label = .exec i .fault

/-- Call `i` has come, or has taken the lock, after `c₁`. -/
def Late (c₁ : State) (id : Uuid) (tr : Trace) (i : Nat) : Prop := c₁.calls.length ≤ i ∨ Locks id tr i

theorem late_snoc {id : Uuid} {i : Nat} {s : Step State Event} (h : Late c₁ id (tr ++ [s]) i) :
    Late c₁ id tr i ∨ s.label = .exec i .ok ∧ nextStmt? s.before s.label = some (.walletForUpdate id) := by
  rcases h with hnew | ⟨s', hs', hlabel, hstmt⟩
  · exact Or.inl (Or.inl hnew)
  · rcases List.mem_append.mp hs' with hs' | hs'
    · exact Or.inl (Or.inr ⟨s', hs', hlabel, hstmt⟩)
    · obtain rfl := List.mem_singleton.mp hs'
      exact Or.inr ⟨hlabel, hstmt⟩

theorem Faulted.snoc {i : Nat} {s : Step State Event} (h : Faulted tr i) : Faulted (tr ++ [s]) i :=
  let ⟨s', hs', hlabel⟩ := h
  ⟨s', List.mem_append_left _ hs', hlabel⟩

/-- What is known of the deductions of the pair after `c₁`, where `e` was in the ledger. -/
structure Repeating (c₁ : State) (userId : Uuid) (referenceId : String) (e : LedgerEntry) (tr : Trace) (c : State)
    (gs : List Deduction) : Prop where
  ok : c.world.Ok
  charged : c.world.Charged userId referenceId e
  grown : c₁.calls.length ≤ c.calls.length
  asked : Asked userId referenceId c.calls gs
  late : ∀ (i : Nat) (g : Deduction), gs[i]? = some g → Late c₁ e.walletId tr i → g.Repeats e (Faulted tr i)

theorem Repeating.others {gs : List Deduction} (h : Repeating c₁ userId referenceId e tr c gs)
    {s : Step State Event} {i : Nat} {g : Deduction} (hg : gs[i]? = some g) (hs : ∀ x, s.label ≠ .exec i x)
    (hlate : Late c₁ e.walletId (tr ++ [s]) i) : g.Repeats e (Faulted (tr ++ [s]) i) := by
  rcases late_snoc hlate with hlate | ⟨hlabel, -⟩
  · exact (h.late i g hg hlate).mono Faulted.snoc
  · exact absurd hlabel (hs _)

theorem repeating_staged (c₁ : State) (userId : Uuid) (referenceId : String) (e : LedgerEntry)
    (ok : State → Event → Prop) :
    Platform.Staged system (deductions userId referenceId) ok (Repeating c₁ userId referenceId e) where
  arrive tr c gs r hlen h hok :=
    { ok := h.ok
      charged := h.charged
      grown := by simpa [Platform.arrive] using Nat.le_succ_of_le h.grown
      asked := (asked_staged userId referenceId ok).arrive tr c gs r hlen h.asked hok
      late := fun i g hg hlate => by
        rcases Platform.getElem?_concat_cases hg with ⟨-, rfl⟩ | hg
        · change Deduction.Repeats e _ (if r.isDeduction userId referenceId then .asked else .other)
          split <;> trivial
        · exact h.others hg (by rintro x ⟨⟩) hlate }
  exec tr c gs i r o k g x reply w h hok hissues :=
    { ok := h.ok.served (.of_exec hissues.exec)
      charged := h.charged.mono (.served (.of_exec hissues.exec))
      grown := by simpa using h.grown
      asked := (asked_staged userId referenceId ok).exec tr c gs i r o k g x reply w h.asked hok hissues
      late := fun j g' hg' hlate => by
        rcases Platform.getElem?_set_cases hg' with ⟨rfl, rfl⟩ | ⟨hij, hg'⟩
        · have hmay := hissues.may
          have hrepeats : g.Repeats e (Faulted tr j) := by
            rcases late_snoc hlate with hlate | ⟨-, hstmt⟩
            · exact h.late j g hissues.stage hlate
            · -- whoever takes the lock on that row now has found the wallet, and nothing else yet
              obtain rfl : o = .walletForUpdate e.walletId := by
                simpa [nextStmt?, hissues.call] using hstmt
              cases hmay with
              | other => trivial
              | lock => rfl
              | bill _ lockless => exact absurd rfl (lockless _)
          refine (hrepeats.next h.charged h.ok hmay hissues.exec).mono ?_
          rintro (hfaulted | rfl)
          · exact hfaulted.snoc
          · exact ⟨_, List.mem_append_right _ List.mem_cons_self, rfl⟩
        · exact h.others hg' (fun x' hlabel => by cases hlabel; exact hij rfl) hlate }
  crash tr c gs i r o k g hlen h hok hi hg :=
    { ok := h.ok.release i
      charged := h.charged.mono (.release _ i)
      grown := by simpa using h.grown
      asked := (asked_staged userId referenceId ok).crash tr c gs i r o k g hlen h.asked hok hi hg
      late := fun j g' hg' hlate => by
        rcases Platform.getElem?_set_cases hg' with ⟨rfl, rfl⟩ | ⟨-, hg'⟩
        · trivial
        · exact h.others hg' (by rintro x ⟨⟩) hlate }
  env tr c gs ev w hlen h hok he :=
    { ok := h.ok.env he
      charged := h.charged.mono (.env he)
      grown := h.grown
      asked := h.asked
      late := fun i g hg hlate => h.others hg (by rintro x ⟨⟩) hlate }

/-- **Once the entry is there**, every deduction of the pair that comes, or takes the lock, goes on repeating. -/
theorem repeating_of_run (hreach : Reachable anyStep c₁) (hcharged : c₁.world.Charged userId referenceId e)
    (hrun : RunFrom c₁ ok tr c) :
    ∃ gs, Repeating c₁ userId referenceId e tr c gs ∧
      Platform.Aligned (deductions userId referenceId).machine.discipline
        (deductions userId referenceId).ends c.calls gs := by
  obtain ⟨tr₁, hrun₁⟩ := hreach
  obtain ⟨gs₁, hasked, ha₁⟩ := (asked_staged userId referenceId anyStep).sound deductions_follows
    (show Asked userId referenceId State.initial.calls [] from .nil) .nil hrun₁
  refine (repeating_staged c₁ userId referenceId e ok).sound deductions_follows ?_ ha₁ hrun
  refine ⟨Reachable.worldOk ⟨tr₁, hrun₁⟩, hcharged, le_rfl, hasked, fun i g hg hlate => ?_⟩
  rcases hlate with hnew | ⟨s, hs, -⟩
  · exact absurd (ha₁.length ▸ (List.getElem?_eq_some_iff.mp hg).1) (Nat.not_lt.mpr hnew)
  · cases hs

end

end FlashWallet
