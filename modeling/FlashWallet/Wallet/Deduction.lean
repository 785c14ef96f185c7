import FlashWallet.Proof.Deductions
import FlashWallet.Proof.Lookups
import FlashWallet.Wallet.DoubleSpend

/-!
# A deduction is made once

Any number of deductions of one user under one reference queue for one row lock. Whoever has it looks for the
entry first, and sees what the one before has committed: the balance is not asked any more.
-/

set_option autoImplicit false

namespace FlashWallet

open Lib

/-- A deduction by `userId` under `referenceId`, of any amount: a bare one, or a purchase's. -/
def Request.deducts (userId : Uuid) (referenceId : String) : Request → Bool
  | .purchase u dto =>
    u = userId && FlashSaleService.walletReferenceId dto.eventId dto.idempotencyKey = referenceId
  | r => r.isDeduction userId referenceId

/-- A step of a call that makes such a deduction. -/
def byDeduction (userId : Uuid) (referenceId : String) (s : Step State Event) : Bool :=
  (requestOf? s.before s.label).any (Request.deducts userId referenceId)

/-- Such a step debits the wallet. -/
def charges (userId : Uuid) (referenceId : String) (s : Step State Event) : Bool :=
  byDeduction userId referenceId s && movesMoney s

/-- Call `i` is about to insert a purchase entry, and the unique index refuses it. -/
def Collides (c : State) (i : Nat) : Prop :=
  ∃ r d k x w, c.calls[i]? = some ⟨r, .call (S := sql) (.ledgerEntryCreate d) k, false⟩ ∧ d.type = .PURCHASE ∧
    World.exec i (.ledgerEntryCreate d) x c.world = some (.error .uniqueViolation, w)

theorem Request.deducts_of_isDeduction {userId : Uuid} {referenceId : String} {r : Request}
    (h : r.isDeduction userId referenceId = true) : r.deducts userId referenceId = true := by
  cases r with
  | purchaseDeduct => exact h
  | _ => cases h

/-- What a deduction posts is the entry of the pair. -/
theorem Request.Posts.deduction {r : Request} {owns : Uuid → Uuid → Prop} {price : Uuid → Money → Prop}
    {es : List LedgerEntry} {userId : Uuid} {referenceId : String} (h : r.Posts owns price es)
    (hdeducts : r.deducts userId referenceId = true) :
    es = [] ∨ ∃ e, es = [e] ∧ owns e.walletId userId ∧ e.key = (e.walletId, referenceId, .PURCHASE) := by
  refine h.imp_right fun h => ?_
  cases r with
  | purchaseDeduct u amount ref =>
    obtain ⟨rfl, rfl⟩ : u = userId ∧ ref = referenceId := by simpa [deducts, isDeduction] using hdeducts
    obtain ⟨e, hes, htype, -, href, howns⟩ := h
    exact ⟨e, hes, howns, by rw [LedgerEntry.key, href, htype]⟩
  | purchase u dto =>
    obtain ⟨rfl, rfl⟩ : u = userId ∧
        FlashSaleService.walletReferenceId dto.eventId dto.idempotencyKey = referenceId := by
      simpa [deducts] using hdeducts
    obtain ⟨e, p, hes, htype, -, -, href, howns⟩ := h
    exact ⟨e, hes, howns, by rw [LedgerEntry.key, href, htype]⟩
  | _ => cases hdeducts

section

variable {ok : State → Event → Prop} {c c' : State} {tr : Trace} {userId : Uuid} {referenceId : String}

/-- A step of a deduction that moves money charges the user for it. -/
theorem charges_of_moves {s : Step State Event} (h : Moves s) (hsel : byDeduction userId referenceId s = true)
    (hmoves : movesMoney s = true) :
    ∃ e, entriesOf s = [e] ∧ s.before.world.Owns e.walletId userId ∧ e.key = (e.walletId, referenceId, .PURCHASE) := by
  have hne : s.after.world.bank ≠ s.before.world.bank := by simpa [movesMoney] using hmoves
  cases h with
  | idle bank => exact absurd bank hne
  | moved i x call label found move =>
    have hdeducts : call.request.deducts userId referenceId = true := by
      simpa [byDeduction, requestOf?, label, Lib.Label.actor, found] using hsel
    cases move with
    | idle bank => exact absurd bank hne
    | opened row asked =>
      rw [asked] at hdeducts
      cases hdeducts
    | posted es balanced posts bank =>
      rw [entriesOf_of_post bank]
      refine (posts.deduction hdeducts).resolve_left ?_
      rintro rfl
      exact hne (bank.trans (Bank.post_nil _))

theorem charged_of_moves {s : Step State Event} (h : Moves s) (hsel : byDeduction userId referenceId s = true)
    (hmoves : movesMoney s = true) (hevolves : s.before.world.Evolves s.after.world) :
    ∃ e ∈ entriesOf s, s.after.world.Charged userId referenceId e := by
  obtain ⟨e, hes, howns, hkey⟩ := charges_of_moves h hsel hmoves
  have hmem : e ∈ entriesOf s := hes ▸ List.mem_singleton.mpr rfl
  exact ⟨e, hmem, h.entries.ledger ▸ List.mem_append_right _ hmem, hevolves.owns _ _ howns, hkey⟩

/-- Who has been charged is not charged again. -/
theorem still_of_charged {s : Step State Event} {e : LedgerEntry} (h : Moves s) (hw : s.after.world.Ok)
    (hevolves : s.before.world.Evolves s.after.world) (hcharged : s.before.world.Charged userId referenceId e)
    (hsel : byDeduction userId referenceId s = true) : movesMoney s = false := by
  refine Bool.eq_false_iff.mpr fun hmoves => ?_
  obtain ⟨e', hmem, hcharged'⟩ := charged_of_moves h hsel hmoves hevolves
  have hafter := hcharged.mono hevolves
  have hsame : e.key = e'.key := by
    rw [hafter.key, hcharged'.key, hw.owned_unique hafter.owns hcharged'.owns]
  -- the key of an entry that is added is new
  have hnodup := hw.ledger_nodup
  rw [h.entries.ledger, List.map_append] at hnodup
  exact (List.nodup_append.mp hnodup).2.2 _ (List.mem_map_of_mem hcharged.mem) _ (List.mem_map_of_mem hmem) hsame

/-- At most one step of them all moves money, and where one has, the user is charged. -/
theorem moves_once (hrun : RunFrom State.initial ok tr c) :
    (tr.filter (charges userId referenceId)).length ≤ 1 ∧
      ((tr.filter (charges userId referenceId)) ≠ [] →
        ∃ e, c.world.Charged userId referenceId e) := by
  induction hrun with
  | nil => exact ⟨Nat.zero_le 1, fun h => absurd rfl h⟩
  | @snoc tr c c' l run allowed next ih =>
    obtain ⟨hlength, hcharged⟩ := ih
    have hmoves := moves_of_step run next
    have hevolves := evolves_of_step next
    rw [List.filter_append]
    by_cases hsel : charges userId referenceId ⟨c, l, c'⟩ = true
    · obtain ⟨hby, hmoved⟩ := Bool.and_eq_true_iff.mp hsel
      have hempty : (tr.filter (charges userId referenceId)) = [] := by
        by_contra hne
        obtain ⟨e, he⟩ := hcharged hne
        have hw := Reachable.worldOk ⟨_, run.snoc allowed next⟩
        rw [still_of_charged hmoves hw hevolves he hby] at hmoved
        cases hmoved
      rw [hempty, List.filter_cons_of_pos hsel]
      obtain ⟨e, -, he⟩ := charged_of_moves hmoves hby hmoved hevolves
      exact ⟨le_rfl, fun _ => ⟨e, he⟩⟩
    · rw [List.filter_cons_of_neg hsel, List.filter_nil, List.append_nil]
      exact ⟨hlength, fun hne => (hcharged hne).imp fun e he => he.mono hevolves⟩

/-- After that, none of them does. -/
theorem still_of_run (hreach : Reachable anyStep c) {e : LedgerEntry}
    (hcharged : c.world.Charged userId referenceId e) (hrun : RunFrom c ok tr c') :
    ∀ s ∈ tr, byDeduction userId referenceId s = true → movesMoney s = false := by
  intro s hs hsel
  obtain ⟨⟨tr', hbefore⟩, hok, hstep⟩ := hrun.of_mem hs
  have hcharged' := hcharged.mono (evolves_of_run hbefore).1
  have hreach' : Reachable anyStep s.after := hreach.run (hbefore.snoc hok hstep)
  exact still_of_charged (moves_of_mem hreach hrun hs) hreach'.worldOk (evolves_of_step hstep) hcharged' hsel

theorem bank_of_still (hrun : RunFrom c ok tr c') (h : ∀ s ∈ tr, movesMoney s = false) :
    c'.world.bank = c.world.bank := by
  induction hrun with
  | nil => rfl
  | @snoc tr c₁ c₂ l run allowed next ih =>
    have hlast : c₂.world.bank = c₁.world.bank := by
      simpa [movesMoney] using h ⟨c₁, l, c₂⟩ (List.mem_append_right _ List.mem_cons_self)
    exact hlast.trans (ih fun s hs => h s (List.mem_append_left _ hs))

theorem requestOf_of_exec {i : Nat} {call : ServiceCall} (hi : c.calls[i]? = some call)
    (hrun : RunFrom c (fun _ l => l = .exec i .ok) tr c') :
    ∀ s ∈ tr, requestOf? s.before s.label = some call.request := by
  intro s hs
  obtain ⟨⟨tr', hbefore⟩, hlabel, -⟩ := hrun.of_mem hs
  obtain ⟨call', hcall', hreq⟩ := (system.keeps_of_run hbefore).1 i call hi
  simp [requestOf?, hlabel, Lib.Label.actor, hcall', hreq]

end

/-- Whatever is left of call `i` to do: it has answered `r`, or does so in some steps of its own, if nobody else holds
the row, and moves no money. -/
def Settles (c : State) (i : Nat) (id : Uuid) (good : Except Err Response → Prop) : Prop :=
  (∀ r, c.calls[i]?.bind Call.result? = some r → good r) ∧
    (c.calls[i]?.any Call.inFlight = true → c.world.canLock i id = true →
      ∃ n c' r, execute system.step c (runs i n) = some c' ∧ c'.calls[i]?.bind Call.result? = some r ∧ good r ∧
        c'.world.bank = c.world.bank)

/-- **A deduction is made once.** Of all deductions of a user under a reference, one step at most changes wallets or
ledger. From where its entry is there, none does, and whoever comes or takes the lock from then on answers that
entry and the balance it left, whatever the balance is by now, unless a statement of its own has failed for reasons
of infrastructure. None is ever told of the unique index. -/
theorem deducted_once {c : State} {tr : Trace} (hrun : RunFrom State.initial anyStep tr c) (userId : Uuid)
    (referenceId : String) :
    (tr.filter (charges userId referenceId)).length ≤ 1 ∧
      (∀ e ∈ c.world.ledger, c.world.Owns e.walletId userId → e.key = (e.walletId, referenceId, .PURCHASE) →
        ∀ tr' c', RunFrom c anyStep tr' c' →
          (∀ s ∈ tr', byDeduction userId referenceId s = true → movesMoney s = false) ∧
          ∀ i call, c'.calls[i]? = some call → call.request.isDeduction userId referenceId = true →
            Late c e.walletId tr' i → Settles c' i e.walletId (Reanswered e (Faulted tr' i))) ∧
      (∀ call ∈ c.calls, call.request.isDeduction userId referenceId = true →
        call.result? ≠ some (.error .uniqueViolation)) ∧
      ∀ i, ¬Collides c i := by
  have hreach : Reachable anyStep c := ⟨tr, hrun⟩
  refine ⟨(moves_once hrun).1, fun e hmem howns hkey tr' c' hrun' => ?_, fun call hcall hpair => ?_, ?_⟩
  · have hcharged : c.world.Charged userId referenceId e := ⟨hmem, howns, hkey⟩
    refine ⟨still_of_run hreach hcharged hrun', fun i call hi hpair hlate => ?_⟩
    obtain ⟨gs, hrepeating, ha⟩ := repeating_of_run hreach hcharged hrun'
    obtain ⟨g, hg⟩ := ha.books hi
    obtain ⟨hother, hcut⟩ := hrepeating.asked i call g hi hg
    have hother : g ≠ .other := fun heq => by
      rw [hother heq] at hpair
      cases hpair
    have hrepeats := hrepeating.late i g hg hlate
    rw [Settles, hi]
    refine ⟨fun r hr => ?_, fun hflight hfree => ?_⟩
    · obtain ⟨hlive, hprog⟩ := Call.result?_eq_some hr
      have hkeeps := ha.keeps i call g hi hg hlive
      rw [hprog, Prog.keeps_ended] at hkeeps
      exact hrepeats.answered hother hkeeps
    · obtain ⟨hlive, -⟩ := Call.inFlight_iff.mp hflight
      have hcut : g ≠ .cut := fun heq => by
        rw [hcut heq] at hlive
        cases hlive
      obtain ⟨r, w, hends, hgood⟩ := hrepeats.ends (ha.keeps i call g hi hg hlive) hother hcut hrepeating.charged
        hrepeating.ok hfree
      have hlone : c'.calls[i]? = some ⟨call.request, call.prog, false⟩ := by rw [hi, ← hlive]
      -- by itself the call runs to its end, and repeating moves no money on the way
      obtain ⟨n, hexecute, hr⟩ := (system.execute_solo (x := .ok) hlone).mpr ⟨w, hends, rfl⟩
      refine ⟨n, _, r, hexecute, hr, hgood, ?_⟩
      have hlabels : ∀ l ∈ runs i n, ∀ _ : State, l = .exec i .ok := fun l hl _ => List.eq_of_mem_replicate hl
      obtain ⟨tr'', hrun''⟩ : ∃ tr'', RunFrom c' (fun _ l => l = .exec i .ok) tr'' _ := Run.of_execute hlabels hexecute
      have hcharged' := hcharged.mono (evolves_of_run hrun').1
      refine bank_of_still hrun'' fun s hs => still_of_run (hreach.run hrun') hcharged' hrun'' s hs ?_
      rw [byDeduction, requestOf_of_exec hi hrun'' s hs]
      exact Request.deducts_of_isDeduction hpair
  · obtain ⟨i, hi⟩ := List.mem_iff_getElem?.mp hcall
    cases hreq : call.request with
    | purchaseDeduct u amount ref => exact unviolated hrun hi hreq
    | _ =>
      rw [hreq] at hpair
      cases hpair
  · rintro i ⟨r, d, k, x, w, hi, htype, hexec⟩
    exact uncollided hrun hi htype hexec

section

open Sample

/-- Alice pays half of what she has, and a second call for the same waits for the row. Before it gets it, she sends
Bob the other half. -/
def paidTwice : List Event :=
  register 0 alice aliceWallet ++ register 1 bob bobWallet ++ fund 2 alice id₁ ++
    [.arrive (.purchaseDeduct alice 500 "lamp"), .arrive (.purchaseDeduct alice 500 "lamp")] ++
    runs 3 1 ++ runs 4 1 ++ runs 3 5 ++ [.arrive (.transfer alice toBob)] ++
    runs 5 12

def paidEntry : LedgerEntry := ⟨aliceWallet, .PURCHASE, debitOfFive, five, "lamp", 0⟩

set_option maxRecDepth 8000 in
/-- The balance is nothing, and the second call is answered as the first was. -/
theorem deducted_once_paidTwice :
    (∃ row ∈ (stateAfter State.initial paidTwice).world.wallets, row.id = aliceWallet ∧ row.balance.cents = 0) ∧
      ((traceAfter State.initial paidTwice).filter (charges alice "lamp")).length ≤ 1 ∧
      Settles (stateAfter (stateAfter State.initial paidTwice) (runs 4 3)) 4 aliceWallet
        (Reanswered paidEntry (Faulted (traceAfter (stateAfter State.initial paidTwice) (runs 4 3)) 4)) := by
  have h := deducted_once (anyRun_stateAfter paidTwice (by decide)) alice "lamp"
  refine ⟨by decide, h.1, ?_⟩
  have hrun : RunFrom (stateAfter State.initial paidTwice) anyStep
      (traceAfter (stateAfter State.initial paidTwice) (runs 4 3))
      (stateAfter (stateAfter State.initial paidTwice) (runs 4 3)) :=
    (run_stateAfter (fun _ _ => true) _ _ (by decide)).mono fun _ _ _ => trivial
  have hcall : (stateAfter (stateAfter State.initial paidTwice) (runs 4 3)).calls[4]?.any
      (fun call => call.request.isDeduction alice "lamp") = true := by decide
  have hlocks : (traceAfter (stateAfter State.initial paidTwice) (runs 4 3)).any (fun s =>
      s.label = .exec 4 .ok ∧ nextStmt? s.before s.label = some (.walletForUpdate aliceWallet)) = true := by decide
  obtain ⟨call, hi, hpair⟩ := (Option.any_eq_true _ _).mp hcall
  obtain ⟨s, hs, hlocks⟩ := List.any_eq_true.mp hlocks
  exact (h.2.1 paidEntry (by decide) (by decide) rfl _ _ hrun).2 4 call hi hpair
    (Or.inr ⟨s, hs, of_decide_eq_true hlocks⟩)

end

end FlashWallet
