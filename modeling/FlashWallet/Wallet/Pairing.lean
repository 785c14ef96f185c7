import FlashWallet.Proof.Runs
import FlashWallet.Proof.Audit
import FlashWallet.Proof.Debits

/-!
# Double entry

Every outgoing transfer in the ledger has its incoming one. The matching is stored nowhere, but it
need not be: a transfer books its two entries in one commit, so the `n`-th outgoing entry of the
ledger and the `n`-th incoming one are the two sides of one transfer. `Paired` says so, and every
step of a run keeps it.

Transfers cancel out in the total of the ledger, and what is left are deposits and purchases.
-/

set_option autoImplicit false

namespace FlashWallet

open Lib

/-- The entries of one type, in commit order. -/
def ofType (type : LedgerType) (ledger : List LedgerEntry) : List LedgerEntry :=
  ledger.filter (·.type = type)

/-- The two sides of a transfer: one reference, one amount, two wallets. -/
structure Counterpart (out inn : LedgerEntry) : Prop where
  referenceId : inn.referenceId = out.referenceId
  amount : inn.amount.cents = -out.amount.cents
  wallets : inn.walletId ≠ out.walletId

/-- The outgoing and the incoming entries match place by place. -/
def Paired (ledger : List LedgerEntry) : Prop :=
  List.Forall₂ Counterpart (ofType .TRANSFER_OUT ledger) (ofType .TRANSFER_IN ledger)

theorem ofType_append (type : LedgerType) (ledger es : List LedgerEntry) :
    ofType type (ledger ++ es) = ofType type ledger ++ ofType type es :=
  List.filter_append ..

theorem mem_ofType {type : LedgerType} {ledger : List LedgerEntry} {e : LedgerEntry} :
    e ∈ ofType type ledger ↔ e ∈ ledger ∧ e.type = type := by
  simp [ofType]

/-! ## The matching -/

theorem Paired.append {ledger es : List LedgerEntry} (h : Paired ledger) (hes : Paired es) :
    Paired (ledger ++ es) := by
  unfold Paired
  rw [ofType_append, ofType_append]
  exact List.rel_append h hes

/-- A single entry that is no transfer leaves the matching alone. -/
theorem Paired.single {e : LedgerEntry} (hout : e.type ≠ .TRANSFER_OUT) (hin : e.type ≠ .TRANSFER_IN) :
    Paired [e] := by
  simp [Paired, ofType, hout, hin]

/-- **What a request posts is paired.** -/
theorem Request.Posts.paired {req : Request} {owns : Uuid → Uuid → Prop} {price : Uuid → Money → Prop}
    {b : Bank} {es : List LedgerEntry} (h : req.Posts owns price es) (hb : b.Balanced es) :
    Paired es := by
  rcases h with rfl | h
  · exact .nil
  cases req with
  | provisionWallet | createEvent => exact h.elim
  | deposit userId dto =>
    obtain ⟨e, rfl, htype, -⟩ := h
    exact .single (by simp [htype]) (by simp [htype])
  | purchaseDeduct userId amount referenceId =>
    obtain ⟨e, rfl, htype, -⟩ := h
    exact .single (by simp [htype]) (by simp [htype])
  | purchase userId dto =>
    obtain ⟨e, p, rfl, htype, -⟩ := h
    exact .single (by simp [htype]) (by simp [htype])
  | transfer userId dto =>
    obtain ⟨out, inn, rfl, hot, hoa, hor, -, hit, hia, hir, -⟩ := h
    have hne : out.walletId ≠ inn.walletId := by simpa using hb.distinct
    have hmatch : Counterpart out inn := ⟨hir.trans hor.symm, by omega, hne.symm⟩
    simpa [Paired, ofType, hot, hit] using hmatch

/-- A step keeps the matching. -/
theorem Entries.paired {s : Step State Event} (h : Entries s) (hp : Paired s.before.world.ledger) :
    Paired s.after.world.ledger := by
  rw [h.ledger]
  cases h with
  | none entries ledger =>
    rw [entries, List.append_nil]
    exact hp
  | some i x call label found balanced posts bank => exact hp.append (posts.paired balanced)

/-- So does a run. -/
theorem paired_of_run {ok : State → Event → Prop} {c : State} {tr : Trace}
    (hrun : RunFrom State.initial ok tr c) : Paired c.world.ledger := by
  induction hrun with
  | nil => exact .nil
  | snoc run allowed next ih =>
    exact (moves_of_mem initial_reachable (.snoc run allowed next)
      (List.mem_append_right _ List.mem_cons_self)).entries.paired ih

/-! ## Conservation -/

/-- An entry is of one of four types. -/
theorem sumAmounts_types (ledger : List LedgerEntry) :
    sumAmounts ledger = sumAmounts (ofType .DEPOSIT ledger) + sumAmounts (ofType .PURCHASE ledger) +
      (sumAmounts (ofType .TRANSFER_OUT ledger) + sumAmounts (ofType .TRANSFER_IN ledger)) := by
  induction ledger with
  | nil => rfl
  | cons e es ih =>
    have hsplit : ∀ type, sumAmounts (ofType type (e :: es)) =
        (if e.type = type then e.amount.cents else 0) + sumAmounts (ofType type es) := by
      intro type
      by_cases htype : e.type = type <;> simp [ofType, sumAmounts, total, htype]
    have hhead : sumAmounts (e :: es) = e.amount.cents + sumAmounts es := by
      simp [sumAmounts, total]
    rw [hhead, ih, hsplit, hsplit, hsplit, hsplit]
    cases e.type <;> simp <;> omega

/-- The balances of a settled bank add up to its ledger. -/
theorem Bank.Ok.total_balances {b : Bank} (h : b.Ok) :
    (b.wallets.map fun row => row.balance.cents).sum = sumAmounts b.ledger := by
  have hrows : b.wallets.map (fun row => row.balance.cents) =
      (b.wallets.map Wallet.id).map fun id => sumAmounts (listing b.ledger id) := by
    rw [List.map_map]
    exact List.map_congr_left fun row hrow => (h.settled row hrow).balance
  rw [hrows]
  exact total_accounts LedgerEntry.walletId h.ids h.owned

/-- **A transfer changes nobody's wallet but its sender's and its recipient's.** -/
theorem Moves.unchanged {s : Step State Event} (h : Moves s) (hw : s.before.world.Ok) {userId : Uuid}
    {dto : TransferDto} (hreq : requestOf? s.before s.label = some (.transfer userId dto))
    {row : Wallet} (hrow : row ∈ s.before.world.wallets) (hsender : row.userId ≠ userId)
    (hrecipient : row.userId ≠ dto.toUserId) : row ∈ s.after.world.wallets := by
  cases h with
  | idle bank =>
    rw [show s.after.world.wallets = s.before.world.wallets from congrArg Bank.wallets bank]
    exact hrow
  | moved i x call label found move =>
    have hcall : call.request = .transfer userId dto := by
      simpa [requestOf?, label, Lib.Label.actor, found] using hreq
    cases move with
    | idle bank =>
      rw [show s.after.world.wallets = s.before.world.wallets from congrArg Bank.wallets bank]
      exact hrow
    | opened row' asked =>
      rw [hcall] at asked
      cases asked
    | posted es balanced posts bank =>
      rw [show s.after.world.wallets = _ from congrArg Bank.wallets bank]
      refine World.mem_foldl_writeBalance hrow fun write hwrite heq => ?_
      obtain ⟨e, he, rfl⟩ := List.mem_map.mp hwrite
      obtain ⟨u, hu, howns⟩ := posts.users he
      rw [hcall] at hu
      -- the row an entry is about belongs to one of the two
      have howner : row.userId = u :=
        hw.owner_unique (World.owns_of_mem hrow) (show s.before.world.Owns row.id u from heq ▸ howns)
      rcases List.mem_pair.mp hu with rfl | rfl
      · exact hsender howner
      · exact hrecipient howner

/-- **Double entry and conservation of money**, in every state any run reaches: outgoing and incoming
transfers match one to one, the balances add up to what was deposited less what was spent, and no step
of a transfer changes a third wallet. -/
theorem double_entry {c : State} {tr : Trace} (hrun : RunFrom State.initial anyStep tr c) :
    (∃ pair : {e // e ∈ c.world.ledger ∧ e.type = .TRANSFER_OUT} ≃
        {e // e ∈ c.world.ledger ∧ e.type = .TRANSFER_IN}, ∀ out,
      (pair out).1.referenceId = out.1.referenceId ∧
      (pair out).1.amount.cents = -out.1.amount.cents ∧
      (pair out).1.walletId ≠ out.1.walletId) ∧
    (c.world.wallets.map fun row => row.balance.cents).sum =
      sumAmounts (ofType .DEPOSIT c.world.ledger) + sumAmounts (ofType .PURCHASE c.world.ledger) ∧
    ∀ s ∈ tr, ∀ userId dto, requestOf? s.before s.label = some (.transfer userId dto) →
      ∀ row ∈ s.before.world.wallets, row.userId ≠ userId → row.userId ≠ dto.toUserId →
        row ∈ s.after.world.wallets := by
  have hpaired := paired_of_run hrun
  refine ⟨?_, ?_, ?_⟩
  · have hnodup : c.world.ledger.Nodup :=
      (Reachable.worldOk ⟨tr, hrun⟩).ledger_nodup.of_map
    obtain ⟨pair, hpair⟩ := exists_equiv_of_forall₂ hpaired (hnodup.filter _) (hnodup.filter _)
    refine ⟨(Equiv.subtypeEquivRight fun e => mem_ofType).symm.trans
      (pair.trans (Equiv.subtypeEquivRight fun e => mem_ofType)), fun out => ?_⟩
    have hmatch := hpair ⟨out.1, mem_ofType.mpr out.2⟩
    exact ⟨hmatch.referenceId, hmatch.amount, hmatch.wallets⟩
  · have hcancel : sumAmounts (ofType .TRANSFER_OUT c.world.ledger) +
        sumAmounts (ofType .TRANSFER_IN c.world.ledger) = 0 :=
      total_cancels hpaired fun _ _ h => h.amount
    have htotal := (Reachable.bankOk ⟨tr, hrun⟩).total_balances
    rw [show c.world.bank.ledger = c.world.ledger from rfl, sumAmounts_types, hcancel,
      add_zero] at htotal
    exact htotal
  · intro s hs userId dto hreq row hrow hsender hrecipient
    obtain ⟨⟨tr', hbefore⟩, -, -⟩ := hrun.of_mem hs
    exact (moves_of_mem initial_reachable hrun hs).unchanged (Reachable.worldOk ⟨tr', hbefore⟩) hreq
      hrow hsender hrecipient

section

open Sample

/-- Alice and Carol register, Bob too; Alice deposits, and sends Bob half of it. -/
def rentPaid : List Event :=
  register 0 alice aliceWallet ++ register 1 bob bobWallet ++ register 2 carol carolWallet ++
    fund 3 alice id₁ ++ [.arrive (.transfer alice toBob)] ++ runs 4 12

set_option maxRecDepth 4000 in
theorem double_entry_rentPaid :
    (ofType .TRANSFER_OUT (stateAfter State.initial rentPaid).world.ledger).length = 1 ∧
      ((stateAfter State.initial rentPaid).world.wallets.map fun row => row.balance.cents).sum =
        sumAmounts (ofType .DEPOSIT (stateAfter State.initial rentPaid).world.ledger) +
          sumAmounts (ofType .PURCHASE (stateAfter State.initial rentPaid).world.ledger) :=
  ⟨by decide, (double_entry (anyRun_stateAfter rentPaid (by decide))).2.1⟩

end

end FlashWallet
