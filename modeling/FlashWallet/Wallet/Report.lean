import FlashWallet.Proof.Readers
import FlashWallet.Wallet.LedgerChain

/-!
# The report on the ledger invariant

`verifyInvariant` reads the balances once and the sums one by one. A wallet that is committed to between the two is
reported to be broken, although it never was.
-/

set_option autoImplicit false

namespace FlashWallet.Read

open Lib

/-- The wallets of which a report has the balance and awaits the sum. -/
def awaitedSums (call : Lib.Call queries Err Response Request) : List Wallet :=
  match call with
  | ⟨_, .call (.ledgerEntryAggregate pending) _, false⟩ => pending
  | _ => []

/-- Nothing commits to a wallet of which a report has the balance and awaits the sum. -/
def unalarmed (c : State) : ReadEvent → Bool
  | .env e => c.calls.all fun call => (awaitedSums call).all fun row => leaves c.world e row.id
  | _ => true

/-- Balance and ledger agree, in every state. -/
theorem sum_eq_balance {st : FlashWallet.State} (hreached : Reached st) {row : Wallet} (hrow : row ∈ st.world.wallets) :
    (sum? (entriesOf st.world row.id)).getD 0 = row.balance.cents := by
  obtain ⟨tr, hrun⟩ := hreached
  obtain ⟨bs, hkept, -⟩ := kept_of_run hrun
  have hbalance : row.balance.cents = ((entriesOf st.world row.id).map fun e => e.amount.cents).sum :=
    (hkept.bank.settled row hrow).balance
  rw [hbalance, sum?]
  split
  · rename_i hnone
    rw [hnone]
    rfl
  · rfl

/-- What is left of a report when the balances have been read, and some of the sums. -/
def summing (wallets : List Wallet) (n : Nat) (pending : List Wallet) (sums : Uuid → Int) : Reader Response :=
  .report <$> do
    let sums ← WalletService.ledgerSums n pending sums
    return wallets.map (WalletService.toCheck sums)

/-- The sums that have been read are the balances, and the wallets whose sums have not are as they were read. -/
structure Tallies (w : World) (wallets pending : List Wallet) (sums : Uuid → Int) : Prop where
  distinct : ∀ row ∈ wallets, ∀ row' ∈ wallets, row.id = row'.id → row = row'
  listed : ∀ row ∈ pending, row ∈ wallets
  current : ∀ row ∈ pending, row ∈ w.wallets
  tallied : ∀ row ∈ wallets, row ∈ pending ∨ sums row.id = row.balance.cents

theorem Tallies.start {w : World} {wallets : List Wallet} (hw : w.Ok) (hwallets : ∀ row ∈ wallets, row ∈ w.wallets) :
    Tallies w wallets wallets fun _ => 0 where
  distinct row hrow row' hrow' hid := hw.wallet_ext (hwallets row hrow) (hwallets row' hrow') hid
  listed _ hrow := hrow
  current := hwallets
  tallied _ hrow := Or.inl hrow

theorem Tallies.next {w : World} {wallets pending : List Wallet} {sums : Uuid → Int}
    (h : Tallies w wallets pending sums)
    {wallet : Wallet} (hwallet : wallet ∈ pending) {sum : Int} (hsum : sum = wallet.balance.cents) :
    Tallies w wallets (pending.erase wallet) fun id => if id = wallet.id then sum else sums id where
  distinct := h.distinct
  listed row hrow := h.listed row (List.mem_of_mem_erase hrow)
  current row hrow := h.current row (List.mem_of_mem_erase hrow)
  tallied row hrow := by
    by_cases hid : row.id = wallet.id
    · obtain rfl := h.distinct row hrow wallet (h.listed wallet hwallet) hid
      exact Or.inr (by rw [if_pos rfl, hsum])
    · rw [if_neg hid]
      have hne : row ≠ wallet := fun heq => hid (congrArg Wallet.id heq)
      exact (h.tallied row hrow).imp (List.mem_erase_of_ne hne).mpr id

/-- Between its request and its answer, a report has read nothing, or balances, and sums that agree with them. -/
def Reporting (st : FlashWallet.State) (walletId : Option Uuid) (p : Reader Response) : Prop :=
  p = (Request.verifyInvariant walletId).handler ∨
    (∃ wallets pending sums, Tallies st.world wallets pending sums ∧ p = summing wallets pending.length pending sums) ∨
    ∃ e, p = .fail e

theorem reporting_reads {prisma : Prisma} : Reads prisma (fun c l => unalarmed c l = true) fun _ st r p =>
    ∀ walletId, r = .verifyInvariant walletId → Reporting st walletId p where
  arrive tr st r := by
    rintro walletId rfl
    exact Or.inl rfl
  exec tr c i r q k x reply hreached hok hi h hanswer := by
    rintro walletId rfl
    have hw : c.world.world.Ok := Reachable.worldOk hreached
    rcases h walletId rfl with hp | ⟨wallets, pending, sums, htallies, hp⟩ | ⟨e, hp⟩
    · cases walletId with
      | some id =>
        have hp : Prog.call q k = .call (S := queries) (Query.walletFindUniqueOrThrow id) _ := hp
        cases hp
        rcases answer_walletFindUniqueOrThrow hanswer with ⟨e, rfl⟩ | ⟨row, hrow, rfl⟩
        · exact Or.inr (Or.inr ⟨e, rfl⟩)
        · refine Or.inr (Or.inl ⟨[row], [row], fun _ => 0, .start hw fun row' hrow' => ?_, rfl⟩)
          exact List.mem_singleton.mp hrow' ▸ hrow
      | none =>
        have hp : Prog.call q k = .call (S := queries) Query.walletFindMany _ := hp
        cases hp
        rcases answer_walletFindMany hanswer with ⟨-, rfl⟩ | ⟨rows, hrows, rfl⟩
        · exact Or.inr (Or.inr ⟨_, rfl⟩)
        · exact Or.inr (Or.inl ⟨rows, rows, fun _ => 0, .start hw fun row hrow => hrows.subset hrow, rfl⟩)
    · cases hn : pending.length with
      | zero =>
        rw [hn] at hp
        cases hp
      | succ n =>
        rw [hn] at hp
        have hp : Prog.call q k = .call (S := queries) (Query.ledgerEntryAggregate pending) _ := hp
        cases hp
        rcases answer_ledgerEntryAggregate hanswer with ⟨-, rfl⟩ | ⟨wallet, hwallet, rfl⟩
        · exact Or.inr (Or.inr ⟨_, rfl⟩)
        -- the row is still the wallet's, so the sum read now is the balance read then
        · have hsum := sum_eq_balance hreached (htallies.current wallet hwallet)
          refine Or.inr (Or.inl ⟨wallets, pending.erase wallet, _, htallies.next hwallet hsum, ?_⟩)
          rw [List.length_erase_of_mem hwallet, hn]
          rfl
    · cases hp
  env tr c e st i r p hok hi h hstep := by
    rintro walletId rfl
    rcases h walletId rfl with rfl | ⟨wallets, pending, sums, htallies, rfl⟩ | ⟨e, rfl⟩
    · exact Or.inl rfl
    · refine Or.inr (Or.inl ⟨wallets, pending, sums, { htallies with current := fun row hrow => ?_ }, rfl⟩)
      have hawaited : ∀ call ∈ c.calls, ∀ row ∈ awaitedSums call, leaves c.world e row.id = true := by
        intro call hcall row hrow
        exact List.all_eq_true.mp (List.all_eq_true.mp hok call hcall) row hrow
      have hpending :
          awaitedSums ⟨.verifyInvariant walletId, summing wallets pending.length pending sums, false⟩ = pending := by
        cases pending <;> rfl
      -- an awaited wallet is one that no step commits to
      have hleaves := hawaited _ (List.mem_of_getElem? hi) row (hpending.symm ▸ hrow)
      simp only [leaves, hstep, List.all_eq_true, Bool.or_eq_true, decide_eq_true_eq] at hleaves
      exact (hleaves row (htallies.current row hrow)).resolve_left fun h => h rfl
    · exact Or.inr (Or.inr ⟨e, rfl⟩)
  mono tr s st r p h := h

/-- **No false alarm**, where no wallet is committed to between the reading of its balance and the reading of its
sum: every row of every report matches. -/
theorem no_false_alarm {prisma : Prisma} {tr : Trace} {c : State}
    (hrun : RunFrom prisma State.initial (fun c l => unalarmed c l = true) tr c) {i : Nat}
    {call : Lib.Call queries Err Response Request} {walletId : Option Uuid} (hi : c.calls[i]? = some call)
    (hreq : call.request = .verifyInvariant walletId) {rows : List InvariantCheck}
    (hrows : call.result? = some (.ok (.report rows))) : ∀ check ∈ rows, check.matches' = true := by
  have hanswered := answered_of_result hi hrows
  rw [hreq] at hanswered
  rcases (reads_of_run reporting_reads hrun).2 _ _ _ hanswered walletId rfl with
    hp | ⟨wallets, pending, sums, htallies, hp⟩ |
    ⟨e, hp⟩
  · cases walletId <;> cases hp
  · cases pending with
    | cons row pending => cases hp
    | nil =>
      cases hp
      intro check hcheck
      obtain ⟨row, hrow, rfl⟩ := List.mem_map.mp hcheck
      have hsum := (htallies.tallied row hrow).resolve_left nofun
      exact decide_eq_true hsum.symm
  · cases hp

/-! ## Alice pays in while the report is made -/

namespace Trial

open Sample

/-- Alice's wallet with ten units of money. -/
def ten : Wallet := ⟨aliceWallet, alice, Sample.ten, 1⟩

/-- Bob registers between the reading of Alice's balance and the reading of her sum. -/
def calmReport : List ReadEvent :=
  does (register 0 alice aliceWallet ++ fund 1 alice id₁) ++
    [.arrive (.verifyInvariant none), .exec 0 (.wallets [ten])] ++
    does (register 2 bob bobWallet) ++ [.exec 0 (.next ten)]

/-- She pays in between the two. -/
def falseAlarm : List ReadEvent :=
  does (register 0 alice aliceWallet ++ fund 1 alice id₁) ++
    [.arrive (.verifyInvariant none), .exec 0 (.wallets [ten])] ++
    does (fund 2 alice id₂) ++ [.exec 0 (.next ten)]

end Trial

set_option maxRecDepth 8000 in
theorem no_false_alarm_calm :
    Trial.answered Trial.calmReport = some (.ok (.report [⟨Sample.aliceWallet, 1000, 1000, true⟩])) ∧
      (⟨Sample.aliceWallet, 1000, 1000, true⟩ : InvariantCheck).matches' = true := by
  have hanswered : Trial.answered Trial.calmReport =
      some (.ok (.report [⟨Sample.aliceWallet, 1000, 1000, true⟩])) := rfl
  obtain ⟨call, hcall, hreq, hresult⟩ := Trial.called Trial.calmReport (.verifyInvariant none) _ hanswered rfl
  have hrun := Trial.run_stateAfter unalarmed Trial.calmReport (by decide)
  exact ⟨hanswered, no_false_alarm hrun hcall hreq hresult _ List.mem_cons_self⟩

set_option maxRecDepth 8000 in
/-- Every state of the run is in order, and the report says that one is not. -/
theorem alarm_falseAlarm :
    (∀ step ∈ Trial.traceAfter Trial.falseAlarm, ∀ row ∈ step.after.world.world.wallets,
      (sum? (entriesOf step.after.world.world row.id)).getD 0 = row.balance.cents) ∧
    Trial.answered Trial.falseAlarm = some (.ok (.report [⟨Sample.aliceWallet, 1000, 2000, false⟩])) := by
  refine ⟨fun step hstep row hrow => ?_, rfl⟩
  have hrun := Trial.run_stateAfter (fun _ _ => true) Trial.falseAlarm (by decide)
  obtain ⟨⟨tr, hbefore⟩, hok, hnext⟩ := hrun.of_mem hstep
  exact sum_eq_balance (reached_of_run (.snoc hbefore hok hnext)) hrow

end FlashWallet.Read
