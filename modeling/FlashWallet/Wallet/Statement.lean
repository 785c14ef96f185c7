import FlashWallet.Proof.Dates
import FlashWallet.Proof.Readers
import FlashWallet.Wallet.LedgerChain

/-!
# A wallet statement

The balance and the entries of a statement are two reads, and the entries come in the order of their dates. They
are one view of the wallet where nothing commits to it between the two, and no two of the entries at hand have
one date. How many are asked for has to be a number that Prisma takes for what it is.
-/

set_option autoImplicit false

namespace FlashWallet.Read

open Lib

/-- The statement shows the user's wallet as it is in this state: its balance, and its last `n` entries, the last
one first. -/
def Consistent (w : World) (userId : Uuid) (n : Nat) (s : Statement) : Prop :=
  ∃ row ∈ w.wallets, row.userId = userId ∧ s.balance = row.balance ∧
    s.entries = (entriesOf w row.id).reverse.take n ∧
    s.balance.cents = (s.entries.head?.map fun e => e.balanceAfter.cents).getD 0

/-- The wallet whose entries a call reads next, and how many of them. -/
def awaited? (call : Lib.Call queries Err Response Request) : Option (Uuid × Number) :=
  match call with
  | ⟨_, .call (.ledgerEntryFindMany walletId take) _, false⟩ => some (walletId, take)
  | _ => none

/-- The last `n` entries of the wallet, and the one before, have dates of their own. -/
def untied (w : World) (walletId : Uuid) : Number → Bool
  | .int n => decide (((entriesOf w walletId).reverse.take (n.toNat + 1)).map fun e => e.createdAt).Nodup
  | .nan => true

/-- Nothing commits to a wallet of which a statement has the balance and awaits the entries; and these, when they
are read, are untied. -/
def steady (c : State) : ReadEvent → Bool
  | .env e => c.calls.all fun call => (awaited? call).all fun (walletId, _) => leaves c.world e walletId
  | .exec i _ => (c.calls[i]?.bind awaited?).all fun (walletId, take) => untied c.world.world walletId take
  | _ => true

/-- What is left of a statement when the balance has been read. -/
def stating (row : Wallet) (limit : Option Number) : Reader Response :=
  .statement <$> do
    let entries : List LedgerEntry ← ask (.ledgerEntryFindMany row.id (limit.getD WalletService.defaultLedgerLimit))
    return ({ balance := row.balance, entries := entries } : Statement)

/-- Between its request and its answer, a statement has read nothing, or the balance the wallet still has. -/
def Reading (tr : Trace) (st : FlashWallet.State) (userId : Uuid) (limit : Option Number) (n : Nat)
    (p : Reader Response) : Prop :=
  p = (Request.getMe userId limit).handler ∨
    (∃ row ∈ st.world.wallets, row.userId = userId ∧ p = stating row limit) ∨
    ∃ r, p = .ended r ∧ ∀ s, r = .ok (.statement s) → ∃ step ∈ tr, Consistent step.before.world.world userId n s

/-- What comes back is what the ledger ends with, if the dates tell. -/
theorem entries_of_untied {st : FlashWallet.State} (hreached : Reached st) {walletId : Uuid} {n : Nat}
    {all : List LedgerEntry} (hall : IsDescending st.world walletId all)
    (huntied : untied st.world walletId (.int n) = true) :
    all.take n = (entriesOf st.world walletId).reverse.take n := by
  obtain ⟨tr, hrun⟩ := hreached
  have hdated : (entriesOf st.world walletId).reverse.Pairwise fun e e' => e'.createdAt ≤ e.createdAt :=
    List.pairwise_reverse.mpr (listing_dated hrun walletId)
  exact take_eq_of_descending (hall.1.trans (List.reverse_perm _).symm) hall.2 hdated (of_decide_eq_true huntied)

/-- A reachable wallet and its own entries, the last first, are a consistent statement. -/
theorem consistent_of_mem {st : FlashWallet.State} (hreached : Reached st) {row : Wallet}
    (hrow : row ∈ st.world.wallets) {n : Nat} (hn : 0 < n) :
    Consistent st.world row.userId n ⟨row.balance, (entriesOf st.world row.id).reverse.take n⟩ := by
  refine ⟨row, hrow, rfl, rfl, rfl, ?_⟩
  have hlast := (ledger_chain hreached hrow).2.2.1
  rw [hlast, List.head?_take, if_neg hn.ne', List.head?_reverse]
  rfl

theorem reading_reads {prisma : Prisma} : Reads prisma (fun c l => steady c l = true) fun tr st r p =>
    ∀ userId limit (n : Nat), r = .getMe userId limit → limit.getD WalletService.defaultLedgerLimit = .int n → 0 < n →
      prisma.takes n = true → Reading tr st userId limit n p where
  arrive tr st r := by
    rintro userId limit n rfl hlimit hn hfits
    exact Or.inl rfl
  exec tr c i r q k x reply hreached hok hi h hanswer := by
    rintro userId limit n rfl hlimit hn hfits
    rcases h userId limit n rfl hlimit hn hfits with hp | ⟨row, hrow, huser, hp⟩ | ⟨r', hp, -⟩
    · have hp : Prog.call q k = .call (S := queries) (Query.walletFindUnique userId) _ := hp
      cases hp
      rcases answer_walletFindUnique hanswer with ⟨-, rfl⟩ | rfl
      · exact Or.inr (Or.inr ⟨.error .unavailable, rfl, nofun⟩)
      · cases hfound : c.world.world.walletOf? userId with
        | none => exact Or.inr (Or.inr ⟨.error (.notFound "Wallet not found for this user"), rfl, nofun⟩)
        | some row =>
          obtain ⟨hrow, huser⟩ := World.walletOf?_eq_some hfound
          exact Or.inr (Or.inl ⟨row, hrow, huser, rfl⟩)
    · have hp : Prog.call q k = .call (S := queries)
          (Query.ledgerEntryFindMany row.id (limit.getD WalletService.defaultLedgerLimit)) _ := hp
      cases hp
      rcases answer_ledgerEntryFindMany hanswer with ⟨-, rfl⟩ | ⟨-, all, hall, rfl⟩ | ⟨hunfit, -⟩
      rotate_right
      · rw [hlimit] at hunfit
        cases hunfit.symm.trans hfits
      · exact Or.inr (Or.inr ⟨.error .unavailable, rfl, nofun⟩)
      · have huntied : untied c.world.world row.id (.int n) = true := by
          have hawaited := hok
          simp only [steady, hi, Option.bind_some, awaited?, Option.all_some] at hawaited
          rwa [hlimit] at hawaited
        refine Or.inr (Or.inr ⟨.ok (.statement ⟨row.balance, all.take n⟩), ?_, fun s hs => ?_⟩)
        · rw [hlimit, Number.take_ofNat]
          rfl
        · cases hs
          refine ⟨_, List.mem_append_right _ List.mem_cons_self, ?_⟩
          -- the state at hand is the one the statement is consistent with
          rw [entries_of_untied hreached hall huntied, ← huser]
          exact consistent_of_mem hreached hrow hn
    · cases r' <;> cases hp
  env tr c e st i r p hok hi h hstep := by
    rintro userId limit n rfl hlimit hn hfits
    rcases h userId limit n rfl hlimit hn hfits with rfl | ⟨row, hrow, huser, rfl⟩ | hanswered
    · exact Or.inl rfl
    · have hleaves : leaves c.world e row.id = true := List.all_eq_true.mp hok _ (List.mem_of_getElem? hi)
      simp only [leaves, hstep, List.all_eq_true, Bool.or_eq_true, decide_eq_true_eq] at hleaves
      exact Or.inr (Or.inl ⟨row, (hleaves row hrow).resolve_left (fun h => h rfl), huser, rfl⟩)
    · exact Or.inr (Or.inr hanswered)
  mono tr s st r p h := by
    rintro userId limit n rfl hlimit hn hfits
    refine (h userId limit n rfl hlimit hn hfits).imp id (Or.imp id ?_)
    rintro ⟨r', hp, htold⟩
    refine ⟨r', hp, fun s' hs' => ?_⟩
    obtain ⟨step, hstep, hconsistent⟩ := htold s' hs'
    exact ⟨step, List.mem_append_left _ hstep, hconsistent⟩

/-- **A statement is one view of the wallet**, of a state that its run has passed through, where nothing commits
to the wallet between its two reads and the dates of the entries at hand differ. -/
theorem wallet_statement {prisma : Prisma} {tr : Trace} {c : State}
    (hrun : RunFrom prisma State.initial (fun c l => steady c l = true) tr c) {i : Nat}
    {call : Lib.Call queries Err Response Request} {userId : Uuid} {limit : Option Number} {n : Nat}
    (hi : c.calls[i]? = some call) (hreq : call.request = .getMe userId limit)
    (hlimit : limit.getD WalletService.defaultLedgerLimit = .int n) (hn : 0 < n) (hfits : prisma.takes n = true)
    {s : Statement} (hs : call.result? = some (.ok (.statement s))) :
    ∃ step ∈ tr, Consistent step.before.world.world userId n s := by
  have hanswered := answered_of_result hi hs
  rw [hreq] at hanswered
  have hreading := (reads_of_run reading_reads hrun).2 _ _ _ hanswered userId limit n rfl hlimit hn hfits
  rcases hreading with hp | ⟨row, -, -, hp⟩ | ⟨r, hp, htold⟩
  · cases hp
  · cases hp
  · obtain rfl : r = .ok (.statement s) := by
      cases r <;> cases hp
      rfl
    exact htold s rfl

/-! ## Alice looks at her wallet -/

namespace Trial

open Sample

/-- Alice has a wallet and has paid in ten units of money; then the clock ticks. -/
def funded : List ReadEvent := does (register 0 alice aliceWallet ++ fund 1 alice id₁ ++ [.env (.tick 1)])

/-- Her deposits. -/
def first : LedgerEntry := ⟨aliceWallet, .DEPOSIT, Sample.ten, Sample.ten, id₁.text, 0⟩
def second (createdAt : Nat) : LedgerEntry :=
  ⟨aliceWallet, .DEPOSIT, Sample.ten, ⟨2000, by decide⟩, id₂.text, createdAt⟩

/-- She looks while nothing happens. -/
def undisturbed : List ReadEvent :=
  funded ++ does (fund 2 alice id₂) ++
    [.arrive (.getMe alice (some (.int 1))), .exec 0 .ok, .exec 0 (.rows [second 1, first])]

/-- A deposit commits between the two reads. -/
def torn : List ReadEvent :=
  funded ++ [.arrive (.getMe alice (some (.int 1))), .exec 0 .ok] ++ does (fund 2 alice id₂) ++
    [.exec 0 (.rows [second 1, first])]

/-- Two deposits in one millisecond. -/
def tied : List ReadEvent :=
  does (register 0 alice aliceWallet ++ fund 1 alice id₁ ++ fund 2 alice id₂) ++
    [.arrive (.getMe alice (some (.int 1))), .exec 0 .ok, .exec 0 (.rows [first, second 0])]

end Trial

set_option maxRecDepth 8000 in
theorem wallet_statement_undisturbed : ∃ step ∈ Trial.traceAfter Trial.undisturbed,
    Consistent step.before.world.world Sample.alice 1 ⟨⟨2000, by decide⟩, [Trial.second 1]⟩ := by
  obtain ⟨call, hcall, hreq, hresult⟩ := Trial.called Trial.undisturbed (.getMe Sample.alice (some (.int 1)))
    (.ok (.statement ⟨⟨2000, by decide⟩, [Trial.second 1]⟩)) rfl rfl
  exact wallet_statement (Trial.run_stateAfter steady Trial.undisturbed (by decide)) hcall hreq rfl Nat.one_pos
    (by decide) hresult

set_option maxRecDepth 8000 in
/-- The balance of before, with the entry of after; and of two entries with one date, the older. -/
theorem not_consistent_torn :
    (Trial.Allowed (fun _ _ => true) Trial.torn = true ∧
      Trial.answered Trial.torn = some (.ok (.statement ⟨⟨1000, by decide⟩, [Trial.second 1]⟩)) ∧
      ∀ step ∈ Trial.traceAfter Trial.torn,
        ¬Consistent step.before.world.world Sample.alice 1 ⟨⟨1000, by decide⟩, [Trial.second 1]⟩) ∧
    Trial.Allowed (fun _ _ => true) Trial.tied = true ∧
      Trial.answered Trial.tied = some (.ok (.statement ⟨⟨2000, by decide⟩, [Trial.first]⟩)) ∧
      ∀ step ∈ Trial.traceAfter Trial.tied,
        ¬Consistent step.before.world.world Sample.alice 1 ⟨⟨2000, by decide⟩, [Trial.first]⟩ := by
  refine ⟨⟨by decide, rfl, ?_⟩, by decide, rfl, ?_⟩
  · rintro step - ⟨row, -, -, -, -, hbalance⟩
    exact absurd hbalance (by decide)
  · rintro step - ⟨row, -, -, -, -, hbalance⟩
    exact absurd hbalance (by decide)

end FlashWallet.Read
