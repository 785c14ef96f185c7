import FlashWallet.Proof.Evolves
import FlashWallet.Proof.Runs
import FlashWallet.Proof.TransactionBodies

/-!
# Serializability

Deposits, debits and transfers, however their statements fall between one another, are to the rows and to their
clients what the committed ones are one after another, in the order of their commits.
-/

set_option autoImplicit false

namespace FlashWallet

open Lib

/-! ## The transactions, and what they are alone -/

/-- A transaction of the wallet. What a deposit is referred to by is drawn before. -/
inductive WalletTx where
  | deposit (userId : Uuid) (dto : DepositDto) (referenceId : String)
  | purchaseDeduct (userId : Uuid) (amount : Int) (referenceId : String)
  | transfer (userId : Uuid) (dto : TransferDto)
deriving DecidableEq

def WalletTx.program : WalletTx → Service Response
  | .deposit userId dto referenceId => .booked <$> WalletService.depositTx userId dto referenceId
  | .purchaseDeduct userId amount referenceId => .booked <$> WalletService.purchaseDeduct userId amount referenceId
  | .transfer userId dto => .transferred <$> WalletService.transaction (WalletService.transferTx userId dto)

/-- Any number of them over one store, statement by statement. -/
def transactions : Platform sql Err Response WalletTx Choice Env World where
  program := WalletTx.program
  exec := World.exec
  cutOff i w := w.release i
  env := Env.run

abbrev TxState := Config sql Err Response WalletTx World

abbrev TxEvent := Label WalletTx Choice Env

/-- By this step a transaction commits, and answers. -/
def commitOf? (s : Step TxState TxEvent) : Option (Nat × WalletTx × Response) :=
  match s.label with
  | .exec i _ =>
    match s.before.calls[i]?, s.after.calls[i]? with
    | some ⟨_, .call .commit _, _⟩, some ⟨tx, .done a, _⟩ => some (i, tx, a)
    | _, _ => none
  | _ => none

/-- The transactions that have committed, in the order of their commits, with what they have answered. -/
def commits (tr : List (Step TxState TxEvent)) : List (Nat × WalletTx × Response) := tr.filterMap commitOf?

/-- One after another, each by itself, they take the store from `w` to `w'` and answer so. -/
inductive Serially (w : World) : List (Nat × WalletTx × Response) → World → Prop where
  | nil : Serially w [] w
  | snoc {history : List (Nat × WalletTx × Response)} {w₁ w' : World} {i : Nat} {tx : WalletTx} {a : Response}
      (before : Serially w history w₁) (alone : FinishesAlone i tx.program w₁ a w') :
      Serially w (history ++ [(i, tx, a)]) w'

/-! ## In every run -/

/-- The courses of all transactions. -/
def txCourses : Platform.Stages sql Err Response WalletTx Course where
  machine := courses
  start _ := .running []
  cut := .over
  ends tx r g := Course.Ends tx.program r g

theorem txCourses_follows : Platform.Follows transactions txCourses where
  handlers tx := by
    cases tx with
    | deposit userId dto referenceId => exact Course.ends_map Response.booked (depositTx_courses userId dto referenceId)
    | purchaseDeduct userId amount referenceId =>
      exact Course.ends_map Response.booked (purchaseDeduct_courses userId amount referenceId)
    | transfer userId dto => exact Course.ends_map Response.transferred (transaction_courses transferTx_courses)
  replies _ _ _ _ _ _ _ := trivial

section

variable {c : TxState} {i : Nat} {tx : WalletTx} {o : Stmt} {k : Except Err o.Reply → Service Response}
  {x : Choice} {reply : Except Err o.Reply} {w : World}

theorem commitOf?_commit {k : Except Err Stmt.commit.Reply → Service Response} {reply : Except Err Stmt.commit.Reply}
    {a : Response} (hi : c.calls[i]? = some ⟨tx, .call (S := sql) Stmt.commit k, false⟩) (hk : k reply = .done a) :
    commitOf? ⟨c, .exec i x, ⟨w, c.calls.set i ⟨tx, k reply, false⟩⟩⟩ = some (i, tx, a) := by
  have hafter := List.getElem?_set_self (List.getElem?_eq_some_iff.mp hi).1 (a := (⟨tx, .done a, false⟩ : Call ..))
  simp only [commitOf?, hi, hk, hafter]

theorem commitOf?_other (hi : c.calls[i]? = some ⟨tx, .call (S := sql) o k, false⟩)
    (hno : o ≠ .commit ∨ ∀ a, k reply ≠ .done a) :
    commitOf? ⟨c, .exec i x, ⟨w, c.calls.set i ⟨tx, k reply, false⟩⟩⟩ = none := by
  have hafter := List.getElem?_set_self (List.getElem?_eq_some_iff.mp hi).1 (a := (⟨tx, k reply, false⟩ : Call ..))
  simp only [commitOf?, hi, hafter]
  split
  · rename_i hcommit hdone
    rcases hno with hno | hno
    · cases hcommit
      exact absurd rfl hno
    · cases hk : k reply with
      | done a => exact absurd hk (hno a)
      | _ =>
        rw [hk] at hdone
        cases hdone
  · rfl

end

/-- How the transactions stand. -/
structure Serialized (w₀ : World) (tr : List (Step TxState TxEvent)) (c : TxState) (gs : List Course) : Prop where
  guarded : c.world.Guarded
  told : ∀ (i : Nat) (log : List Exchange), gs[i]? = some (.running log) →
    (∀ x ∈ log, Exchange.Holds i c.world x) ∧ c.world.tx i = buffered log
  beyond : ∀ i, c.calls.length ≤ i → c.world.tx i = .empty
  serial : ∃ w, Serially w₀ (commits tr) w ∧ w.Idle ∧ w.wallets = c.world.wallets ∧ w.ledger = c.world.ledger
  answered : ∀ i tx a, (i, tx, a) ∈ commits tr → c.calls[i]? = some ⟨tx, .done a, false⟩
  committed : ∀ (i : Nat) (log : List Exchange), gs[i]? = some (.committed log) →
    ∃ tx a, (i, tx, a) ∈ commits tr

theorem Serialized.initial {w₀ : World} (hidle : w₀.Idle) : Serialized w₀ [] ⟨w₀, []⟩ [] where
  guarded := ⟨fun i write hwrite => by simp [hidle.tx i, Tx.empty] at hwrite,
    fun i e he => by simp [hidle.tx i, Tx.empty] at he⟩
  told i log h := by simp at h
  beyond i _ := hidle.tx i
  serial := ⟨w₀, .nil, hidle, rfl, rfl⟩
  answered i tx a h := by cases h
  committed i log h := by simp at h

/-- The end of a transaction that is not a commit leaves the rows as they are, and so does what comes before. -/
theorem World.rows_uncommitted {i : Nat} {w w' : World} {o : Stmt} {r : Except Err o.Reply}
    (hs : World.Served i w o r w') (ho : o.isTransactional = true) (hno : o ≠ .commit ∨ r.isOk = false) :
    w'.wallets = w.wallets ∧ w'.ledger = w.ledger := by
  cases hs with
  | committed =>
    rcases hno with hno | hno
    · exact absurd rfl hno
    · cases hno
  | walletCreated | cached | dropped | missed | drew | eventCreated | reserved | released | ordered | queued =>
    cases ho
  | _ => exact ⟨rfl, rfl⟩

namespace Serialized

variable {w₀ w : World} {tr : List (Step TxState TxEvent)} {c c' : TxState} {gs gs' : List Course} {l : TxEvent}

/-- A step by which nothing is committed. -/
theorem uncommitted (h : Serialized w₀ tr c gs) (hno : commitOf? ⟨c, l, c'⟩ = none) (hguarded : c'.world.Guarded)
    (htold : ∀ (i : Nat) (log : List Exchange), gs'[i]? = some (.running log) →
      (∀ x ∈ log, Exchange.Holds i c'.world x) ∧ c'.world.tx i = buffered log)
    (hbeyond : ∀ i, c'.calls.length ≤ i → c'.world.tx i = .empty)
    (hrows : c'.world.wallets = c.world.wallets ∧ c'.world.ledger = c.world.ledger)
    (hcalls : ∀ (i : Nat) (tx : WalletTx) (a : Response), c.calls[i]? = some ⟨tx, .done a, false⟩ →
      c'.calls[i]? = some ⟨tx, .done a, false⟩)
    (hcommitted : ∀ (i : Nat) (log : List Exchange), gs'[i]? = some (.committed log) → gs[i]? = some (.committed log)) :
    Serialized w₀ (tr ++ [⟨c, l, c'⟩]) c' gs' := by
  have hcommits : commits (tr ++ [⟨c, l, c'⟩]) = commits tr := by
    simp [commits, List.filterMap_append, hno]
  refine ⟨hguarded, htold, hbeyond, ?_, ?_, ?_⟩ <;> rw [hcommits]
  · obtain ⟨v, hserial, hidle, hwallets, hledger⟩ := h.serial
    exact ⟨v, hserial, hidle, hwallets.trans hrows.1.symm, hledger.trans hrows.2.symm⟩
  · exact fun i tx a hmem => hcalls i tx a (h.answered i tx a hmem)
  · exact fun i log hi => h.committed i log (hcommitted i log hi)

/-- A step by which transaction `i` commits. -/
theorem committing (h : Serialized w₀ tr c gs) {i : Nat} {tx : WalletTx} {a : Response}
    (hstep : commitOf? ⟨c, l, c'⟩ = some (i, tx, a)) (hguarded : c'.world.Guarded)
    (htold : ∀ (j : Nat) (log : List Exchange), gs'[j]? = some (.running log) →
      (∀ x ∈ log, Exchange.Holds j c'.world x) ∧ c'.world.tx j = buffered log)
    (hbeyond : ∀ j, c'.calls.length ≤ j → c'.world.tx j = .empty)
    (hserial : ∃ v, Serially w₀ (commits tr ++ [(i, tx, a)]) v ∧ v.Idle ∧ v.wallets = c'.world.wallets ∧
      v.ledger = c'.world.ledger)
    (hcalls : ∀ (j : Nat) (tx : WalletTx) (a : Response), c.calls[j]? = some ⟨tx, .done a, false⟩ →
      c'.calls[j]? = some ⟨tx, .done a, false⟩)
    (hdone : c'.calls[i]? = some ⟨tx, .done a, false⟩)
    (hcommitted : ∀ (j : Nat) (log : List Exchange), gs'[j]? = some (.committed log) →
      j = i ∨ gs[j]? = some (.committed log)) :
    Serialized w₀ (tr ++ [⟨c, l, c'⟩]) c' gs' := by
  have hcommits : commits (tr ++ [⟨c, l, c'⟩]) = commits tr ++ [(i, tx, a)] := by
    simp [commits, List.filterMap_append, hstep]
  refine ⟨hguarded, htold, hbeyond, ?_, ?_, ?_⟩ <;> rw [hcommits]
  · exact hserial
  · intro j tx' a' hmem
    rcases List.mem_append.mp hmem with hmem | hmem
    · exact hcalls j tx' a' (h.answered j tx' a' hmem)
    · cases List.mem_singleton.mp hmem
      exact hdone
  · intro j log hj
    rcases hcommitted j log hj with rfl | hj
    · exact ⟨tx, a, List.mem_append_right _ List.mem_cons_self⟩
    · obtain ⟨tx', a', hmem⟩ := h.committed j log hj
      exact ⟨tx', a', List.mem_append_left _ hmem⟩

end Serialized

theorem Course.next_eq_running {log log' : List Exchange} {o : Stmt} {r : Except Err o.Reply}
    (h : (Course.running log).next o r = .running log') :
    o ≠ .commit ∧ o ≠ .rollback ∧ log' = log ++ [⟨o, r⟩] := by
  have hcommit : o ≠ .commit := by
    rintro rfl
    cases r <;> cases h
  have hrollback : o ≠ .rollback := by
    rintro rfl
    cases h
  rw [Course.next_running r hcommit hrollback] at h
  cases h
  exact ⟨hcommit, hrollback, rfl⟩

theorem Course.next_eq_committed {log log' : List Exchange} {o : Stmt} {r : Except Err o.Reply}
    (h : (Course.running log).next o r = .committed log') : o = .commit ∧ r.isOk = true ∧ log' = log := by
  by_cases hcommit : o = .commit
  · subst hcommit
    cases r with
    | error e => cases h
    | ok v =>
      cases h
      exact ⟨rfl, rfl, rfl⟩
  · by_cases hrollback : o = .rollback
    · subst hrollback
      cases h
    · rw [Course.next_running r hcommit hrollback] at h
      cases h

/-- A statement of an open transaction is one more exchange of its own, and no other transaction's exchanges are
undone by it: what it locks was free, and what it commits it had locked. -/
theorem Serialized.told_served {w₀ w : World} {tr : List (Step TxState TxEvent)} {c : TxState} {gs : List Course}
    {i : Nat} {log : List Exchange} {o : Stmt} {reply : Except Err o.Reply} (h : Serialized w₀ tr c gs)
    (hg : gs[i]? = some (.running log)) (hs : World.Served i c.world o reply w) (ho : o.isTransactional = true)
    (j : Nat) (log' : List Exchange)
    (hj : (gs.set i ((Course.running log).next o reply))[j]? = some (.running log')) :
    (∀ y ∈ log', Exchange.Holds j w y) ∧ w.tx j = buffered log' := by
  rcases Platform.getElem?_set_cases hj with ⟨rfl, hnext⟩ | ⟨hij, hj⟩
  · obtain ⟨hlog, htx⟩ := h.told j log hg
    obtain ⟨hcommit, hrollback, rfl⟩ := Course.next_eq_running hnext.symm
    have hspares : c.world.Spares j w := .served h.guarded hs ho fun _ => ⟨hcommit, hrollback⟩
    refine ⟨fun y hy => ?_, ?_⟩
    · rcases List.mem_append.mp hy with hy | hy
      · exact (hlog y hy).spared hspares
      · obtain rfl := List.mem_singleton.mp hy
        exact Exchange.holds_served hs ho
    · rw [World.tx_served hs ho hcommit hrollback, htx, buffered_concat]
  · obtain ⟨hlog', htx'⟩ := h.told j log' hj
    have hspares : c.world.Spares j w := .served h.guarded hs ho fun heq => absurd heq hij
    exact ⟨fun y hy => (hlog' y hy).spared hspares, (World.tx_served_other hs hij).trans htx'⟩

section

variable {w₀ w : World} {tr : List (Step TxState TxEvent)} {c : TxState} {gs : List Course} {i : Nat} {tx : WalletTx}
  {log : List Exchange} {x : Choice}

/-- Who has answered is not touched by the others. -/
theorem done_of_set {prog prog' : Service Response} {crashed : Bool} {j : Nat} {tx' : WalletTx} {a : Response}
    (hi : c.calls[i]? = some ⟨tx, prog, false⟩) (hprog : ∀ a, prog ≠ .done a)
    (hj : c.calls[j]? = some ⟨tx', .done a, false⟩) :
    (c.calls.set i ⟨tx, prog', crashed⟩)[j]? = some ⟨tx', .done a, false⟩ := by
  refine (List.getElem?_set_ne ?_).trans hj
  rintro rfl
  cases hi.symm.trans hj
  exact hprog a rfl

theorem Serialized.beyond_served (h : Serialized w₀ tr c gs) {o : Stmt} {reply : Except Err o.Reply}
    {call : Call sql Err Response WalletTx} {call' : Call sql Err Response WalletTx}
    (hi : c.calls[i]? = some call) (hs : World.Served i c.world o reply w) {j : Nat}
    (hj : (c.calls.set i call').length ≤ j) : w.tx j = .empty := by
  have hlt := (List.getElem?_eq_some_iff.mp hi).1
  rw [List.length_set] at hj
  exact (World.tx_served_other hs (by omega)).trans (h.beyond j hj)

/-- A commit adds its transaction to the serial run. -/
theorem Serialized.commit_exec (h : Serialized w₀ tr c gs) {k : Except Err Stmt.commit.Reply → Service Response}
    {v : Stmt.commit.Reply}
    (hissues : Platform.Issues transactions txCourses c gs i tx Stmt.commit k (.running log) x (.ok v) w) :
    Serialized w₀ (tr ++ [⟨c, .exec i x, ⟨w, c.calls.set i ⟨tx, k (.ok v), false⟩⟩⟩])
      ⟨w, c.calls.set i ⟨tx, k (.ok v), false⟩⟩ (gs.set i (.committed log)) := by
  have hs := World.Served.of_exec hissues.exec
  have hkeeps := hissues.aligned.keeps i _ _ hissues.call hissues.stage rfl
  have hafter : (k (.ok v)).Keeps courses.discipline (Course.Ends tx.program) (.committed log) :=
    hkeeps.2 (.ok v) _ ⟨rfl, trivial⟩
  have htold := h.told_served hissues.stage hs rfl
  have hlt := (List.getElem?_eq_some_iff.mp hissues.call).1
  cases hk : k (.ok v) with
  | call o' k' =>
    rw [hk] at hafter
    cases hafter.1
  | fail e =>
    rw [hk] at hafter
    exact absurd rfl (hafter log)
  | done a =>
    rw [hk] at hafter
    obtain ⟨log', hcourse, hreplays⟩ := hafter
    cases hcourse
    have hworld : w = c.world.commit i := by
      cases hs with
      | read _ _ answer => cases answer
      | committed => rfl
    subst hworld
    -- the exchanges all hold of the world it commits in, so they replay on the serial world with the same rows
    obtain ⟨hlog, htx⟩ := h.told i log hissues.stage
    obtain ⟨v₀, hserial, hidle, hwallets, hledger⟩ := h.serial
    obtain ⟨v', halone, hidle', hrows'⟩ := hreplays i c.world hlog htx v₀ hidle hwallets hledger
    have hstep := commitOf?_commit (x := x) (w := c.world.commit i) hissues.call hk
    rw [hk] at hstep
    refine h.committing hstep (h.guarded.served hs rfl) htold (fun j hj => h.beyond_served hissues.call hs hj)
      ⟨v', hserial.snoc halone, hidle', hrows'⟩ (fun j tx' a' hj => done_of_set hissues.call (by rintro _ ⟨⟩) hj)
      (List.getElem?_set_self hlt) fun j log' hj => ?_
    rcases Platform.getElem?_set_cases hj with ⟨rfl, -⟩ | ⟨-, hj⟩
    · exact Or.inl rfl
    · exact Or.inr hj

/-- No other statement adds anything. -/
theorem Serialized.other_exec (h : Serialized w₀ tr c gs) {o : Stmt} {k : Except Err o.Reply → Service Response}
    {reply : Except Err o.Reply} (ho : o.isTransactional = true) (hno : o ≠ .commit ∨ reply.isOk = false)
    (hissues : Platform.Issues transactions txCourses c gs i tx o k (.running log) x reply w) :
    Serialized w₀ (tr ++ [⟨c, .exec i x, ⟨w, c.calls.set i ⟨tx, k reply, false⟩⟩⟩])
      ⟨w, c.calls.set i ⟨tx, k reply, false⟩⟩ (gs.set i ((Course.running log).next o reply)) := by
  have hs := World.Served.of_exec hissues.exec
  have hkeeps := hissues.aligned.keeps i _ _ hissues.call hissues.stage rfl
  have hafter : (k reply).Keeps courses.discipline (Course.Ends tx.program) ((Course.running log).next o reply) :=
    hkeeps.2 reply _ ⟨rfl, trivial⟩
  have hnone : o ≠ .commit ∨ ∀ a, k reply ≠ .done a := by
    by_cases hcommit : o = .commit
    · subst hcommit
      cases reply with
      | ok v => exact absurd rfl (hno.resolve_right (by rintro ⟨⟩))
      | error e =>
        refine Or.inr fun a hdone => ?_
        rw [hdone] at hafter
        obtain ⟨_, hcourse, -⟩ := hafter
        cases hcourse
    · exact Or.inl hcommit
  refine h.uncommitted (commitOf?_other hissues.call hnone) (h.guarded.served hs ho)
    (h.told_served hissues.stage hs ho) (fun j hj => h.beyond_served hissues.call hs hj)
    (World.rows_uncommitted hs ho hno) (fun j tx' a hj => done_of_set hissues.call (by rintro _ ⟨⟩) hj)
    fun j log' hj => ?_
  rcases Platform.getElem?_set_cases hj with ⟨rfl, hnext⟩ | ⟨-, hj⟩
  · obtain ⟨hcommit, hok, -⟩ := Course.next_eq_committed hnext.symm
    rcases hno with hno | hno
    · exact absurd hcommit hno
    · rw [hok] at hno
      cases hno
  · exact hj

end

theorem serialized_staged (w₀ : World) :
    Platform.Staged transactions txCourses (fun _ _ => True) (Serialized w₀) where
  arrive tr c gs tx hlen h _ := by
    refine h.uncommitted rfl h.guarded (fun i log hi => ?_) (fun i hi => h.beyond i ?_) ⟨rfl, rfl⟩
      (fun i tx a hi => ?_) fun i log hi => ?_
    · rcases Platform.getElem?_concat_cases hi with ⟨rfl, heq⟩ | hi
      · cases heq
        exact ⟨by simp, h.beyond gs.length hlen.ge⟩
      · exact h.told i log hi
    · simp only [Platform.arrive, List.length_append] at hi
      omega
    · exact (List.getElem?_append_left (List.getElem?_eq_some_iff.mp hi).1).trans hi
    · rcases Platform.getElem?_concat_cases hi with ⟨-, heq⟩ | hi
      · cases heq
      · exact hi
  exec tr c gs i tx o k g x reply w h _ hissues := by
    have hmay : Course.May g o := hissues.may
    cases hmay with
    | running log o ho =>
    -- only a commit that succeeds adds to the serial run
    by_cases hcommit : o = .commit
    · subst hcommit
      cases reply with
      | ok v => exact h.commit_exec hissues
      | error e => exact h.other_exec ho (Or.inr rfl) hissues
    · exact h.other_exec ho (Or.inl hcommit) hissues
  crash tr c gs i tx o k g hlen h _ hi hg := by
    refine h.uncommitted rfl (h.guarded.release i) (fun j log hj => ?_) (fun j hj => ?_) ⟨rfl, rfl⟩
      (fun j tx' a hj => ?_) fun j log hj => ?_
    · rcases Platform.getElem?_set_cases hj with ⟨-, heq⟩ | ⟨hij, hj⟩
      · cases heq
      · -- a crash gives back the locks of `i` alone
        obtain ⟨hlog, htx⟩ := h.told j log hj
        exact ⟨fun y hy => (hlog y hy).spared (.release hij), (World.release_tx_other _ hij).trans htx⟩
    · have hlt := (List.getElem?_eq_some_iff.mp hi).1
      rw [List.length_set] at hj
      exact (World.release_tx_other _ (by omega)).trans (h.beyond j hj)
    · exact done_of_set hi (by rintro _ ⟨⟩) hj
    · rcases Platform.getElem?_set_cases hj with ⟨-, heq⟩ | ⟨-, hj⟩
      · cases heq
      · exact hj
  env tr c gs e w hlen h _ he := by
    have hsame := World.env_same he
    refine h.uncommitted rfl ⟨?_, ?_⟩ (fun j log hj => ?_) (fun j hj => ?_) ⟨hsame.wallets, hsame.ledger⟩
      (fun _ _ _ hj => hj) fun _ _ hj => hj
    · simpa only [hsame.tx, hsame.holder] using h.guarded.writes
    · simpa only [hsame.tx, hsame.holder] using h.guarded.entries
    · obtain ⟨hlog, htx⟩ := h.told j log hj
      have hspares : c.world.Spares j w :=
        .of_bank (fun id hid => by rw [hsame.holder]; exact hid) hsame.wallets hsame.ledger
      exact ⟨fun y hy => (hlog y hy).spared hspares, (congrFun hsame.tx j).trans htx⟩
    · exact (congrFun hsame.tx j).trans (h.beyond j hj)

/-- **The wallet is serializable.** Whatever the order of the steps, whatever fails and whoever dies: the rows are
those the committed transactions leave that run one after another, by themselves, in the order of their commits, and
each of them has answered what it answers there. Nothing is left of the others. -/
theorem serializable {w₀ : World} (hidle : w₀.Idle) {tr : List (Step TxState TxEvent)} {c : TxState}
    (hrun : Run transactions.step (fun _ _ => True) ⟨w₀, []⟩ tr c) :
    (∃ w, Serially w₀ (commits tr) w ∧ w.wallets = c.world.wallets ∧ w.ledger = c.world.ledger) ∧
      ∀ i tx a, (i, tx, a) ∈ commits tr ↔
        ∃ call, c.calls[i]? = some call ∧ call.request = tx ∧ call.result? = some (.ok a) := by
  obtain ⟨gs, h, ha⟩ := (serialized_staged w₀).sound txCourses_follows (.initial hidle) .nil hrun
  obtain ⟨w, hserial, -, hwallets, hledger⟩ := h.serial
  refine ⟨⟨w, hserial, hwallets, hledger⟩, fun i tx a => ⟨fun hmem => ?_, ?_⟩⟩
  · exact ⟨_, h.answered i tx a hmem, rfl, rfl⟩
  · rintro ⟨call, hi, rfl, hresult⟩
    obtain ⟨g, hg⟩ := ha.books hi
    obtain ⟨hlive, hprog⟩ := Call.result?_eq_some hresult
    have hkeeps := ha.keeps i call g hi hg hlive
    rw [hprog, Prog.keeps_ended] at hkeeps
    obtain ⟨log, rfl, -⟩ := hkeeps
    obtain ⟨tx', a', hmem⟩ := h.committed i log hg
    have hcall := hi.symm.trans (h.answered i tx' a' hmem)
    cases hcall
    cases hprog
    exact hmem

section

open Sample

/-- Alice has ten units of money, and Bob a wallet. -/
def twoWallets : World :=
  { World.initial with wallets := [⟨aliceWallet, alice, ten, 1⟩, ⟨bobWallet, bob, Money.zero, 0⟩] }

/-- Alice is paid while she pays Bob: her wallet is looked up for the deposit before it is locked for the transfer, and
locked for the deposit when the transfer has committed. -/
def paidBetween : List TxEvent :=
  [.arrive (.transfer alice toBob), .arrive (.deposit alice ⟨300, toAlice.isPositive⟩ "wages")] ++
    List.replicate 3 (.exec 0 .ok) ++ [.exec 1 .ok] ++ List.replicate 7 (.exec 0 .ok) ++ List.replicate 4 (.exec 1 .ok)

/-- Where that leads. -/
def afterBetween : TxState := (execute transactions.step ⟨twoWallets, []⟩ paidBetween).getD ⟨twoWallets, []⟩

set_option maxRecDepth 8000 in
theorem serializable_paidBetween :
    (commits (record transactions.step ⟨twoWallets, []⟩ paidBetween)).map Prod.fst = [0, 1] ∧
      ∃ w, Serially twoWallets (commits (record transactions.step ⟨twoWallets, []⟩ paidBetween)) w ∧
        w.wallets = afterBetween.world.wallets ∧ w.ledger = afterBetween.world.ledger := by
  obtain ⟨c, hc⟩ := Option.isSome_iff_exists.mp (show (executeChecked transactions.step (fun _ _ => true)
    ⟨twoWallets, []⟩ paidBetween).isSome = true by decide)
  have hafter : afterBetween = c := by simp [afterBetween, execute_of_executeChecked hc]
  have hrun : Run transactions.step (fun _ _ => True) _ _ c := (Run.of_executeChecked hc).mono fun _ _ _ => trivial
  exact ⟨by decide, hafter ▸ (serializable ⟨fun _ => rfl, fun _ => rfl⟩ hrun).1⟩

end

end FlashWallet
