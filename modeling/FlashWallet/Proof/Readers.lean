import FlashWallet.Model.WalletReads
import FlashWallet.Proof.Runs

/-!
# Readers beside the system

A reader changes nothing, so that what is known of one call is a matter of its own answers and of what the
system does meanwhile. `Reads` is what has to be shown of such a fact, and `reads_of_run` that it then holds of
every call of every run.
-/

set_option autoImplicit false

namespace FlashWallet.Read

open Lib

/-- The system has come to this state. -/
abbrev Reached (st : FlashWallet.State) : Prop := Reachable anyStep st

/-- `J` is about a request and what is left of its handler: true at the start, and kept by each answer, by each
step of the system, and by what other readers do. -/
structure Reads (prisma : Prisma) (ok : State → ReadEvent → Prop)
    (J : Trace → FlashWallet.State → Request → Reader Response → Prop) : Prop where
  arrive : ∀ tr st r, J tr st r r.handler
  exec : ∀ (tr : Trace) (c : State) (i : Nat) (r : Request) (q : Query)
    (k : Except Err q.Reply → Reader Response) (x : Choice) (reply : Except Err q.Reply), Reached c.world →
    ok c (.exec i x) → c.calls[i]? = some ⟨r, .call q k, false⟩ → J tr c.world r (.call q k) →
    answer prisma c.world.world q x = some reply →
    J (tr ++ [⟨c, .exec i x, ⟨c.world, c.calls.set i ⟨r, k reply, false⟩⟩⟩]) c.world r (k reply)
  env : ∀ (tr : Trace) (c : State) (e : Event) (st : FlashWallet.State) (i : Nat) (r : Request)
    (p : Reader Response), ok c (.env e) → c.calls[i]? = some ⟨r, p, false⟩ → J tr c.world r p →
    system.step c.world e = some st → J tr st r p
  mono : ∀ tr s st r p, J tr st r p → J (tr ++ [s]) st r p

variable {prisma : Prisma} {ok : State → ReadEvent → Prop}
  {J : Trace → FlashWallet.State → Request → Reader Response → Prop}

theorem reads_of_run (h : Reads prisma ok J) {tr : Trace} {c : State} (hrun : RunFrom prisma State.initial ok tr c) :
    Reached c.world ∧
      ∀ (i : Nat) (r : Request) (p : Reader Response), c.calls[i]? = some ⟨r, p, false⟩ → J tr c.world r p := by
  induction hrun with
  | nil => exact ⟨⟨[], .nil⟩, fun _ _ _ hi => nomatch hi⟩
  | @snoc tr c c' l run allowed next ih =>
    obtain ⟨hreached, hcalls⟩ := ih
    cases l with
    | arrive r =>
      obtain rfl := Option.some.inj next
      refine ⟨hreached, fun i r' p hi => ?_⟩
      rcases Platform.getElem?_concat_cases hi with ⟨rfl, heq⟩ | hi
      · cases heq
        exact h.arrive _ _ _
      · exact h.mono _ _ _ _ _ (hcalls i r' p hi)
    | exec j x =>
      obtain ⟨r, q, k, reply, w, hj, hexec, rfl⟩ := (readers prisma).step_exec next
      obtain ⟨_, hanswer, hpair⟩ := Option.map_eq_some_iff.mp hexec
      cases hpair
      refine ⟨hreached, fun i r' p hi => ?_⟩
      rcases Platform.getElem?_set_cases hi with ⟨rfl, heq⟩ | ⟨-, hi⟩
      · cases heq
        exact h.exec _ _ _ _ _ _ _ _ hreached allowed hj (hcalls _ _ _ hj) hanswer
      · exact h.mono _ _ _ _ _ (hcalls i r' p hi)
    | crash j =>
      obtain ⟨r, q, k, hj, rfl⟩ := (readers prisma).step_crash next
      refine ⟨hreached, fun i r' p hi => ?_⟩
      rcases Platform.getElem?_set_cases hi with ⟨-, heq⟩ | ⟨-, hi⟩
      · cases heq
      · exact h.mono _ _ _ _ _ (hcalls i r' p hi)
    | env e =>
      obtain ⟨st, hst, rfl⟩ := (readers prisma).step_env next
      have hst : system.step c.world e = some st := hst
      obtain ⟨tr', hrun'⟩ := hreached
      refine ⟨⟨_, .snoc hrun' trivial hst⟩, fun i r' p hi => ?_⟩
      exact h.mono _ _ _ _ _ (h.env _ _ _ _ _ _ _ allowed hi (hcalls i r' p hi) hst)

theorem reached_of_run {tr : Trace} {c : State} (hrun : RunFrom prisma State.initial ok tr c) : Reached c.world :=
  (reads_of_run ⟨fun _ _ _ => trivial, fun _ _ _ _ _ _ _ _ _ _ _ _ _ => trivial, fun _ _ _ _ _ _ _ _ _ _ _ => trivial,
    fun _ _ _ _ _ _ => trivial⟩ hrun).1

/-- A step of the system leaves the wallet as it is. -/
def leaves (st : FlashWallet.State) (e : Event) (walletId : Uuid) : Bool :=
  match system.step st e with
  | some st' => st.world.wallets.all fun row => row.id ≠ walletId || row ∈ st'.world.wallets
  | none => true

/-- An answer that has been given, of a call that has not been cut off. -/
theorem answered_of_result {c : State} {i : Nat} {call : Lib.Call queries Err Response Request}
    {r : Except Err Response}
    (hi : c.calls[i]? = some call) (hr : call.result? = some r) :
    c.calls[i]? = some ⟨call.request, .ended r, false⟩ := by
  obtain ⟨hlive, hprog⟩ := Call.result?_eq_some hr
  rw [hi]
  cases call
  cases hlive
  cases hprog
  rfl

/-! ## What a query can be answered -/

section

variable {w : World} {x : Choice}

@[simp] theorem Number.take_ofNat {α : Type} (n : Nat) (rows : List α) :
    (Number.int n).take rows = .ok (rows.take n) := by
  rw [Number.take, if_pos (Int.natCast_nonneg n), Int.toNat_natCast]

theorem answer_walletFindUnique {userId : Uuid} {reply : Except Err (Option Wallet)}
    (h : answer prisma w (.walletFindUnique userId) x = some reply) :
    x = .fault ∧ reply = .error .unavailable ∨ reply = .ok (w.walletOf? userId) := by
  cases x with
  | ok =>
    cases h
    exact Or.inr rfl
  | fault =>
    cases h
    exact Or.inl ⟨rfl, rfl⟩
  | rows | selected | refused | wallets | next => cases h

theorem answer_walletFindUniqueOrThrow {id : Uuid} {reply : Except Err Wallet}
    (h : answer prisma w (.walletFindUniqueOrThrow id) x = some reply) :
    (∃ e, reply = .error e) ∨ ∃ row, row ∈ w.wallets ∧ reply = .ok row := by
  cases x with
  | ok =>
    simp only [answer] at h
    split at h
    · rename_i row hrow
      exact Or.inr ⟨row, (World.wallet?_eq_some hrow).1, (Option.some.inj h).symm⟩
    · exact Or.inl ⟨_, (Option.some.inj h).symm⟩
  | fault =>
    cases h
    exact Or.inl ⟨_, rfl⟩
  | rows | selected | refused | wallets | next => cases h

theorem answer_walletFindMany {reply : Except Err (List Wallet)} (h : answer prisma w .walletFindMany x = some reply) :
    x = .fault ∧ reply = .error .unavailable ∨ ∃ rows, rows.Perm w.wallets ∧ reply = .ok rows := by
  cases x with
  | wallets rows =>
    change (if rows.Perm w.wallets then some (.ok rows) else none) = some reply at h
    split at h
    · rename_i hrows
      exact Or.inr ⟨rows, hrows, (Option.some.inj h).symm⟩
    · cases h
  | fault =>
    cases h
    exact Or.inl ⟨rfl, rfl⟩
  | ok | rows | selected | refused | next => cases h

theorem answer_ledgerEntryFindMany {walletId : Uuid} {take : Number} {reply : Except Err (List LedgerEntry)}
    (h : answer prisma w (.ledgerEntryFindMany walletId take) x = some reply) :
    x = .fault ∧ reply = .error .unavailable ∨
      take.fits prisma = true ∧ (∃ all, IsDescending w walletId all ∧ reply = take.take all) ∨
      take.fits prisma = false ∧ (reply = .error .invalidArgument ∨ ∃ es, reply = .ok es) := by
  cases x with
  | rows all =>
    obtain ⟨⟨hfits, hall⟩, hreply⟩ := Option.ite_none_right_eq_some.mp h
    exact Or.inr (Or.inl ⟨hfits, all, hall, (Option.some.inj hreply).symm⟩)
  | selected es =>
    obtain ⟨⟨hfits, -⟩, hreply⟩ := Option.ite_none_right_eq_some.mp h
    exact Or.inr (Or.inr ⟨hfits, Or.inr ⟨es, (Option.some.inj hreply).symm⟩⟩)
  | refused =>
    obtain ⟨hfits, hreply⟩ := Option.ite_none_left_eq_some.mp h
    exact Or.inr (Or.inr ⟨Bool.eq_false_iff.mpr hfits, Or.inl (Option.some.inj hreply).symm⟩)
  | fault =>
    cases h
    exact Or.inl ⟨rfl, rfl⟩
  | ok | wallets | next => cases h

theorem answer_ledgerEntryAggregate {pending : List Wallet} {reply : Except Err (Wallet × Option Int)}
    (h : answer prisma w (.ledgerEntryAggregate pending) x = some reply) :
    x = .fault ∧ reply = .error .unavailable ∨
      ∃ wallet ∈ pending, reply = .ok (wallet, sum? (entriesOf w wallet.id)) := by
  cases x with
  | next wallet =>
    change (if wallet ∈ pending then some (.ok (wallet, sum? (entriesOf w wallet.id))) else none) = some reply at h
    split at h
    · rename_i hwallet
      exact Or.inr ⟨wallet, hwallet, (Option.some.inj h).symm⟩
    · cases h
  | fault =>
    cases h
    exact Or.inl ⟨rfl, rfl⟩
  | ok | rows | selected | refused | wallets => cases h

end

/-! ## Runs one can carry out -/

namespace Trial

/-- A Prisma that takes what 32 bits and a sign hold. -/
def wide : Prisma where
  takes n := n.natAbs < 2 ^ 32
  int32 hlow hhigh := decide_eq_true (by omega)
  safe h := (of_decide_eq_true h).trans (by decide)

/-- The labels are a run of readers, each step of it allowed. -/
def Allowed (ok : State → ReadEvent → Bool) (ls : List ReadEvent) : Bool :=
  (executeChecked (readers wide).step ok State.initial ls).isSome

def traceAfter (ls : List ReadEvent) : Trace := record (readers wide).step State.initial ls

def stateAfter (ls : List ReadEvent) : State := (execute (readers wide).step State.initial ls).getD State.initial

theorem run_stateAfter (ok : State → ReadEvent → Bool) (ls : List ReadEvent) (h : Allowed ok ls = true) :
    RunFrom wide State.initial (fun c l => ok c l = true) (traceAfter ls) (stateAfter ls) := by
  obtain ⟨c, hc⟩ := Option.isSome_iff_exists.mp h
  have hafter : stateAfter ls = c := by simp [stateAfter, execute_of_executeChecked hc]
  exact hafter ▸ Run.of_executeChecked hc

/-- What the system does. -/
def does (ls : List Event) : List ReadEvent := ls.map .env

/-- What the call is answered. -/
def answered (ls : List ReadEvent) : Option (Except Err Response) := (stateAfter ls).calls[0]?.bind Call.result?

theorem called (ls : List ReadEvent) (request : Request) (r : Except Err Response)
    (hr : answered ls = some r) (hreq : (stateAfter ls).calls[0]?.map (·.request) = some request) :
    ∃ call, (stateAfter ls).calls[0]? = some call ∧ call.request = request ∧ call.result? = some r := by
  obtain ⟨call, hcall, hr⟩ := Option.bind_eq_some_iff.mp hr
  rw [hcall] at hreq
  exact ⟨call, hcall, Option.some.inj hreq, hr⟩

end Trial

end FlashWallet.Read
