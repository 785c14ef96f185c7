import FlashWallet.Proof.Transfers
import FlashWallet.Proof.Debits
import FlashWallet.Proof.Audit
import FlashWallet.Proof.References
import FlashWallet.Proof.Runs

/-!
# What a repeated transfer is told

A transfer that finds its key used is answered from Redis or from the ledger. From Redis it is the
answer given at the time, which said `replayed: false`; from the ledger it is an answer rebuilt without
the recipient's balance, and with the recipient the repeated request names. What is rebuilt is cached
in turn. `Marked` is what all of them have in common, and no faithful answer is marked.
-/

set_option autoImplicit false

namespace FlashWallet

open Lib

/-- The entries of the transfer that was made, in one commit, by `userId` under `key`. -/
structure Original (tr : Trace) (c : State) (userId : Uuid) (key : String) (out inn : LedgerEntry) :
    Prop where
  committed : ∃ s ∈ tr, entriesOf s = [out, inn]
  owns : c.world.Owns out.walletId userId
  type : out.type = .TRANSFER_OUT
  referenceId : out.referenceId = key

/-- Call `i`, a transfer, has been answered `v` and has moved no money. -/
structure Repeated (tr : Trace) (c : State) (i : Nat) (userId : Uuid) (dto : TransferDto)
    (v : TransferResult) : Prop where
  answered : ∃ call, c.calls[i]? = some call ∧ call.request = .transfer userId dto ∧
    call.result? = some (.ok (.transferred v))
  idle : booked (byCall i) tr = []

/-- The answer is the one of the transfer that booked `out` and `inn`, and says that it is a repeat. -/
structure TransferResult.Faithful (v : TransferResult) (out inn : LedgerEntry) : Prop where
  fromWalletId : v.fromWalletId = out.walletId
  toWalletId : v.toWalletId = inn.walletId
  amount : v.amount = -out.amount.cents
  fromBalance : v.fromBalance = out.balanceAfter.cents
  toBalance : v.toBalance = some inn.balanceAfter.cents
  referenceId : v.referenceId = out.referenceId
  replayed : v.replayed = true

/-! ## Every answer is marked -/

/-- The first answer does not call itself a repeat, a rebuilt one lacks the recipient's balance. -/
def TransferResult.Marked (v : TransferResult) : Prop := v.replayed = false ∨ v.toBalance = none

theorem TransferResult.Marked.not_faithful {v : TransferResult} (h : v.Marked) (out inn : LedgerEntry) :
    ¬ v.Faithful out inn := by
  intro hv
  rcases h with h | h
  · rw [hv.replayed] at h
    cases h
  · rw [hv.toBalance] at h
    cases h

/-- The answer a transfer has in hand is marked. -/
def Transit.Marked : Transit → Prop
  | .ready v | .made v | .answered v => v.Marked
  | _ => True

/-- A statement's reply keeps the mark, if what Redis answers has it. -/
theorem Transit.Marked.next {userId : Uuid} {dto : TransferDto} {t : Transit} {o : Stmt}
    {r : Except Err o.Reply} (h : t.Marked) (may : May userId dto t o)
    (hcached : ∀ key v, (⟨o, r⟩ : (o : Stmt) × Except Err o.Reply) = ⟨.redisGet key, .ok (some v)⟩ →
      v.Marked) : (t.next dto o r).Marked := by
  cases may with
  | look other =>
    rcases r with _ | _ | v
    · trivial
    · trivial
    · exact hcached _ v rfl
  | findSender | lockFirst => rcases r with _ | _ | _ <;> trivial
  | findRecipient sender => cases sender <;> rcases r with _ | _ | _ <;> trivial
  | findDebit =>
    rcases r with _ | _ | existingOut
    · trivial
    · trivial
    · exact Or.inr rfl
  | lockSecond => rcases r with _ | _ | _ <;> trivial
  | refuse | debit | credit | bookOut | rollback => cases r <;> trivial
  | bookIn =>
    cases r with
    | error e => trivial
    | ok e => exact Or.inl rfl
  | commit v =>
    cases r with
    | error e => trivial
    | ok _ => exact h
  | save v =>
    cases r with
    | error e => trivial
    | ok _ => exact h

/-- The transit of an errand, and whatever is cached, is marked. -/
structure AllMarked (c : State) (es : List Errand) : Prop where
  errands : Platform.Matched (fun _ call e => e.transfer? = call.request.transfer? ∧
    ∀ userId dto t, e = .sending userId dto t → t.Marked) c.calls es
  cache : ∀ key v, c.world.cache key = some v → v.Marked

theorem allMarked_bookkeeping (ok : State → Event → Prop) :
    Platform.Bookkeeping system transferring transferringAnswer Errand.start (fun _ => AllMarked) ok
      State.initial where
  handlers _ r _ := handler_transits r
  arrive tr c es r hrun hlen h _ := by
    refine ⟨h.errands.arrive hlen ⟨transfer?_start r, fun userId dto t he => ?_⟩, h.cache⟩
    cases r with
    | transfer => cases he; trivial
    | _ => cases he
  exec tr c es i r o k e x reply w _ _ h _ hi he hpre hexec := by
    have hs := World.Served.of_exec hexec
    obtain ⟨hasked, hmarked⟩ := h.errands i _ e hi he
    refine ⟨e.next o reply, ⟨rfl, hs.answers⟩, h.errands.set (fun _ _ _ _ hq => hq)
      ⟨(transfer?_next e o reply).trans hasked, fun userId dto t' heq => ?_⟩, fun key v hv => ?_⟩
    · cases e with
      | other => cases heq
      | sending u d t =>
        cases heq
        refine (hmarked _ _ t rfl).next hpre fun key v hlook => ?_
        cases hlook
        generalize hr : (Except.ok (some v) : Except Err (Option TransferResult)) = r at hs
        cases hs with
        | read _ _ answer =>
          cases hr
          exact h.cache key v (Option.some.inj answer)
    · rcases World.cache_served hs hv with hv | rfl
      · exact h.cache key v hv
      · cases e with
        | other => exact hpre.elim
        | sending u d t =>
          cases (hpre : Transit.May u d t _) with
          | save => exact hmarked u d _ rfl
  crash tr c es i r o k e _ _ h _ hi he :=
    have hmarked := h.errands i _ e hi he
    ⟨e, h.errands.set (fun _ _ _ _ hq => hq) ⟨hmarked.1, hmarked.2⟩, h.cache⟩
  env tr c es en w _ _ h _ he :=
    ⟨h.errands, fun key v hv => h.cache key v (World.cache_env he hv)⟩

/-- **Every answer is marked**, in every run. -/
theorem marked_of_run {ok : State → Event → Prop} {tr : Trace} {c : State}
    (hrun : RunFrom State.initial ok tr c) {i : Nat} {call : ServiceCall} {userId : Uuid}
    {dto : TransferDto} {v : TransferResult} (hi : c.calls[i]? = some call)
    (hreq : call.request = .transfer userId dto) (hv : call.result? = some (.ok (.transferred v))) :
    v.Marked := by
  obtain ⟨es, hmarked, ha⟩ := (allMarked_bookkeeping ok).sound
    ⟨.nil, fun _ _ h => by cases h⟩ .nil hrun
  obtain ⟨e, he⟩ := ha.books hi
  obtain ⟨hasked, hmark⟩ := hmarked.errands i call e hi he
  rw [hreq] at hasked
  obtain ⟨t, rfl⟩ := Errand.of_transfer hasked
  obtain ⟨r', hend, hr⟩ := ha.outcome hi he hv
  cases hend with
  | toSelf | refused => cases hr
  | answered result =>
    cases hr
    exact hmark userId dto _ rfl

/-! ## The transfer that was made -/

/-- An outgoing entry is posted together with one incoming entry. -/
theorem Request.Posts.outgoing {req : Request} {owns : Uuid → Uuid → Prop} {price : Uuid → Money → Prop}
    {es : List LedgerEntry} (h : req.Posts owns price es) {out : LedgerEntry} (hout : out ∈ es)
    (htype : out.type = .TRANSFER_OUT) : ∃ inn, es = [out, inn] := by
  rcases h with rfl | h
  · cases hout
  cases req with
  | provisionWallet | createEvent => exact h.elim
  | deposit | purchaseDeduct =>
    obtain ⟨e, rfl, he, -⟩ := h
    rw [List.mem_singleton.mp hout, he] at htype
    cases htype
  | purchase =>
    obtain ⟨e, p, rfl, he, -⟩ := h
    rw [List.mem_singleton.mp hout, he] at htype
    cases htype
  | transfer =>
    obtain ⟨out', inn, rfl, -, -, -, -, hinn, -⟩ := h
    rcases List.mem_pair.mp hout with rfl | rfl
    · exact ⟨inn, rfl⟩
    · rw [hinn] at htype
      cases htype

/-- An answer is about a transfer that was made. -/
theorem original_of_answer {tr : Trace} {c : State} (hrun : RunFrom State.initial anyStep tr c)
    {i : Nat} {call : ServiceCall} {userId : Uuid} {dto : TransferDto} {v : TransferResult}
    (hi : c.calls[i]? = some call) (hreq : call.request = .transfer userId dto)
    (hv : call.result? = some (.ok (.transferred v))) :
    ∃ out inn, Original tr c userId dto.idempotencyKey out inn := by
  obtain ⟨bs, hkept, ha⟩ := kept_of_run hrun
  obtain ⟨b, hb⟩ := ha.books hi
  have hbook := hkept.books i _ b hi hb
  have hknows : b.KnowsTransfer userId dto.idempotencyKey v := by
    have hanswer := (ha.outcome hi hb hv).2
    rwa [hreq] at hanswer
  obtain ⟨u, k, hkey, out, hout, hreports, href, howns⟩ := hbook.books.knowsTransfer hknows
  obtain ⟨rfl, rfl⟩ := WalletService.idemKey_inj hkey
  -- the entry came into the ledger in a step, and that step was the commit of a transfer
  have hbooked : out ∈ booked (fun _ => true) tr := by
    have hledger := ledger_eq_booked initial_reachable hrun
    rw [show State.initial.world.ledger = [] from rfl, List.nil_append] at hledger
    exact hledger ▸ hout
  obtain ⟨s, hs, -, j, x, call', -, -, hmem, hposts⟩ := mem_booked initial_reachable hrun hbooked
  obtain ⟨inn, hpair⟩ := hposts.outgoing hmem hreports.type
  exact ⟨out, inn, ⟨s, hs, hpair⟩, howns, hreports.type, href⟩

/-- **No repeat is told what happened.** In every run, a transfer that is answered without moving money
is about one that was made, and its answer is not that one's with `replayed` set. -/
theorem replay_unfaithful {tr : Trace} {c : State} (hrun : RunFrom State.initial anyStep tr c)
    {i : Nat} {userId : Uuid} {dto : TransferDto} {v : TransferResult}
    (h : Repeated tr c i userId dto v) :
    (∃ out inn, Original tr c userId dto.idempotencyKey out inn) ∧
      ∀ out inn, Original tr c userId dto.idempotencyKey out inn → ¬ v.Faithful out inn := by
  obtain ⟨call, hi, hreq, hv⟩ := h.answered
  have hmarked := marked_of_run hrun hi hreq hv
  exact ⟨original_of_answer hrun hi hreq hv, fun out inn _ => hmarked.not_faithful out inn⟩

section

open Sample

/-- Alice has paid Bob her rent: half of what she had. -/
def rentToBob : List Event :=
  register 0 alice aliceWallet ++ register 1 bob bobWallet ++ register 2 carol carolWallet ++
    fund 3 alice id₁ ++ [.arrive (.transfer alice toBob)] ++ runs 4 12

/-- She repeats it while Redis remembers. -/
def rentRepeated : List Event :=
  rentToBob ++ [.arrive (.transfer alice toBob), .exec 5 .ok]

/-- Redis has forgotten, and she repeats the key with another recipient and another amount. -/
def rentToCarol : List Event :=
  rentToBob ++ [.env (.evict (WalletService.idemKey alice "rent")),
    .arrive (.transfer alice ⟨carol, 300, toAlice.isPositive, "rent", toBob.isNotEmpty⟩)] ++ runs 5 6

/-- What she paid with, and what Bob got. -/
def rentDebit : LedgerEntry := ⟨aliceWallet, .TRANSFER_OUT, debitOfFive, five, "rent", 0⟩
def rentCredit : LedgerEntry := ⟨bobWallet, .TRANSFER_IN, five, five, "rent", 0⟩

/-- The answer names Carol's wallet, and no balance. -/
def toldCarol : TransferResult := ⟨aliceWallet, carolWallet, 500, 500, none, "rent", true⟩

set_option maxRecDepth 8000 in
theorem unfaithful_rentToCarol :
    RunFrom State.initial anyStep (traceAfter State.initial rentToCarol)
        (stateAfter State.initial rentToCarol) ∧
      Repeated (traceAfter State.initial rentToCarol) (stateAfter State.initial rentToCarol) 5 alice
        ⟨carol, 300, by decide, "rent", by decide⟩ toldCarol ∧
      Original (traceAfter State.initial rentToCarol) (stateAfter State.initial rentToCarol) alice "rent"
        rentDebit rentCredit ∧
      ¬ toldCarol.Faithful rentDebit rentCredit := by
  refine ⟨anyRun_stateAfter _ (by decide), ⟨?_, by decide⟩, ⟨by decide, by decide, rfl, rfl⟩, ?_⟩
  · have hanswer : (stateAfter State.initial rentToCarol).calls[5]?.map
        (fun call => (call.request, call.result?)) =
        some (.transfer alice ⟨carol, 300, by decide, "rent", by decide⟩,
          some (.ok (.transferred toldCarol))) := by decide
    obtain ⟨call, hcall, heq⟩ := Option.map_eq_some_iff.mp hanswer
    exact ⟨call, hcall, congrArg Prod.fst heq, congrArg Prod.snd heq⟩
  · intro h
    exact absurd h.toWalletId (by decide)

/-- The answer is the one given at the time. -/
def toldAgain : TransferResult := ⟨aliceWallet, bobWallet, 500, 500, some 500, "rent", false⟩

set_option maxRecDepth 8000 in
theorem replay_unfaithful_rentRepeated :
    Repeated (traceAfter State.initial rentRepeated) (stateAfter State.initial rentRepeated) 5 alice
        ⟨bob, 500, by decide, "rent", by decide⟩ toldAgain ∧
      ¬ toldAgain.Faithful rentDebit rentCredit := by
  have hanswer : (stateAfter State.initial rentRepeated).calls[5]?.map
      (fun call => (call.request, call.result?)) =
      some (.transfer alice ⟨bob, 500, by decide, "rent", by decide⟩,
        some (.ok (.transferred toldAgain))) := by decide
  obtain ⟨call, hcall, heq⟩ := Option.map_eq_some_iff.mp hanswer
  have hrepeated : Repeated (traceAfter State.initial rentRepeated) (stateAfter State.initial rentRepeated)
      5 alice ⟨bob, 500, by decide, "rent", by decide⟩ toldAgain :=
    ⟨⟨call, hcall, congrArg Prod.fst heq, congrArg Prod.snd heq⟩, by decide⟩
  refine ⟨hrepeated, (replay_unfaithful (anyRun_stateAfter _ (by decide)) hrepeated).2 _ _ ?_⟩
  exact ⟨by decide, by decide, rfl, rfl⟩

end

end FlashWallet
