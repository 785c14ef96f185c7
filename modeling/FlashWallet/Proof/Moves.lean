import FlashWallet.Proof.Handlers

/-!
# What a step of a run can do to the bank

Custody is sound: in every run, whatever fails, dies or is forgotten, every call has true books
and what is left of it keeps the discipline (`kept_of_run`). Read off a single step, that is
`BankMove`: the step leaves wallets and ledger alone, opens an empty wallet, or is the commit of
a call whose request accounts for the voucher it posts. **The interleaved service refines the
bank** (`bank_refines`).
-/

set_option autoImplicit false

namespace FlashWallet

open Lib

/-- A call and its books. -/
structure CallKept (w : World) (i : Nat) (call : ServiceCall) (b : Books) : Prop where
  request : b.request = call.request
  books : b.True i w
  crashed : call.crashed = true → b.Idle

/-- How a configuration and the books of its calls hang together. -/
structure Kept (c : State) (bs : List Books) : Prop where
  bank : c.world.bank.Ok
  books : Platform.Matched (CallKept c.world) c.calls bs
  beyond : ∀ i, c.calls.length ≤ i → c.world.tx i = .empty ∧ ∀ id, c.world.holder id ≠ some i
  cache : ∀ key v, c.world.cache key = some v → c.world.Filed key v
  orders : ∀ o ∈ c.world.orders, o.status = .CONFIRMED →
    c.world.Paid o.userId o.flashSaleEventId o.idempotencyKey

theorem Kept.initial : Kept State.initial [] where
  bank := Bank.Ok.initial
  books := .nil
  beyond i _ := ⟨rfl, fun _ => by simp [State.initial, World.initial]⟩
  cache := by simp [State.initial, World.initial]
  orders := by simp [State.initial, World.initial]

theorem Kept.arrive {c : State} {bs : List Books} (h : Kept c bs) (hlen : bs.length = c.calls.length)
    (r : Request) : Kept (system.arrive c r) (bs ++ [.opening r]) where
  bank := h.bank
  books := by
    obtain ⟨htx, hholder⟩ := h.beyond c.calls.length le_rfl
    exact h.books.arrive hlen ⟨rfl, .opening htx hholder, fun h => Bool.noConfusion h⟩
  beyond i hi := by
    simp only [Platform.arrive, List.length_append, List.length_singleton] at hi
    exact h.beyond i (Nat.le_of_succ_le hi)
  cache := h.cache
  orders := h.orders

/-- One call's books change, the others' are kept true by `Rely`. -/
theorem Kept.set {c : State} {bs : List Books} (h : Kept c bs) {i : Nat} {call call' : ServiceCall}
    {b' : Books} {w' : World} (hcall : c.calls[i]? = some call) (hb' : CallKept w' i call' b')
    (hrely : ∀ j, j ≠ i → c.world.Rely j w')
    (hbank : w'.bank.Ok) (hcache : ∀ key v, w'.cache key = some v → w'.Filed key v)
    (horders : ∀ o ∈ w'.orders, o.status = .CONFIRMED →
      w'.Paid o.userId o.flashSaleEventId o.idempotencyKey) :
    Kept ⟨w', c.calls.set i call'⟩ (bs.set i b') where
  bank := hbank
  books := h.books.set (fun j _ _ hij hj => { hj with books := hj.books.rely (hrely j hij) }) hb'
  beyond j hj := by
    have hlt := (List.getElem?_eq_some_iff.mp hcall).1
    simp only [List.length_set] at hj
    obtain ⟨htx, hholder⟩ := h.beyond j hj
    have hr := hrely j (by omega)
    exact ⟨hr.tx.trans htx, fun id heq => hholder id ((hr.holder id).mp heq)⟩
  cache := hcache
  orders := horders

/-- A move of the environment. -/
theorem Kept.env {c : State} {bs : List Books} (h : Kept c bs) {e : Env} {w : World}
    (he : e.run c.world = some w) : Kept { c with world := w } bs where
  bank := World.bank_env he ▸ h.bank
  books := h.books.mono fun j _ _ hj => { hj with books := hj.books.rely (.env he) }
  beyond j hj := by
    obtain ⟨htx, hholder⟩ := h.beyond j hj
    have hr := World.Rely.env (j := j) he
    exact ⟨hr.tx.trans htx, fun id heq => hholder id ((hr.holder id).mp heq)⟩
  cache key v hv := (h.cache key v (World.cache_env he hv)).mono (.env he)
  orders o ho hstatus := (h.orders o ((World.env_same he).orders ▸ ho) hstatus).mono (.env he)

/-! ## One statement and the bank -/

/-- What call `i`'s request allows its statement to do to the bank. -/
inductive BankMove (req : Request) (w w' : World) : Prop where
  | idle (bank : w'.bank = w.bank)
  | opened (row : Wallet) (asked : req = .provisionWallet row.userId)
      (balance : row.balance.cents = 0) (version : row.version = 0)
      (fresh : ∀ row' ∈ w.wallets, row'.id ≠ row.id) (blank : listing w.ledger row.id = [])
      (bank : w'.bank = w.bank.openWallet row)
  | posted (es : List LedgerEntry) (balanced : w.bank.Balanced es)
      (posts : req.Posts w.Owns w.Priced es) (bank : w'.bank = w.bank.post es)

theorem BankMove.step {req : Request} {w w' : World} (h : BankMove req w w') :
    Bank.Step w.bank w'.bank := by
  cases h with
  | idle bank => exact bank ▸ .idle
  | opened row asked balance version fresh blank bank =>
    exact bank ▸ .opened row balance version fresh blank
  | posted es balanced posts bank => exact bank ▸ .posted es balanced

theorem bankMove_of_served {b : Books} {i : Nat} {w w' : World} {o : Stmt} {r : Except Err o.Reply}
    (hb : b.True i w) (hw : w.Ok) (hpre : custodyPre o b) (hs : World.Served i w o r w') :
    BankMove b.request w w' := by
  cases hs with
  | committed =>
    obtain ⟨hbalanced, haccounted⟩ := hpre
    exact .posted b.entries (hb.balanced hbalanced) (hb.posts haccounted) (hb.bank_commit hbalanced)
  | walletCreated userId balance row fresh user fits version unique =>
    obtain ⟨rfl, hreq⟩ := hpre
    refine .opened row (user ▸ hreq) (Money.ofDecimal?_eq_some.mp fits) version (fun row' hrow' heq => ?_) ?_ rfl
    · exact fresh (heq ▸ hw.walletsDrawn _ (World.owns_of_mem hrow'))
    · refine List.filter_eq_nil_iff.mpr fun e he => ?_
      have howned := hw.entriesOwned 0 e (List.mem_append_left _ he)
      obtain ⟨p, hp, hid⟩ := List.mem_map.mp howned
      intro heq
      rw [decide_eq_true_iff] at heq
      exact fresh (heq ▸ hid ▸ hw.walletsDrawn p hp)
  | _ => exact .idle rfl

/-- The cache after a statement. -/
theorem cache_of_served {b : Books} {i : Nat} {w w' : World} {o : Stmt} {r : Except Err o.Reply}
    (hb : b.True i w) (hpre : custodyPre o b)
    (hcache : ∀ key v, w.cache key = some v → w.Filed key v) (hs : World.Served i w o r w') :
    ∀ key v, w'.cache key = some v → w'.Filed key v := by
  have hevolves := World.Evolves.served hs
  cases hs with
  | cached key' value =>
    intro key v hv
    simp only [World.redisSet] at hv
    split at hv
    · rename_i heq
      cases hv
      subst heq
      obtain ⟨userId, k, rfl, hknows⟩ := hpre
      exact (hb.knowsTransfer hknows).mono hevolves
    · exact (hcache key v hv).mono hevolves
  | _ => exact fun key v hv => (hcache key v hv).mono hevolves

/-- The confirmed orders after a statement. -/
theorem paid_of_served {b : Books} {i : Nat} {w w' : World} {o : Stmt} {r : Except Err o.Reply}
    (hb : b.True i w) (hpre : custodyPre o b)
    (hpaid : ∀ o ∈ w.orders, o.status = .CONFIRMED →
      w.Paid o.userId o.flashSaleEventId o.idempotencyKey) (hs : World.Served i w o r w') :
    ∀ o ∈ w'.orders, o.status = .CONFIRMED →
      w'.Paid o.userId o.flashSaleEventId o.idempotencyKey := by
  have hevolves := World.Evolves.served hs
  cases hs with
  | ordered d o event found shape freshId freshKey =>
    intro o' ho' hstatus
    rcases List.mem_append.mp ho' with ho' | ho'
    · exact (hpaid o' ho' hstatus).mono hevolves
    · obtain rfl := List.mem_singleton.mp ho'
      subst shape
      exact (hb.knowsPaid (hpre hstatus)).mono hevolves
  | _ => exact fun o' ho' hstatus => (hpaid o' ho' hstatus).mono hevolves

/-! ## Soundness -/

theorem custody_bookkeeping (ok : State → Event → Prop) :
    Platform.Bookkeeping system custody custodyAnswer Books.opening (fun _ => Kept) ok
      State.initial where
  handlers _ r _ := handler_keeps r
  arrive _ _ _ r _ hlen h _ := h.arrive hlen r
  exec tr c bs i r o k b x reply w hrun hlen h _ hi hb hpre hexec := by
    have hw := Reachable.worldOk ⟨tr, hrun⟩
    have hw' := hw.served (.of_exec hexec)
    have hs := World.Served.of_exec hexec
    have hbook := h.books i _ b hi hb
    have htrue' := hbook.books.served hpre h.cache hs
    have hbank := h.bank.step (bankMove_of_served hbook.books hw hpre hs).step
    exact ⟨b.note o reply, ⟨rfl, htrue'.coherent hw' hbank, hs.answers⟩,
      h.set hi ⟨(b.grows_note o reply).request.trans hbook.request, htrue',
        fun h => Bool.noConfusion h⟩ (fun j hij => .served hw hs hij) hbank
        (cache_of_served hbook.books hpre h.cache hs) (paid_of_served hbook.books hpre h.orders hs)⟩
  crash tr c bs i r o k b hrun hlen h _ hi hb := by
    have hbook := h.books i _ b hi hb
    have hevolves := World.Evolves.release c.world i
    exact ⟨b.cleared, h.set hi ⟨hbook.request, hbook.books.release, fun _ => b.cleared_idle⟩
      (fun j hij => .release hij) h.bank (fun key v hv => (h.cache key v hv).mono hevolves)
      fun o ho hstatus => (h.orders o ho hstatus).mono hevolves⟩
  env tr c bs e w hrun hlen h _ he := h.env he

/-- **Custody is sound**: every call of every run has true books, and what is left of it keeps
the discipline. -/
theorem kept_of_run {ok : State → Event → Prop} {tr : Trace} {c : State}
    (hrun : RunFrom State.initial ok tr c) :
    ∃ bs, Kept c bs ∧ Platform.Aligned custody custodyAnswer c.calls bs :=
  (custody_bookkeeping ok).sound .initial .nil hrun

/-- **What one step of a run does to the bank.** -/
theorem bankMove_of_exec {ok : State → Event → Prop} {tr : Trace} {c : State}
    (hrun : RunFrom State.initial ok tr c) {i : Nat} {r : Request} {o : Stmt}
    {k : Except Err o.Reply → Service Response} {reply : Except Err o.Reply} {w : World}
    (hi : c.calls[i]? = some ⟨r, .call o k, false⟩) (hs : World.Served i c.world o reply w) :
    BankMove r c.world w := by
  obtain ⟨bs, h, ha⟩ := kept_of_run hrun
  obtain ⟨b, hb⟩ := ha.books hi
  have hbook := h.books i _ b hi hb
  have hmove := bankMove_of_served hbook.books (Reachable.worldOk ⟨tr, hrun⟩)
    (ha.keeps i _ b hi hb rfl).1 hs
  rwa [hbook.request] at hmove

/-- What a step of a trace does to the bank: nothing, or a move of the call that takes it. -/
inductive Moves (s : Step State Event) : Prop where
  | idle (bank : s.after.world.bank = s.before.world.bank)
  | moved (i : Nat) (x : Choice) (call : ServiceCall) (label : s.label = .exec i x)
      (found : s.before.calls[i]? = some call)
      (move : BankMove call.request s.before.world s.after.world)

theorem moves_of_step {ok : State → Event → Prop} {tr : Trace} {c c' : State} {l : Event}
    (hrun : RunFrom State.initial ok tr c) (hstep : system.step c l = some c') :
    Moves ⟨c, l, c'⟩ := by
  cases l with
  | arrive r => cases hstep; exact .idle rfl
  | exec i x =>
    obtain ⟨r, o, k, reply, w, hi, hexec, rfl⟩ := system.step_exec hstep
    exact .moved i x _ rfl hi (bankMove_of_exec hrun hi (.of_exec hexec))
  | crash i =>
    obtain ⟨r, o, k, hi, rfl⟩ := system.step_crash hstep
    exact .idle rfl
  | env e =>
    obtain ⟨w, hw, rfl⟩ := system.step_env hstep
    exact .idle (World.bank_env hw)

/-- **The service refines the bank.** Every step of every run is a step of the abstract bank. -/
theorem bank_refines {ok : State → Event → Prop} {tr : Trace} {c c' : State} {l : Event}
    (hrun : RunFrom State.initial ok tr c) (hstep : system.step c l = some c') :
    Bank.Step c.world.bank c'.world.bank := by
  cases moves_of_step hrun hstep with
  | idle bank => exact (show c'.world.bank = c.world.bank from bank) ▸ .idle
  | moved i x call label found move => exact move.step

end FlashWallet
