import FlashWallet.Proof.Debits
import FlashWallet.Proof.Moves
import FlashWallet.Proof.OrderIds
import FlashWallet.Proof.Runs

/-!
# One order, and everybody is told of it

Any number of purchases may use one `(eventId, idempotencyKey)` at once. The unique index lets one row
in, rows are never changed or deleted, and a purchase that is answered is answered with the row: with
`replayed: false` only by the call that wrote it.

`finalizeOrder` rethrows a unique violation when no row is found afterwards. That never happens, since
the row that refused the insert stays; and no violation comes from the debit either, because the debit
is looked up under the lock of the wallet. `Stage.Sane` is what a purchase may rely on at each stage for
that.
-/

set_option autoImplicit false

namespace FlashWallet

open Lib

/-- Every statement succeeds as far as the infrastructure is concerned. Calls may still be cut off. -/
def unfailing : State → Event → Prop := fun _ l => ∀ i, l ≠ .exec i .fault

/-- The call is a purchase of the event under the key. -/
def AsksFor (eventId : Uuid) (key : String) (call : ServiceCall) : Prop :=
  ∃ userId dto, call.request = .purchase userId dto ∧ dto.eventId = eventId ∧ dto.idempotencyKey = key

/-- What there is to agree on about the order of `(eventId, key)`: it is one and stays as it is, every
answer is about it, one answer at most is a first one, and none is a unique violation. -/
structure Agreed (tr : Trace) (c : State) (eventId : Uuid) (key : String) : Prop where
  kept : ∀ s ∈ tr, ∀ o ∈ s.after.world.orders, o.key = (eventId, key) → o ∈ c.world.orders
  one : ∀ o ∈ c.world.orders, ∀ o' ∈ c.world.orders, o.key = (eventId, key) → o'.key = (eventId, key) →
    o = o'
  reported : ∀ call ∈ c.calls, AsksFor eventId key call → ∀ v,
    call.result? = some (.ok (.purchased v)) →
    ∃ o ∈ c.world.orders, o.key = (eventId, key) ∧ v.orderId = o.id ∧ v.status = o.status
  first : ∀ (i j : Nat) (call call' : ServiceCall), c.calls[i]? = some call → c.calls[j]? = some call' →
    AsksFor eventId key call → AsksFor eventId key call' → ∀ v v',
    call.result? = some (.ok (.purchased v)) → call'.result? = some (.ok (.purchased v')) →
    v.replayed = false → v'.replayed = false → i = j
  unthrown : ∀ call ∈ c.calls, AsksFor eventId key call → call.result? ≠ some (.error .uniqueViolation)

/-! ## Who wrote a row -/

/-- A purchase holds a row as its own only if it has just written it. -/
theorem sold_next {userId : Uuid} {dto : PurchaseFlashSaleDto} {s : Stage} {o : Stmt}
    (may : May userId dto s o) (r : Except Err o.Reply) {order : Order}
    (h : s.next o r = .sold order) :
    s = .sold order ∨ ∃ d, (⟨o, r⟩ : (o : Stmt) × Except Err o.Reply) = ⟨.orderCreate d, .ok order⟩ := by
  cases may with
  | confirm orderId =>
    rcases r with e | v
    · cases e <;> cases h
    · cases h
      exact Or.inr ⟨_, rfl⟩
  | fail =>
    rcases r with e | v
    · cases e <;> cases h
    · cases h
  | announce order' => cases r <;> exact Or.inl h
  | find | poll | reread | readEvent | findWallet | lock | findDebit | reserve =>
    rcases r with _ | _ | _ <;> cases h
  | readClock | wait | drawId | refuse | debit | book | commit | rollback | release | releaseTwice
  | releaseLate => cases r <;> cases h

/-- Rows held as one's own are written, and each is held by one call. -/
structure Writers (c : State) (ps : List Progress) : Prop where
  written : ∀ (i : Nat) userId dto o, ps[i]? = some (.buying userId dto (.sold o)) → o ∈ c.world.orders
  one : ∀ (i j : Nat) userId userId' dto dto' o, ps[i]? = some (.buying userId dto (.sold o)) →
    ps[j]? = some (.buying userId' dto' (.sold o)) → i = j

theorem Writers.mono {c : State} {ps : List Progress} (h : Writers c ps) {w : World}
    {calls : List ServiceCall} (hw : c.world.Evolves w) : Writers ⟨w, calls⟩ ps :=
  ⟨fun i userId dto o hp => hw.mem_orders (h.written i userId dto o hp), h.one⟩

theorem writers_staged (ok : State → Event → Prop) : Staged ok State.initial fun _ => Writers where
  arrive _ c ps r _ _ h _ := by
    have hold : ∀ {i : Nat} {userId dto o}, (ps ++ [Progress.start r])[i]? =
        some (.buying userId dto (.sold o)) → ps[i]? = some (.buying userId dto (.sold o)) := by
      intro i userId dto o hp
      rcases Platform.getElem?_concat_cases hp with ⟨-, heq⟩ | hp
      · cases r <;> cases heq
      · exact hp
    exact ⟨fun i userId dto o hp => h.written i userId dto o (hold hp),
      fun i j _ _ _ _ o hp hp' => h.one i j _ _ _ _ o (hold hp) (hold hp')⟩
  exec _ c ps i req o k p x reply w _ h _ hissues := by
    have hs := hissues.served
    have hw := World.Evolves.served hs
    -- the row the call now holds: held before, or written by this very statement
    have hown : ∀ userId dto order, p.next o reply = .buying userId dto (.sold order) →
        (∃ userId dto, p = .buying userId dto (.sold order)) ∨
          order ∈ w.orders ∧ order ∉ c.world.orders := by
      intro userId dto order heq
      cases p with
      | other => cases heq
      | buying u d s =>
        obtain ⟨-, -, hsold⟩ := Progress.buying.inj heq
        rcases sold_next hissues.pre reply hsold with rfl | ⟨d', heq'⟩
        · exact Or.inl ⟨u, d, rfl⟩
        · cases heq'
          generalize hr : (Except.ok order : Except Err Order) = r at hs
          cases hs with
          | ordered _ order' _ _ _ _ freshKey =>
            cases hr
            exact Or.inr ⟨List.mem_append_right _ List.mem_cons_self, fun hmem => freshKey _ hmem rfl⟩
          | read _ _ answer => cases answer
    constructor
    · intro j userId dto order hp
      rcases Platform.getElem?_set_cases hp with ⟨rfl, heq⟩ | ⟨-, hp⟩
      · rcases hown userId dto order heq.symm with ⟨u, d, rfl⟩ | ⟨hmem, -⟩
        · exact hw.mem_orders (h.written j u d order hissues.progress)
        · exact hmem
      · exact hw.mem_orders (h.written j userId dto order hp)
    · intro j j' userId userId' dto dto' order hp hp'
      rcases Platform.getElem?_set_cases hp with ⟨rfl, heq⟩ | ⟨-, hj⟩ <;>
        rcases Platform.getElem?_set_cases hp' with ⟨rfl, heq'⟩ | ⟨-, hj'⟩
      · rfl
      · rcases hown userId dto order heq.symm with ⟨u, d, rfl⟩ | ⟨-, hnot⟩
        · exact h.one j j' _ _ _ _ order hissues.progress hj'
        · exact absurd (h.written j' _ _ order hj') hnot
      · rcases hown userId' dto' order heq'.symm with ⟨u, d, rfl⟩ | ⟨-, hnot⟩
        · exact h.one j j' _ _ _ _ order hj hissues.progress
        · exact absurd (h.written j _ _ order hj) hnot
      · exact h.one j j' _ _ _ _ order hj hj'
  crash _ c _ i _ _ _ _ _ h _ _ := h.mono (.release c.world i)
  env _ _ _ _ _ _ _ h _ he := h.mono (.env he)

/-! ## No violation gets out -/

/-- What a purchase by call `i` may rely on at each stage. Before the debit is booked its transaction
holds no entry; between the lookup of the debit and the commit nobody else can book one; an error that
is going to be thrown is no violation; and once an insert is refused there is a row. -/
def Stage.Sane (w : World) (i : Nat) (dto : PurchaseFlashSaleDto) : Stage → Prop
  | .looking | .absent | .noEvent | .found .. | .timed .. | .refused | .held _ | .settling ..
  | .debiting .. => (w.tx i).entries = []
  | .locked _ _ row => (w.tx i).entries = [] ∧ w.holder row.id = some i
  | .unbilled _ _ row | .written _ _ row => (w.tx i).entries = [] ∧ w.holder row.id = some i ∧
      ∀ e ∈ w.ledger,
        e.key ≠ (row.id, FlashSaleService.walletReferenceId dto.eventId dto.idempotencyKey, .PURCHASE)
  | .failing _ err | .unpaid _ err | .returned _ err | .failed _ err | .broken err =>
    err ≠ .uniqueViolation
  | .twice | .late | .rereading => ∃ o ∈ w.orders, o.key = (dto.eventId, dto.idempotencyKey)
  | _ => True

/-- Somebody else's step, which books nothing in a wallet call `i` has locked. -/
theorem Stage.Sane.other {w w' : World} {i : Nat} {dto : PurchaseFlashSaleDto} {s : Stage}
    (h : s.Sane w i dto) (hr : w.Rely i w')
    (hledger : ∀ e ∈ w'.ledger, e ∈ w.ledger ∨ w.holder e.walletId ≠ some i) : s.Sane w' i dto := by
  have hentries : (w.tx i).entries = [] → (w'.tx i).entries = [] := fun h => hr.tx ▸ h
  cases s with
  | looking | absent | noEvent | found | timed | refused | held | settling | debiting => exact hentries h
  | locked price orderId row => exact ⟨hentries h.1, (hr.holder row.id).mpr h.2⟩
  | unbilled price orderId row | written price orderId row =>
    obtain ⟨hempty, hheld, hfree⟩ := h
    refine ⟨hentries hempty, (hr.holder row.id).mpr hheld, fun e he hkey => ?_⟩
    rcases hledger e he with he | hnot
    · exact hfree e he hkey
    · have hwallet : e.walletId = row.id := congrArg Prod.fst hkey
      exact hnot (hwallet ▸ hheld)
  | twice | late | rereading =>
    obtain ⟨o, ho, hkey⟩ := h
    exact ⟨o, hr.mem_orders ho, hkey⟩
  | _ => exact h

section

variable {ok : State → Event → Prop} {tr : Trace} {c : State} {ps : List Progress} {i : Nat}
  {userId : Uuid} {dto : PurchaseFlashSaleDto} {s : Stage} {o : Stmt}
  {k : Except Err o.Reply → Service Response} {x : Choice} {reply : Except Err o.Reply} {w : World}

/-- A refusal that is no violation. -/
theorem ne_violation_of_update {id : Uuid} {balance : Int} {e : Err} (hx : x ≠ .fault)
    (hexec : World.exec i (.walletUpdate id balance) x c.world = some (.error e, w)) :
    e ≠ .uniqueViolation := by
  rcases World.refuses_of_error hx hexec with ⟨rfl, -⟩ | ⟨rfl, -⟩ <;> exact fun h => by cases h

/-- A failure of the infrastructure is no violation. -/
theorem sane_unavailable (may : May userId dto s o) : (s.next o (.error .unavailable)).Sane w i dto := by
  cases may with
  | announce => trivial
  | _ => exact fun h => by cases h

theorem sane_next (hrun : RunFrom State.initial ok tr c)
    (h : Issues c ps i (.purchase userId dto) o k (.buying userId dto s) x reply w)
    (hsane : s.Sane c.world i dto) : (s.next o reply).Sane w i dto := by
  by_cases hx : x = .fault
  · subst hx
    obtain rfl := World.unavailable_of_fault h.exec
    exact sane_unavailable h.pre
  have hs := h.served
  have hkeeps : o.buffers = false → (c.world.tx i).entries = [] → (w.tx i).entries = [] :=
    fun ho hempty => (World.entries_served hs ho).trans hempty
  have hrows : ∀ {o' : Order}, o' ∈ c.world.orders → o' ∈ w.orders :=
    fun ho => (World.Evolves.served hs).mem_orders ho
  have hpre := h.pre
  obtain ⟨hi, -, -, -, -, hexec⟩ := h
  cases hpre with
  | find | poll =>
    obtain ⟨found, rfl⟩ := World.answered hx hexec rfl
    cases found with
    | none => exact hkeeps rfl hsane
    | some order => trivial
  | readEvent =>
    obtain ⟨found, rfl⟩ := World.answered hx hexec rfl
    rcases found with _ | ⟨ev, product⟩ <;> exact hkeeps rfl hsane
  | readClock | drawId | wait =>
    obtain ⟨v, rfl⟩ := World.answered hx hexec rfl
    exact hkeeps rfl hsane
  | reserve =>
    obtain ⟨reserved, rfl⟩ := World.answered hx hexec rfl
    cases reserved <;> exact hkeeps rfl hsane
  | findWallet =>
    obtain ⟨found, rfl⟩ := World.answered hx hexec rfl
    cases found with
    | none => exact fun h => by cases h
    | some row => exact hkeeps rfl hsane
  | lock price orderId wallet =>
    obtain ⟨found, rfl⟩ := World.answered hx hexec rfl
    obtain ⟨hfound, rfl⟩ := hs.of_lock
    cases found with
    | none => exact fun h => by cases h
    | some row =>
      obtain ⟨-, hid⟩ := World.wallet?_eq_some hfound.symm
      refine ⟨hkeeps rfl hsane, ?_⟩
      rw [← hid]
      exact World.lock_holder_self _ _ _
  | findDebit price orderId row =>
    obtain ⟨found, rfl⟩ := World.answered hx hexec rfl
    obtain ⟨rfl, hfound⟩ := hs.of_read rfl (by simp)
    cases found with
    | none => exact ⟨hsane.1, hsane.2, World.entryOf?_eq_none.mp hfound.symm⟩
    | some existing => trivial
  | debit price orderId row funds =>
    cases reply with
    | error e => exact ne_violation_of_update hx hexec
    | ok updated =>
      refine ⟨hkeeps rfl hsane.1, ?_, ?_⟩
      · generalize hr : (Except.ok updated : Except Err Wallet) = r at hs
        cases hs with
        | updated => exact World.lock_holder_self _ _ _
        | read _ _ answer => cases answer
      · intro e he
        rcases World.ledger_served hs with hsame | hcommits
        · exact hsane.2.2 e (hsame ▸ he)
        · exact hcommits.elim
  | book price orderId row =>
    cases reply with
    | ok e => trivial
    | error e =>
      -- a violation would need an entry under the key of the debit, committed or buffered
      rcases World.refuses_of_error hx hexec with ⟨rfl, -⟩ | ⟨rfl, -⟩ | ⟨rfl, e', he', hkey⟩
      · exact fun h => by cases h
      · exact fun h => by cases h
      · rw [hsane.1, List.append_nil] at he'
        exact absurd hkey (hsane.2.2 e' he')
  | refuse =>
    obtain ⟨v, rfl⟩ := World.answered hx hexec rfl
    exact fun h => by cases h
  | commit =>
    obtain ⟨v, rfl⟩ := World.answered hx hexec rfl
    trivial
  | rollback | release =>
    obtain ⟨v, rfl⟩ := World.answered hx hexec rfl
    exact hsane
  | fail | confirm =>
    rcases order_written_or_taken hrun hi hexec hx with
      ⟨-, ⟨-, order, rfl, -⟩ | ⟨htaken, rfl, rfl⟩⟩
    · exact hsane
    · obtain ⟨order, horder⟩ := Option.isSome_iff_exists.mp htaken
      obtain ⟨hmem, hkey⟩ := World.order?_eq_some horder
      exact ⟨order, hmem, hkey⟩
  | releaseTwice | releaseLate =>
    obtain ⟨v, rfl⟩ := World.answered hx hexec rfl
    obtain ⟨order, hmem, hkey⟩ := hsane
    exact ⟨order, hrows hmem, hkey⟩
  | reread =>
    obtain ⟨found, rfl⟩ := World.answered hx hexec rfl
    obtain ⟨rfl, hfound⟩ := hs.of_read rfl (by simp)
    obtain ⟨order, hmem, hkey⟩ := hsane
    cases found with
    | none => exact absurd hkey (World.order?_eq_none.mp hfound.symm order hmem)
    | some existing => trivial
  | announce =>
    obtain ⟨v, rfl⟩ := World.answered hx hexec rfl
    trivial

end

/-- Every purchase that is not cut off may rely on its stage. -/
def Sane (c : State) (ps : List Progress) : Prop :=
  ∀ (i : Nat) call userId dto s, c.calls[i]? = some call → call.crashed = false →
    ps[i]? = some (.buying userId dto s) → s.Sane c.world i dto

/-- A step of somebody else. -/
theorem Sane.other {ok : State → Event → Prop} {tr : Trace} {c c' : State} {l : Event} {i : Nat}
    {dto : PurchaseFlashSaleDto} {s : Stage} (hrun : RunFrom State.initial ok tr c) (hstep : system.step c l = some c')
    (hi : l.actor ≠ some i) (h : s.Sane c.world i dto) : s.Sane c'.world i dto := by
  have hw := Reachable.worldOk ⟨tr, hrun⟩
  refine h.other (rely_of_step hw hstep hi) fun e he => ?_
  cases l with
  | arrive r => cases hstep; exact Or.inl he
  | exec j x =>
    obtain ⟨r, o, k, reply, w, hj, hexec, rfl⟩ := system.step_exec hstep
    refine (World.posted_held hw (.of_exec hexec) he).imp_right fun ⟨_, hheld⟩ heq => hi ?_
    exact congrArg some (Option.some.inj (hheld.symm.trans heq))
  | crash j =>
    obtain ⟨r, o, k, hj, rfl⟩ := system.step_crash hstep
    exact Or.inl he
  | env en =>
    obtain ⟨w, hen, rfl⟩ := system.step_env hstep
    exact Or.inl ((World.env_same hen).ledger ▸ he)

theorem sane_staged (ok : State → Event → Prop) : Staged ok State.initial fun _ => Sane where
  arrive tr c ps r hrun hreq h _ i call userId dto s hi hlive hp := by
    rcases Platform.getElem?_concat_cases hp with ⟨rfl, heq⟩ | hp
    · -- a call that has just arrived has no transaction
      obtain ⟨bs, hkept, -⟩ := kept_of_run hrun
      have hempty := (hkept.beyond ps.length (le_of_eq hreq.length.symm)).1
      cases r <;> cases heq
      exact congrArg Tx.entries hempty
    · rcases Platform.getElem?_concat_cases hi with ⟨rfl, -⟩ | hi
      · have hlt := (List.getElem?_eq_some_iff.mp hp).1
        exact absurd hreq.length (by omega)
      · exact h i call userId dto s hi hlive hp
  exec tr c ps i req o k p x reply w hrun h hok hissues j call userId dto s hj hlive hp := by
    rcases Platform.getElem?_set_cases hp with ⟨rfl, heq⟩ | ⟨hij, hp⟩
    · cases p with
      | other => cases heq
      | buying u d s' =>
        obtain ⟨rfl, rfl, rfl⟩ := Progress.buying.inj heq
        obtain rfl := Request.purchase?_eq_some.mp hissues.request.symm
        exact sane_next hrun hissues (h j _ _ _ s' hissues.call rfl hissues.progress)
    · have hcall := (List.getElem?_set_ne (Ne.symm hij)).symm.trans hj
      refine Sane.other hrun hissues.step ?_ (h j call userId dto s hcall hlive hp)
      exact fun heq => hij (Option.some.inj heq).symm
  crash tr c ps i r o k hrun _ h hok hi j call userId dto s hj hlive hp := by
    rcases Platform.getElem?_set_cases hj with ⟨-, rfl⟩ | ⟨hij, hj⟩
    · cases hlive
    · refine (h j call userId dto s hj hlive hp).other (.release hij) fun e he => Or.inl he
  env tr c ps e w hrun _ h hok he j call userId dto s hj hlive hp := by
    refine (h j call userId dto s hj hlive hp).other (.env he) fun entry hentry => ?_
    exact Or.inl ((World.env_same he).ledger ▸ hentry)

/-! ## Agreement -/

/-- An answer is about an order there is. -/
theorem reported_of_run {ok : State → Event → Prop} {tr : Trace} {c : State}
    (hrun : RunFrom State.initial ok tr c) {call : ServiceCall} (hcall : call ∈ c.calls) {eventId : Uuid}
    {key : String} (hasks : AsksFor eventId key call) {v : OrderResult}
    (hv : call.result? = some (.ok (.purchased v))) :
    ∃ o ∈ c.world.orders, o.key = (eventId, key) ∧ v.orderId = o.id ∧ v.status = o.status := by
  obtain ⟨bs, hkept, ha⟩ := kept_of_run hrun
  obtain ⟨i, hi⟩ := List.mem_iff_getElem?.mp hcall
  obtain ⟨b, hb⟩ := ha.books hi
  obtain ⟨userId, dto, hreq, rfl, rfl⟩ := hasks
  have hanswer := (ha.outcome hi hb hv).2
  rw [hreq] at hanswer
  obtain ⟨o, ho, hkey, heq⟩ := hanswer
  refine ⟨o, (hkept.books i call b hi hb).books.orders o ho, hkey, ?_⟩
  rw [heq]
  exact ⟨rfl, rfl⟩

/-- Where a purchase has ended, its result is the one its stage allows. -/
theorem outcome_of_asks {c : State} {ps : List Progress} (hreq : Requested c.calls ps)
    (ha : Platform.Aligned purchasing purchasingAnswer c.calls ps) {i : Nat} {call : ServiceCall}
    {eventId : Uuid} {key : String} (hi : c.calls[i]? = some call) (hasks : AsksFor eventId key call)
    {r : Except Err Response} (hr : call.result? = some r) :
    ∃ userId dto s r', ps[i]? = some (.buying userId dto s) ∧ Outcome s r' ∧
      r = r'.map Response.purchased := by
  obtain ⟨p, hp⟩ := ha.books hi
  obtain ⟨userId, dto, hasked, -, -⟩ := hasks
  have hpurchase : p.purchase? = call.request.purchase? := hreq.same i call p hi hp
  have hanswer := ha.outcome hi hp hr
  rw [hasked] at hpurchase
  cases p with
  | other => cases hpurchase
  | buying u d s =>
    obtain ⟨r', houtcome, heq⟩ := hanswer
    exact ⟨u, d, s, r', hp, houtcome, heq⟩

/-- A first answer is about the row the call has written. -/
theorem sold_of_first {c : State} {ps : List Progress} (hreq : Requested c.calls ps)
    (ha : Platform.Aligned purchasing purchasingAnswer c.calls ps) {i : Nat} {call : ServiceCall}
    {eventId : Uuid} {key : String} (hi : c.calls[i]? = some call) (hasks : AsksFor eventId key call)
    {v : OrderResult} (hv : call.result? = some (.ok (.purchased v))) (hfirst : v.replayed = false) :
    ∃ userId dto o, ps[i]? = some (.buying userId dto (.sold o)) ∧ v.orderId = o.id := by
  obtain ⟨userId, dto, s, r', hp, houtcome, heq⟩ := outcome_of_asks hreq ha hi hasks hv
  cases houtcome with
  | sold o => cases heq; exact ⟨userId, dto, o, hp, rfl⟩
  | seen o => cases heq; cases hfirst
  | _ => cases heq

/-- **Agreement on an order**: for every event and key, in every state any run without infrastructure
errors reaches. -/
theorem order_agreement {tr : Trace} {c : State} (hrun : RunFrom State.initial unfailing tr c)
    (eventId : Uuid) (key : String) : Agreed tr c eventId key := by
  have hw : c.world.Ok := Reachable.worldOk ⟨tr, hrun⟩
  have hone : ∀ o ∈ c.world.orders, ∀ o' ∈ c.world.orders, o.key = (eventId, key) →
      o'.key = (eventId, key) → o = o' :=
    fun o ho o' ho' hkey hkey' => hw.order_ext ho ho' (hkey.trans hkey'.symm)
  refine ⟨fun s hs o ho _ => ?_, hone, fun call hcall hasks v hv => reported_of_run hrun hcall hasks hv,
    ?_, ?_⟩
  · exact ((evolves_of_run hrun).2 s hs).2.mem_orders ho
  · intro i j call call' hi hj hasks hasks' v v' hv hv' hfirst hfirst'
    obtain ⟨ps, hwriters, hreq, ha⟩ := (writers_staged unfailing).sound_initial
      ⟨fun i _ _ _ h => by simp at h, fun i j _ _ _ _ _ h => by simp at h⟩ hrun
    obtain ⟨u, d, o, hp, hid⟩ := sold_of_first hreq ha hi hasks hv hfirst
    obtain ⟨u', d', o', hp', hid'⟩ := sold_of_first hreq ha hj hasks' hv' hfirst'
    -- both rows are the one row of the key
    have hrow : ∀ {n : Nat} {call : ServiceCall} {v : OrderResult} {u d o}, c.calls[n]? = some call →
        AsksFor eventId key call → call.result? = some (.ok (.purchased v)) →
        ps[n]? = some (.buying u d (.sold o)) → v.orderId = o.id →
        o ∈ c.world.orders ∧ o.key = (eventId, key) := by
      intro n call v u d o hn hasks hv hp hid
      obtain ⟨row, hmem, hkey, hrowId, -⟩ := reported_of_run hrun (List.mem_of_getElem? hn) hasks hv
      have hwritten := hwriters.written n u d o hp
      have hsame := hw.order_ext_id hwritten hmem (hid.symm.trans hrowId)
      exact ⟨hwritten, hsame ▸ hkey⟩
    obtain ⟨hmem, hkey⟩ := hrow hi hasks hv hp hid
    obtain ⟨hmem', hkey'⟩ := hrow hj hasks' hv' hp' hid'
    obtain rfl := hone o hmem o' hmem' hkey hkey'
    exact hwriters.one i j u u' d d' o hp hp'
  · intro call hcall hasks hresult
    obtain ⟨ps, hsane, hreq, ha⟩ := (sane_staged unfailing).sound_initial
      (fun i _ _ _ _ h => by simp [State.initial] at h) hrun
    obtain ⟨i, hi⟩ := List.mem_iff_getElem?.mp hcall
    obtain ⟨userId, dto, s, r', hp, houtcome, heq⟩ := outcome_of_asks hreq ha hi hasks hresult
    have hlive := (Call.result?_eq_some hresult).1
    have hstage := hsane i call userId dto s hi hlive hp
    cases houtcome with
    | failed o err => cases heq; exact hstage rfl
    | broken err => cases heq; exact hstage rfl
    | _ => cases heq

section

open Sample

/-- Alice buys the one unit on sale, twice at once: the second call finds nothing, is refused a unit,
and finds the order when it looks again. -/
def boughtTwice : List Event :=
  openSale 0 ++ register 1 alice aliceWallet ++ fund 2 alice id₁ ++
    [.arrive (.purchase alice lamp), .arrive (.purchase alice lamp)] ++ runs 3 1 ++ runs 4 1 ++
    runs 3 3 ++ [.exec 3 (.fresh id₂)] ++ runs 3 8 ++ runs 4 4

set_option maxRecDepth 8000 in
theorem order_agreement_boughtTwice :
    (stateAfter State.initial boughtTwice).calls.map Call.result? =
        [some (.ok (.event ⟨sale, goods, 1, 1, 0, 10⟩)), some (.ok .provisioned),
          some (.ok (.booked ⟨aliceWallet, ⟨1000, by decide⟩,
            ⟨aliceWallet, .DEPOSIT, ⟨1000, by decide⟩, ⟨1000, by decide⟩, id₁.text, 0⟩⟩)),
          some (.ok (.purchased (FlashSaleService.toOrderResult aliceOrder false))),
          some (.ok (.purchased (FlashSaleService.toOrderResult aliceOrder true)))] ∧
      Agreed (traceAfter State.initial boughtTwice) (stateAfter State.initial boughtTwice) sale "lamp" := by
  refine ⟨by decide, order_agreement ?_ sale "lamp"⟩
  refine (run_stateAfter (fun _ l => !l.isFault) _ _ (by decide)).mono fun _ l h i hl => ?_
  subst hl
  cases h

end

end FlashWallet
