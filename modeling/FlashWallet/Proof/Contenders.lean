import FlashWallet.Proof.Newcomers

/-!
# Buyers with money of their own

The newcomers of one event, each by another user and with the price in a wallet that nothing else
touches. Such a purchase never fails to pay: between its arrival and its own commit the balance is the
one it came with (`contender_balance`), so the only way for it not to get the goods is that there are
none left. `Contender` is that invariant, on top of `Newcomer`.
-/

set_option autoImplicit false

namespace FlashWallet

open Lib

/-- The user who asks for goods of event `e`. -/
def Request.buyer? (e : Uuid) (r : Request) : Option Uuid :=
  (r.purchase?.filter fun p => p.2.eventId = e).map Prod.fst

theorem Request.buyer?_eq_some {e userId : Uuid} {r : Request} :
    r.buyer? e = some userId ↔ ∃ dto, r = .purchase userId dto ∧ dto.eventId = e := by
  cases r <;> simp [buyer?, purchase?, and_comm]

/-! ## The setting -/

/-- The step disturbs the sale of event `e` to `buyers` that begins at call `n₀`: a purchase of it
arrives that is not a first one by a buyer, or a call acts that is no such purchase and concerns the
event or a buyer's wallet. -/
def disturbs (e : Uuid) (n₀ : Nat) (buyers : List Uuid) (c : State) : Event → Bool
  | .arrive r => (r.buyer? e).any fun userId =>
    userId ∉ buyers || ((requests c).drop n₀).any (·.buyer? e = some userId)
  | .exec i _ => (c.calls[i]?).any fun call =>
    if (call.request.buyer? e).isSome then i < n₀ else call.request.users.any (· ∈ buyers)
  | _ => false

/-- Event `e` is active. -/
def World.active (w : World) (e : Uuid) : Bool :=
  w.events.all fun ev => ev.id ≠ e || (ev.startsAt ≤ w.clock && w.clock ≤ ev.endsAt)

/-- Undisturbed sale of an event that stays active, without faults. -/
def contending (e : Uuid) (n₀ : Nat) (buyers : List Uuid) : State → Event → Prop := fun c l =>
  newcoming e c l ∧ disturbs e n₀ buyers c l = false ∧ c.world.active e = true

section Setting

variable {e : Uuid} {buyers : List Uuid} {c₀ c : State} {tr₀ tr : Trace} {i : Nat}
  {call : ServiceCall} {userId : Uuid}
  (hrun : RunFrom c₀ (contending e c₀.calls.length buyers) tr c)
include hrun

/-- The calls of the sale are the buyers'. -/
theorem contender_buyer (hnew : c₀.calls.length ≤ i) {r : Request} (hi : (requests c)[i]? = some r)
    (hr : r.buyer? e = some userId) : userId ∈ buyers := by
  induction hrun generalizing i r with
  | nil =>
    have hlt := (List.getElem?_eq_some_iff.mp hi).1
    rw [requests, List.length_map] at hlt
    omega
  | snoc run allowed next ih =>
    rcases requests_of_step next with hsame | ⟨q, rfl, hsnoc⟩
    · rw [hsame] at hi
      exact ih hnew hi hr
    · rw [hsnoc] at hi
      rcases Platform.getElem?_concat_cases hi with ⟨-, rfl⟩ | hi
      · have hquiet := allowed.2.1
        simp only [disturbs, hr, Option.any_some, Bool.or_eq_false_iff, decide_eq_false_iff_not,
          not_not] at hquiet
        exact hquiet.1
      · exact ih hnew hi hr

/-- No buyer makes two of them. -/
theorem contender_unique (hi : c.calls[i]? = some call) (hnew : c₀.calls.length ≤ i)
    (hbuys : call.request.buyer? e = some userId) {j : Nat} {call' : ServiceCall}
    (hj : c.calls[j]? = some call') (hnew' : c₀.calls.length ≤ j)
    (hbuys' : call'.request.buyer? e = some userId) : i = j := by
  refine marked_once (Request.buyer? e) (m := c₀.calls.length) (fun c r u h hr k r' hk hr' heq => ?_)
    hrun le_rfl hnew hnew' (getElem?_requests hi) (getElem?_requests hj) hbuys hbuys'
  have hquiet := h.2.1
  simp only [disturbs, hr, Option.any_some, Bool.or_eq_false_iff, List.any_eq_false] at hquiet
  refine hquiet.2 r' (List.mem_of_getElem? (i := k - c₀.calls.length) ?_) (decide_eq_true heq)
  rw [List.getElem?_drop, Nat.add_sub_cancel' hk]
  exact hr'

/-- **Nobody but the contender moves money in its wallet.** -/
theorem contender_listing (h₀ : RunFrom State.initial viaApi tr₀ c₀) (hi : c.calls[i]? = some call)
    (hnew : c₀.calls.length ≤ i) (hbuys : call.request.buyer? e = some userId) {id : Uuid}
    (howns : c.world.Owns id userId) :
    listing (booked (fun _ => true) tr) id = listing (booked (byCall i) tr) id := by
  have hbuyer := contender_buyer hrun hnew (getElem?_requests hi) hbuys
  have hothers : ∀ s ∈ tr, byCall i s = false → listing (entriesOf s) id = [] := by
    intro s hs hby
    refine List.filter_eq_nil_iff.mpr fun entry hentry hid => ?_
    rw [decide_eq_true_iff] at hid
    have hreach : Reachable viaApi c₀ := ⟨tr₀, h₀⟩
    cases (moves_of_mem hreach hrun hs).entries with
    | none entries ledger => rw [entries] at hentry; cases hentry
    | some j x call' label found balanced posts bank =>
      obtain ⟨u, hu, howns'⟩ := posts.users hentry
      have howns'' := ((evolves_of_run hrun).2 s hs).1.owns _ _ (hid ▸ howns')
      obtain rfl := (hreach.run hrun).worldOk.owner_unique howns'' howns
      obtain ⟨-, ⟨-, hquiet, -⟩, -⟩ := hrun.of_mem hs
      obtain ⟨call'', hj, hsame⟩ := ((system.keeps_of_run hrun).2 s hs).1 j call' found
      rw [label, disturbs, found, Option.any_some] at hquiet
      split at hquiet
      · rename_i hbuys'
        obtain ⟨u', hu'⟩ := Option.isSome_iff_exists.mp hbuys'
        obtain ⟨dto, hreq, hevent⟩ := Request.buyer?_eq_some.mp hu'
        rw [hreq] at hu
        obtain rfl := List.mem_singleton.mp hu
        have hij := contender_unique hrun hi hnew hbuys hj (by simpa using hquiet)
          (by rw [hsame]; exact hu')
        simp [byCall, label, Lib.Label.actor, hij] at hby
      · simp only [List.any_eq_false, decide_eq_true_eq] at hquiet
        exact hquiet u hu hbuyer
  exact listing_booked_of_silent hothers

/-- A contender's balance is the one it came with and what it has booked itself. -/
theorem contender_balance (h₀ : RunFrom State.initial viaApi tr₀ c₀) (hi : c.calls[i]? = some call)
    (hnew : c₀.calls.length ≤ i) (hbuys : call.request.buyer? e = some userId) {row : Wallet}
    (hrow : row ∈ c₀.world.wallets) (huser : row.userId = userId) :
    c.world.bank.balanceOf row.id =
      row.balance.cents + sumAmounts (listing (booked (byCall i) tr) row.id) := by
  have hreach : Reachable viaApi c₀ := ⟨tr₀, h₀⟩
  have howns : c.world.Owns row.id userId :=
    (evolves_of_run hrun).1.owns _ _ (huser ▸ World.owns_of_mem hrow)
  rw [(hreach.run hrun).bankOk.balanceOf_eq, show c.world.bank.ledger = c.world.ledger from rfl,
    ledger_eq_booked hreach hrun, listing_append, sumAmounts_append,
    contender_listing hrun h₀ hi hnew hbuys howns, (hreach.bankOk.settled row hrow).balance]
  rfl

end Setting

/-! ## What a contender's stage says -/

/-- A purchase that is going well: it knows its event to be active, its wallet to be its own and the
balance to cover the price. -/
def Stage.Prospering (w : World) (e userId : Uuid) : Stage → Prop
  | .noEvent | .failing .. | .unpaid .. | .returned .. | .failed .. => False
  | .found ev _ => ∃ ev' ∈ w.events, ev'.id = e ∧ ev'.startsAt = ev.startsAt ∧ ev'.endsAt = ev.endsAt
  | .timed ev _ now => ¬(now < ev.startsAt ∨ now > ev.endsAt)
  | .debiting _ _ wallet => w.Owns wallet userId
  | .locked price _ row | .unbilled price _ row | .written price _ row =>
    w.Owns row.id userId ∧ price.cents ≤ row.balance.cents
  | _ => True

/-- The purchase has entered nothing in its transaction's buffer. -/
def Stage.blank : Stage → Bool
  | .charged _ | .failing .. | .unpaid .. | .returned .. | .paid _ | .twice | .late | .rereading
  | .sold _ | .failed .. | .seen _ | .broken _ => false
  | _ => true

theorem World.Priced.nonneg {w : World} {e : Uuid} {price : Money} (h : w.Priced e price) :
    0 ≤ price.cents := by
  obtain ⟨-, -, -, product, -, -, rfl⟩ := h
  exact product.priced

/-- Events keep their dates. -/
theorem dates_of_step {c c' : State} {l : Event} (hw : c.world.Ok) (hstep : system.step c l = some c')
    {ev : FlashSaleEvent} (hev : ev ∈ c.world.events) :
    ∃ ev' ∈ c'.world.events, ev'.id = ev.id ∧ ev'.startsAt = ev.startsAt ∧ ev'.endsAt = ev.endsAt := by
  cases l with
  | arrive r => cases hstep; exact ⟨ev, hev, rfl, rfl, rfl⟩
  | exec i x =>
    obtain ⟨r, o, k, reply, w, -, hexec, rfl⟩ := system.step_exec hstep
    obtain ⟨ev', hev', h⟩ := (World.events_served hw (.of_exec hexec)).1 ev hev
    exact ⟨ev', hev', h.id, h.startsAt, h.endsAt⟩
  | crash i =>
    obtain ⟨r, o, k, -, rfl⟩ := system.step_crash hstep
    exact ⟨ev, hev, rfl, rfl, rfl⟩
  | env en =>
    obtain ⟨w, hen, rfl⟩ := system.step_env hstep
    exact ⟨ev, (World.env_same hen).events ▸ hev, rfl, rfl, rfl⟩

section Own

variable {c : State} {ps : List Progress} {i : Nat} {userId : Uuid} {dto : PurchaseFlashSaleDto}
  {price : Money} {s : Stage} {o : Stmt} {k : Except Err o.Reply → Service Response} {x : Choice}
  {reply : Except Err o.Reply} {w : World}

/-- What a contender has going for it when it issues a statement. -/
structure Provided (c : State) (i : Nat) (userId : Uuid) (dto : PurchaseFlashSaleDto) (price : Money)
    (s : Stage) : Prop where
  world : c.world.Ok
  active : c.world.active dto.eventId = true
  priced : c.world.Priced dto.eventId price
  informed : s.Informed c.world dto.eventId
  wallet : ∃ row ∈ c.world.wallets, row.userId = userId ∧
    (s.debited = false → price.cents ≤ row.balance.cents)
  undebited : s.debited = false → ∀ e ∈ c.world.ledger, e.type = .PURCHASE →
    e.referenceId ≠ FlashSaleService.walletReferenceId dto.eventId dto.idempotencyKey
  blank : s.blank = true → (c.world.tx i).entries = []

/-- **A contender goes on well.** -/
theorem prospering_next (hp : Provided c i userId dto price s) (hx : x ≠ .fault)
    (h : Issues c ps i (.purchase userId dto) o k (.buying userId dto s) x reply w)
    (hs : s.Prospering c.world dto.eventId userId) :
    (s.next o reply).Prospering w dto.eventId userId := by
  have hserved := h.served
  have hevolves := World.Evolves.served hserved
  obtain ⟨hw, hactive, hprice, hinformed, ⟨row₀, hrow₀, huser₀, hfunds⟩, hundebited, hblank⟩ := hp
  have may : May userId dto s o := h.pre
  have hexec := h.exec
  clear h
  cases may with
  | readEvent =>
    obtain ⟨found, rfl⟩ := World.answered hx hexec rfl
    obtain ⟨rfl, rfl⟩ := hserved.of_read rfl (by simp)
    obtain ⟨ev, hev, hid, product, hproduct, hpid, -⟩ := hprice
    have hfound : c.world.event? dto.eventId = some ev := hid ▸ hw.event?_of_mem hev
    have hfound' : c.world.product? ev.productId = some product := hpid ▸ hw.product?_of_mem hproduct
    rw [hfound, Option.bind_some, hfound', Option.map_some]
    exact ⟨ev, hev, hid, rfl, rfl⟩
  | readClock ev price' =>
    obtain ⟨now, rfl⟩ := World.answered hx hexec rfl
    obtain ⟨-, rfl⟩ := hserved.of_read rfl (by simp)
    obtain ⟨ev', hev', hid, hstarts, hends⟩ := hs
    have hdates := List.all_eq_true.mp hactive ev' hev'
    simp only [hid, ne_eq, not_true_eq_false, decide_false, Bool.false_or, Bool.and_eq_true,
      decide_eq_true_eq] at hdates
    show ¬(c.world.clock < ev.startsAt ∨ c.world.clock > ev.endsAt)
    omega
  | findWallet price' orderId =>
    obtain ⟨found, rfl⟩ := World.answered hx hexec rfl
    obtain ⟨-, rfl⟩ := hserved.of_read rfl (by simp)
    rw [← huser₀, hw.walletOf?_of_mem hrow₀]
    exact hevolves.owns _ _ (World.owns_of_mem hrow₀)
  | lock price' orderId wallet =>
    obtain ⟨found, rfl⟩ := World.answered hx hexec rfl
    obtain ⟨rfl, -⟩ := hserved.of_lock
    obtain ⟨row, hrow, hid, huser⟩ := World.Owns.row hs
    obtain rfl := hw.wallet_ext_user hrow hrow₀ (huser.trans huser₀.symm)
    rw [← hid, hw.wallet?_of_mem hrow]
    refine ⟨hevolves.owns _ _ (huser ▸ World.owns_of_mem hrow), ?_⟩
    -- the price it was told is the price it is asked to afford
    rw [hw.price_unique hinformed hprice]
    exact hfunds rfl
  | findDebit price' orderId row =>
    obtain ⟨found, rfl⟩ := World.answered hx hexec rfl
    rcases found with _ | _
    · exact ⟨hevolves.owns _ _ hs.1, hs.2⟩
    · trivial
  | refuse price' orderId row short => exact absurd hs.2 (Int.not_le.mpr short)
  | debit price' orderId row funds =>
    cases reply with
    | ok _ => exact ⟨hevolves.owns _ _ hs.1, hs.2⟩
    | error err =>
      obtain ⟨row', hfound, -⟩ := hs.1.found hw
      rcases World.refuses_of_error hx hexec with ⟨-, hmissing⟩ | ⟨-, hoverflow⟩
      · rw [hfound] at hmissing
        cases hmissing
      -- what the balance covers takes it nowhere near the bound of the column
      · exact absurd hoverflow (Nat.not_le.mpr (Decimal.minus_inColumn
          (World.Priced.nonneg hinformed) funds))
  | book price' orderId row =>
    cases reply with
    | ok _ => trivial
    | error err =>
      obtain ⟨row', hfound, -⟩ := hs.1.found hw
      rcases World.refuses_of_error hx hexec with ⟨-, hmissing⟩ | ⟨-, hoverflow⟩ | ⟨-, e', he', hkey⟩
      · rw [hfound] at hmissing
        cases hmissing
      · rcases hoverflow with hoverflow | hoverflow
        · have hcolumn := price'.inColumn
          simp only [Decimal.negated, Money.toDecimal, Int.natAbs_neg] at hoverflow
          omega
        · exact absurd hoverflow (Nat.not_le.mpr (Decimal.minus_inColumn
            (World.Priced.nonneg hinformed) hs.2))
      · rw [hblank rfl, List.append_nil] at he'
        simp only [LedgerEntry.key, Prod.mk.injEq] at hkey
        -- an entry under this key would be an earlier debit of the same purchase
        exact absurd hkey.2.1 (hundebited rfl e' he' hkey.2.2)
  | commit orderId =>
    obtain ⟨v, rfl⟩ := World.answered hx hexec rfl
    trivial
  | rollback | release | fail => exact hs.elim
  | confirm orderId =>
    rcases reply with err | v
    · cases err <;> trivial
    · trivial
  | find | poll | reread | reserve => rcases reply with _ | _ | _ <;> trivial
  | wait | drawId | announce | releaseTwice | releaseLate => cases reply <;> trivial

/-- Until it is charged, a purchase has entered nothing. -/
theorem blank_next (h : Issues c ps i (.purchase userId dto) o k (.buying userId dto s) x reply w)
    (hblank : s.blank = true → (c.world.tx i).entries = [])
    (hnext : (s.next o reply).blank = true) : (w.tx i).entries = [] := by
  have hs := h.served
  have hquiet : w.tx = c.world.tx → s.blank = true → (w.tx i).entries = [] :=
    fun htx hb => htx ▸ hblank hb
  have may : May userId dto s o := h.pre
  cases may with
  | debit =>
    have hb := hblank rfl
    cases hs with
    | updated => rw [World.setTx_self]; exact hb
    | _ => exact hb
  | find | readEvent | poll | readClock | wait | findWallet | findDebit =>
    cases hs <;> exact hblank rfl
  | reserve | drawId | lock => cases hs <;> exact hblank rfl
  | book => cases reply <;> cases hnext
  | commit => cases reply <;> cases hnext
  | refuse | rollback | release | releaseTwice | releaseLate | announce => cases reply <;> cases hnext
  | reread => rcases reply with _ | _ | _ <;> cases hnext
  | fail | confirm =>
    rcases reply with e | v
    · cases e <;> cases hnext
    · cases hnext

end Own

/-! ## The invariant -/

theorem newcoming_of_contending {e : Uuid} {n₀ : Nat} {buyers : List Uuid} {c : State} {l : Event}
    (h : contending e n₀ buyers c l) : newcoming e c l := h.1

/-- A newcomer with the money. -/
structure Contender (tr : Trace) (c : State) (i : Nat) (userId : Uuid) (dto : PurchaseFlashSaleDto)
    (s : Stage) : Prop where
  newcomer : Newcomer tr c i userId dto s
  prospering : s.Prospering c.world dto.eventId userId
  blank : s.blank = true → (c.world.tx i).entries = []

/-- What holds of a stage's event and wallet goes on holding. -/
theorem Stage.Prospering.mono {c c' : State} {l : Event} {e userId : Uuid} {s : Stage}
    (h : s.Prospering c.world e userId) (hw : c.world.Ok) (hstep : system.step c l = some c') :
    s.Prospering c'.world e userId := by
  have hevolves := evolves_of_step hstep
  cases s with
  | found ev price =>
    obtain ⟨ev', hev', hid, hstarts, hends⟩ := h
    obtain ⟨ev'', hev'', hid', hstarts', hends'⟩ := dates_of_step hw hstep hev'
    exact ⟨ev'', hev'', hid'.trans hid, hstarts'.trans hstarts, hends'.trans hends⟩
  | debiting price orderId wallet => exact hevolves.owns _ _ h
  | locked | unbilled | written => exact ⟨hevolves.owns _ _ h.1, h.2⟩
  | _ => exact h

section Run

variable {e : Uuid} {buyers : List Uuid} {price : Money} {c₀ c : State} {tr₀ tr : Trace}
  (h₀ : RunFrom State.initial viaApi tr₀ c₀)
include h₀

theorem contender_arrives (hrun : RunFrom c₀ (contending e c₀.calls.length buyers) tr c)
    {userId : Uuid} {dto : PurchaseFlashSaleDto}
    (hallowed : contending e c₀.calls.length buyers c (.arrive (.purchase userId dto)))
    (hevent : dto.eventId = e) :
    Contender (tr ++ [⟨c, .arrive (.purchase userId dto), system.arrive c (.purchase userId dto)⟩])
      (system.arrive c (.purchase userId dto)) c.calls.length userId dto .looking where
  newcomer := newcomer_arrives h₀ (fun _ _ => newcoming_of_contending) hrun hallowed hevent
  prospering := trivial
  blank _ := by
    obtain ⟨bs, hkept, -⟩ := kept_of_run (full_run h₀ (fun _ _ => newcoming_of_contending) hrun)
    show (c.world.tx c.calls.length).entries = []
    rw [(hkept.beyond _ le_rfl).1]
    rfl

theorem contender_stays (hrun : RunFrom c₀ (contending e c₀.calls.length buyers) tr c) {l : Event}
    {c' : State} (hstep : system.step c l = some c') {i : Nat} (hactor : l.actor ≠ some i)
    {userId : Uuid} {dto : PurchaseFlashSaleDto} {s : Stage} (hnew : c₀.calls.length ≤ i)
    (hevent : dto.eventId = e)
    (hcall : ∃ call, c.calls[i]? = some call ∧ call.request = .purchase userId dto)
    (h : Contender tr c i userId dto s) : Contender (tr ++ [⟨c, l, c'⟩]) c' i userId dto s :=
  have hok : ∀ c l, contending e c₀.calls.length buyers c l → newcoming e c l :=
    fun _ _ => newcoming_of_contending
  have hw := Reachable.worldOk ⟨_, full_run h₀ hok hrun⟩
  { newcomer := newcomer_stays h₀ hok hrun hstep hactor hnew hevent hcall h.newcomer
    prospering := h.prospering.mono hw hstep
    blank := fun hb => by rw [(rely_of_step hw hstep hactor).tx]; exact h.blank hb }

variable (hprice : c₀.world.Priced e price)
  (hfunds : ∀ u ∈ buyers, ∃ row ∈ c₀.world.wallets, row.userId = u ∧ price.cents ≤ row.balance.cents)
include hprice hfunds

/-- What a contender has going for it. -/
theorem contender_provided (hrun : RunFrom c₀ (contending e c₀.calls.length buyers) tr c)
    (hactive : c.world.active e = true) {i : Nat} {call : ServiceCall} {userId : Uuid}
    {dto : PurchaseFlashSaleDto} {s : Stage} (hnew : c₀.calls.length ≤ i) (hevent : dto.eventId = e)
    (hi : c.calls[i]? = some call) (hreq : call.request = .purchase userId dto)
    (h : Contender tr c i userId dto s) : Provided c i userId dto price s := by
  subst hevent
  have hok : ∀ c l, contending dto.eventId c₀.calls.length buyers c l → newcoming dto.eventId c l :=
    fun _ _ => newcoming_of_contending
  have hfull := full_run h₀ hok hrun
  have hbuys : call.request.buyer? dto.eventId = some userId :=
    Request.buyer?_eq_some.mpr ⟨dto, hreq, rfl⟩
  refine ⟨Reachable.worldOk ⟨_, hfull⟩, hactive, (evolves_of_run hrun).1.priced _ _ hprice,
    h.newcomer.informed, ?_, fun hd => undebited h₀ hok hrun hnew hi hreq rfl (h.newcomer.unpaid hd),
    h.blank⟩
  obtain ⟨row₀, hrow₀, rfl, henough⟩ := hfunds userId
    (contender_buyer hrun hnew (getElem?_requests hi) hbuys)
  obtain ⟨row, hrow, hid, huser⟩ :=
    ((evolves_of_run hrun).1.owns _ _ (World.owns_of_mem hrow₀)).row
  refine ⟨row, hrow, huser, fun hd => ?_⟩
  have hbalance := contender_balance hrun h₀ hi hnew hbuys hrow₀ rfl
  have hrow' : c.world.bank.balanceOf row.id = row.balance.cents :=
    (Reachable.bankOk ⟨_, hfull⟩).balanceOf_row hrow
  rw [h.newcomer.unpaid hd, ← hid, hrow'] at hbalance
  rw [hbalance]
  simpa [listing, sumAmounts, total] using henough

/-- **The purchases of the sale are contenders**, in every state of every run that nobody
disturbs. -/
theorem contender_staged :
    Staged (contending e c₀.calls.length buyers) c₀ fun tr c ps => ∀ i userId dto s,
      c₀.calls.length ≤ i ∧ dto.eventId = e → ps[i]? = some (.buying userId dto s) →
        Contender tr c i userId dto s :=
  .each _ (fun c i h => absurd h.1.1.1 (by simp [noFaults, Lib.Label.isFault]))
    (fun _ _ _ _ hrun hallowed hsel => contender_arrives h₀ hrun hallowed hsel.2)
    (fun _ _ _ _ _ _ _ _ hrun _ hstep hactor hsel hcall h =>
      contender_stays h₀ hrun hstep hactor hsel.1 hsel.2 hcall h)
    fun tr c ps i o k userId dto s x reply w hrun hallowed hsel hissues h => by
      have hprovided := contender_provided h₀ hprice hfunds hrun hallowed.2.2 hsel.1 hsel.2
        hissues.call rfl h
      have hx : x ≠ .fault := by
        rintro rfl
        cases hallowed.1.1.1
      exact
        { newcomer := newcomer_moves h₀ (fun _ _ => newcoming_of_contending) hrun hallowed hsel.1 hsel.2
            hissues h.newcomer
          prospering := prospering_next hprovided hx hissues h.prospering
          blank := blank_next hissues h.blank }

end Run

end FlashWallet
