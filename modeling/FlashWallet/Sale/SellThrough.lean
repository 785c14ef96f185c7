import FlashWallet.Proof.Contenders
import FlashWallet.Proof.Runs

/-!
# Selling through

An event with `S` units stays active, and `N` users who can pay ask for one unit each, under keys of
their own. However their calls interleave, `min N S` of them buy and the others are told that the
stock is exhausted: no unit is given back while nobody fails to pay, so what remains and what the
contenders have taken is always `S`, and nobody is refused before all of it is taken.
-/

set_option autoImplicit false

namespace FlashWallet

open Lib

/-- The purchases of event `e` that have arrived since `c₀`. -/
def contenders (e : Uuid) (c₀ c : State) : List ServiceCall :=
  (c.calls.drop c₀.calls.length).filter fun call => (call.request.buyer? e).isSome

/-- The call has returned a confirmed order, and not an earlier one. -/
def hasBought (call : ServiceCall) : Bool :=
  match call.result? with
  | some (.ok (.purchased r)) => r.status = .CONFIRMED && !r.replayed
  | _ => false

/-- The call has rejected with a `ConflictException`. -/
def hasConflict (call : ServiceCall) : Bool :=
  match call.result? with
  | some (.error (.conflict _)) => true
  | _ => false

/-! ## The stock -/

/-- The units of event `e` that a call has taken out of the stock for good. -/
def Progress.taken (e : Uuid) : Progress → Nat
  | .other => 0
  | .buying _ dto s => if dto.eventId = e then s.units + s.sales else 0

/-- What remains of the `S` units and what the calls from `n₀` on have taken is everything, and a unit
is refused to nobody while one remains. -/
structure Selling (S : Int) (e : Uuid) (n₀ : Nat) (c : State) (ps : List Progress) : Prop where
  total : c.world.remaining e + (((ps.drop n₀).map (Progress.taken e)).sum : Nat) = S
  nonneg : 0 ≤ c.world.remaining e
  refused : ∀ (i : Nat) userId dto, n₀ ≤ i → dto.eventId = e →
    ps[i]? = some (.buying userId dto .refused) → c.world.remaining e ≤ 0

/-- A contender gives nothing back. -/
theorem contender_keeps {tr : Trace} {c : State} {i : Nat} {userId : Uuid}
    {dto : PurchaseFlashSaleDto} {s : Stage} {o : Stmt} (may : May userId dto s o)
    (h : Contender tr c i userId dto s) : o.isRelease = false := by
  cases may with
  | release => exact h.prospering.elim
  | releaseTwice | releaseLate => exact h.newcomer.alone.elim
  | _ => rfl

/-- Whoever is refused a unit now was refused one before, or finds none. -/
theorem refused_next {c : State} {ps : List Progress} {i : Nat} {userId : Uuid}
    {dto : PurchaseFlashSaleDto} {s : Stage} {o : Stmt} {k : Except Err o.Reply → Service Response}
    {x : Choice} {reply : Except Err o.Reply} {w : World} (hw : c.world.Ok)
    (hpresent : ∃ ev ∈ c.world.events, ev.id = dto.eventId)
    (h : Issues c ps i (.purchase userId dto) o k (.buying userId dto s) x reply w)
    (hrefused : s.next o reply = .refused) : s = .refused ∨ c.world.remaining dto.eventId ≤ 0 := by
  have hs := h.served
  cases (h.pre : May userId dto s o) with
  | reserve ev price now active =>
    rcases reply with _ | _ | _
    · cases hrefused
    · obtain ⟨ev', hev', hid⟩ := hpresent
      rw [← hid, hw.remaining_of_mem hev']
      exact Or.inr (World.refused_reserve hs hev' hid)
    · cases hrefused
  | poll => exact Or.inl rfl
  | wait => exact Or.inl rfl
  | find | reread | readEvent | findWallet | lock | findDebit =>
    rcases reply with _ | _ | _ <;> cases hrefused
  | fail | confirm =>
    rcases reply with e | v
    · cases e <;> cases hrefused
    · cases hrefused
  | _ => cases reply <;> cases hrefused

theorem taken_start (e : Uuid) (r : Request) : (Progress.start r).taken e = 0 := by
  cases r <;> simp [Progress.start, Progress.taken, Stage.units, Stage.sales]

/-- Two totals over the calls from `n₀` on, before and after a step of call `i`. -/
theorem taken_set {e : Uuid} {ps : List Progress} {i n₀ : Nat} {p p' : Progress}
    (hp : ps[i]? = some p) (hsame : i < n₀ → p'.taken e = p.taken e) :
    (((ps.set i p').drop n₀).map (Progress.taken e)).sum + p.taken e =
      ((ps.drop n₀).map (Progress.taken e)).sum + p'.taken e := by
  by_cases hi : i < n₀
  · rw [List.drop_set_of_lt hi, hsame hi]
  · have hdrop : (ps.drop n₀)[i - n₀]? = some p := by
      rw [List.getElem?_drop, Nat.add_sub_cancel' (Nat.not_lt.mp hi)]
      exact hp
    rw [List.drop_set, if_neg hi]
    exact Platform.sum_map_set _ p' hdrop

/-- A step that lets `d` units go from the stock to the call that takes it. -/
theorem Selling.moves {S : Int} {e : Uuid} {n₀ : Nat} {c : State} {ps : List Progress}
    (h : Selling S e n₀ c ps) {i : Nat} {p p' : Progress} (hp : ps[i]? = some p)
    (hsame : i < n₀ → p'.taken e = p.taken e) {w : World} {calls : List ServiceCall}
    (hstock : w.remaining e + p'.taken e = c.world.remaining e + p.taken e)
    (hless : w.remaining e ≤ c.world.remaining e) (hnonneg : 0 ≤ w.remaining e)
    (hrefused : ∀ userId dto, n₀ ≤ i → dto.eventId = e → p' = .buying userId dto .refused →
      c.world.remaining e ≤ 0) : Selling S e n₀ ⟨w, calls⟩ (ps.set i p') where
  total := by
    have htotal := h.total
    have hsum := taken_set hp hsame
    dsimp only
    omega
  nonneg := hnonneg
  refused j userId dto hj hevent hq := by
    have hbefore : c.world.remaining e ≤ 0 := by
      rcases Platform.getElem?_set_cases hq with ⟨rfl, hp'⟩ | ⟨-, hq⟩
      · exact hrefused userId dto hj hevent hp'.symm
      · exact h.refused j userId dto hj hevent hq
    exact le_trans hless hbefore

/-- A call that is no contender moves no stock of the event. -/
theorem bystander_stock {e : Uuid} {p : Progress} {o : Stmt} {reply : Except Err o.Reply}
    (hpre : purchasing.pre o p) (hother : ∀ userId dto s, p = .buying userId dto s → dto.eventId ≠ e) :
    delta e o reply = 0 ∧ p.taken e = 0 ∧ (p.next o reply).taken e = 0 := by
  cases p with
  | other => exact ⟨(stock_of_ordinary hpre reply).1, rfl, rfl⟩
  | buying userId dto s =>
    have he := hother userId dto s rfl
    exact ⟨(stock_of_other hpre he reply).1, if_neg he, if_neg he⟩

section Run

variable {e : Uuid} {buyers : List Uuid} {price : Money} {c₀ c : State} {tr₀ tr : Trace} {S : Int}

/-- **No unit is wasted**, in every state of every run that nobody disturbs. -/
theorem selling_staged (h₀ : RunFrom State.initial viaApi tr₀ c₀) (hprice : c₀.world.Priced e price)
    (hfunds : ∀ u ∈ buyers,
      ∃ row ∈ c₀.world.wallets, row.userId = u ∧ price.cents ≤ row.balance.cents) :
    Staged (contending e c₀.calls.length buyers) c₀ fun tr c ps =>
      (∀ i userId dto s, c₀.calls.length ≤ i ∧ dto.eventId = e →
        ps[i]? = some (.buying userId dto s) → Contender tr c i userId dto s) ∧
      Selling S e c₀.calls.length c ps :=
  have hcontender := contender_staged h₀ hprice hfunds
  have hok : ∀ c l, contending e c₀.calls.length buyers c l → newcoming e c l :=
    fun _ _ => newcoming_of_contending
  { arrive := fun tr c ps r hrun hreq h hallowed => by
      refine ⟨hcontender.arrive tr c ps r hrun hreq h.1 hallowed, ⟨?_, h.2.nonneg, ?_⟩⟩
      · have hlen : c₀.calls.length ≤ ps.length := hreq.length ▸ (system.keeps_of_run hrun).1.length_le
        rw [List.drop_append_of_le_length hlen, List.map_append, List.sum_append]
        show c.world.remaining e + _ = S
        simpa [taken_start] using h.2.total
      · intro i userId dto hi hevent hp
        rcases Platform.getElem?_concat_cases hp with ⟨-, hstart⟩ | hp
        · cases r <;> cases hstart
        · exact h.2.refused i userId dto hi hevent hp
    exec := fun tr c ps i req o k p x reply w hrun h hallowed hissues => by
      have hafter := hcontender.exec tr c ps i req o k p x reply w hrun h.1 hallowed hissues
      have hw := Reachable.worldOk ⟨_, full_run h₀ hok hrun⟩
      obtain ⟨ev, hev, hid, -⟩ := (evolves_of_run hrun).1.priced _ _ hprice
      have hpresent : ∃ ev ∈ c.world.events, ev.id = e := ⟨ev, hev, hid⟩
      have hremaining := World.remaining_served hw hissues.served hpresent
      have hnonneg := World.remaining_nonneg_served hw hissues.served hpresent h.2.nonneg
      refine ⟨hafter, ?_⟩
      by_cases hbuys : ∃ userId dto s, p = .buying userId dto s ∧ dto.eventId = e
      · obtain ⟨userId, dto, s, rfl, rfl⟩ := hbuys
        obtain rfl := Request.purchase?_eq_some.mp hissues.request.symm
        -- A purchase of the event that acts has arrived since: it is a contender.
        have hnew : c₀.calls.length ≤ i := by
          have hquiet := hallowed.2.1
          simpa [disturbs, hissues.call, Request.buyer?, Request.purchase?] using hquiet
        have hcont := h.1 i userId dto s ⟨hnew, rfl⟩ hissues.progress
        have hlt := (List.getElem?_eq_some_iff.mp hissues.progress).1
        have hcont' := hafter i userId dto _ ⟨hnew, rfl⟩ (List.getElem?_set_self hlt)
        have hstock := (stock_next hw hissues hcont.newcomer.alone hcont.newcomer.informed
          hcont'.newcomer.alone dto.eventId).1
        have hdelta := delta_nonpos (e := dto.eventId) (r := reply) (contender_keeps hissues.pre hcont)
        refine h.2.moves hissues.progress (fun hold => absurd hold (Nat.not_lt.mpr hnew)) ?_ ?_ hnonneg
          fun userId' dto' hi hevent hp' => ?_
        · simp only [Progress.taken, Progress.next, if_true] at hstock ⊢
          omega
        · omega
        · injection hp' with huser hdto hrefused
          rcases refused_next hw hpresent hissues hrefused with rfl | hnone
          · exact h.2.refused i userId dto hnew rfl hissues.progress
          · exact hnone
      · have hother : ∀ userId dto s, p = .buying userId dto s → dto.eventId ≠ e :=
          fun userId dto s hp he => hbuys ⟨userId, dto, s, hp, he⟩
        obtain ⟨hdelta, hp, hp'⟩ : delta e o reply = 0 ∧ p.taken e = 0 ∧ (p.next o reply).taken e = 0 :=
          bystander_stock hissues.pre hother
        refine h.2.moves hissues.progress (fun _ => hp'.trans hp.symm) ?_ ?_ hnonneg
          fun userId dto _ hevent hrefused => ?_
        · omega
        · omega
        · cases p with
          | other => cases hrefused
          | buying u d s =>
            injection hrefused with huser hdto hstage
            exact absurd (hdto ▸ hevent) (hother u d s rfl)
    crash := fun _ c _ i _ _ _ _ _ _ hallowed _ =>
      absurd hallowed.1.1.1 (by simp [noFaults, Lib.Label.isFault])
    env := fun tr c ps en w hrun hreq h hallowed he => by
      have hsame : w.remaining e = c.world.remaining e := by
        rw [World.remaining, World.event?, (World.env_same he).events]
        rfl
      refine ⟨hcontender.env tr c ps en w hrun hreq h.1 hallowed he, ?_, ?_, fun i userId dto hi hevent hp => ?_⟩
      · rw [hsame]; exact h.2.total
      · rw [hsame]; exact h.2.nonneg
      · rw [hsame]; exact h.2.refused i userId dto hi hevent hp }

end Run

/-! ## The endings -/

/-- The stages at which a contender's call ends. -/
inductive Ending (call : ServiceCall) : Stage → Prop where
  | bought (o : Order) (bought : hasBought call = true) (noConflict : hasConflict call = false) :
      Ending call (.sold o)
  | turnedAway (notBought : hasBought call = false) (conflict : hasConflict call = true) :
      Ending call .refused

/-- **A contender that has ended has bought, or was told that there is no unit left.** -/
theorem contender_ending {tr : Trace} {c : State} {i : Nat} {userId : Uuid}
    {dto : PurchaseFlashSaleDto} {s : Stage} {call : ServiceCall} {r : Except Err Response}
    (h : Contender tr c i userId dto s) (hr : call.result? = some r)
    (hanswer : purchasingAnswer call.request r (.buying userId dto s)) : Ending call s := by
  obtain ⟨r', houtcome, rfl⟩ := hanswer
  cases houtcome with
  | sold o =>
    have hstatus : o.status = .CONFIRMED := h.newcomer.alone.2.1
    exact .bought o (by simp [hasBought, hr, Except.map, FlashSaleService.toOrderResult, hstatus])
      (by simp [hasConflict, hr, Except.map])
  | exhausted =>
    exact .turnedAway (by simp [hasBought, hr, Except.map]) (by simp [hasConflict, hr, Except.map])
  | seen | broken => exact h.newcomer.alone.elim
  | noEvent | failed => exact h.prospering.elim
  | inactive ev price now hinactive => exact absurd hinactive h.prospering

/-- Every contender has ended. -/
structure Over (S : Int) (e : Uuid) (tr : Trace) (c₀ c : State) (ps : List Progress) : Prop where
  selling : Selling S e c₀.calls.length c ps
  requested : Requested c.calls ps
  ended : ∀ (i : Nat) call userId dto, c₀.calls.length ≤ i → c.calls[i]? = some call →
    call.request = .purchase userId dto → dto.eventId = e →
    ∃ s, ps[i]? = some (.buying userId dto s) ∧ Contender tr c i userId dto s ∧ Ending call s

section

variable {S : Int} {e : Uuid} {tr : Trace} {c₀ c : State} {ps : List Progress} {call : ServiceCall}

theorem mem_contenders : call ∈ contenders e c₀ c ↔
    ∃ (i : Nat) (userId : Uuid) (dto : PurchaseFlashSaleDto), c₀.calls.length ≤ i ∧
      c.calls[i]? = some call ∧ call.request = .purchase userId dto ∧ dto.eventId = e := by
  constructor
  · intro h
    obtain ⟨hmem, hbuys⟩ := List.mem_filter.mp h
    obtain ⟨userId, hbuyer⟩ := Option.isSome_iff_exists.mp hbuys
    obtain ⟨dto, hreq, hevent⟩ := Request.buyer?_eq_some.mp hbuyer
    obtain ⟨j, hj⟩ := List.mem_iff_getElem?.mp hmem
    rw [List.getElem?_drop] at hj
    exact ⟨_, userId, dto, Nat.le_add_right _ _, hj, hreq, hevent⟩
  · rintro ⟨i, userId, dto, hi, hcall, hreq, hevent⟩
    refine List.mem_filter.mpr ⟨List.mem_of_getElem? (i := i - c₀.calls.length) ?_, ?_⟩
    · rw [List.getElem?_drop, Nat.add_sub_cancel' hi]
      exact hcall
    · rw [Request.buyer?_eq_some.mpr ⟨dto, hreq, hevent⟩]
      rfl

/-- The contenders that have bought are the units taken. -/
theorem Over.bought_eq (h : Over S e tr c₀ c ps) : (contenders e c₀ c).countP hasBought =
    ((ps.drop c₀.calls.length).map (Progress.taken e)).sum := by
  rw [List.countP_eq_length_filter, contenders, List.filter_filter, Platform.length_filter_eq_sum]
  refine congrArg List.sum (Platform.map_eq_of_places
    (by simp [h.requested.length]) fun j call p hcall hp => ?_)
  rw [List.getElem?_drop] at hcall hp
  have hsame : p.purchase? = call.request.purchase? := h.requested.same _ call p hcall hp
  cases p with
  | other =>
    have hno : call.request.buyer? e = none := by rw [Request.buyer?, ← hsame]; rfl
    simp [hno, Progress.taken]
  | buying userId dto s =>
    have hreq : call.request = .purchase userId dto := Request.purchase?_eq_some.mp hsame.symm
    by_cases hevent : dto.eventId = e
    · obtain ⟨s', hp', -, hending⟩ := h.ended _ call userId dto (Nat.le_add_right _ _) hcall hreq hevent
      obtain rfl : s = s' := by
        have := hp.symm.trans hp'
        simpa using this
      rw [Request.buyer?_eq_some.mpr ⟨dto, hreq, hevent⟩]
      cases hending with
      | bought o bought => simp [bought, Progress.taken, hevent, Stage.units, Stage.sales]
      | turnedAway notBought => simp [notBought, Progress.taken, Stage.units, Stage.sales]
    · have hno : call.request.buyer? e = none := by
        simp [Request.buyer?, hreq, Request.purchase?, hevent]
      simp [hno, Progress.taken, hevent]

/-- The others were turned away. -/
theorem Over.conflicts_eq (h : Over S e tr c₀ c ps) :
    (contenders e c₀ c).length =
      (contenders e c₀ c).countP hasBought + (contenders e c₀ c).countP hasConflict := by
  rw [List.length_eq_countP_add_countP hasBought]
  refine congrArg _ (List.countP_congr fun call hcall => ?_)
  obtain ⟨i, userId, dto, hi, hcall, hreq, hevent⟩ := mem_contenders.mp hcall
  obtain ⟨s, -, -, hending⟩ := h.ended i call userId dto hi hcall hreq hevent
  cases hending with
  | bought o bought noConflict => simp [bought, noConflict]
  | turnedAway notBought conflict => simp [notBought, conflict]

/-- If anybody was turned away, nothing remains. -/
theorem Over.exhausted (h : Over S e tr c₀ c ps)
    (hconflict : 0 < (contenders e c₀ c).countP hasConflict) : c.world.remaining e = 0 := by
  obtain ⟨call, hcall, hconflict⟩ := List.countP_pos_iff.mp hconflict
  obtain ⟨i, userId, dto, hi, hcall, hreq, hevent⟩ := mem_contenders.mp hcall
  obtain ⟨s, hp, -, hending⟩ := h.ended i call userId dto hi hcall hreq hevent
  cases hending with
  | bought o bought noConflict => rw [hconflict] at noConflict; cases noConflict
  | turnedAway => exact le_antisymm (h.selling.refused i userId dto hi hevent hp) h.selling.nonneg

end

/-- The sale of `S` units at `price` is over: what became of its contenders. -/
structure SoldThrough (S : Nat) (e : Uuid) (price : Money) (c₀ c : State) : Prop where
  bought : (contenders e c₀ c).countP hasBought = min (contenders e c₀ c).length S
  conflicts : (contenders e c₀ c).countP hasConflict =
    (contenders e c₀ c).length - min (contenders e c₀ c).length S
  remaining : c.world.remaining e = S - (min (contenders e c₀ c).length S : Nat)
  debits : ∀ call ∈ contenders e c₀ c, ∀ userId, call.request.buyer? e = some userId →
    ∀ row₀ ∈ c₀.world.wallets, row₀.userId = userId → ∃ row ∈ c.world.wallets, row.id = row₀.id ∧
      row.balance.cents = row₀.balance.cents - if hasBought call then price.cents else 0

section Run

variable {e : Uuid} {buyers : List Uuid} {price : Money} {c₀ c : State} {tr₀ tr : Trace}

/-- What a contender's balance has become. -/
theorem contender_debited (h₀ : RunFrom State.initial viaApi tr₀ c₀)
    (hprice : c₀.world.Priced e price) (hrun : RunFrom c₀ (contending e c₀.calls.length buyers) tr c)
    {i : Nat} {call : ServiceCall} {userId : Uuid} {dto : PurchaseFlashSaleDto} {s : Stage}
    (hnew : c₀.calls.length ≤ i) (hi : c.calls[i]? = some call)
    (hreq : call.request = .purchase userId dto) (hevent : dto.eventId = e)
    (h : Contender tr c i userId dto s) {row₀ : Wallet} (hrow₀ : row₀ ∈ c₀.world.wallets)
    (huser : row₀.userId = userId) :
    ∃ row ∈ c.world.wallets, row.id = row₀.id ∧
      row.balance.cents = row₀.balance.cents - if s.debited then price.cents else 0 := by
  subst huser hevent
  have hreach : Reachable viaApi c₀ := ⟨tr₀, h₀⟩
  have hw := (hreach.run hrun).worldOk
  obtain ⟨row, hrow, hid, huser⟩ := ((evolves_of_run hrun).1.owns _ _ (World.owns_of_mem hrow₀)).row
  refine ⟨row, hrow, hid, ?_⟩
  have hbalance := contender_balance hrun h₀ hi hnew
    (Request.buyer?_eq_some.mpr ⟨dto, hreq, rfl⟩) hrow₀ rfl
  have hsame : c.world.bank.balanceOf row.id = row.balance.cents :=
    (hreach.run hrun).bankOk.balanceOf_row hrow
  rw [← hid, hsame] at hbalance
  rw [hbalance]
  cases hd : s.debited with
  | false => simp [h.newcomer.unpaid hd, listing, sumAmounts, total]
  | true =>
    obtain ⟨entry, price', hbooked, -, howns, hprice', hamount⟩ := h.newcomer.paid hd
    obtain ⟨row', hrow', hid', huser'⟩ := howns.row
    obtain rfl := hw.wallet_ext_user hrow' hrow (huser'.trans huser.symm)
    obtain rfl := hw.price_unique hprice' ((evolves_of_run hrun).1.priced _ _ hprice)
    simp [hbooked, listing, sumAmounts, total, hid', hamount, sub_eq_add_neg]

/-- When the contenders have returned, their sale is over. -/
theorem over_of_ended {S : Int} (h₀ : RunFrom State.initial viaApi tr₀ c₀)
    (hprice : c₀.world.Priced e price) (hstock : c₀.world.remaining e = S) (hnonneg : 0 ≤ S)
    (hfunds : ∀ u ∈ buyers,
      ∃ row ∈ c₀.world.wallets, row.userId = u ∧ price.cents ≤ row.balance.cents)
    (hrun : RunFrom c₀ (contending e c₀.calls.length buyers) tr c)
    (hended : ∀ call ∈ contenders e c₀ c, call.result?.isSome = true) :
    ∃ ps, Over S e tr c₀ c ps := by
  obtain ⟨ps₀, hrequested₀, ha₀⟩ := stages_of_run h₀
  have hold : ∀ {i : Nat} {p : Progress}, c₀.calls.length ≤ i → ps₀[i]? ≠ some p := fun hi hp => by
    have hlt := (List.getElem?_eq_some_iff.mp hp).1
    have := hrequested₀.length
    omega
  have hstart : Selling S e c₀.calls.length c₀ ps₀ :=
    { total := by
        rw [List.drop_of_length_le (le_of_eq hrequested₀.length), hstock]
        simp
      nonneg := hstock ▸ hnonneg
      refused := fun i userId dto hi _ hp => absurd hp (hold hi) }
  obtain ⟨ps, ⟨hcontender, hselling⟩, hrequested, ha⟩ := (selling_staged h₀ hprice hfunds).sound
    ⟨fun i userId dto s hsel hp => absurd hp (hold hsel.1), hstart⟩ hrequested₀ ha₀ hrun
  refine ⟨ps, hselling, hrequested, fun i call userId dto hi hcall hreq hevent => ?_⟩
  obtain ⟨p, hp⟩ := ha.books hcall
  have hsame : p.purchase? = call.request.purchase? := hrequested.same i call p hcall hp
  rw [hreq] at hsame
  cases p with
  | other => cases hsame
  | buying u d s =>
    cases hsame
    have hcont := hcontender i userId dto s ⟨hi, hevent⟩ hp
    obtain ⟨r, hr⟩ := Option.isSome_iff_exists.mp
      (hended call (mem_contenders.mpr ⟨i, userId, dto, hi, hcall, hreq, hevent⟩))
    exact ⟨s, hp, hcont, contender_ending hcont hr (ha.outcome hcall hp hr)⟩

end Run

/-- **The sell-through law.** From any state clients may have led to, an event with `S` units is sold
to users who ask once each under keys of their own, who have the price, and whose wallets nobody else
touches; the event stays active, and nothing fails. Once the `N` calls have returned, `min N S` of them
have bought, the others were told that the stock is exhausted, `S - min N S` units remain, and who has
bought, and nobody else, was debited the price. -/
theorem sell_through {e : Uuid} {buyers : List Uuid} {price : Money} {S : Nat} {c₀ c : State}
    {tr : Trace} (h₀ : Reachable viaApi c₀) (hprice : c₀.world.Priced e price)
    (hstock : c₀.world.remaining e = S)
    (hfunds : ∀ u ∈ buyers,
      ∃ row ∈ c₀.world.wallets, row.userId = u ∧ price.cents ≤ row.balance.cents)
    (hrun : RunFrom c₀ (contending e c₀.calls.length buyers) tr c)
    (hended : ∀ call ∈ contenders e c₀ c, call.result?.isSome = true) :
    SoldThrough S e price c₀ c := by
  obtain ⟨tr₀, hrun₀⟩ := h₀
  obtain ⟨ps, hover⟩ := over_of_ended hrun₀ hprice hstock (Int.natCast_nonneg S) hfunds hrun hended
  have htotal := hover.selling.total
  have hnonneg := hover.selling.nonneg
  have hcount := hover.conflicts_eq
  have hexhausted := hover.exhausted
  rw [← hover.bought_eq] at htotal
  refine ⟨?_, ?_, ?_, fun call hcall userId hbuyer row₀ hrow₀ huser => ?_⟩
  · omega
  · omega
  · omega
  · obtain ⟨i, u, dto, hi, hcall, hreq, hevent⟩ := mem_contenders.mp hcall
    obtain ⟨s, -, hcontender, hending⟩ := hover.ended i call u dto hi hcall hreq hevent
    obtain ⟨dto', hreq', -⟩ := Request.buyer?_eq_some.mp hbuyer
    cases hreq.symm.trans hreq'
    have hdebited : s.debited = hasBought call := by
      cases hending with
      | bought o bought => exact bought.symm
      | turnedAway notBought => exact notBought.symm
    rw [← hdebited]
    exact contender_debited hrun₀ hprice hrun hi hcall hreq hevent hcontender hrow₀ huser

section

open Sample

/-- A sale of one unit, and Alice and Bob with ten units of money each. -/
def doors : State := stateAfter State.initial (openSale 0 ++ register 1 alice aliceWallet ++
  register 2 bob bobWallet ++ fund 3 alice id₁ ++ fund 4 bob id₂)

/-- Both see the unit, Alice gets it, Bob looks five times for an order of his and gives up. -/
def rushed : List Event :=
  [.arrive (.purchase alice lamp), .arrive (.purchase bob vase)] ++ runs 5 3 ++ runs 6 3 ++ runs 5 1 ++
    runs 6 10 ++ [.exec 5 (.fresh id₃)] ++ runs 5 8

set_option maxRecDepth 8000 in
theorem sell_through_rushed :
    (contenders sale doors (stateAfter doors rushed)).length = 2 ∧
      SoldThrough 1 sale product.price doors (stateAfter doors rushed) :=
  have hrun := run_stateAfter (fun c l => !l.isFault && !l.isBareDebit && !asksAgain sale c l &&
    !disturbs sale doors.calls.length [alice, bob] c l && c.world.active sale) doors rushed (by decide)
  have hprice : ∃ ev ∈ doors.world.events, ev.id = sale ∧ ∃ p ∈ doors.world.products,
      p.id = ev.productId ∧ p.price = product.price := by decide
  have hfunds : ∀ u ∈ [alice, bob], ∃ row ∈ doors.world.wallets,
      row.userId = u ∧ product.price.cents ≤ row.balance.cents := by decide
  ⟨by decide, sell_through ((calm_stateAfter _ (by decide)).mono fun _ _ h => h.2)
    hprice (by decide) hfunds (hrun.mono fun _ _ h => by
      simpa [contending, newcoming, calm, noFaults, viaApi, and_assoc] using h) (by decide)⟩

end

end FlashWallet
