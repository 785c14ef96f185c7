import FlashWallet.Proof.Audit
import FlashWallet.Proof.Runs
import FlashWallet.Proof.Staged

/-!
# Whose order a purchase reports

Orders are looked up by event and client key, never by user. A user whose key somebody else has
used on the same event is told of that order as if it were a replay of the user's own. (Transfers
put the user into the key.) In runs where no lookup meets a stranger's order, every purchase
reports an order of its own user: what it inserts is, and what it finds is.
-/

set_option autoImplicit false

namespace FlashWallet

open Lib

/-- Every order a purchase has reported belongs to the user who asked. -/
def OwnOrders (c : State) : Prop :=
  ∀ call ∈ c.calls, ∀ userId dto v, call.request = .purchase userId dto →
    call.result? = some (.ok (.purchased v)) →
      (∃ o ∈ c.world.orders, o.id = v.orderId) ∧
        ∀ o ∈ c.world.orders, o.id = v.orderId → o.userId = userId

/-- The step looks up, for a purchase of one user, an order of another. -/
def findsForeignOrder (c : State) : Event → Bool
  | .exec i .ok =>
    match requestOf? c (.exec i .ok), nextStmt? c (.exec i .ok) with
    | some (.purchase userId _), some (.orderFindUnique eventId key) =>
      (c.world.order? (eventId, key)).any fun o => o.userId ≠ userId
    | _, _ => false
  | _ => false

/-- The order a purchase is going to report. -/
def Stage.reported : Stage → Option Order
  | .seen o => some o
  | .sold o => some o
  | _ => none

/-- The reply hands over order `order`. -/
def HandsOver (order : Order) : (o : Stmt) → Except Err o.Reply → Prop
  | .orderFindUnique .., .ok (some o) => o = order
  | .orderCreate _, .ok o => o = order
  | _, _ => False

theorem reported_next {userId : Uuid} {dto : PurchaseFlashSaleDto} {s : Stage} {o : Stmt}
    (may : May userId dto s o) (r : Except Err o.Reply) {order : Order}
    (h : (s.next o r).reported = some order) : s.reported = some order ∨ HandsOver order o r := by
  cases may with
  | find | poll | reread =>
    rcases r with e | _ | found
    · cases h
    · cases h
    · exact Or.inr (Option.some.inj h)
  | confirm =>
    rcases r with e | v
    · cases e <;> cases h
    · exact Or.inr (Option.some.inj h)
  | fail =>
    rcases r with e | v
    · cases e <;> cases h
    · cases h
  | announce => cases r <;> exact Or.inl h
  | readEvent | findWallet | lock | findDebit | reserve => rcases r with _ | _ | _ <;> cases h
  | readClock | wait | drawId | refuse | debit | book | commit | rollback | release | releaseTwice
  | releaseLate => cases r <;> cases h

theorem mem_orders_of_handsOver {i : Nat} {w w' : World} {o : Stmt} {r : Except Err o.Reply}
    (hs : World.Served i w o r w') {order : Order} (h : HandsOver order o r) :
    order ∈ w'.orders := by
  cases o with
  | orderFindUnique eventId key =>
    rcases r with e | _ | found
    · exact h.elim
    · exact h.elim
    · obtain rfl : found = order := h
      generalize hr : (Except.ok (some found) : Except Err (Option Order)) = reply at hs
      cases hs with
      | read _ v answer =>
        cases hr
        exact (World.order?_eq_some (Option.some.inj answer)).1
  | orderCreate d =>
    cases r with
    | error e => exact h.elim
    | ok v =>
      obtain rfl : v = order := h
      generalize hr : (Except.ok v : Except Err Order) = reply at hs
      cases hs with
      | ordered d o event found shape freshId freshKey =>
        cases hr
        exact List.mem_append_right _ List.mem_cons_self
      | read _ _ answer => cases answer
  | _ => rcases r with _ | _ <;> exact h.elim

/-- What each purchase is going to report is its user's. -/
def Owned (w : World) (ps : List Progress) : Prop :=
  ∀ userId dto s, .buying userId dto s ∈ ps → ∀ o, s.reported = some o →
    o ∈ w.orders ∧ o.userId = userId

theorem Owned.mono {w w' : World} {ps : List Progress} (h : Owned w ps) (hw : w.Evolves w') :
    Owned w' ps := fun userId dto s hp o ho =>
  let ⟨hmem, hown⟩ := h userId dto s hp o ho
  ⟨hw.mem_orders hmem, hown⟩

/-- Without a foreign find, what is handed over to a purchase is its user's. -/
theorem own_of_handsOver {c : State} {i : Nat} {x : Choice} {userId : Uuid}
    {dto : PurchaseFlashSaleDto} {s : Stage} {o : Stmt} {k : Except Err o.Reply → Service Response}
    {r : Except Err o.Reply} {w : World}
    (hi : c.calls[i]? = some ⟨.purchase userId dto, .call (S := sql) o k, false⟩)
    (hexec : World.exec i o x c.world = some (r, w)) (may : May userId dto s o)
    (hown : findsForeignOrder c (.exec i x) = false) {order : Order} (h : HandsOver order o r) :
    order.userId = userId := by
  have hs := World.Served.of_exec hexec
  cases o with
  | orderFindUnique eventId key =>
    rcases r with e | _ | found
    · exact h.elim
    · exact h.elim
    · obtain rfl : found = order := h
      cases x with
      | ok =>
        have hfound : c.world.order? (eventId, key) = some found := by
          simp only [World.exec, World.serve, Option.some.injEq, Prod.mk.injEq] at hexec
          exact Except.ok.inj hexec.1
        have hreq : requestOf? c (.exec i .ok) = some (.purchase userId dto) := by
          simp [requestOf?, Lib.Label.actor, hi]
        have hnext : nextStmt? c (.exec i .ok) = some (.orderFindUnique eventId key) := by
          simp [nextStmt?, hi]
        simpa [findsForeignOrder, hreq, hnext, hfound] using hown
      | fault => cases hexec
      | lose => cases hexec
      | fresh id =>
        simp only [World.exec] at hexec
        split at hexec <;> cases hexec
  | orderCreate d =>
    cases r with
    | error e => exact h.elim
    | ok v =>
      obtain rfl : v = order := h
      have huser : v.userId = d.userId := hs.answers.2.1
      cases may <;> exact huser
  | _ => rcases r with _ | _ <;> exact h.elim

theorem owned_staged :
    Staged (fun c l => findsForeignOrder c l = false) State.initial fun _ c ps => Owned c.world ps where
  arrive _ c ps r _ _ h _ userId dto s hp o ho := by
    rcases List.mem_append.mp hp with hp | hp
    · exact h userId dto s hp o ho
    · cases r <;> cases List.mem_singleton.mp hp
      cases ho
  exec _ c ps i req o k p x reply w _ h hok hissues := by
    have hs := hissues.served
    intro userId dto s' hp order horder
    rcases List.mem_or_eq_of_mem_set hp with hp | heq
    · exact h.mono (.served hs) userId dto s' hp order horder
    · cases p with
      | other => cases heq
      | buying u d s =>
        cases heq
        rcases reported_next hissues.pre reply horder with hsame | hover
        · exact h.mono (.served hs) _ _ _ (List.mem_of_getElem? hissues.progress) order hsame
        · obtain rfl := Request.purchase?_eq_some.mp hissues.request.symm
          exact ⟨mem_orders_of_handsOver hs hover,
            own_of_handsOver hissues.call hissues.exec hissues.pre hok hover⟩
  crash _ _ _ _ _ _ _ _ _ h _ _ := h.mono (.release _ _)
  env _ _ _ _ _ _ _ h _ he := h.mono (.env he)

/-- **A caller gets its own order**, in every state of every run in which no purchase looks up a
stranger's order. -/
theorem own_orders {c : State} (h : Reachable (fun c l => findsForeignOrder c l = false) c) :
    OwnOrders c := by
  obtain ⟨tr, hrun⟩ := h
  obtain ⟨ps, howned, hrequested, ha⟩ :=
    owned_staged.sound_initial (fun _ _ _ h => absurd h List.not_mem_nil) hrun
  intro call hcall userId dto v hreq hresult
  obtain ⟨i, hi⟩ := List.mem_iff_getElem?.mp hcall
  obtain ⟨p, hp⟩ := ha.books hi
  have hpurchase : p.purchase? = call.request.purchase? := hrequested.same i call p hi hp
  have hanswer := ha.outcome hi hp hresult
  rw [hreq] at hpurchase hanswer
  cases p with
  | other => cases hpurchase
  | buying u d s =>
    cases hpurchase
    obtain ⟨r', houtcome, hr'⟩ := hanswer
    have hreported : ∃ o, s.reported = some o ∧ v.orderId = o.id := by
      cases houtcome with
      | seen o => cases hr'; exact ⟨o, rfl, rfl⟩
      | sold o => cases hr'; exact ⟨o, rfl, rfl⟩
      | _ => cases hr'
    obtain ⟨o, ho, hid⟩ := hreported
    obtain ⟨hmem, hown⟩ := howned _ _ _ (List.mem_of_getElem? hp) o ho
    refine ⟨⟨o, hmem, hid.symm⟩, fun o' ho' hid' => ?_⟩
    rw [(Reachable.worldOk ⟨tr, hrun⟩).order_ext_id ho' hmem (hid'.trans hid)]
    exact hown

section

open Sample

/-- Alice has bought the lamp under a key; Bob, who has not even a wallet, asks for one under the
same key. -/
def boughtByAnother : List Event := bought ++ [.arrive (.purchase bob lamp)] ++ runs 4 1

set_option maxRecDepth 4000 in
/-- Bob is told of Alice's order. -/
theorem foreign_order_boughtByAnother :
    Reachable calm (stateAfter State.initial boughtByAnother) ∧
      ¬OwnOrders (stateAfter State.initial boughtByAnother) := by
  refine ⟨calm_stateAfter boughtByAnother (by decide), fun h => ?_⟩
  have hcall : ((stateAfter State.initial boughtByAnother).calls.getLast?.map fun call =>
      (call.request, call.result?)) = some (.purchase bob lamp,
        some (.ok (.purchased (FlashSaleService.toOrderResult aliceOrder true)))) := by decide
  obtain ⟨call, hlast, hpair⟩ := Option.map_eq_some_iff.mp hcall
  obtain ⟨hreq, hresult⟩ := Prod.mk.inj hpair
  have horder : aliceOrder ∈ (stateAfter State.initial boughtByAnother).world.orders := by decide
  have hown := (h call (List.mem_of_getLast? hlast) bob lamp _ hreq hresult).2 aliceOrder horder rfl
  exact absurd hown (by decide)

set_option maxRecDepth 4000 in
theorem own_orders_bought :
    (stateAfter State.initial bought).calls.getLast?.bind (·.result?) =
        some (.ok (.purchased (FlashSaleService.toOrderResult aliceOrder false))) ∧
      OwnOrders (stateAfter State.initial bought) :=
  have hrun := run_stateAfter (fun c l => !findsForeignOrder c l) State.initial bought (by decide)
  ⟨by decide, own_orders ⟨_, hrun.mono fun _ _ h => by simpa using h⟩⟩

end

end FlashWallet
