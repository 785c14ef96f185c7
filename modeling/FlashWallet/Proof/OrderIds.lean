import FlashWallet.Proof.Evolves
import FlashWallet.Proof.Staged

/-!
# An order is refused for its key alone

`orderCreate` answers a unique violation for a taken identifier as it does for a taken
`(eventId, idempotencyKey)`. The first never happens: an order's identifier is drawn by its own
call, used in one insert, and known to nobody else until then. Nor is the event ever missing: the
purchase has read it, and events are not deleted.
-/

set_option autoImplicit false

namespace FlashWallet

open Lib

/-- The identifier drawn for an order that is not written yet. -/
def Stage.pending : Stage → Option Uuid
  | .settling _ orderId => some orderId
  | .debiting _ orderId _ => some orderId
  | .locked _ orderId _ => some orderId
  | .unbilled _ orderId _ => some orderId
  | .written _ orderId _ => some orderId
  | .charged orderId => some orderId
  | .failing orderId _ => some orderId
  | .unpaid orderId _ => some orderId
  | .returned orderId _ => some orderId
  | .paid orderId => some orderId
  | _ => none

def Progress.pending : Progress → Option Uuid
  | .other => none
  | .buying _ _ stage => stage.pending

/-- The reply hands over identifier `id`. -/
def Draws (id : Uuid) : (o : Stmt) → Except Err o.Reply → Prop
  | .randomUUID, .ok drawn => drawn = id
  | _, _ => False

/-- A reply makes no identifier pending but one it has drawn, and an insert leaves none. -/
theorem pending_next {userId : Uuid} {dto : PurchaseFlashSaleDto} {s : Stage} {o : Stmt}
    (may : May userId dto s o) (r : Except Err o.Reply) {id : Uuid}
    (h : (s.next o r).pending = some id) : s.pending = some id ∨ Draws id o r := by
  cases may with
  | drawId price =>
    cases r with
    | ok drawn => exact Or.inr (Option.some.inj h)
    | error e => cases h
  | findWallet | lock | findDebit => rcases r with e | _ | v <;> exact Or.inl h
  | refuse | debit | book | commit | rollback => cases r <;> exact Or.inl h
  | release =>
    cases r with
    | ok _ => exact Or.inl h
    | error _ => cases h
  | find | readEvent | poll | reread => rcases r with e | _ | v <;> cases h
  | reserve => rcases r with e | _ | _ <;> cases h
  | readClock | wait | releaseTwice | releaseLate | announce => cases r <;> cases h
  | fail | confirm =>
    rcases r with e | v
    · cases e <;> cases h
    · cases h

theorem pending_orderCreate {userId : Uuid} {dto : PurchaseFlashSaleDto} {s : Stage} {d : NewOrder}
    (may : May userId dto s (.orderCreate d)) :
    s.pending = some d.id ∧ ∀ r, (s.next (.orderCreate d) r).pending = none := by
  cases may with
  | fail orderId err =>
    refine ⟨rfl, fun r => ?_⟩
    rcases r with e | v
    · cases e <;> rfl
    · rfl
  | confirm orderId =>
    refine ⟨rfl, fun r => ?_⟩
    rcases r with e | v
    · cases e <;> rfl
    · rfl

theorem World.drawn_served {i : Nat} {w w' : World} {o : Stmt} {r : Except Err o.Reply}
    (hs : Served i w o r w') {id : Uuid} (h : id ∈ w.drawn) : id ∈ w'.drawn := by
  cases hs with
  | drew | walletCreated | eventCreated => exact List.mem_cons_of_mem _ h
  | _ => exact h

theorem World.drawn_env {e : Env} {w w' : World} (he : e.run w = some w') {id : Uuid}
    (h : id ∈ w.drawn) : id ∈ w'.drawn := by
  cases e with
  | tick ms => cases he; exact h
  | evict key => cases he; exact h
  | seedProduct p =>
    simp only [Env.run] at he
    split at he
    · cases he
    · cases he
      exact List.mem_cons_of_mem _ h

theorem World.draws_served {i : Nat} {w w' : World} {o : Stmt} {r : Except Err o.Reply}
    (hs : Served i w o r w') {id : Uuid} (h : Draws id o r) :
    id ∉ w.drawn ∧ w' = { w with drawn := id :: w.drawn } := by
  cases o with
  | randomUUID =>
    cases r with
    | error e => exact h.elim
    | ok drawn =>
      obtain rfl : drawn = id := h
      cases hs with
      | read _ _ answer => cases answer
      | drew _ fresh => exact ⟨fresh, rfl⟩
  | _ => cases r <;> exact h.elim

/-- What a statement adds to the orders. -/
theorem World.orders_served {i : Nat} {w w' : World} {o : Stmt} {r : Except Err o.Reply}
    (hs : Served i w o r w') :
    w'.orders = w.orders ∨ ∃ d order, o = .orderCreate d ∧ w'.orders = w.orders ++ [order] ∧
      order = ⟨d.id, d.userId, d.flashSaleEventId, d.status, d.idempotencyKey, w.clock⟩ := by
  cases hs with
  | ordered d order event found shape => exact Or.inr ⟨d, order, rfl, rfl, shape⟩
  | _ => exact Or.inl rfl

/-- Pending identifiers are drawn, unused, and each known to one call. -/
structure Unused (c : State) (ps : List Progress) : Prop where
  written : ∀ o ∈ c.world.orders, o.id ∈ c.world.drawn
  unused : ∀ (i : Nat) (p : Progress), ps[i]? = some p → ∀ id, p.pending = some id →
    id ∈ c.world.drawn ∧ ∀ o ∈ c.world.orders, o.id ≠ id
  distinct : ∀ (i j : Nat) (p p' : Progress), ps[i]? = some p → ps[j]? = some p' →
    ∀ id, p.pending = some id → p'.pending = some id → i = j

theorem Unused.initial : Unused State.initial [] where
  written := by simp [State.initial, World.initial]
  unused := by simp
  distinct := by simp

theorem pending_start (r : Request) : (Progress.start r).pending = none := by cases r <;> rfl

/-- A step that writes no order. -/
theorem Unused.quiet {c : State} {ps : List Progress} (h : Unused c ps) {w : World}
    {calls : List ServiceCall} (horders : w.orders = c.world.orders)
    (hdrawn : ∀ id ∈ c.world.drawn, id ∈ w.drawn) : Unused ⟨w, calls⟩ ps where
  written o ho := hdrawn _ (h.written o (horders ▸ ho))
  unused i p hp id hid :=
    let ⟨hin, hnot⟩ := h.unused i p hp id hid
    ⟨hdrawn id hin, fun o ho => hnot o (horders ▸ ho)⟩
  distinct := h.distinct

/-- The books of one call change, and make nothing pending that was not. -/
theorem Unused.forget {c : State} {ps : List Progress} (h : Unused c ps) {i : Nat} {p p' : Progress}
    (hp : ps[i]? = some p) (hpending : ∀ id, p'.pending = some id → p.pending = some id) :
    Unused c (ps.set i p') where
  written := h.written
  unused j q hq id hid := by
    rcases Platform.getElem?_set_cases hq with ⟨rfl, rfl⟩ | ⟨-, hq⟩
    · exact h.unused j p hp id (hpending id hid)
    · exact h.unused j q hq id hid
  distinct j k q q' hq hq' id hid hid' := by
    rcases Platform.getElem?_set_cases hq with ⟨rfl, rfl⟩ | ⟨-, hj⟩ <;>
      rcases Platform.getElem?_set_cases hq' with ⟨rfl, rfl⟩ | ⟨-, hk⟩
    · rfl
    · exact h.distinct j k p q' hp hk id (hpending id hid) hid'
    · exact h.distinct j k q p hj hp id hid (hpending id hid')
    · exact h.distinct j k q q' hj hk id hid hid'

/-- A fresh identifier becomes pending. -/
theorem Unused.draw {c : State} {ps : List Progress} (h : Unused c ps) {i : Nat} {p' : Progress}
    {id : Uuid} (hfresh : id ∉ c.world.drawn) (hpending : p'.pending = some id) {w : World}
    {calls : List ServiceCall} (horders : w.orders = c.world.orders)
    (hdrawn : w.drawn = id :: c.world.drawn) : Unused ⟨w, calls⟩ (ps.set i p') where
  written o ho := by
    rw [hdrawn]
    exact List.mem_cons_of_mem _ (h.written o (horders ▸ ho))
  unused j q hq id' hid' := by
    rw [hdrawn, horders]
    rcases Platform.getElem?_set_cases hq with ⟨rfl, rfl⟩ | ⟨-, hq⟩
    · obtain rfl := Option.some.inj (hpending.symm.trans hid')
      exact ⟨List.mem_cons_self, fun o ho heq => hfresh (heq ▸ h.written o ho)⟩
    · obtain ⟨hin, hnot⟩ := h.unused j q hq id' hid'
      exact ⟨List.mem_cons_of_mem _ hin, hnot⟩
  distinct j k q q' hq hq' id' hid hid' := by
    rcases Platform.getElem?_set_cases hq with ⟨rfl, rfl⟩ | ⟨-, hj⟩ <;>
      rcases Platform.getElem?_set_cases hq' with ⟨rfl, rfl⟩ | ⟨-, hk⟩
    · rfl
    · obtain rfl := Option.some.inj (hpending.symm.trans hid)
      exact absurd (h.unused k q' hk id hid').1 hfresh
    · obtain rfl := Option.some.inj (hpending.symm.trans hid')
      exact absurd (h.unused j q hj id hid).1 hfresh
    · exact h.distinct j k q q' hj hk id' hid hid'

/-- The pending identifier of one call is written. -/
theorem Unused.write {c : State} {ps : List Progress} (h : Unused c ps) {i : Nat} {p p' : Progress}
    (hp : ps[i]? = some p) {order : Order} (hpending : p.pending = some order.id)
    (hgone : p'.pending = none) {w : World} {calls : List ServiceCall}
    (horders : w.orders = c.world.orders ++ [order])
    (hdrawn : ∀ id ∈ c.world.drawn, id ∈ w.drawn) : Unused ⟨w, calls⟩ (ps.set i p') where
  written o ho := by
    rcases List.mem_append.mp (horders ▸ ho) with ho | ho
    · exact hdrawn _ (h.written o ho)
    · rw [List.mem_singleton.mp ho]
      exact hdrawn _ (h.unused i p hp order.id hpending).1
  unused j q hq id hid := by
    rcases Platform.getElem?_set_cases hq with ⟨rfl, rfl⟩ | ⟨hij, hq⟩
    · rw [hgone] at hid; cases hid
    · obtain ⟨hin, hnot⟩ := h.unused j q hq id hid
      refine ⟨hdrawn id hin, fun o ho heq => ?_⟩
      rcases List.mem_append.mp (horders ▸ ho) with ho | ho
      · exact hnot o ho heq
      · rw [List.mem_singleton.mp ho] at heq
        exact hij (h.distinct j i q p hq hp id hid (hpending.trans (congrArg some heq)))
  distinct := (h.forget hp fun id hid => by rw [hgone] at hid; cases hid).distinct

theorem unused_staged (ok : State → Event → Prop) : Staged ok State.initial fun _ => Unused where
  arrive _ c ps r _ _ h _ :=
    { written := h.written
      unused := fun i p hp id hid => by
        rcases Platform.getElem?_concat_cases hp with ⟨-, rfl⟩ | hp
        · rw [pending_start] at hid; cases hid
        · exact h.unused i p hp id hid
      distinct := fun i j p p' hp hp' id hid hid' => by
        rcases Platform.getElem?_concat_cases hp with ⟨-, rfl⟩ | hp
        · rw [pending_start] at hid; cases hid
        · rcases Platform.getElem?_concat_cases hp' with ⟨-, rfl⟩ | hp'
          · rw [pending_start] at hid'; cases hid'
          · exact h.distinct i j p p' hp hp' id hid hid' }
  exec _ c ps i r o k p x reply w _ h _ hissues := by
    have hs := hissues.served
    have hp := hissues.progress
    have hpre := hissues.pre
    have hquiet : w.orders = c.world.orders →
        (∀ id, (p.next o reply).pending = some id → p.pending = some id) →
        Unused ⟨w, c.calls.set i ⟨r, k reply, false⟩⟩ (ps.set i (p.next o reply)) :=
      fun horders hpending => (h.forget hp hpending).quiet horders fun _ hid => World.drawn_served hs hid
    cases p with
    | other =>
      refine hquiet ?_ fun id hid => by cases hid
      rcases World.orders_served hs with horders | ⟨d, order, rfl, -⟩
      · exact horders
      · exact hpre.elim
    | buying userId dto s =>
      by_cases hdraws : ∃ id, (s.next o reply).pending = some id ∧ Draws id o reply
      · obtain ⟨id, hpending, hdraws⟩ := hdraws
        obtain ⟨hfresh, rfl⟩ := World.draws_served hs hdraws
        refine h.draw hfresh ?_ rfl rfl
        exact hpending
      · rcases World.orders_served hs with horders | ⟨d, order, rfl, horders, hshape⟩
        · exact hquiet horders fun id hid =>
            (pending_next hpre _ hid).resolve_right fun h => hdraws ⟨id, hid, h⟩
        · obtain ⟨hpending, hgone⟩ := pending_orderCreate hpre
          refine h.write hp ?_ ?_ horders fun _ hid => World.drawn_served hs hid
          · rw [hshape]
            exact hpending
          · exact hgone reply
  crash _ _ _ _ _ _ _ _ _ h _ _ := h.quiet rfl fun _ hid => hid
  env _ _ _ _ _ _ _ h _ he := h.quiet (World.env_same he).orders fun _ hid => World.drawn_env he hid

/-- When a call is about to insert an order, no row has its identifier. -/
theorem orderId_unused {ok : State → Event → Prop} {tr : Trace} {c : State}
    (hrun : RunFrom State.initial ok tr c) {i : Nat} {r : Request} {d : NewOrder}
    {k : Except Err Order → Service Response}
    (hi : c.calls[i]? = some ⟨r, .call (S := sql) (.orderCreate d) k, false⟩) :
    ∀ o ∈ c.world.orders, o.id ≠ d.id := by
  obtain ⟨ps, h, -, ha⟩ := (unused_staged ok).sound_initial .initial hrun
  obtain ⟨p, hp⟩ := ha.books hi
  have hpre := (ha.keeps i _ p hi hp rfl).1
  cases p with
  | other => exact hpre.elim
  | buying userId dto s => exact (h.unused i _ hp d.id (pending_orderCreate hpre).1).2

/-! ## The event is there -/

/-- What a purchase has read of its event is true, and stays true. -/
def Stage.Informed (w : World) (e : Uuid) : Stage → Prop
  | .found _ price | .timed _ price _ | .held price | .settling price _ | .debiting price _ _
  | .locked price _ _ | .unbilled price _ _ | .written price _ _ => w.Priced e price
  | .charged _ | .failing .. | .unpaid .. | .returned .. | .paid _ => ∃ price, w.Priced e price
  | _ => True

theorem Stage.Informed.mono {w w' : World} {e : Uuid} {s : Stage} (h : s.Informed w e)
    (hw : w.Evolves w') : s.Informed w' e := by
  cases s with
  | found | timed | held | settling | debiting | locked | unbilled | written =>
    exact hw.priced _ _ h
  | charged | failing | unpaid | returned | paid => exact h.imp fun price hp => hw.priced _ _ hp
  | _ => trivial

theorem informed_next {i : Nat} {w w' : World} {userId : Uuid} {dto : PurchaseFlashSaleDto}
    {s : Stage} {o : Stmt} {r : Except Err o.Reply} (may : May userId dto s o)
    (h : s.Informed w dto.eventId) (hs : World.Served i w o r w') :
    (s.next o r).Informed w' dto.eventId := by
  refine Stage.Informed.mono ?_ (World.Evolves.served hs)
  cases may with
  | readEvent =>
    rcases r with e | _ | ⟨ev, product⟩
    · trivial
    · trivial
    · generalize hr : (Except.ok (some (ev, product)) :
        Except Err (Option (FlashSaleEvent × Product))) = reply at hs
      cases hs with
      | read o v answer =>
        cases hr
        obtain ⟨ev', hev, hmap⟩ := Option.bind_eq_some_iff.mp (Option.some.inj answer)
        obtain ⟨product', hproduct, heq⟩ := Option.map_eq_some_iff.mp hmap
        cases heq
        obtain ⟨hev, hid⟩ := World.event?_eq_some hev
        obtain ⟨hproduct, hpid⟩ := World.product?_eq_some hproduct
        exact ⟨ev, hev, hid, product, hproduct, hpid, rfl⟩
  | readClock | drawId | wait | announce | releaseTwice | releaseLate => cases r <;> first | exact h | trivial
  | find | poll | reread | reserve => rcases r with _ | _ | _ <;> first | exact h | trivial
  | findWallet | lock | findDebit => rcases r with _ | _ | _ <;> first | exact h | exact ⟨_, h⟩
  | refuse | debit | book | commit | rollback => cases r <;> first | exact h | exact ⟨_, h⟩
  | release => cases r <;> first | exact h | trivial
  | fail | confirm =>
    rcases r with e | _
    · cases e <;> trivial
    · trivial

def Informed (w : World) (ps : List Progress) : Prop :=
  ∀ userId dto s, .buying userId dto s ∈ ps → s.Informed w dto.eventId

theorem informed_staged (ok : State → Event → Prop) :
    Staged ok State.initial fun _ c ps => Informed c.world ps where
  arrive _ c ps r _ _ h _ userId dto s hp := by
    rcases List.mem_append.mp hp with hp | hp
    · exact h userId dto s hp
    · cases r <;> cases List.mem_singleton.mp hp
      trivial
  exec _ c ps i r o k p x reply w _ h _ hissues userId dto s hp := by
    rcases List.mem_or_eq_of_mem_set hp with hp | heq
    · exact (h userId dto s hp).mono (.served hissues.served)
    · cases p with
      | other => cases heq
      | buying u d s' =>
        cases heq
        exact informed_next hissues.pre (h _ _ _ (List.mem_of_getElem? hissues.progress)) hissues.served
  crash _ _ _ _ _ _ _ _ _ h _ _ userId dto s hp := (h userId dto s hp).mono (.release _ _)
  env _ _ _ _ _ _ _ h _ he userId dto s hp := (h userId dto s hp).mono (.env he)

/-- **An order is refused only because its key is taken.** While nothing fails, an insert writes the
row, or finds another row under its key and changes nothing. -/
theorem order_written_or_taken {ok : State → Event → Prop} {tr : Trace} {c : State}
    (hrun : RunFrom State.initial ok tr c) {i : Nat} {req : Request} {d : NewOrder}
    {k : Except Err Order → Service Response} {x : Choice} {reply : Except Err Order} {w : World}
    (hi : c.calls[i]? = some ⟨req, .call (S := sql) (.orderCreate d) k, false⟩)
    (hexec : World.exec i (.orderCreate d) x c.world = some (reply, w)) (hx : x ≠ .fault) :
    x = .ok ∧
      ((c.world.order? (d.flashSaleEventId, d.idempotencyKey) = none ∧ ∃ order, reply = .ok order ∧
          order = ⟨d.id, d.userId, d.flashSaleEventId, d.status, d.idempotencyKey, c.world.clock⟩ ∧
          w = { c.world with orders := c.world.orders ++ [order] }) ∨
        ((c.world.order? (d.flashSaleEventId, d.idempotencyKey)).isSome ∧
          reply = .error .uniqueViolation ∧ w = c.world)) := by
  cases x with
  | fault => exact absurd rfl hx
  | lose => cases hexec
  | fresh id =>
    simp only [World.exec] at hexec
    split at hexec <;> cases hexec
  | ok =>
    refine ⟨rfl, ?_⟩
    obtain ⟨ps, hinformed, -, ha⟩ := (informed_staged ok).sound_initial
      (fun _ _ _ h => absurd h List.not_mem_nil) hrun
    obtain ⟨p, hp⟩ := ha.books hi
    have hevent : (c.world.event? d.flashSaleEventId).isNone = false := by
      have hpre := (ha.keeps i _ p hi hp rfl).1
      cases p with
      | other => exact hpre.elim
      | buying userId dto s =>
        have hpriced := hinformed userId dto s (List.mem_of_getElem? hp)
        have hmem : ∃ price, c.world.Priced d.flashSaleEventId price := by cases hpre <;> exact hpriced
        obtain ⟨price, ev, hev, hid, -⟩ := hmem
        rw [← hid, (Reachable.worldOk ⟨tr, hrun⟩).event?_of_mem hev]
        rfl
    have hid : d.id ∉ c.world.orders.map Order.id := fun hmem => by
      obtain ⟨o, ho, heq⟩ := List.mem_map.mp hmem
      exact orderId_unused hrun hi o ho heq
    simp only [World.exec, World.serve, World.orderCreate, hevent, hid, if_false,
      Bool.false_eq_true] at hexec
    split at hexec
    · rename_i htaken
      cases hexec
      refine Or.inr ⟨?_, rfl, rfl⟩
      obtain ⟨o, ho, hkey⟩ := List.mem_map.mp htaken
      exact Option.isSome_iff_ne_none.mpr fun hnone => World.order?_eq_none.mp hnone o ho hkey
    · rename_i hfree
      cases hexec
      refine Or.inl ⟨World.order?_eq_none.mpr fun o ho hkey => hfree (List.mem_map.mpr ⟨o, ho, hkey⟩),
        _, rfl, rfl, rfl⟩

end FlashWallet
