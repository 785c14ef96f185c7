import FlashWallet.Proof.OrderIds

/-!
# The stock of a sale, unit by unit

A unit of an event is in one of three places: it remains, a purchase holds it, or an order has
confirmed it. `delta` and `sells` say what a reply moves out of the first place and into the third;
`accounting` is the purchase's side of the same movement. The two sides agree at every stage but
one, `twice`, where a unit is given back that nobody holds.
-/

set_option autoImplicit false

namespace FlashWallet

open Lib

/-- What a reply adds to the remaining stock of event `e`. -/
def delta (e : Uuid) : (o : Stmt) → Except Err o.Reply → Int
  | .reserveUnit e', .ok true => if e' = e then -1 else 0
  | .releaseUnit e', .ok _ => if e' = e then 1 else 0
  | _, _ => 0

/-- Only a release adds to a stock. -/
def Stmt.isRelease : Stmt → Bool
  | .releaseUnit _ => true
  | _ => false

theorem delta_nonpos {e : Uuid} {o : Stmt} {r : Except Err o.Reply} (h : o.isRelease = false) :
    delta e o r ≤ 0 := by
  unfold delta
  split
  · split <;> omega
  · cases h
  · exact le_refl _

theorem delta_release_of_ne {e e' : Uuid} {r : Except Err Unit} (h : e' ≠ e) :
    delta e (.releaseUnit e') r = 0 := by
  cases r with
  | ok _ => exact if_neg h
  | error _ => rfl

/-- How many units of event `e` a reply confirms. -/
def sells (e : Uuid) : (o : Stmt) → Except Err o.Reply → Nat
  | .orderCreate d, .ok _ => if d.flashSaleEventId = e ∧ d.status = .CONFIRMED then 1 else 0
  | _, _ => 0

/-- The remaining stock of event `e`, zero if there is no such event. -/
def World.remaining (w : World) (e : Uuid) : Int := ((w.event? e).map (·.remaining)).getD 0

/-- The confirmed orders of event `e`. -/
def World.confirmed (w : World) (e : Uuid) : Nat :=
  (w.orders.filter fun o => o.flashSaleEventId = e ∧ o.status = .CONFIRMED).length

/-! ## The purchase's side -/

/-- The units a purchase holds at a stage. -/
def Stage.units : Stage → Nat
  | .held _ | .settling .. | .debiting .. | .locked .. | .unbilled .. | .written .. | .charged _
  | .failing .. | .unpaid .. | .paid _ | .late => 1
  | _ => 0

/-- The units it has sold. -/
def Stage.sales : Stage → Nat
  | .sold _ => 1
  | _ => 0

def Progress.units (e : Uuid) : Progress → Nat
  | .other => 0
  | .buying _ dto stage => if dto.eventId = e then stage.units else 0

/-- The purchase is not about to give a unit back a second time. -/
def Progress.Regular : Progress → Prop
  | .buying _ _ .twice => False
  | _ => True

/-- The call is not stuck on a failure. -/
def Progress.Sound : Progress → Prop
  | .buying _ _ (.broken _) => False
  | _ => True

/-- What a reply takes out of the remaining stock, the purchase holds or has sold; it loses a unit
only when it gets stuck. -/
theorem accounting_stage {userId : Uuid} {dto : PurchaseFlashSaleDto} {s : Stage} {o : Stmt}
    (may : May userId dto s o) (hs : s ≠ .twice) (r : Except Err o.Reply) :
    ((s.next o r).units : Int) + delta dto.eventId o r + sells dto.eventId o r = s.units ∨
      (∃ err, s.next o r = .broken err) ∧ delta dto.eventId o r = 0 ∧ sells dto.eventId o r = 0 := by
  cases may with
  | releaseTwice => exact absurd rfl hs
  | find | readEvent | poll | reread | findWallet | lock | findDebit =>
    rcases r with e | _ | v <;> exact Or.inl rfl
  | readClock | wait | refuse | debit | book | commit | rollback | announce =>
    cases r <;> exact Or.inl rfl
  | drawId =>
    cases r with
    | ok _ => exact Or.inl rfl
    | error e => exact Or.inr ⟨⟨e, rfl⟩, rfl, rfl⟩
  | reserve =>
    rcases r with e | _ | _
    · exact Or.inl rfl
    · exact Or.inl rfl
    · exact Or.inl (by simp [Stage.next, Stage.onReserveUnit, Stage.units, delta, sells])
  | release | releaseLate =>
    cases r with
    | ok _ => exact Or.inl (by simp [Stage.next, Stage.onReleaseUnit, Stage.units, delta, sells])
    | error e => exact Or.inr ⟨⟨e, rfl⟩, rfl, rfl⟩
  | fail =>
    rcases r with e | v
    · cases e <;> exact Or.inl rfl
    · exact Or.inl (by simp [Stage.next, Stage.onOrderCreate, Stage.units, delta, sells])
  | confirm =>
    rcases r with e | v
    · cases e <;> first | exact Or.inl rfl | exact Or.inr ⟨⟨_, rfl⟩, rfl, rfl⟩
    · exact Or.inl (by simp [Stage.next, Stage.onOrderCreate, Stage.units, delta, sells])

theorem sales_next {userId : Uuid} {dto : PurchaseFlashSaleDto} {s : Stage} {o : Stmt}
    (may : May userId dto s o) (r : Except Err o.Reply) :
    (s.next o r).sales = s.sales + sells dto.eventId o r := by
  cases may with
  | find | readEvent | poll | reread | findWallet | lock | findDebit | reserve =>
    rcases r with e | _ | v <;> rfl
  | fail =>
    rcases r with e | v
    · cases e <;> rfl
    · simp [Stage.next, Stage.onOrderCreate, Stage.sales, sells]
  | confirm =>
    rcases r with e | v
    · cases e <;> rfl
    · simp [Stage.next, Stage.onOrderCreate, Stage.sales, sells]
  | _ => cases r <;> rfl

/-- A purchase moves no stock of other events. -/
theorem stock_of_other {userId : Uuid} {dto : PurchaseFlashSaleDto} {s : Stage} {o : Stmt} {e : Uuid}
    (may : May userId dto s o) (he : dto.eventId ≠ e) (r : Except Err o.Reply) :
    delta e o r = 0 ∧ sells e o r = 0 := by
  cases may with
  | reserve =>
    rcases r with _ | _ | _
    · exact ⟨rfl, rfl⟩
    · exact ⟨rfl, rfl⟩
    · exact ⟨if_neg he, rfl⟩
  | release | releaseTwice | releaseLate =>
    cases r with
    | ok _ => exact ⟨if_neg he, rfl⟩
    | error _ => exact ⟨rfl, rfl⟩
  | fail | confirm =>
    cases r with
    | ok _ => exact ⟨rfl, if_neg fun h => he h.1⟩
    | error _ => exact ⟨rfl, rfl⟩
  | find | readEvent | poll | reread | findWallet | lock | findDebit =>
    rcases r with _ | _ | _ <;> exact ⟨rfl, rfl⟩
  | readClock | wait | drawId | refuse | debit | book | commit | rollback | announce =>
    cases r <;> exact ⟨rfl, rfl⟩

/-- A call that is no purchase moves no stock. -/
theorem stock_of_ordinary {o : Stmt} {e : Uuid} (h : Ordinary o) (r : Except Err o.Reply) :
    delta e o r = 0 ∧ sells e o r = 0 := by
  cases o with
  | reserveUnit | releaseUnit | orderCreate => exact h.elim
  | _ => rcases r with _ | _ <;> exact ⟨rfl, rfl⟩

/-- **The accounting of a call**: of every event, what its statement takes out of the remaining
stock it holds or has sold, unless it is stuck; and it never holds or sells more. -/
theorem accounting (e : Uuid) {p : Progress} {o : Stmt} (hpre : purchasing.pre o p) (hp : p.Regular)
    (r : Except Err o.Reply) :
    ((p.next o r).units e : Int) + delta e o r + sells e o r ≤ p.units e ∧
      ((p.next o r).Sound →
        ((p.next o r).units e : Int) + delta e o r + sells e o r = p.units e) := by
  cases p with
  | other =>
    obtain ⟨hd, hs⟩ := stock_of_ordinary (e := e) hpre r
    simp [Progress.next, Progress.units, hd, hs]
  | buying userId dto s =>
    by_cases he : dto.eventId = e
    · subst he
      have hstage : s ≠ .twice := by rintro rfl; exact hp
      simp only [Progress.next, Progress.units]
      rcases accounting_stage hpre hstage r with heq | ⟨⟨err, hbroken⟩, hd, hs⟩
      · exact ⟨le_of_eq heq, fun _ => heq⟩
      · rw [hbroken, hd, hs]
        exact ⟨by simp [Stage.units], fun h => h.elim⟩
    · obtain ⟨hd, hs⟩ := stock_of_other hpre he r
      simp [Progress.next, Progress.units, he, hd, hs]

/-! ## The world's side -/

namespace World

variable {i : Nat} {w w' : World} {o : Stmt} {r : Except Err o.Reply}

theorem confirmed_served (e : Uuid) (hs : Served i w o r w') :
    w'.confirmed e = w.confirmed e + sells e o r := by
  cases hs with
  | ordered d order event found shape freshId freshKey =>
    subst shape
    simp only [confirmed, sells, List.filter_append, List.length_append]
    by_cases h : d.flashSaleEventId = e ∧ d.status = .CONFIRMED
    · rw [if_pos h]
      simp [h]
    · rw [if_neg h]
      simp only [Nat.add_left_cancel_iff, List.length_eq_zero_iff, List.filter_eq_nil_iff]
      simpa using h
  | read o v answer => cases o <;> first | rfl | cases answer
  | failed o | refused o => cases o <;> rfl
  | _ => rfl

/-- Event `ev` after its remaining stock has changed by `d`. -/
structure Restocked (d : Int) (ev ev' : FlashSaleEvent) : Prop where
  id : ev'.id = ev.id
  productId : ev'.productId = ev.productId
  totalStock : ev'.totalStock = ev.totalStock
  startsAt : ev'.startsAt = ev.startsAt
  endsAt : ev'.endsAt = ev.endsAt
  remaining : ev'.remaining = ev.remaining + d
  nonneg : 0 ≤ ev.remaining → 0 ≤ ev'.remaining

theorem Restocked.refl (ev : FlashSaleEvent) : Restocked 0 ev ev :=
  ⟨rfl, rfl, rfl, rfl, rfl, by omega, fun h => h⟩

/-- What a reserved or refused unit does to the row. -/
theorem restocked_reserve (hw : w.Ok) (e : Uuid) {ev : FlashSaleEvent} (hev : ev ∈ w.events) :
    Restocked (delta ev.id (.reserveUnit e) (.ok (w.reserveUnit e).1)) ev
      (if ev.id = e ∧ 0 < ev.remaining then { ev with remaining := ev.remaining - 1 } else ev) := by
  by_cases hmatch : ev.id = e ∧ 0 < ev.remaining
  · have hreply : (w.reserveUnit e).1 = true := by
      simp only [reserveUnit, List.any_eq_true]
      exact ⟨ev, hev, by simpa using hmatch⟩
    rw [if_pos hmatch, hreply]
    exact ⟨rfl, rfl, rfl, rfl, rfl, by simp [delta, hmatch.1]; omega, fun _ => by
      show 0 ≤ ev.remaining - 1
      omega⟩
  · rw [if_neg hmatch]
    have hdelta : delta ev.id (.reserveUnit e) (.ok (w.reserveUnit e).1) = 0 := by
      cases hreply : (w.reserveUnit e).1 with
      | false => rfl
      | true =>
        refine if_neg fun heq => hmatch ⟨heq.symm, ?_⟩
        simp only [reserveUnit, List.any_eq_true] at hreply
        obtain ⟨ev', hev', hpos⟩ := hreply
        simp only [Bool.and_eq_true, decide_eq_true_eq] at hpos
        rw [hw.event_ext hev hev' (heq.symm.trans hpos.1.symm)]
        exact hpos.2
    rw [hdelta]
    exact .refl ev

/-- **The world's side.** Every event is still there, its remaining stock changed by what the reply
says, and what is new was opened by the statement. -/
theorem events_served (hw : w.Ok) (hs : Served i w o r w') :
    (∀ ev ∈ w.events, ∃ ev' ∈ w'.events, Restocked (delta ev.id o r) ev ev') ∧
      ∀ ev' ∈ w'.events, (∃ ev ∈ w.events, Restocked (delta ev.id o r) ev ev') ∨
        (∀ ev ∈ w.events, ev.id ≠ ev'.id) ∧ o = .flashSaleEventCreate ev'.productId ev'.totalStock
          ev'.remaining ev'.startsAt ev'.endsAt := by
  have hsame : w'.events = w.events → (∀ e, delta e o r = 0) →
      (∀ ev ∈ w.events, ∃ ev' ∈ w'.events, Restocked (delta ev.id o r) ev ev') ∧
      ∀ ev' ∈ w'.events, (∃ ev ∈ w.events, Restocked (delta ev.id o r) ev ev') ∨
        (∀ ev ∈ w.events, ev.id ≠ ev'.id) ∧ o = .flashSaleEventCreate ev'.productId ev'.totalStock
          ev'.remaining ev'.startsAt ev'.endsAt := fun hevents hdelta =>
    ⟨fun ev hev => ⟨ev, hevents ▸ hev, (hdelta ev.id).symm ▸ .refl ev⟩,
     fun ev hev => Or.inl ⟨ev, hevents ▸ hev, (hdelta ev.id).symm ▸ .refl ev⟩⟩
  cases hs with
  | reserved e =>
    refine ⟨fun ev hev => ⟨_, List.mem_map_of_mem hev, restocked_reserve hw e hev⟩, fun ev' hev' => ?_⟩
    obtain ⟨ev, hev, rfl⟩ := List.mem_map.mp hev'
    exact Or.inl ⟨ev, hev, restocked_reserve hw e hev⟩
  | released e =>
    have hrow : ∀ ev : FlashSaleEvent, Restocked (delta ev.id (.releaseUnit e) (.ok ())) ev
        (if ev.id = e then { ev with remaining := ev.remaining + 1 } else ev) := by
      intro ev
      by_cases hid : ev.id = e
      · rw [if_pos hid]
        exact ⟨rfl, rfl, rfl, rfl, rfl, by simp [delta, hid], fun h => by
          show 0 ≤ ev.remaining + 1
          omega⟩
      · rw [if_neg hid, show delta ev.id (.releaseUnit e) (.ok ()) = 0 from if_neg (Ne.symm hid)]
        exact .refl ev
    refine ⟨fun ev hev => ⟨_, List.mem_map_of_mem hev, hrow ev⟩, fun ev' hev' => ?_⟩
    obtain ⟨ev, hev, rfl⟩ := List.mem_map.mp hev'
    exact Or.inl ⟨ev, hev, hrow ev⟩
  | eventCreated productId totalStock remaining startsAt endsAt id product fresh found =>
    refine ⟨fun ev hev => ⟨ev, List.mem_append_left _ hev, .refl ev⟩, fun ev' hev' => ?_⟩
    rcases List.mem_append.mp hev' with hev' | hev'
    · exact Or.inl ⟨ev', hev', .refl ev'⟩
    · obtain rfl := List.mem_singleton.mp hev'
      refine Or.inr ⟨fun ev hev heq => fresh ?_, rfl⟩
      have hdrawn := hw.eventsDrawn ev hev
      rwa [heq] at hdrawn
  | read o v answer => exact hsame rfl fun e => by cases o <;> first | rfl | cases answer
  | failed o | refused o => exact hsame rfl fun e => by cases o <;> rfl
  | _ => exact hsame rfl fun e => rfl

theorem Ok.remaining_of_mem (hw : w.Ok) {ev : FlashSaleEvent} (hev : ev ∈ w.events) :
    w.remaining ev.id = ev.remaining := by
  rw [remaining, hw.event?_of_mem hev]
  rfl

theorem remaining_of_absent {e : Uuid} (hno : ∀ ev ∈ w.events, ev.id ≠ e) : w.remaining e = 0 := by
  rw [remaining, event?, List.find?_eq_none.mpr fun ev hev heq => hno ev hev (by simpa using heq)]
  rfl

/-- What a statement does to the remaining stock of an event that is there. -/
theorem remaining_served (hw : w.Ok) (hs : Served i w o r w') {e : Uuid}
    (hpresent : ∃ ev ∈ w.events, ev.id = e) : w'.remaining e = w.remaining e + delta e o r := by
  obtain ⟨ev, hev, rfl⟩ := hpresent
  obtain ⟨ev', hev', hrestocked⟩ := (events_served hw hs).1 ev hev
  rw [hw.remaining_of_mem hev, ← hrestocked.remaining, ← hrestocked.id,
    (hw.served hs).remaining_of_mem hev']

/-- No statement takes a unit that is not there. -/
theorem remaining_nonneg_served (hw : w.Ok) (hs : Served i w o r w') {e : Uuid}
    (hpresent : ∃ ev ∈ w.events, ev.id = e) (h : 0 ≤ w.remaining e) : 0 ≤ w'.remaining e := by
  obtain ⟨ev, hev, rfl⟩ := hpresent
  obtain ⟨ev', hev', hrestocked⟩ := (events_served hw hs).1 ev hev
  rw [hw.remaining_of_mem hev] at h
  rw [← hrestocked.id, (hw.served hs).remaining_of_mem hev']
  exact hrestocked.nonneg h

/-- A statement that opens no event does nothing to the stock of one that is not there. -/
theorem remaining_served_of_absent (hw : w.Ok) (hs : Served i w o r w') {e : Uuid}
    (hopen : ∀ productId totalStock remaining startsAt endsAt,
      o ≠ .flashSaleEventCreate productId totalStock remaining startsAt endsAt)
    (hno : ∀ ev ∈ w.events, ev.id ≠ e) : w'.remaining e = w.remaining e := by
  have hno' : ∀ ev' ∈ w'.events, ev'.id ≠ e := fun ev' hev' hid => by
    rcases (events_served hw hs).2 ev' hev' with ⟨ev, hev, hrestocked⟩ | ⟨-, hcreate⟩
    · exact hno ev hev (hrestocked.id.symm.trans hid)
    · exact hopen _ _ _ _ _ hcreate
  rw [remaining_of_absent hno, remaining_of_absent hno']

/-- No unit of an event comes out of nowhere. -/
theorem delta_nonneg_of_absent {e : Uuid} (hs : Served i w o r w') (hno : ∀ ev ∈ w.events, ev.id ≠ e) :
    0 ≤ delta e o r := by
  cases hs with
  | reserved e' =>
    cases hreply : (w.reserveUnit e').1 with
    | false => exact le_refl _
    | true =>
      simp only [reserveUnit, List.any_eq_true] at hreply
      obtain ⟨ev, hev, hid⟩ := hreply
      simp only [Bool.and_eq_true, decide_eq_true_eq] at hid
      have hother : e' ≠ e := fun heq => hno ev hev (hid.1.trans heq)
      exact le_of_eq (if_neg hother).symm
  | released e' => show 0 ≤ if e' = e then (1 : Int) else 0; split <;> omega
  | read o v answer => cases o <;> first | exact le_refl _ | cases answer
  | failed o | refused o => cases o <;> exact le_refl _
  | _ => exact le_refl _

/-- A unit is refused only when none remains. -/
theorem refused_reserve {e : Uuid} (hs : Served i w (.reserveUnit e) (.ok false) w')
    {ev : FlashSaleEvent} (hev : ev ∈ w.events) (hid : ev.id = e) : ev.remaining ≤ 0 := by
  generalize hr : (Except.ok false : Except Err (Stmt.reserveUnit e).Reply) = r at hs
  cases hs with
  | reserved =>
    have hreply : (w.reserveUnit e).1 = false := (Except.ok.inj hr).symm
    simp only [reserveUnit, List.any_eq_false] at hreply
    have := hreply ev hev
    simpa [hid] using this
  | read _ _ answer => cases answer
  | failed => cases hr
  | refused => cases hr

end World

/-! ## The two sides together -/

/-- The units of event `e` that purchases hold. -/
def heldUnits (e : Uuid) (ps : List Progress) : Nat := (ps.map (Progress.units e)).sum

/-- The units of event `e` are all accounted for, with equality while no call is stuck. -/
structure Stocked (e : Uuid) (w : World) (ps : List Progress) : Prop where
  regular : ∀ p ∈ ps, p.Regular
  nonneg : ∀ ev ∈ w.events, ev.id = e → 0 ≤ ev.remaining
  bounded : ∀ ev ∈ w.events, ev.id = e →
    ev.remaining + heldUnits e ps + w.confirmed e ≤ ev.totalStock
  exact : (∀ p ∈ ps, p.Sound) → ∀ ev ∈ w.events, ev.id = e →
    ev.remaining + heldUnits e ps + w.confirmed e = ev.totalStock
  unopened : (∀ ev ∈ w.events, ev.id ≠ e) → heldUnits e ps = 0 ∧ w.confirmed e = 0

theorem Stocked.initial (e : Uuid) : Stocked e World.initial [] where
  regular := by simp
  nonneg := by simp [World.initial]
  bounded := by simp [World.initial]
  exact := by simp [World.initial]
  unopened := by simp [heldUnits, World.confirmed, World.initial]

variable {e : Uuid} {w w' : World} {ps : List Progress} {p : Progress} {i : Nat} {o : Stmt}
  {r : Except Err o.Reply}

theorem Stocked.arrive (h : Stocked e w ps) (req : Request) :
    Stocked e w (ps ++ [Progress.start req]) := by
  have hunits : heldUnits e (ps ++ [Progress.start req]) = heldUnits e ps := by
    have hstart : (Progress.start req).units e = 0 := by
      cases req <;> simp [Progress.start, Progress.units, Stage.units]
    simp [heldUnits, hstart]
  refine ⟨fun p hp => ?_, h.nonneg, ?_, fun hsound => ?_, ?_⟩
  · rcases List.mem_append.mp hp with hp | hp
    · exact h.regular p hp
    · rw [List.mem_singleton.mp hp]
      cases req <;> trivial
  · rw [hunits]
    exact h.bounded
  · rw [hunits]
    exact h.exact fun p hp => hsound p (List.mem_append_left _ hp)
  · rw [hunits]
    exact h.unopened

theorem Stocked.env (h : Stocked e w ps) {en : Env} (hen : en.run w = some w') : Stocked e w' ps := by
  have hsame := World.env_same hen
  have hconfirmed : w'.confirmed e = w.confirmed e := by rw [World.confirmed, hsame.orders]; rfl
  refine ⟨h.regular, ?_, ?_, ?_, ?_⟩
  · rw [hsame.events]; exact h.nonneg
  · rw [hsame.events, hconfirmed]; exact h.bounded
  · rw [hsame.events, hconfirmed]; exact h.exact
  · rw [hsame.events, hconfirmed]; exact h.unopened

/-- A stuck call stays stuck. -/
theorem not_sound_next (hpre : purchasing.pre o p) (hp : ¬p.Sound) : ¬(p.next o r).Sound := by
  cases p with
  | other => exact absurd trivial hp
  | buying userId dto s =>
    cases s with
    | broken err => cases hpre
    | _ => exact absurd trivial hp

/-- Events are opened with their whole stock, by calls that hold nothing. -/
theorem opens {productId : Uuid} {totalStock remaining : Int} {startsAt endsAt : Nat}
    (hpre : purchasing.pre (.flashSaleEventCreate productId totalStock remaining startsAt endsAt) p) :
    remaining = totalStock ∧ 1 ≤ totalStock := by
  cases p with
  | other => exact hpre
  | buying userId dto s => cases hpre

/-- **A statement moves units and loses none.** -/
theorem Stocked.served (h : Stocked e w ps) (hw : w.Ok) (hp : ps[i]? = some p)
    (hpre : purchasing.pre o p) (hs : World.Served i w o r w') (hregular : (p.next o r).Regular) :
    Stocked e w' (ps.set i (p.next o r)) := by
  have hmem := List.mem_of_getElem? hp
  obtain ⟨hle, heq⟩ := accounting e hpre (h.regular p hmem) r
  have hsum := Platform.sum_map_set (Progress.units e) (p.next o r) hp
  have hconfirmed := World.confirmed_served e hs
  obtain ⟨hkept, hback⟩ := World.events_served hw hs
  change heldUnits e (ps.set i (p.next o r)) + _ = heldUnits e ps + _ at hsum
  -- A new event is this statement's doing: nothing of it was held or sold before.
  have hnew : ∀ ev' : FlashSaleEvent, ev'.id = e → (∀ ev ∈ w.events, ev.id ≠ ev'.id) →
      o = .flashSaleEventCreate ev'.productId ev'.totalStock ev'.remaining ev'.startsAt ev'.endsAt →
      ev'.remaining = ev'.totalStock ∧ 1 ≤ ev'.totalStock ∧
        heldUnits e (ps.set i (p.next o r)) = 0 ∧ w'.confirmed e = 0 := by
    rintro ev' rfl hfresh rfl
    obtain ⟨hheld, hsold⟩ := h.unopened hfresh
    obtain ⟨hwhole, hpositive⟩ := opens hpre
    have hd : delta ev'.id (.flashSaleEventCreate ev'.productId ev'.totalStock ev'.remaining
      ev'.startsAt ev'.endsAt) r = 0 := by cases r <;> rfl
    have hz : sells ev'.id (.flashSaleEventCreate ev'.productId ev'.totalStock ev'.remaining
      ev'.startsAt ev'.endsAt) r = 0 := by cases r <;> rfl
    refine ⟨hwhole, hpositive, ?_, ?_⟩ <;> omega
  refine ⟨fun q hq => ?_, fun ev' hev' hid => ?_, fun ev' hev' hid => ?_, fun hsound ev' hev' hid => ?_,
    fun hno => ?_⟩
  · rcases List.mem_or_eq_of_mem_set hq with hq | rfl
    · exact h.regular q hq
    · exact hregular
  · rcases hback ev' hev' with ⟨ev, hev, hrestocked⟩ | ⟨hfresh, hopen⟩
    · exact hrestocked.nonneg (h.nonneg ev hev (hrestocked.id ▸ hid))
    · obtain ⟨hwhole, hpositive, -⟩ := hnew ev' hid hfresh hopen
      omega
  · rcases hback ev' hev' with ⟨ev, hev, hrestocked⟩ | ⟨hfresh, hopen⟩
    · have hid' : ev.id = e := hrestocked.id.symm.trans hid
      have hbefore := h.bounded ev hev hid'
      have hremaining := hrestocked.remaining
      have htotal := hrestocked.totalStock
      rw [hid'] at hremaining
      omega
    · obtain ⟨hwhole, -, hheld, hsold⟩ := hnew ev' hid hfresh hopen
      omega
  · rcases hback ev' hev' with ⟨ev, hev, hrestocked⟩ | ⟨hfresh, hopen⟩
    · have hid' : ev.id = e := hrestocked.id.symm.trans hid
      have hnext : (p.next o r).Sound := hsound _ (List.mem_set (List.getElem?_eq_some_iff.mp hp).1 _)
      have hsound₀ : p.Sound := by
        by_contra hnot
        exact not_sound_next hpre hnot hnext
      have hbefore := h.exact (Platform.forall_mem_of_set hp hsound₀ hsound) ev hev hid'
      have hremaining := hrestocked.remaining
      have htotal := hrestocked.totalStock
      have hmoved := heq hnext
      rw [hid'] at hremaining
      omega
    · obtain ⟨hwhole, -, hheld, hsold⟩ := hnew ev' hid hfresh hopen
      omega
  · have hno₀ : ∀ ev ∈ w.events, ev.id ≠ e := fun ev hev hid => by
      obtain ⟨ev', hev', hrestocked⟩ := hkept ev hev
      exact hno ev' hev' (hrestocked.id.trans hid)
    obtain ⟨hheld, hsold⟩ := h.unopened hno₀
    have hdelta := World.delta_nonneg_of_absent hs hno₀
    omega

end FlashWallet
