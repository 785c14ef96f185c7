import FlashWallet.Proof.Audit
import FlashWallet.Proof.Runs
import FlashWallet.Proof.Stock

/-!
# What is shown of an event

An administrator reads an event while it is on sale. Of what is read the remaining stock alone can change, and it is
never below zero; the event itself, its product and its price stay what they were.
-/

set_option autoImplicit false

namespace FlashWallet

open Lib

/-- One event, at two moments. -/
structure SameEvent (ev ev' : FlashSaleEvent) : Prop where
  id : ev'.id = ev.id
  productId : ev'.productId = ev.productId
  totalStock : ev'.totalStock = ev.totalStock
  startsAt : ev'.startsAt = ev.startsAt
  endsAt : ev'.endsAt = ev.endsAt

theorem SameEvent.refl (ev : FlashSaleEvent) : SameEvent ev ev := ⟨rfl, rfl, rfl, rfl, rfl⟩

theorem SameEvent.trans {ev ev' ev'' : FlashSaleEvent} (h : SameEvent ev ev') (h' : SameEvent ev' ev'') :
    SameEvent ev ev'' where
  id := h'.id.trans h.id
  productId := h'.productId.trans h.productId
  totalStock := h'.totalStock.trans h.totalStock
  startsAt := h'.startsAt.trans h.startsAt
  endsAt := h'.endsAt.trans h.endsAt

/-- The event is on offer, and this is its product. -/
structure World.Offers (w : World) (ev : FlashSaleEvent) (p : Product) : Prop where
  event : ∃ ev' ∈ w.events, SameEvent ev ev'
  product : p ∈ w.products
  named : p.id = ev.productId

/-! ## Events stay what they are -/

theorem World.products_served {i : Nat} {w w' : World} {o : Stmt} {r : Except Err o.Reply}
    (hs : World.Served i w o r w') : w'.products = w.products := by
  cases hs <;> rfl

/-- The environment adds products and takes none away. -/
theorem World.products_env {e : Env} {w w' : World} (he : e.run w = some w') : ∀ p ∈ w.products, p ∈ w'.products := by
  intro p hp
  cases e with
  | tick | evict => cases he; exact hp
  | seedProduct q =>
    simp only [Env.run] at he
    split at he
    · cases he
    · cases he
      exact List.mem_append_left _ hp

/-- No event is taken back or changed, but for its stock, and no product. -/
theorem offers_of_step {c c' : State} {l : Event} (hreached : Reachable anyStep c)
    (hstep : system.step c l = some c') {ev : FlashSaleEvent} {p : Product} (h : c.world.Offers ev p) :
    c'.world.Offers ev p := by
  have hsame : ∀ w : World, w.events = c.world.events → p ∈ w.products → w.Offers ev p := fun w hevents hp =>
    ⟨hevents ▸ h.event, hp, h.named⟩
  cases l with
  | arrive r => cases hstep; exact h
  | crash i =>
    obtain ⟨r, o, k, -, rfl⟩ := system.step_crash hstep
    exact hsame _ rfl h.product
  | env e =>
    obtain ⟨w, he, rfl⟩ := system.step_env hstep
    exact hsame w (World.env_same he).events (World.products_env he p h.product)
  | exec i x =>
    obtain ⟨r, o, k, reply, w, -, hexec, rfl⟩ := system.step_exec hstep
    have hs : World.Served i c.world o reply w := .of_exec hexec
    obtain ⟨ev₁, hev₁, hsame₁⟩ := h.event
    obtain ⟨ev₂, hev₂, hrestocked⟩ := (World.events_served (Reachable.worldOk hreached) hs).1 ev₁ hev₁
    exact ⟨⟨ev₂, hev₂, hsame₁.trans ⟨hrestocked.id, hrestocked.productId, hrestocked.totalStock, hrestocked.startsAt,
      hrestocked.endsAt⟩⟩, World.products_served hs ▸ h.product, h.named⟩

/-- No event has less than nothing left, and each has its product. -/
def World.WellOffered (w : World) : Prop :=
  ∀ ev ∈ w.events, 0 ≤ ev.remaining ∧ ∃ p ∈ w.products, p.id = ev.productId

theorem wellOffered_staged (ok : State → Event → Prop) :
    Staged ok State.initial fun _ c _ => c.world.WellOffered where
  arrive _ _ _ _ _ _ h _ := h
  exec tr c ps i req o k p x reply w hrun h _ hissues := by
    intro ev' hev'
    have hw : c.world.Ok := Reachable.worldOk ⟨tr, hrun⟩
    have hs := hissues.served
    rw [World.products_served hs]
    rcases (World.events_served hw hs).2 ev' hev' with ⟨ev, hev, hrestocked⟩ | ⟨-, hcreate⟩
    · obtain ⟨hnonneg, hproduct⟩ := h ev hev
      exact ⟨hrestocked.nonneg hnonneg, hrestocked.productId ▸ hproduct⟩
    · subst hcreate
      obtain ⟨hwhole, hpositive⟩ := opens hissues.pre
      refine ⟨by omega, ?_⟩
      -- it has been inserted over its product, or it was there
      cases hs with
      | eventCreated _ _ _ _ _ id product _ found => exact ⟨product, World.product?_eq_some found⟩
      | refused | failed => exact (h ev' hev').2
      | read _ _ answer => cases answer
  crash _ _ _ _ _ _ _ _ _ h _ _ := h
  env tr c ps e w _ _ h _ he := by
    intro ev hev
    obtain ⟨hnonneg, p, hp, hnamed⟩ := h ev ((World.env_same he).events ▸ hev)
    exact ⟨hnonneg, p, World.products_env he p hp, hnamed⟩

theorem wellOffered_of_reachable {ok : State → Event → Prop} {c : State} (h : Reachable ok c) :
    c.world.WellOffered := by
  obtain ⟨tr, hrun⟩ := h
  obtain ⟨ps, hoffered, -, -⟩ := (wellOffered_staged ok).sound_initial (fun _ h => absurd h List.not_mem_nil) hrun
  exact hoffered

namespace Catalogue

/-! ## Reading beside the system -/

/-- Calls of `getEvent`, and, as the moves of the environment, the steps of the system. -/
def readers : Platform sql Err (FlashSaleEvent × Product) Uuid Choice Event FlashWallet.State where
  program := FlashSaleService.getEvent
  exec i o x c := (World.exec i o x c.world).map fun (reply, w) => (reply, { c with world := w })
  cutOff _ c := c
  env l c := system.step c l

abbrev State := Config sql Err (FlashSaleEvent × Product) Uuid FlashWallet.State

abbrev ReadEvent := Label Uuid Choice Event

abbrev Trace := List (Step State ReadEvent)

def State.initial : State := ⟨FlashWallet.State.initial, []⟩

abbrev RunFrom (ok : State → ReadEvent → Prop) (tr : Trace) (c : State) : Prop :=
  Run readers.step ok State.initial tr c

/-- What call `i` may answer about event `id`. -/
inductive Tells (tr : Trace) (c : State) (i : Nat) (id : Uuid) : Except Err (FlashSaleEvent × Product) → Prop where
  | found (s : Step State ReadEvent) (taken : s ∈ tr) (label : s.label = .exec i .ok) (ev : FlashSaleEvent)
      (p : Product) (name : ev.id = id) (read : ev ∈ s.before.world.world.events) (stock : 0 ≤ ev.remaining)
      (still : c.world.world.Offers ev p) : Tells tr c i id (.ok (ev, p))
  | missing (s : Step State ReadEvent) (taken : s ∈ tr) (label : s.label = .exec i .ok)
      (absent : ∀ ev ∈ s.before.world.world.events, ev.id ≠ id) :
      Tells tr c i id (.error (.notFound "Flash-sale event not found"))
  | unavailable : Tells tr c i id (.error .unavailable)

variable {tr : Trace} {c c' : State} {i : Nat} {id : Uuid}

/-- What has been told stays told. -/
theorem Tells.mono {r : Except Err (FlashSaleEvent × Product)} {s' : Step State ReadEvent} (h : Tells tr c i id r)
    (hoffers : ∀ ev p, c.world.world.Offers ev p → c'.world.world.Offers ev p) : Tells (tr ++ [s']) c' i id r := by
  cases h with
  | found s taken label ev p name read stock still =>
    exact .found s (List.mem_append_left _ taken) label ev p name read stock (hoffers ev p still)
  | missing s taken label absent => exact .missing s (List.mem_append_left _ taken) label absent
  | unavailable => exact .unavailable

/-- The one statement of a call, and what it answers. -/
theorem read_answer {w w' : World} {x : Choice} {reply : Except Err (Option (FlashSaleEvent × Product))}
    (h : World.exec i (.flashSaleEventFindUnique id) x w = some (reply, w')) :
    w' = w ∧ (reply = .error .unavailable ∨ x = .ok ∧
      reply = .ok ((w.event? id).bind fun ev => (w.product? ev.productId).map (ev, ·))) := by
  cases x with
  | ok =>
    cases h
    exact ⟨rfl, .inr ⟨rfl, rfl⟩⟩
  | fault =>
    cases h
    exact ⟨rfl, .inl rfl⟩
  | fresh d =>
    simp only [World.exec] at h
    split at h <;> cases h
  | lose => cases h

/-- A call is about to read, or has told the truth. -/
structure Truthful (tr : Trace) (c : State) : Prop where
  reached : Reachable anyStep c.world
  calls : ∀ i id p b, c.calls[i]? = some ⟨id, p, b⟩ →
    p = FlashSaleService.getEvent id ∨ ∃ r, p = .ended r ∧ Tells tr c i id r

/-- A reply, and what the call makes of it. -/
theorem tells_of_read (h : Truthful tr c) {x : Choice} {reply : Except Err (Option (FlashSaleEvent × Product))}
    {w : World} (hexec : World.exec i (.flashSaleEventFindUnique id) x c.world.world = some (reply, w))
    {k : Except Err (Option (FlashSaleEvent × Product)) → Service (FlashSaleEvent × Product)}
    (hk : FlashSaleService.getEvent id = .call (S := sql) (.flashSaleEventFindUnique id) k) {calls} :
    ∃ r, k reply = .ended r ∧ Tells (tr ++ [⟨c, .exec i x, ⟨c.world, calls⟩⟩]) ⟨c.world, calls⟩ i id r := by
  have hlast : ⟨c, .exec i x, ⟨c.world, calls⟩⟩ ∈ tr ++ [(⟨c, .exec i x, ⟨c.world, calls⟩⟩ : Step State ReadEvent)] :=
    List.mem_append_right _ (List.mem_singleton.mpr rfl)
  cases hk
  obtain ⟨-, rfl | ⟨rfl, rfl⟩⟩ := read_answer hexec
  · exact ⟨.error .unavailable, rfl, .unavailable⟩
  · have hw : c.world.world.Ok := Reachable.worldOk h.reached
    cases hfound : (c.world.world.event? id).bind fun ev => (c.world.world.product? ev.productId).map (ev, ·) with
    | some found =>
      obtain ⟨ev, hev, hmap⟩ := Option.bind_eq_some_iff.mp hfound
      obtain ⟨p, hp, rfl⟩ := Option.map_eq_some_iff.mp hmap
      obtain ⟨hread, hid⟩ := World.event?_eq_some hev
      obtain ⟨hproduct, hnamed⟩ := World.product?_eq_some hp
      exact ⟨.ok (ev, p), rfl, .found _ hlast rfl ev p hid hread (wellOffered_of_reachable h.reached ev hread).1
        ⟨⟨ev, hread, .refl ev⟩, hproduct, hnamed⟩⟩
    | none =>
      refine ⟨.error (.notFound "Flash-sale event not found"), rfl, .missing _ hlast rfl fun ev hev hid => ?_⟩
      obtain ⟨-, p, hp, hnamed⟩ := wellOffered_of_reachable h.reached ev hev
      rw [← hid, hw.event?_of_mem hev, Option.bind_some, Option.map_eq_none_iff] at hfound
      exact List.find?_eq_none.mp hfound p hp (decide_eq_true hnamed)

theorem truthful_of_run {ok : State → ReadEvent → Prop} (hrun : RunFrom ok tr c) : Truthful tr c := by
  induction hrun with
  | nil => exact ⟨⟨[], .nil⟩, fun _ _ _ _ hi => nomatch hi⟩
  | @snoc tr c c' l run allowed next ih =>
    -- the others have told what they have told
    have hkept : ∀ (st : FlashWallet.State) (calls),
        (∀ ev p, c.world.world.Offers ev p → st.world.Offers ev p) → ∀ i id p b, c.calls[i]? = some ⟨id, p, b⟩ →
          p = FlashSaleService.getEvent id ∨
            ∃ r, p = .ended r ∧ Tells (tr ++ [⟨c, l, ⟨st, calls⟩⟩]) ⟨st, calls⟩ i id r := by
      intro st calls hoffers i id p b hi
      exact (ih.calls i id p b hi).imp_right fun ⟨r, hr, htells⟩ => ⟨r, hr, htells.mono hoffers⟩
    cases l with
    | arrive id =>
      obtain rfl := Option.some.inj next
      refine ⟨ih.reached, fun i id' p b hi => ?_⟩
      rcases Platform.getElem?_concat_cases hi with ⟨-, heq⟩ | hi
      · cases heq
        exact .inl rfl
      · exact hkept _ _ (fun _ _ h => h) i id' p b hi
    | exec j x =>
      obtain ⟨id, o, k, reply, st, hj, hexec, rfl⟩ := readers.step_exec next
      obtain ⟨⟨reply', w⟩, hanswer, hpair⟩ := Option.map_eq_some_iff.mp hexec
      rcases ih.calls j id _ _ hj with hprog | ⟨r, hended, -⟩
      · have hop : o = .flashSaleEventFindUnique id := by
          cases hprog
          rfl
        subst hop
        obtain rfl := (read_answer hanswer).1
        cases hpair
        refine ⟨ih.reached, fun i id' p b hi => ?_⟩
        rcases Platform.getElem?_set_cases hi with ⟨rfl, heq⟩ | ⟨-, hi⟩
        · cases heq
          exact .inr (tells_of_read ih hanswer hprog.symm)
        · exact hkept _ _ (fun _ _ h => h) i id' p b hi
      · cases r <;> cases hended
    | crash j =>
      obtain ⟨id, o, k, hj, rfl⟩ := readers.step_crash next
      refine ⟨ih.reached, fun i id' p b hi => ?_⟩
      rcases Platform.getElem?_set_cases hi with ⟨rfl, heq⟩ | ⟨-, hi⟩
      · cases heq
        exact hkept _ _ (fun _ _ h => h) _ _ _ _ hj
      · exact hkept _ _ (fun _ _ h => h) i id' p b hi
    | env e =>
      obtain ⟨st, hstep, rfl⟩ := readers.step_env next
      obtain ⟨tr', hrun'⟩ := ih.reached
      exact ⟨⟨_, hrun'.snoc trivial hstep⟩, hkept st _ fun ev p h => offers_of_step ih.reached hstep h⟩

/-- **What is shown of an event is so.** In every run of readers beside the system, whatever fails and whoever is cut
off: an answer is the row as it stood when it was read, its stock not below zero, and the event is on offer ever since
with its product and price, its whole stock and its times unchanged; an event is missed only while there is none; and two
answers about one event differ in the remaining stock at most. -/
theorem event_shown {ok : State → ReadEvent → Prop} (hrun : RunFrom ok tr c) :
    (∀ i call r, c.calls[i]? = some call → call.result? = some r → Tells tr c i call.request r) ∧
      ∀ call ∈ c.calls, ∀ call' ∈ c.calls, call.request = call'.request → ∀ ev p ev' p',
        call.result? = some (.ok (ev, p)) → call'.result? = some (.ok (ev', p')) → SameEvent ev ev' ∧ p = p' := by
  have htruthful := truthful_of_run hrun
  have htells : ∀ i call r, c.calls[i]? = some call → call.result? = some r → Tells tr c i call.request r := by
    rintro i ⟨id, p, b⟩ r hi hr
    obtain ⟨-, hprog⟩ := Call.result?_eq_some hr
    obtain rfl : p = .ended r := hprog
    rcases htruthful.calls i id _ b hi with hcall | ⟨r', hended, htells⟩
    · cases r <;> cases hcall
    · obtain rfl : r = r' := by cases r <;> cases r' <;> cases hended <;> rfl
      exact htells
  refine ⟨htells, fun call hcall call' hcall' hrequest ev p ev' p' hr hr' => ?_⟩
  obtain ⟨i, hi⟩ := List.mem_iff_getElem?.mp hcall
  obtain ⟨i', hi'⟩ := List.mem_iff_getElem?.mp hcall'
  have hw : c.world.world.Ok := Reachable.worldOk htruthful.reached
  cases htells i call _ hi hr with
  | found _ _ _ _ _ name _ _ still =>
    cases htells i' call' _ hi' hr' with
    | found _ _ _ _ _ name' _ _ still' =>
      obtain ⟨ev₁, hev₁, hsame⟩ := still.event
      obtain ⟨ev₂, hev₂, hsame'⟩ := still'.event
      -- both are the one row there is now
      have hid : ev₁.id = ev₂.id := by rw [hsame.id, hsame'.id, name, name', hrequest]
      obtain rfl := hw.event_ext hev₁ hev₂ hid
      refine ⟨⟨hsame'.id.symm.trans hsame.id, hsame'.productId.symm.trans hsame.productId,
        hsame'.totalStock.symm.trans hsame.totalStock, hsame'.startsAt.symm.trans hsame.startsAt,
        hsame'.endsAt.symm.trans hsame.endsAt⟩, hw.product_ext still.product still'.product ?_⟩
      rw [still.named, still'.named, ← hsame.productId, hsame'.productId]

section

open Sample

/-- The sale is looked at before Alice has bought, and after; then a sale that there is not. -/
def looks : List ReadEvent :=
  (bought.take 4).map .env ++ [.arrive sale, .exec 0 .ok] ++ (bought.drop 4).map .env ++
    [.arrive sale, .exec 1 .ok, .arrive goods, .exec 2 .ok]

def onSale : FlashSaleEvent := ⟨sale, goods, 1, 1, 0, 10⟩

def soldOut : FlashSaleEvent := { onSale with remaining := 0 }

set_option maxRecDepth 8000 in
theorem event_shown_looks : ∃ tr c, RunFrom (fun _ _ => True) tr c ∧
    c.calls.map Call.result? = [some (.ok (onSale, product)), some (.ok (soldOut, product)),
      some (.error (.notFound "Flash-sale event not found"))] ∧
    SameEvent onSale soldOut ∧ ∃ s ∈ tr, ∀ ev ∈ s.before.world.world.events, ev.id ≠ goods := by
  obtain ⟨c, hexecute, hresults, first, second, third, hfirst, hsecond, hthird, hanswers⟩ :
      ∃ c, execute readers.step State.initial looks = some c ∧
        c.calls.map Call.result? = [some (.ok (onSale, product)), some (.ok (soldOut, product)),
          some (.error (.notFound "Flash-sale event not found"))] ∧
        ∃ first second third, c.calls[0]? = some first ∧ c.calls[1]? = some second ∧ c.calls[2]? = some third ∧
          first.request = sale ∧ second.request = sale ∧ third.request = goods ∧
          first.result? = some (.ok (onSale, product)) ∧ second.result? = some (.ok (soldOut, product)) ∧
          third.result? = some (.error (.notFound "Flash-sale event not found")) :=
    ⟨_, rfl, rfl, _, _, _, rfl, rfl, rfl, rfl, rfl, rfl, rfl, rfl, rfl⟩
  obtain ⟨hsale, hsale', hgoods, hread, hread', hmissed⟩ := hanswers
  obtain ⟨tr, hrun⟩ : ∃ tr, RunFrom (fun _ _ => True) tr c := Run.of_execute (fun _ _ _ => trivial) hexecute
  obtain ⟨htells, hagree⟩ := event_shown hrun
  refine ⟨tr, c, hrun, hresults, (hagree first (List.mem_of_getElem? hfirst) second (List.mem_of_getElem? hsecond)
    (hsale.trans hsale'.symm) _ _ _ _ hread hread').1, ?_⟩
  have hthirdTells := htells 2 third _ hthird hmissed
  rw [hgoods] at hthirdTells
  cases hthirdTells with
  | missing s taken _ absent => exact ⟨s, taken, absent⟩

end

end Catalogue

end FlashWallet
