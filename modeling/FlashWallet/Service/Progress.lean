import FlashWallet.Lib.Bound
import FlashWallet.Wallet.Deadlock

/-!
# Every call ends

No handler loops for ever: the longest, a purchase, issues fifteen statements. So whatever is decided outside, the calls
that are in flight take no more steps than that, each; and since the locks never wait for one another in a circle, the
only way to be left without a step is to have ended.
-/

set_option autoImplicit false

namespace FlashWallet

open Lib

/-! ## How many statements a handler issues -/

namespace WalletService

theorem transaction_atMost {α : Type} {body : Service α} {n : Nat} (h : body.AtMost n) :
    (transaction body).AtMost (n + 1) := by
  refine h.attempt.bind fun r => ?_
  cases r with
  | ok a => exact Prog.atMost_issue (n := 0) fun _ => trivial
  | error e => exact Prog.atMost_issue (n := 0) fun _ => trivial

theorem provisionWallet_atMost (userId : Uuid) : (provisionWallet userId).AtMost 1 :=
  Prog.atMost_issue (n := 0) fun _ => trivial

theorem lockWalletById_atMost (walletId : Uuid) : (lockWalletById walletId).AtMost 1 := by
  refine Prog.atMost_issue (n := 0) fun found => ?_
  cases found <;> trivial

theorem lockWalletByUserId_atMost (userId : Uuid) : (lockWalletByUserId userId).AtMost 2 := by
  refine Prog.atMost_issue (n := 1) fun found => ?_
  cases found with
  | none => trivial
  | some wallet => exact lockWalletById_atMost wallet.id

theorem deposit_atMost (userId : Uuid) (dto : DepositDto) : (deposit userId dto).AtMost 6 := by
  refine Prog.atMost_issue (n := 5) fun referenceId => transaction_atMost (n := 4) ?_
  refine (lockWalletByUserId_atMost userId).bind (m := 2) fun wallet => ?_
  exact Prog.atMost_issue (n := 1) fun updated => Prog.atMost_issue (n := 0) fun entry => trivial

theorem purchaseDeduct_atMost (userId : Uuid) (amount : Int) (referenceId : String) :
    (purchaseDeduct userId amount referenceId).AtMost 6 := by
  refine transaction_atMost (n := 5) ((lockWalletByUserId_atMost userId).bind (m := 3) fun wallet => ?_)
  refine Prog.atMost_issue (n := 2) fun found => ?_
  cases found with
  | some existing => trivial
  | none =>
    dsimp only
    split
    · trivial
    · exact Prog.atMost_issue (n := 1) fun updated => Prog.atMost_issue (n := 0) fun entry => trivial

theorem moveFunds_atMost (sender receiver : Wallet) (amount : Int) (key : String) :
    (moveFunds sender receiver amount key).AtMost 4 := by
  unfold moveFunds
  split
  · trivial
  · refine Prog.atMost_issue (n := 3) fun _ => Prog.atMost_issue (n := 2) fun _ => ?_
    exact Prog.atMost_issue (n := 1) fun _ => Prog.atMost_issue (n := 0) fun _ => trivial

theorem transferTx_atMost (userId : Uuid) (dto : TransferDto) : (transferTx userId dto).AtMost 9 := by
  refine Prog.atMost_issue (n := 8) fun senderRef => Prog.atMost_issue (n := 7) fun receiverRef => ?_
  rcases senderRef with _ | senderRef
  · trivial
  rcases receiverRef with _ | receiverRef
  · trivial
  refine Prog.atMost_issue (n := 6) fun found => ?_
  cases found with
  | some existingOut => trivial
  | none =>
    refine (lockWalletById_atMost _).bind (m := 5) fun first => ?_
    exact (lockWalletById_atMost _).bind (m := 4) fun second => moveFunds_atMost _ _ _ _

theorem transfer_atMost (userId : Uuid) (dto : TransferDto) : (transfer userId dto).AtMost 12 := by
  unfold transfer
  split
  · trivial
  · refine Prog.atMost_issue (n := 11) fun cached => ?_
    cases cached with
    | some result => trivial
    | none =>
      refine (transaction_atMost (transferTx_atMost userId dto)).bind (m := 1) fun result => ?_
      exact Prog.atMost_issue (n := 0) fun _ => trivial

end WalletService

namespace FlashSaleService

theorem createEvent_atMost (dto : CreateFlashSaleEventDto) : (createEvent dto).AtMost 2 := by
  refine Prog.atMost_issue (n := 1) fun found => ?_
  cases found with
  | none => trivial
  | some product => exact Prog.atMost_perform _

theorem poll_atMost (eventId : Uuid) (key : String) (delayMs n : Nat) :
    (poll eventId key delayMs n).AtMost (2 * n) := by
  induction n with
  | zero => trivial
  | succ n ih =>
    refine Prog.atMost_issue (n := 2 * n + 1) fun found => ?_
    cases found with
    | some order => trivial
    | none =>
      dsimp only
      split
      · exact Prog.atMost_issue fun _ => ih
      · exact ih.mono (Nat.le_succ _)

theorem finalizeOrder_atMost (data : NewOrder) (eventId : Uuid) :
    (finalizeOrder data (releaseUnit eventId)).AtMost 3 := by
  refine (Prog.atMost_perform _).attempt.bind (m := 2) fun r => ?_
  cases r with
  | ok order => trivial
  | error err =>
    dsimp only
    split
    · trivial
    · refine Prog.atMost_issue (n := 1) fun _ => Prog.atMost_issue (n := 0) fun found => ?_
      cases found <;> trivial

theorem compensate_atMost (userId : Uuid) (dto : PurchaseFlashSaleDto) (orderId : Uuid) (err : Err) :
    (compensate userId dto orderId err).AtMost 4 := by
  refine Prog.atMost_issue (n := 3) fun _ => (finalizeOrder_atMost _ _).bind (m := 0) fun order => ?_
  split <;> trivial

theorem confirm_atMost (userId : Uuid) (dto : PurchaseFlashSaleDto) (orderId : Uuid) :
    (confirm userId dto orderId).AtMost 4 := by
  refine (finalizeOrder_atMost _ _).bind (m := 1) fun order => ?_
  split
  · exact (Prog.atMost_perform _).attempt.bind (m := 0) fun _ => trivial
  · trivial

theorem settle_atMost (userId : Uuid) (dto : PurchaseFlashSaleDto) (price : Money) :
    (settle userId dto price).AtMost 11 := by
  refine Prog.atMost_issue (n := 10) fun orderId => ?_
  refine (WalletService.purchaseDeduct_atMost _ _ _).attempt.bind (m := 4) fun r => ?_
  cases r with
  | error err => exact compensate_atMost userId dto orderId err
  | ok booked => exact confirm_atMost userId dto orderId

theorem purchase_atMost (userId : Uuid) (dto : PurchaseFlashSaleDto) : (purchase userId dto).AtMost 15 := by
  refine Prog.atMost_issue (n := 14) fun found => ?_
  cases found with
  | some existing => trivial
  | none =>
  refine Prog.atMost_issue (n := 13) fun found => ?_
  rcases found with _ | ⟨event, product⟩
  · trivial
  refine Prog.atMost_issue (n := 12) fun now => ?_
  split
  · trivial
  refine Prog.atMost_issue (n := 11) fun reserved => ?_
  split
  · exact settle_atMost userId dto product.price
  · refine (poll_atMost dto.eventId dto.idempotencyKey 40 5).bind (m := 1) fun raced => ?_
    cases raced <;> trivial

end FlashSaleService

theorem handler_atMost (req : Request) : req.handler.AtMost 15 := by
  have hfinish : ∀ {α : Type} {p : Service α} {f : α → Response} {n : Nat}, p.AtMost n → n ≤ 15 →
      (f <$> p).AtMost 15 := by
    intro α p f n hp hle
    exact (hp.bind (m := 0) (f := fun a => .done (f a)) fun _ => trivial).mono hle
  cases req with
  | provisionWallet userId =>
    have hbound : (Request.provisionWallet userId).handler.AtMost (1 + 0) :=
      (WalletService.provisionWallet_atMost userId).bind (f := fun _ => .done Response.provisioned) (m := 0)
        fun _ => trivial
    exact hbound.mono (by decide)
  | deposit userId dto => exact hfinish (WalletService.deposit_atMost userId dto) (by decide)
  | purchaseDeduct userId amount referenceId =>
    exact hfinish (WalletService.purchaseDeduct_atMost userId amount referenceId) (by decide)
  | transfer userId dto => exact hfinish (WalletService.transfer_atMost userId dto) (by decide)
  | createEvent dto => exact hfinish (FlashSaleService.createEvent_atMost dto) (by decide)
  | purchase userId dto => exact hfinish (FlashSaleService.purchase_atMost userId dto) (by decide)

/-! ## Identifiers are not used up -/

namespace Uuid

def digit (n : Nat) : Char := Char.ofNat ('0'.toNat + n % 10)

theorem digit_toNat (n : Nat) : (digit n).toNat = 48 + n % 10 ∧ (digit n).isDigit = true := by
  have hall : ∀ d : Fin 10, (Char.ofNat (48 + d.val)).toNat = 48 + d.val ∧
      (Char.ofNat (48 + d.val)).isDigit = true := by decide
  exact hall ⟨n % 10, Nat.mod_lt n (by decide)⟩

/-- The last twelve characters of the `n`th identifier. -/
def digits (n : Nat) : List Char := (List.range 12).map fun j => digit (n / 10 ^ j)

def numbered (n : Nat) : Uuid where
  text := String.ofList ("00000000-0000-4000-8000-".toList ++ digits n)
  wellFormed := by
    have hdigit : ∀ m, (digit m).isDigit = true := fun m => (digit_toNat m).2
    simp [isUuid, digits, List.range_succ, hdigit]

theorem numbered_toList (n : Nat) :
    (numbered n).text.toList = "00000000-0000-4000-8000-".toList ++ digits n := String.toList_ofList

/-- Numbers are told apart by their digits. -/
theorem mod_eq_of_digits {a b : Nat} (k : Nat) (h : ∀ j < k, a / 10 ^ j % 10 = b / 10 ^ j % 10) :
    a % 10 ^ k = b % 10 ^ k := by
  induction k with
  | zero => simp [Nat.mod_one]
  | succ k ih =>
    rw [Nat.mod_pow_succ, Nat.mod_pow_succ, ih fun j hj => h j (Nat.lt_succ_of_lt hj), h k (Nat.lt_succ_self k)]

theorem numbered_inj {a b : Nat} (ha : a < 10 ^ 12) (hb : b < 10 ^ 12) (h : numbered a = numbered b) : a = b := by
  have hdigits : digits a = digits b := by
    have htext := numbered_toList a
    rw [h, numbered_toList b] at htext
    exact (List.append_cancel_left htext).symm
  have hmod : a % 10 ^ 12 = b % 10 ^ 12 := by
    refine mod_eq_of_digits 12 fun j hj => ?_
    have hchar : digit (a / 10 ^ j) = digit (b / 10 ^ j) :=
      List.map_inj_left.mp hdigits j (List.mem_range.mpr hj)
    have hnat := congrArg Char.toNat hchar
    rw [(digit_toNat _).1, (digit_toNat _).1] at hnat
    exact Nat.add_left_cancel hnat
  rwa [Nat.mod_eq_of_lt ha, Nat.mod_eq_of_lt hb] at hmod

/-- Of a trillion identifiers one is left. -/
theorem exists_undrawn {drawn : List Uuid} (h : drawn.length < 10 ^ 12) : ∃ id, id ∉ drawn := by
  by_contra hall
  have hmem : ∀ id, id ∈ drawn := fun id => by_contra fun hid => hall ⟨id, hid⟩
  have hcard : (Finset.range (10 ^ 12)).card ≤ drawn.toFinset.card :=
    Finset.card_le_card_of_injOn numbered (fun n _ => by simpa using hmem (numbered n))
      fun a ha b hb => numbered_inj (by simpa using ha) (by simpa using hb)
  rw [Finset.card_range] at hcard
  exact absurd (hcard.trans drawn.toFinset_card_le) (Nat.not_le.mpr h)

end Uuid

/-! ## Calls together -/

/-- Statements are issued, and none of them fails. -/
def smooth : State → Event → Prop := fun c l => noFaults c l ∧ l.isArrival = false

/-- A statement draws one identifier at most. -/
theorem World.length_drawn_served {i : Nat} {w w' : World} {o : Stmt} {r : Except Err o.Reply}
    (hs : Served i w o r w') : w'.drawn.length ≤ w.drawn.length + 1 := by
  cases hs with
  | drew | walletCreated | eventCreated => exact le_rfl
  | _ => exact Nat.le_succ _

/-- Where somebody is in flight somebody can go on: whoever is waited for waits for a later row. -/
theorem exists_canStep {c : State} (h : Reachable anyStep c) {i : Nat} {call : ServiceCall}
    (hi : c.calls[i]? = some call) (hflight : call.inFlight = true) : ∃ j, CanStep c j := by
  obtain ⟨tr, hrun⟩ := h
  obtain ⟨hs, hheld, ha⟩ := held_of_run hrun
  have hnodes : ∀ i' j, WaitsFor (WaitsForRow c) i' j → j ∈ {n | n < c.calls.length} := by
    rintro i' j ⟨id, hid⟩
    obtain ⟨r, o, k, held, hj, -⟩ := hheld.holder ha hid.holder
    exact (List.getElem?_eq_some_iff.mp hj).1
  obtain ⟨j, -, hchain, hfree⟩ := (hheld.ascending ha).exists_free (Set.finite_lt_nat c.calls.length) hnodes
    (i := i) (List.getElem?_eq_some_iff.mp hi).1
  refine ⟨j, ?_⟩
  -- the chain of waits ends at the call it starts from, or at one that holds a row
  cases hchain with
  | refl =>
    obtain ⟨hcrashed, o, k, hprog⟩ := Call.inFlight_iff.mp hflight
    obtain ⟨r, prog, crashed⟩ := call
    subst hcrashed hprog
    exact canStep_of_free hi hfree
  | tail _ hlast =>
    obtain ⟨id, hid⟩ := hlast
    obtain ⟨r, o, k, held, hj, -⟩ := hheld.holder ha hid.holder
    exact canStep_of_free hj hfree

/-- A call that can go on goes on. -/
theorem CanStep.step {c : State} {i : Nat} (h : CanStep c i) (hdrawn : c.world.drawn.length < 10 ^ 12) :
    ∃ x c', smooth c (.exec i x) ∧ system.step c (.exec i x) = some c' := by
  obtain ⟨r, o, k, hi, hgo⟩ := h
  by_cases hdraws : o.draws = true
  · rw [if_pos hdraws] at hgo
    obtain ⟨id, hid⟩ := Uuid.exists_undrawn hdrawn
    obtain ⟨c', hstep⟩ := Option.isSome_iff_exists.mp (hgo id hid)
    exact ⟨.fresh id, c', ⟨rfl, rfl⟩, hstep⟩
  · rw [if_neg hdraws] at hgo
    obtain ⟨c', hstep⟩ := Option.isSome_iff_exists.mp hgo
    exact ⟨.ok, c', ⟨rfl, rfl⟩, hstep⟩

/-- What is left to do: the statements still to come, and identifiers for all of them. -/
structure Leaves (n : Nat) (c : State) : Prop where
  reachable : Reachable anyStep c
  bounded : ∃ ns, Platform.Bounded c.calls ns ∧ ns.sum ≤ n
  drawn : c.world.drawn.length + n < 10 ^ 12

/-- All calls have come to their end. -/
def Quiet (c : State) : Prop := ∀ call ∈ c.calls, call.inFlight = false

/-- Somebody in flight waits for nobody, and issues a statement. -/
theorem Leaves.goes_on {n : Nat} {c : State} (h : Leaves n c) :
    Quiet c ∨ ∃ l c' m, m < n ∧ smooth c l ∧ system.step c l = some c' ∧ Leaves m c' := by
  by_cases hstop : Quiet c
  · exact Or.inl hstop
  obtain ⟨i, call, hi, hflight⟩ : ∃ i, ∃ call : ServiceCall, c.calls[i]? = some call ∧ call.inFlight = true := by
    simp only [Quiet, not_forall, Bool.not_eq_false] at hstop
    obtain ⟨call, hmem, hflight⟩ := hstop
    obtain ⟨i, hi⟩ := List.getElem?_of_mem hmem
    exact ⟨i, call, hi, hflight⟩
  have hdrawn := h.drawn
  obtain ⟨j, hcan⟩ := exists_canStep h.reachable hi hflight
  obtain ⟨x, c', hok, hstep⟩ := hcan.step (by omega)
  obtain ⟨ns, hbounded, hle⟩ := h.bounded
  obtain ⟨ns', hbounded', hle'⟩ := hbounded.step hstep hok.2
  have hless : ns'.sum + 1 ≤ ns.sum := hle'
  refine Or.inr ⟨.exec j x, c', ns'.sum, by omega, hok, hstep, ?_, ⟨ns', hbounded', le_rfl⟩, ?_⟩
  · obtain ⟨tr, hrun⟩ := h.reachable
    exact ⟨_, hrun.snoc trivial hstep⟩
  · obtain ⟨r, o, k, reply, w, -, hexec, rfl⟩ := system.step_exec hstep
    have hone : w.drawn.length ≤ c.world.drawn.length + 1 :=
      World.length_drawn_served (World.Served.of_exec hexec)
    dsimp only
    omega

/-- **Every call ends.** From every state any run reaches the calls in flight take at most fifteen steps each, whatever
fails, whoever is cut off and in whatever order; and if nothing fails from then on there is an order in which they all
come to their answers. -/
theorem every_call_ends {c : State} (h : Reachable anyStep c) :
    (∀ tr c', RunFrom c anyStep tr c' → (∀ s ∈ tr, s.label.isArrival = false) →
      (tr.filter (·.label.isCall)).length ≤ 15 * c.inFlight.length) ∧
    (c.world.drawn.length + 15 * c.inFlight.length < 10 ^ 12 →
      ∃ tr c', RunFrom c smooth tr c' ∧ tr.length ≤ 15 * c.inFlight.length ∧ Quiet c') := by
  obtain ⟨tr₀, hrun₀⟩ := h
  obtain ⟨ns, hbounded, hsum⟩ := Platform.bounded_of_run handler_atMost hrun₀ rfl
  refine ⟨fun tr c' hrun harrivals => ?_, fun hdrawn => ?_⟩
  · obtain ⟨ns', -, hle⟩ := hbounded.steps_le hrun harrivals
    exact (Nat.le_add_left _ _).trans (hle.trans hsum.le)
  · have hleaves : Leaves (15 * c.inFlight.length) c := ⟨⟨tr₀, hrun₀⟩, ⟨ns, hbounded, hsum.le⟩, hdrawn⟩
    obtain ⟨tr, c', hrun, hstop, hlen⟩ := Run.of_measure (fun _ _ hc => hc.goes_on) hleaves
    exact ⟨tr, c', hrun, hlen, hstop⟩

open Sample in
set_option maxRecDepth 4000 in
/-- Bob waits for the row Alice holds, and both transfers come to their ends. -/
theorem every_call_ends_crossing :
    ∃ tr c', RunFrom (stateAfter State.initial crossing) smooth tr c' ∧ tr.length ≤ 15 * 2 ∧ Quiet c' := by
  have hcount : (stateAfter State.initial crossing).inFlight.length = 2 := by decide
  have hends := (every_call_ends (reachable_stateAfter crossing (by decide))).2
  rw [hcount] at hends
  exact hends (by decide)

end FlashWallet
