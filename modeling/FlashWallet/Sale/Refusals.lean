import FlashWallet.Model.HttpErrors
import FlashWallet.Proof.Contenders
import FlashWallet.Proof.Deductions
import FlashWallet.Proof.Lookups
import FlashWallet.Sale.Agreement

/-!
# How a purchase is refused

A purchase that is not answered with an order is refused for one of five reasons, each with a status its route
documents; it has booked nothing, and where it was the money that was missing, a failed order is left behind. Or one of
its own statements has failed, whatever for, and the client is told so as a server error. What the database answers of
its own accord never gets to a client: every such error is ruled out at the stage it could come from (`Stage.Civil`), a
missing row by what no step takes away, an overflow by the funds, a violation by the lookup under the lock or by the row
that is read again.
-/

set_option autoImplicit false

namespace FlashWallet

open Lib

/-! ## Reasons -/

/-- The wallet is missing, or what is in it does not cover the price. -/
def Unaffordable (err : Err) : Prop :=
  err = .notFound "Wallet not found for this user" ∨ err = .badRequest "Insufficient balance"

/-- A purchase by `userId` may be refused with this error in `w`. -/
inductive Refusal (w : World) (userId : Uuid) (dto : PurchaseFlashSaleDto) : Err → Prop where
  | noEvent : Refusal w userId dto (.notFound "Flash-sale event not found")
  | inactive : Refusal w userId dto (.badRequest "Flash-sale event is not currently active")
  | exhausted : Refusal w userId dto (.conflict "Stock is exhausted for this flash-sale event")
  | unaffordable (err : Err) (reason : Unaffordable err)
      (recorded : ∃ o ∈ w.orders, o.key = (dto.eventId, dto.idempotencyKey) ∧ o.userId = userId ∧ o.status = .FAILED) :
      Refusal w userId dto err

/-- The client is told the error's own text, under one of the statuses of the route, and the log is warned. -/
theorem Refusal.told {w : World} {userId : Uuid} {dto : PurchaseFlashSaleDto} {err : Err}
    (h : Refusal w userId dto err) (library : Err → String × String) (correlationId : Option String)
    (timestamp : String) :
    ∃ status text title, (status, title) ∈ [(404, "Not Found"), (400, "Bad Request"), (409, "Conflict")] ∧
      (err = .notFound text ∨ err = .badRequest text ∨ err = .conflict text) ∧
      Http.HttpExceptionFilter.catch (err.thrown library) correlationId timestamp =
        ⟨⟨status, .text text, title, correlationId.getD "unknown", timestamp⟩, true⟩ := by
  cases h with
  | noEvent => exact ⟨404, _, _, by simp, Or.inl rfl, rfl⟩
  | inactive => exact ⟨400, _, _, by simp, Or.inr (Or.inl rfl), rfl⟩
  | exhausted => exact ⟨409, _, _, by simp, Or.inr (Or.inr rfl), rfl⟩
  | unaffordable _ reason recorded =>
    rcases reason with rfl | rfl
    · exact ⟨404, _, _, by simp, Or.inl rfl, rfl⟩
    · exact ⟨400, _, _, by simp, Or.inr (Or.inl rfl), rfl⟩

/-- A failed statement is a server error: its name and text are told as the library gives them, and logged as an
error. -/
theorem unavailable_told (library : Err → String × String) (correlationId : Option String) (timestamp : String) :
    Http.HttpExceptionFilter.catch (Err.unavailable.thrown library) correlationId timestamp =
      ⟨⟨500, .text (library .unavailable).2, (library .unavailable).1, correlationId.getD "unknown", timestamp⟩,
        false⟩ :=
  rfl

/-! ## What a purchase may rely on -/

/-- One of the call's own statements has failed, and that is the error. -/
def Disrupted (faulted : Prop) (err : Err) : Prop := err = .unavailable ∧ faulted

/-- What a purchase at this stage is going to throw is a refusal, or a failure of one of its own statements. -/
def Stage.Civil (faulted : Prop) (w : World) (userId : Uuid) (dto : PurchaseFlashSaleDto) : Stage → Prop
  | .debiting _ _ wallet => w.Owns wallet userId
  | .locked _ _ row | .unbilled _ _ row => w.Owns row.id userId
  | .written price _ row => w.Owns row.id userId ∧ price.cents ≤ row.balance.cents
  | .failing _ err | .unpaid _ err | .returned _ err => Unaffordable err ∨ Disrupted faulted err
  | .failed o err => (Unaffordable err ∨ Disrupted faulted err) ∧ o ∈ w.orders ∧
      o.key = (dto.eventId, dto.idempotencyKey) ∧ o.userId = userId ∧ o.status = .FAILED
  | .broken err => Disrupted faulted err
  | _ => True

theorem Stage.Civil.mono {faulted faulted' : Prop} {w w' : World} {userId : Uuid} {dto : PurchaseFlashSaleDto}
    {s : Stage} (h : s.Civil faulted w userId dto) (hw : w.Evolves w') (hfaulted : faulted → faulted') :
    s.Civil faulted' w' userId dto := by
  cases s with
  | debiting | locked | unbilled => exact hw.owns _ _ h
  | written => exact ⟨hw.owns _ _ h.1, h.2⟩
  | failing | unpaid | returned => exact h.imp_right fun h => ⟨h.1, hfaulted h.2⟩
  | failed o err => exact ⟨h.1.imp_right fun h => ⟨h.1, hfaulted h.2⟩, hw.mem_orders h.2.1, h.2.2⟩
  | broken => exact ⟨h.1, hfaulted h.2⟩
  | _ => exact h

section

variable {ok : State → Event → Prop} {tr : Trace} {c : State} {ps : List Progress} {i : Nat}
  {userId : Uuid} {dto : PurchaseFlashSaleDto} {s : Stage} {o : Stmt}
  {k : Except Err o.Reply → Service Response} {x : Choice} {reply : Except Err o.Reply} {w : World}

/-- Where a statement fails, the purchase is going to throw that, unless it is the announcement of its order. -/
theorem civil_unavailable {faulted : Prop} (may : May userId dto s o) (hfaulted : faulted) :
    (s.next o (.error .unavailable)).Civil faulted w userId dto := by
  cases may with
  | announce => trivial
  | findWallet | lock | findDebit | refuse | debit | book | commit | rollback => exact Or.inr ⟨rfl, hfaulted⟩
  | _ => exact ⟨rfl, hfaulted⟩

theorem civil_next {faulted : Prop} (hrun : RunFrom State.initial ok tr c)
    (h : Issues c ps i (.purchase userId dto) o k (.buying userId dto s) x reply w)
    (hsane : s.Sane c.world i dto) (hinformed : s.Informed c.world dto.eventId)
    (hcivil : s.Civil faulted c.world userId dto) :
    (s.next o reply).Civil (faulted ∨ x = .fault) w userId dto := by
  by_cases hx : x = .fault
  · subst hx
    obtain rfl := World.unavailable_of_fault h.exec
    exact civil_unavailable h.pre (Or.inr rfl)
  have hw : c.world.Ok := Reachable.worldOk ⟨tr, hrun⟩
  have hs := h.served
  have hevolves := World.Evolves.served hs
  have hpre := h.pre
  obtain ⟨hi, -, -, -, -, hexec⟩ := h
  cases hpre with
  | find | poll =>
    obtain ⟨found, rfl⟩ := World.answered hx hexec rfl
    cases found <;> trivial
  | readEvent =>
    obtain ⟨found, rfl⟩ := World.answered hx hexec rfl
    rcases found with _ | ⟨ev, product⟩ <;> trivial
  | readClock | drawId | wait | commit | releaseTwice | releaseLate | announce =>
    obtain ⟨v, rfl⟩ := World.answered hx hexec rfl
    trivial
  | reserve =>
    obtain ⟨reserved, rfl⟩ := World.answered hx hexec rfl
    cases reserved <;> trivial
  | findWallet =>
    obtain ⟨found, rfl⟩ := World.answered hx hexec rfl
    obtain ⟨rfl, hfound⟩ := hs.of_read rfl (by simp)
    cases found with
    | none => exact Or.inl (Or.inl rfl)
    | some row =>
      obtain ⟨hmem, huser⟩ := World.walletOf?_eq_some hfound.symm
      exact huser ▸ World.owns_of_mem hmem
  | lock price orderId wallet =>
    obtain ⟨found, rfl⟩ := World.answered hx hexec rfl
    obtain ⟨hfound, -⟩ := hs.of_lock
    -- the wallet was found, and no wallet goes away
    obtain ⟨row, hrow, -⟩ := World.Owns.found hcivil hw
    rw [hrow] at hfound
    subst hfound
    exact hevolves.owns _ _ ((World.wallet?_eq_some hrow).2 ▸ hcivil)
  | findDebit =>
    obtain ⟨found, rfl⟩ := World.answered hx hexec rfl
    cases found with
    | none => exact hevolves.owns _ _ hcivil
    | some existing => trivial
  | debit price orderId row funds =>
    obtain ⟨row', hfound, -⟩ := World.Owns.found hcivil hw
    cases reply with
    | ok updated => exact ⟨hevolves.owns _ _ hcivil, funds⟩
    | error e =>
      rcases World.refuses_of_error hx hexec with ⟨-, hmissing⟩ | ⟨-, hoverflow⟩
      · rw [hfound] at hmissing
        cases hmissing
      · exact absurd hoverflow (Nat.not_le.mpr (Decimal.minus_inColumn (World.Priced.nonneg hinformed) funds))
  | book price orderId row =>
    obtain ⟨row', hfound, -⟩ := World.Owns.found hcivil.1 hw
    cases reply with
    | ok e => trivial
    | error e =>
      rcases World.refuses_of_error hx hexec with ⟨-, hmissing⟩ | ⟨-, hoverflow⟩ | ⟨rfl, -⟩
      · rw [hfound] at hmissing
        cases hmissing
      · rcases hoverflow with hoverflow | hoverflow
        · have hcolumn := price.inColumn
          simp only [Decimal.negated, Money.toDecimal, Int.natAbs_neg] at hoverflow
          omega
        · exact absurd hoverflow (Nat.not_le.mpr
            (Decimal.minus_inColumn (World.Priced.nonneg hinformed) hcivil.2))
      · exact absurd hexec (uncollided hrun hi rfl)
  | refuse =>
    obtain ⟨v, rfl⟩ := World.answered hx hexec rfl
    exact Or.inl (Or.inr rfl)
  | rollback | release =>
    obtain ⟨v, rfl⟩ := World.answered hx hexec rfl
    exact hcivil.imp_right fun h => ⟨h.1, Or.inl h.2⟩
  | fail =>
    rcases order_written_or_taken hrun hi hexec hx with ⟨-, ⟨-, order, rfl, rfl, rfl⟩ | ⟨-, rfl, -⟩⟩
    · exact ⟨hcivil.imp_right fun h => ⟨h.1, Or.inl h.2⟩, by simp, rfl, rfl, rfl⟩
    · trivial
  | confirm =>
    rcases order_written_or_taken hrun hi hexec hx with ⟨-, ⟨-, order, rfl, -⟩ | ⟨-, rfl, -⟩⟩ <;> trivial
  | reread =>
    obtain ⟨found, rfl⟩ := World.answered hx hexec rfl
    obtain ⟨rfl, hfound⟩ := hs.of_read rfl (by simp)
    obtain ⟨order, hmem, hkey⟩ := hsane
    cases found with
    | none => exact absurd hkey (World.order?_eq_none.mp hfound.symm order hmem)
    | some existing => trivial

/-! ## What it has booked -/

/-- A purchase at this stage has committed no debit. -/
def Stage.clear : Stage → Bool
  | .paid _ | .late | .rereading | .sold _ | .seen _ | .broken _ => false
  | _ => true

/-- A stage is left for a clear one from a clear one, and by no commit. -/
theorem clear_next (may : May userId dto s o) (h : (s.next o reply).clear = true) :
    s.clear = true ∧ ¬Commits o reply := by
  cases may with
  | commit =>
    cases reply with
    | ok v => cases h
    | error e => exact ⟨rfl, id⟩
  | releaseTwice | releaseLate | announce => cases reply <;> cases h
  | reread => rcases reply with _ | _ | _ <;> cases h
  | confirm =>
    rcases reply with e | _
    · cases e <;> cases h
    · cases h
  | _ => exact ⟨rfl, id⟩

end

/-! ## In every run -/

/-- What is known of each purchase that is not cut off. -/
structure Refusing (tr : Trace) (c : State) (ps : List Progress) : Prop where
  sane : Sane c ps
  informed : Informed c.world ps
  civil : ∀ (i : Nat) call userId dto s, c.calls[i]? = some call → call.crashed = false →
    ps[i]? = some (.buying userId dto s) → s.Civil (Faulted tr i) c.world userId dto
  clear : ∀ (i : Nat) userId dto s, ps[i]? = some (.buying userId dto s) → s.clear = true →
    booked (byCall i) tr = []

theorem booked_other {tr : Trace} {s : Step State Event} {i : Nat} (h : s.label.actor ≠ some i) :
    booked (byCall i) (tr ++ [s]) = booked (byCall i) tr := by
  rw [booked_snoc, if_neg (by simpa [byCall] using h), List.append_nil]

theorem booked_idle {tr : Trace} {s : Step State Event} {i : Nat}
    (h : s.after.world.ledger = s.before.world.ledger) :
    booked (byCall i) (tr ++ [s]) = booked (byCall i) tr := by
  rw [booked_snoc, entriesOf_of_idle h, ite_self, List.append_nil]

theorem refusing_staged (ok : State → Event → Prop) : Staged ok State.initial Refusing where
  arrive tr c ps r hrun hreq h hok := by
    refine ⟨(sane_staged ok).arrive tr c ps r hrun hreq h.sane hok,
      (informed_staged ok).arrive tr c ps r hrun hreq h.informed hok,
      fun i call userId dto s hi hlive hp => ?_, fun i userId dto s hp hclear => ?_⟩
    · rcases Platform.getElem?_concat_cases hp with ⟨rfl, heq⟩ | hp
      · cases r <;> cases heq
        trivial
      · rcases Platform.getElem?_concat_cases hi with ⟨rfl, -⟩ | hi
        · exact absurd hreq.length (Nat.ne_of_gt (List.getElem?_eq_some_iff.mp hp).1)
        · exact (h.civil i call userId dto s hi hlive hp).mono (.refl _) Faulted.snoc
    · refine (booked_other (by simp [Lib.Label.actor])).trans ?_
      rcases Platform.getElem?_concat_cases hp with ⟨rfl, -⟩ | hp
      · -- a call that was not there has taken no step
        refine List.eq_nil_iff_forall_not_mem.mpr fun e he => ?_
        obtain ⟨step, hstep, hsel, i, x, call, hlabel, hcall, -⟩ := mem_booked initial_reachable hrun he
        have hi : i = ps.length := by simpa [byCall, hlabel, Lib.Label.actor] using hsel
        obtain ⟨call', hcall', -⟩ := ((system.keeps_of_run hrun).2 step hstep).1 i call hcall
        have hlt := (List.getElem?_eq_some_iff.mp hcall').1
        have hlen := hreq.length
        omega
      · exact h.clear i userId dto s hp hclear
  exec tr c ps i req o k p x reply w hrun h hok hissues := by
    refine ⟨(sane_staged ok).exec tr c ps i req o k p x reply w hrun h.sane hok hissues,
      (informed_staged ok).exec tr c ps i req o k p x reply w hrun h.informed hok hissues,
      fun j call userId dto s hj hlive hp => ?_, fun j userId dto s hp hclear => ?_⟩
    · rcases Platform.getElem?_set_cases hp with ⟨rfl, heq⟩ | ⟨hij, hp⟩
      · cases p with
        | other => cases heq
        | buying u d s' =>
          obtain ⟨rfl, rfl, rfl⟩ := Progress.buying.inj heq
          obtain rfl := Request.purchase?_eq_some.mp hissues.request.symm
          refine (civil_next hrun hissues (h.sane j _ _ _ s' hissues.call rfl hissues.progress)
            (h.informed _ _ _ (List.mem_of_getElem? hissues.progress))
            (h.civil j _ _ _ s' hissues.call rfl hissues.progress)).mono (.refl _) ?_
          rintro (hfaulted | rfl)
          · exact hfaulted.snoc
          · exact ⟨_, List.mem_append_right _ List.mem_cons_self, rfl⟩
      · have hcall := (List.getElem?_set_ne (Ne.symm hij)).symm.trans hj
        exact (h.civil j call userId dto s hcall hlive hp).mono (.served hissues.served) Faulted.snoc
    · rcases Platform.getElem?_set_cases hp with ⟨rfl, heq⟩ | ⟨hij, hp⟩
      · cases p with
        | other => cases heq
        | buying u d s' =>
          obtain ⟨rfl, rfl, rfl⟩ := Progress.buying.inj heq
          obtain ⟨hbefore, hcommits⟩ := clear_next hissues.pre hclear
          rw [booked_idle ((World.ledger_served hissues.served).resolve_right hcommits)]
          exact h.clear j _ _ s' hissues.progress hbefore
      · have hactor : (Label.exec i x : Event).actor ≠ some j := fun heq => hij (Option.some.inj heq).symm
        exact (booked_other (s := ⟨c, .exec i x, _⟩) hactor).trans (h.clear j userId dto s hp hclear)
  crash tr c ps i r o k hrun hreq h hok hi := by
    refine ⟨(sane_staged ok).crash tr c ps i r o k hrun hreq h.sane hok hi,
      (informed_staged ok).crash tr c ps i r o k hrun hreq h.informed hok hi,
      fun j call userId dto s hj hlive hp => ?_, fun j userId dto s hp hclear => ?_⟩
    · rcases Platform.getElem?_set_cases hj with ⟨-, rfl⟩ | ⟨-, hj⟩
      · cases hlive
      · exact (h.civil j call userId dto s hj hlive hp).mono (.release _ _) Faulted.snoc
    · exact (booked_idle rfl).trans (h.clear j userId dto s hp hclear)
  env tr c ps e w hrun hreq h hok he := by
    refine ⟨(sane_staged ok).env tr c ps e w hrun hreq h.sane hok he,
      (informed_staged ok).env tr c ps e w hrun hreq h.informed hok he,
      fun j call userId dto s hj hlive hp => (h.civil j call userId dto s hj hlive hp).mono (.env he) Faulted.snoc,
      fun j userId dto s hp hclear => ?_⟩
    exact (booked_other (by simp [Lib.Label.actor])).trans (h.clear j userId dto s hp hclear)

/-- **How a purchase is refused.** In every run, whatever fails and wherever calls are cut off, an error a purchase is
answered with is one of the five refusals, the call has booked nothing, and the client is told what was thrown, under
404, 400 or 409; or a statement of that very call has failed, and the client is told so under 500. -/
theorem purchase_refused {tr : Trace} {c : State} (hrun : RunFrom State.initial anyStep tr c) {i : Nat}
    {call : ServiceCall} (hi : c.calls[i]? = some call) {userId : Uuid} {dto : PurchaseFlashSaleDto}
    (hreq : call.request = .purchase userId dto) {err : Err} (hresult : call.result? = some (.error err)) :
    (Refusal c.world userId dto err ∧ booked (byCall i) tr = [] ∧
      ∀ library correlationId timestamp, ∃ status text title,
        (status, title) ∈ [(404, "Not Found"), (400, "Bad Request"), (409, "Conflict")] ∧
        (err = .notFound text ∨ err = .badRequest text ∨ err = .conflict text) ∧
        Http.HttpExceptionFilter.catch (err.thrown library) correlationId timestamp =
          ⟨⟨status, .text text, title, correlationId.getD "unknown", timestamp⟩, true⟩) ∨
    (err = .unavailable ∧ Faulted tr i ∧
      ∀ library correlationId timestamp,
        Http.HttpExceptionFilter.catch (err.thrown library) correlationId timestamp =
          ⟨⟨500, .text (library .unavailable).2, (library .unavailable).1, correlationId.getD "unknown", timestamp⟩,
            false⟩) := by
  obtain ⟨ps, h, hrequested, ha⟩ := (refusing_staged anyStep).sound_initial
    ⟨fun i _ _ _ _ h => by simp [State.initial] at h, fun _ _ _ h => by simp at h,
      fun i _ _ _ _ h => by simp [State.initial] at h, fun i _ _ _ h => by simp at h⟩ hrun
  obtain ⟨u, d, s, r', hp, houtcome, heq⟩ :=
    outcome_of_asks hrequested ha hi ⟨userId, dto, hreq, rfl, rfl⟩ hresult
  -- the stage is that of the call's own request
  have hasked : some (u, d) = call.request.purchase? := hrequested.same i call _ hi hp
  rw [hreq] at hasked
  obtain ⟨rfl, rfl⟩ := Prod.mk.inj (Option.some.inj hasked)
  have hcivil := h.civil i call u d s hi (Call.result?_eq_some hresult).1 hp
  have hclear := h.clear i u d s hp
  have hrefused : Refusal c.world u d err ∧ s.clear = true ∨ Disrupted (Faulted tr i) err := by
    cases houtcome with
    | seen | sold => cases heq
    | failed o e =>
      cases heq
      exact hcivil.1.imp_left fun reason => ⟨.unaffordable err reason ⟨o, hcivil.2⟩, rfl⟩
    | noEvent =>
      cases heq
      exact Or.inl ⟨.noEvent, rfl⟩
    | inactive =>
      cases heq
      exact Or.inl ⟨.inactive, rfl⟩
    | exhausted =>
      cases heq
      exact Or.inl ⟨.exhausted, rfl⟩
    | broken e =>
      cases heq
      exact Or.inr hcivil
  rcases hrefused with ⟨hrefusal, hstage⟩ | ⟨rfl, hfaulted⟩
  · exact Or.inl ⟨hrefusal, hclear hstage, fun library correlationId timestamp =>
      hrefusal.told library correlationId timestamp⟩
  · exact Or.inr ⟨rfl, hfaulted, unavailable_told⟩

section

open Sample

/-- A key with a NUL, which no text column takes. -/
def spoiled : PurchaseFlashSaleDto := ⟨sale, "lamp\x00", by decide⟩

/-- Alice tries to buy the one unit on sale with an empty wallet, and again under the spoiled key. -/
def penniless : List Event :=
  openSale 0 ++ register 1 alice aliceWallet ++ [.arrive (.purchase alice lamp)] ++ runs 2 4 ++
    [.exec 2 (.fresh id₂)] ++ runs 2 6 ++ [.arrive (.purchase alice spoiled), .exec 3 .fault]

set_option maxRecDepth 8000 in
theorem purchase_refused_penniless :
    (stateAfter State.initial penniless).calls.map Call.result? =
        [some (.ok (.event ⟨sale, goods, 1, 1, 0, 10⟩)), some (.ok .provisioned),
          some (.error (.badRequest "Insufficient balance")), some (.error .unavailable)] ∧
      Refusal (stateAfter State.initial penniless).world alice lamp (.badRequest "Insufficient balance") ∧
      booked (byCall 2) (traceAfter State.initial penniless) = [] ∧
      Faulted (traceAfter State.initial penniless) 3 := by
  have hrun := anyRun_stateAfter penniless (by decide)
  obtain ⟨call, hcall, hreq, hresult⟩ : ∃ call, (stateAfter State.initial penniless).calls[2]? = some call ∧
      call.request = .purchase alice lamp ∧ call.result? = some (.error (.badRequest "Insufficient balance")) :=
    ⟨_, rfl, rfl, rfl⟩
  obtain ⟨call', hcall', hreq', hresult'⟩ : ∃ call, (stateAfter State.initial penniless).calls[3]? = some call ∧
      call.request = .purchase alice spoiled ∧ call.result? = some (.error .unavailable) :=
    ⟨_, rfl, rfl, rfl⟩
  refine ⟨by decide, ?_⟩
  rcases purchase_refused hrun hcall hreq hresult with ⟨hrefusal, hbooked, -⟩ | ⟨hother, -⟩
  · rcases purchase_refused hrun hcall' hreq' hresult' with ⟨hrefusal', -⟩ | ⟨-, hfaulted, -⟩
    · -- a failure is none of the five refusals
      cases hrefusal' with
      | unaffordable _ reason => rcases reason with h | h <;> cases h
    · exact ⟨hrefusal, hbooked, hfaulted⟩
  · cases hother

end

end FlashWallet
