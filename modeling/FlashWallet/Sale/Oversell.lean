import FlashWallet.Proof.Audit
import FlashWallet.Proof.Runs
import FlashWallet.Proof.Stock

/-!
# Overselling

The conditional update never sells a unit twice; what can is the compensation. A purchase whose
debit failed gives its unit back and then records a `FAILED` order. If a duplicate has written an
order under the same key in the meantime, the insert is refused, and the conflict handler gives
the unit back **once more**. From then on more units can be sold than there are.

Runs in which that does not happen sell no unit twice, whatever fails or dies in them.
-/

set_option autoImplicit false

namespace FlashWallet

open Lib

/-- Of every event, what remains is between zero and the stock, and no more is sold than there is. -/
def World.SoundStock (w : World) : Prop :=
  ∀ ev ∈ w.events, 0 ≤ ev.remaining ∧ ev.remaining ≤ ev.totalStock ∧ w.confirmed ev.id ≤ ev.totalStock

instance (w : World) : Decidable w.SoundStock :=
  inferInstanceAs (Decidable (∀ ev ∈ w.events,
    0 ≤ ev.remaining ∧ ev.remaining ≤ ev.totalStock ∧ w.confirmed ev.id ≤ ev.totalStock))

/-- The step records a failed purchase under a key that has its order. -/
def recordsFailureTwice (c : State) : Event → Bool
  | .exec i .ok =>
    match nextStmt? c (.exec i .ok) with
    | some (.orderCreate d) =>
      d.status = .FAILED && (c.world.order? (d.flashSaleEventId, d.idempotencyKey)).isSome
    | _ => false
  | _ => false

/-- The reply refuses a failed order. -/
def RefusesFailed : (o : Stmt) → Except Err o.Reply → Prop
  | .orderCreate d, .error .uniqueViolation => d.status = .FAILED
  | _, _ => False

/-- Only a refused failure makes a purchase give its unit back twice. -/
theorem regular_next {p : Progress} {o : Stmt} {r : Except Err o.Reply} (hpre : purchasing.pre o p)
    (hr : ¬RefusesFailed o r) : (p.next o r).Regular := by
  cases p with
  | other => trivial
  | buying userId dto s =>
    cases hpre with
    | fail orderId err =>
      rcases r with e | v
      · cases e <;> trivial
      · trivial
    | confirm =>
      rcases r with e | v
      · cases e <;> trivial
      · trivial
    | find | readEvent | poll | reread | findWallet | lock | findDebit | reserve =>
      rcases r with _ | _ | _ <;> trivial
    | _ => cases r <;> trivial

/-- A failed order is refused only over an order under its key. -/
theorem recordsFailureTwice_of_refused {ok : State → Event → Prop} {tr : Trace} {c : State}
    (hrun : RunFrom State.initial ok tr c) {i : Nat} {req : Request} {o : Stmt}
    {k : Except Err o.Reply → Service Response} {x : Choice} {r : Except Err o.Reply} {w : World}
    (hi : c.calls[i]? = some ⟨req, .call (S := sql) o k, false⟩)
    (hexec : World.exec i o x c.world = some (r, w)) (hr : RefusesFailed o r) :
    recordsFailureTwice c (.exec i x) = true := by
  cases o with
  | orderCreate d =>
    rcases r with e | v
    · cases e with
      | uniqueViolation =>
        have hstatus : d.status = .FAILED := hr
        have hx : x ≠ .fault := by rintro rfl; cases hexec
        rcases order_written_or_taken hrun hi hexec hx with ⟨rfl, ⟨-, _, hok, -⟩ | ⟨htaken, -⟩⟩
        · cases hok
        · have hnext : nextStmt? c (.exec i .ok) = some (.orderCreate d) := by simp [nextStmt?, hi]
          simp [recordsFailureTwice, hnext, hstatus, htaken]
      | _ => exact hr.elim
    · exact hr.elim
  | _ => rcases r with _ | _ <;> exact hr.elim

theorem stocked_staged (e : Uuid) :
    Staged (fun c l => recordsFailureTwice c l = false) State.initial
      fun _ c ps => Stocked e c.world ps where
  arrive _ _ _ r _ _ h _ := h.arrive r
  exec tr c ps i req o k p x reply w hrun h hok hissues := by
    refine h.served (Reachable.worldOk ⟨tr, hrun⟩) hissues.progress hissues.pre hissues.served ?_
    refine regular_next hissues.pre fun hr => ?_
    rw [recordsFailureTwice_of_refused hrun hissues.call hissues.exec hr] at hok
    cases hok
  crash _ _ _ _ _ _ _ _ _ h _ _ := { h with }
  env _ _ _ _ _ _ _ h _ he := h.env he

/-- **No overselling**, in every state of every run in which no failure is recorded over an existing
order. -/
theorem no_oversell {c : State} (h : Reachable (fun c l => recordsFailureTwice c l = false) c) :
    c.world.SoundStock := by
  obtain ⟨tr, hrun⟩ := h
  intro ev hev
  obtain ⟨ps, hstocked, -⟩ := (stocked_staged ev.id).sound_initial (.initial _) hrun
  have hnonneg := hstocked.nonneg ev hev rfl
  have hbounded := hstocked.bounded ev hev rfl
  refine ⟨hnonneg, ?_, ?_⟩ <;> omega

section

open Sample

/-- Alice, who has no money, asks for the one unit and her client retries at once. The first attempt
takes the unit, fails to pay and gives it back; the second takes it while the first is about to record
the failure, fails to pay as well, and gives it back twice. Then Bob and Carol buy one unit each. -/
def retried : List Event :=
  openSale 0 ++ register 1 alice aliceWallet ++ register 2 bob bobWallet ++
    register 3 carol carolWallet ++ fund 4 bob id₁ ++ fund 5 carol id₂ ++
    [.arrive (.purchase alice lamp), .arrive (.purchase alice lamp)] ++ runs 6 1 ++ runs 7 1 ++
    runs 6 3 ++ [.exec 6 (.fresh id₃)] ++ runs 6 5 ++ runs 7 3 ++ [.exec 7 (.fresh id₄)] ++
    runs 7 5 ++ runs 6 1 ++ runs 7 3 ++
    [.arrive (.purchase bob vase)] ++ runs 8 4 ++
    [.exec 8 (.fresh ⟨"00000000-0000-4000-8000-000000000005", by decide⟩)] ++ runs 8 8 ++
    [.arrive (.purchase carol ⟨sale, "book", by decide⟩)] ++ runs 9 4 ++
    [.exec 9 (.fresh ⟨"00000000-0000-4000-8000-000000000006", by decide⟩)] ++ runs 9 8

set_option maxRecDepth 8000 in
/-- Two units are sold of a stock of one. -/
theorem oversold_retried :
    Reachable calm (stateAfter State.initial retried) ∧
      (stateAfter State.initial retried).world.confirmed sale = 2 ∧
      ¬(stateAfter State.initial retried).world.SoundStock :=
  ⟨calm_stateAfter retried (by decide), by decide, by decide⟩

/-- Alice's attempt without the retry. -/
def declined : List Event :=
  openSale 0 ++ register 1 alice aliceWallet ++ [.arrive (.purchase alice lamp)] ++ runs 2 4 ++
    [.exec 2 (.fresh id₃)] ++ runs 2 6

set_option maxRecDepth 4000 in
theorem no_oversell_declined :
    (stateAfter State.initial declined).world.orders.map Order.status = [.FAILED] ∧
      (stateAfter State.initial declined).world.SoundStock :=
  have hrun := run_stateAfter (fun c l => !recordsFailureTwice c l) State.initial declined (by decide)
  ⟨by decide, no_oversell ⟨_, hrun.mono fun _ _ h => by simpa using h⟩⟩

end

end FlashWallet
