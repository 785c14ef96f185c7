import FlashWallet.Lib.WaitGraph
import FlashWallet.Proof.LockOrder
import FlashWallet.Proof.Runs

/-!
# No deadlock

Whoever holds a row and waits for another waits for one that comes later. So the wait graph is
ascending, whatever the calls and however they are interleaved, and the rest is `Lib/WaitGraph.lean`.
-/

set_option autoImplicit false

namespace FlashWallet

open Lib

/-- Identifiers in the order `sort` puts them in. -/
instance : Preorder Uuid := Preorder.lift Uuid.text

theorem Uuid.lt_iff {a b : Uuid} : a < b ↔ a.text < b.text := Iff.rfl

/-- Call `i` cannot go on before call `j` gives up the lock of the row `id`. -/
structure WaitsForRow (c : State) (i : Nat) (id : Uuid) (j : Nat) : Prop where
  wants : ∃ r o k, c.calls[i]? = some ⟨r, .call o k, false⟩ ∧ o.wants? = some id
  holder : c.world.holder id = some j
  other : j ≠ i

/-- The call can go on with nothing failing: its statement is answered at once or, if it draws an
identifier, whichever of those that are left is drawn. -/
def CanStep (c : State) (i : Nat) : Prop :=
  ∃ r o k, c.calls[i]? = some ⟨r, .call o k, false⟩ ∧
    if o.draws then ∀ id ∉ c.world.drawn, (system.step c (.exec i (.fresh id))).isSome
    else (system.step c (.exec i .ok)).isSome

/-! ## Who holds a row -/

variable {c : State} {i j : Nat} {hs : List (List Uuid)}

/-- Whoever holds a row is in the middle of a transaction, and the row is on its books. -/
theorem Held.holder (h : Held c hs) (ha : Platform.Aligned ordered (fun _ => Freed) c.calls hs)
    {id : Uuid} (hid : c.world.holder id = some j) :
    ∃ r o k held, c.calls[j]? = some ⟨r, .call o k, false⟩ ∧ id ∈ held ∧ orderedPre o held ∧
      ∀ id', c.world.holder id' = some j ↔ id' ∈ held := by
  have hlt : j < c.calls.length := by
    by_contra hge
    exact h.beyond j (not_lt.mp hge) id hid
  have hcall : c.calls[j]? = some c.calls[j] := List.getElem?_eq_getElem hlt
  obtain ⟨held, hg⟩ := ha.books hcall
  have hheld := h.books j _ held hcall hg
  have hmem := (hheld.rows id).mp hid
  have hne : held ≠ [] := List.ne_nil_of_mem hmem
  have hkeeps := ha.keeps j _ held hcall hg
  generalize c.calls[j] = call at hcall hheld hkeeps
  obtain ⟨r, prog, crashed⟩ := call
  cases crashed with
  | true => exact absurd (hheld.crashed rfl) hne
  | false =>
    -- a call that has ended holds nothing
    cases prog with
    | done a => exact absurd (hkeeps rfl) hne
    | fail e => exact absurd (hkeeps rfl) hne
    | call o k => exact ⟨r, o, k, held, hcall, hmem, (hkeeps rfl).1, hheld.rows⟩

/-- **The lock order.** Who is waited for waits, if at all, for a later row. -/
theorem Held.ascending (h : Held c hs) (ha : Platform.Aligned ordered (fun _ => Freed) c.calls hs) :
    Ascending (WaitsForRow c) := by
  intro i id j id' k hij hjk
  obtain ⟨r, o, k₀, held, hcall, hmem, hpre, hrows⟩ := h.holder ha hij.holder
  obtain ⟨r', o', k', hcall', hwants⟩ := hjk.wants
  cases hcall.symm.trans hcall'
  have hnot : id' ∉ held := by
    intro hmem'
    exact hjk.other (Option.some.inj (hjk.holder.symm.trans ((hrows id').mpr hmem')))
  cases o with
  | walletForUpdate id'' =>
    obtain rfl := Option.some.inj hwants
    refine Uuid.lt_iff.mpr (lt_of_le_of_ne (hpre id hmem) fun heq => hnot ?_)
    exact Uuid.ext_text heq ▸ hmem
  | walletUpdate id'' =>
    obtain rfl := Option.some.inj hwants
    exact absurd hpre hnot
  | ledgerEntryCreate d =>
    obtain rfl := Option.some.inj hwants
    exact absurd hpre hnot
  | _ => cases hwants

/-! ## Who can go on -/

/-- A statement that draws nothing and finds its row free is answered. -/
theorem World.serve_isSome {w : World} {o : Stmt} (hdraws : o.draws = false)
    (hfree : ∀ id, o.wants? = some id → w.canLock i id = true) : (w.serve i o).isSome := by
  cases o with
  | walletForUpdate id =>
    simp only [serve, walletForUpdate, if_pos (hfree id rfl)]
    split <;> rfl
  | walletUpdate id balance =>
    simp only [serve, walletUpdate, if_pos (hfree id rfl)]
    split <;> rfl
  | ledgerEntryCreate d =>
    simp only [serve, ledgerEntryCreate, if_pos (hfree d.walletId rfl)]
    split
    · rfl
    · split <;> rfl
    · rfl
  | randomUUID | walletCreate | flashSaleEventCreate => cases hdraws
  | _ => rfl

/-- Drawing an identifier waits for nobody. -/
theorem World.draw_isSome {w : World} {o : Stmt} (hdraws : o.draws = true) {id : Uuid}
    (hid : id ∉ w.drawn) : (World.exec i o (.fresh id) w).isSome := by
  simp only [exec, if_neg hid]
  cases o with
  | randomUUID | walletCreate | flashSaleEventCreate => rfl
  | _ => cases hdraws

/-- A call in flight that waits for nobody can go on. -/
theorem canStep_of_free {r : Request} {o : Stmt} {k : Except Err o.Reply → Service Response}
    (hi : c.calls[i]? = some ⟨r, .call o k, false⟩) (hfree : ∀ j, ¬ WaitsFor (WaitsForRow c) i j) :
    CanStep c i := by
  refine ⟨r, o, k, hi, ?_⟩
  have hstep : ∀ x, (World.exec i o x c.world).isSome → (system.step c (.exec i x)).isSome := by
    intro x hx
    obtain ⟨⟨reply, w⟩, hexec⟩ := Option.isSome_iff_exists.mp hx
    rw [system.step_of_exec hi hexec]
    rfl
  split
  · rename_i hdraws
    exact fun id hid => hstep _ (World.draw_isSome hdraws hid)
  · rename_i hdraws
    refine hstep .ok (World.serve_isSome (Bool.eq_false_iff.mpr hdraws) fun id hwants => ?_)
    unfold World.canLock
    cases hholder : c.world.holder id with
    | none => rfl
    | some j =>
      have hself : j = i := by
        by_contra hne
        exact hfree j ⟨id, ⟨r, o, k, hi, hwants⟩, hholder, hne⟩
      simp [hself]

/-- **Deadlock freedom**, in every state any run reaches: no cycle of calls wait for each other's rows,
and from every call in flight the waits lead to one that can go on. -/
theorem deadlock_free {c : State} (h : Reachable anyStep c) :
    (∀ i, ¬ Relation.TransGen (WaitsFor (WaitsForRow c)) i i) ∧
    ∀ i call, c.calls[i]? = some call → call.inFlight = true →
      ∃ j, Relation.ReflTransGen (WaitsFor (WaitsForRow c)) i j ∧ CanStep c j := by
  obtain ⟨tr, hrun⟩ := h
  obtain ⟨hs, hheld, ha⟩ := held_of_run hrun
  have hascending := hheld.ascending ha
  refine ⟨hascending.acyclic, fun i call hi hlive => ?_⟩
  have hinFlight : ∀ j, Relation.ReflTransGen (WaitsFor (WaitsForRow c)) i j →
      ∃ r o k, c.calls[j]? = some ⟨r, .call o k, false⟩ := by
    intro j hij
    cases hij with
    | refl =>
      obtain ⟨hcrashed, o, k, hprog⟩ := Call.inFlight_iff.mp hlive
      obtain ⟨r, prog, crashed⟩ := call
      subst hcrashed hprog
      exact ⟨r, o, k, hi⟩
    | tail _ hlast =>
      obtain ⟨id, hid⟩ := hlast
      obtain ⟨r, o, k, held, hj, -⟩ := hheld.holder ha hid.holder
      exact ⟨r, o, k, hj⟩
  have hnodes : ∀ i' j, WaitsFor (WaitsForRow c) i' j → j ∈ {n | n < c.calls.length} := by
    rintro i' j ⟨id, hid⟩
    obtain ⟨r, o, k, held, hj, -⟩ := hheld.holder ha hid.holder
    exact (List.getElem?_eq_some_iff.mp hj).1
  obtain ⟨j, -, hchain, hfree⟩ := hascending.exists_free (Set.finite_lt_nat c.calls.length) hnodes
    (i := i) (List.getElem?_eq_some_iff.mp hi).1
  obtain ⟨r, o, k, hj⟩ := hinFlight j hchain
  exact ⟨j, hchain, canStep_of_free hj hfree⟩

section

open Sample

/-- Alice and Bob pay each other at the same time; Alice has the first row, and Bob waits for it. -/
def crossing : List Event :=
  register 0 alice aliceWallet ++ register 1 bob bobWallet ++ fund 2 alice id₁ ++ fund 3 bob id₂ ++
    [.arrive (.transfer alice toBob),
      .arrive (.transfer bob toAlice)] ++ runs 4 5 ++ runs 5 4

set_option maxRecDepth 4000 in
theorem deadlock_free_crossing :
    system.step (stateAfter State.initial crossing) (.exec 5 .ok) = none ∧
      ∃ j, Relation.ReflTransGen (WaitsFor (WaitsForRow (stateAfter State.initial crossing))) 5 j ∧
        CanStep (stateAfter State.initial crossing) j := by
  have hlive : ((stateAfter State.initial crossing).calls[5]?.map Call.inFlight) = some true := by decide
  obtain ⟨call, hcall, hinFlight⟩ := Option.map_eq_some_iff.mp hlive
  refine ⟨?_, (deadlock_free (reachable_stateAfter crossing (by decide))).2 5 call hcall hinFlight⟩
  exact Option.isNone_iff_eq_none.mp (by decide)

end

end FlashWallet
