import FlashWallet.Proof.Moves

/-!
# Runs one can carry out

A run is a relation, but the system computes: a list of labels either is a run or is not, and
where it leads is a value. The concrete runs below are lists of labels over the identifiers of
`Sample`.
-/

set_option autoImplicit false

namespace FlashWallet

open Lib

/-- Where the labels lead from `c₀`, if each is enabled when its turn comes. -/
def stateAfter (c₀ : State) (ls : List Event) : State := (execute system.step c₀ ls).getD c₀

/-- The labels are a run, each step of it allowed by `ok`. -/
def Allowed (ok : State → Event → Bool) (c₀ : State) (ls : List Event) : Bool :=
  (executeChecked system.step ok c₀ ls).isSome

/-- The steps the labels take. -/
def traceAfter (c₀ : State) (ls : List Event) : Trace := record system.step c₀ ls

theorem run_stateAfter (ok : State → Event → Bool) (c₀ : State) (ls : List Event)
    (h : Allowed ok c₀ ls = true) :
    RunFrom c₀ (fun c l => ok c l = true) (traceAfter c₀ ls) (stateAfter c₀ ls) := by
  obtain ⟨c, hc⟩ := Option.isSome_iff_exists.mp h
  have hafter : stateAfter c₀ ls = c := by simp [stateAfter, execute_of_executeChecked hc]
  exact hafter ▸ Run.of_executeChecked hc

theorem anyRun_stateAfter (ls : List Event)
    (h : Allowed (fun _ _ => true) State.initial ls = true) :
    RunFrom State.initial anyStep (traceAfter State.initial ls) (stateAfter State.initial ls) :=
  (run_stateAfter _ _ _ h).mono fun _ _ _ => trivial

theorem reachable_stateAfter (ls : List Event)
    (h : Allowed (fun _ _ => true) State.initial ls = true) :
    Reachable anyStep (stateAfter State.initial ls) :=
  ⟨_, anyRun_stateAfter ls h⟩

theorem Reachable.mono {ok ok' : State → Event → Prop} {c : State} (h : Reachable ok c)
    (himp : ∀ c l, ok c l → ok' c l) : Reachable ok' c :=
  let ⟨tr, hrun⟩ := h
  ⟨tr, hrun.mono himp⟩

/-- The labels are a run of clients, and nothing fails in it. -/
def Calm (ls : List Event) : Bool :=
  Allowed (fun _ l => !l.isFault && !l.isBareDebit) State.initial ls

theorem calm_stateAfter (ls : List Event) (h : Calm ls = true) :
    Reachable calm (stateAfter State.initial ls) :=
  ⟨_, (run_stateAfter _ _ _ h).mono fun _ _ h => by
    simpa [calm, noFaults, viaApi] using h⟩

/-- Call `i` issues its next `n` statements, undisturbed. -/
def runs (i n : Nat) : List Event := List.replicate n (.exec i .ok)

namespace Sample

def alice : Uuid := ⟨"a11ce000-0000-4000-8000-000000000000", by decide⟩
def bob : Uuid := ⟨"b0b00000-0000-4000-8000-000000000000", by decide⟩
def carol : Uuid := ⟨"ca401000-0000-4000-8000-000000000000", by decide⟩
def aliceWallet : Uuid := ⟨"a11ce000-0000-4000-8000-000000000001", by decide⟩
def bobWallet : Uuid := ⟨"b0b00000-0000-4000-8000-000000000001", by decide⟩
def carolWallet : Uuid := ⟨"ca401000-0000-4000-8000-000000000001", by decide⟩
def goods : Uuid := ⟨"60005000-0000-4000-8000-000000000000", by decide⟩
def sale : Uuid := ⟨"5a1e0000-0000-4000-8000-000000000000", by decide⟩
def id₁ : Uuid := ⟨"00000000-0000-4000-8000-000000000001", by decide⟩
def id₂ : Uuid := ⟨"00000000-0000-4000-8000-000000000002", by decide⟩
def id₃ : Uuid := ⟨"00000000-0000-4000-8000-000000000003", by decide⟩
def id₄ : Uuid := ⟨"00000000-0000-4000-8000-000000000004", by decide⟩

def five : Money := ⟨500, by decide⟩
def ten : Money := ⟨1000, by decide⟩
def debitOfFive : Money := ⟨-500, by decide⟩

/-- A product at ten units of money. -/
def product : Product := ⟨goods, ten, by decide⟩

/-- `userId` registers: call `i` provisions the wallet. -/
def register (i : Nat) (userId walletId : Uuid) : List Event :=
  [.arrive (.provisionWallet userId), .exec i (.fresh walletId)]

/-- Call `i` deposits ten units of money for `userId`, undisturbed. -/
def fund (i : Nat) (userId referenceId : Uuid) : List Event :=
  [.arrive (.deposit userId ⟨1000, by decide⟩), .exec i (.fresh referenceId)] ++ runs i 5

/-- Alice's wallet after a deposit of ten and a payment of five. -/
def aliceHalf : Wallet := ⟨aliceWallet, alice, five, 2⟩

/-- Alice pays Bob his rent. -/
def toBob : TransferDto := ⟨bob, 500, by decide, "rent", by decide⟩

/-- Bob pays Alice for his food. -/
def toAlice : TransferDto := ⟨alice, 300, by decide, "food", by decide⟩

def event : CreateFlashSaleEventDto := ⟨goods, 1, by decide, 0, 10, by decide⟩

/-- A sale of two units. -/
def event₂ : CreateFlashSaleEventDto := { event with totalStock := 2, min := by decide }

/-- A sale of one unit opens: call `i` creates the event. -/
def openSale (i : Nat) : List Event :=
  [.env (.seedProduct product), .arrive (.createEvent event), .exec i .ok, .exec i (.fresh sale)]

def lamp : PurchaseFlashSaleDto := ⟨sale, "lamp", by decide⟩

def vase : PurchaseFlashSaleDto := ⟨sale, "vase", by decide⟩

/-- Alice buys the one unit on sale. -/
def bought : List Event :=
  openSale 0 ++ register 1 alice aliceWallet ++ fund 2 alice id₁ ++
    [.arrive (.purchase alice lamp)] ++ runs 3 4 ++ [.exec 3 (.fresh id₂)] ++ runs 3 8

def aliceOrder : Order := ⟨id₂, alice, sale, .CONFIRMED, "lamp", 0⟩

end Sample

end FlashWallet
