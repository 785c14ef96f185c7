import FlashWallet.Proof.Sessions

/-!
# Runs of the authentication service one can carry out
-/

set_option autoImplicit false

namespace FlashWallet.Auth

open Lib

/-- Any step whatever. -/
def anyStep : State → Event → Prop := fun _ _ => True

/-- Where the labels lead, if each is enabled when its turn comes. -/
def stateAfter (env : Settings) (ls : List Event) : State :=
  (execute (system env).step State.initial ls).getD State.initial

/-- The labels are a run, each step of it allowed by `ok`. -/
def Allowed (env : Settings) (ok : State → Event → Bool) (ls : List Event) : Bool :=
  (executeChecked (system env).step ok State.initial ls).isSome

/-- The steps the labels take. -/
def traceAfter (env : Settings) (ls : List Event) : Trace := record (system env).step State.initial ls

theorem run_stateAfter (env : Settings) (ok : State → Event → Bool) (ls : List Event)
    (h : Allowed env ok ls = true) :
    RunFrom env State.initial (fun c l => ok c l = true) (traceAfter env ls) (stateAfter env ls) := by
  obtain ⟨c, hc⟩ := Option.isSome_iff_exists.mp h
  have hafter : stateAfter env ls = c := by simp [stateAfter, execute_of_executeChecked hc]
  exact hafter ▸ Run.of_executeChecked hc

namespace Trial

/-- Fifteen minutes, and seven days. -/
def settings : Settings where
  accessTtl := "15m"
  refreshTtl := "7d"
  ms := fun s => if s = "15m" then some (15 * 60 * 1000) else
    if s = "7d" then some (7 * 24 * 60 * 60 * 1000) else none

def alice : Uuid := ⟨"a11ce000-0000-4000-8000-000000000000", Eq.refl true⟩
def wallet : Uuid := ⟨"a11ce000-0000-4000-8000-000000000001", Eq.refl true⟩
def jti₁ : Uuid := ⟨"00000000-0000-4000-8000-000000000001", Eq.refl true⟩
def jti₂ : Uuid := ⟨"00000000-0000-4000-8000-000000000002", Eq.refl true⟩
def jti₃ : Uuid := ⟨"00000000-0000-4000-8000-000000000003", Eq.refl true⟩

/-- Call `i` issues its next `n` statements, undisturbed. -/
def proceeds (i n : Nat) : List Event := List.replicate n (.exec i .ok)

/-- Call `i` has a pair signed and stores the session `jti`. -/
def issues (i : Nat) (jti : Uuid) (token : String) : List Event :=
  [.exec i (.text ("access for " ++ token)), .exec i (.fresh jti), .exec i (.text token), .exec i .ok]

/-- Alice registers: call 0. -/
def register : List Event :=
  [.arrive (.register ⟨"alice@example.com", "in plain text"⟩), .exec 0 .ok, .exec 0 (.text "hashed"),
    .exec 0 (.fresh alice), .exec 0 (.fresh wallet), .exec 0 .ok] ++ issues 0 jti₁ "first"

/-- Call `i` looks up `token`. -/
def looks (i : Nat) (token : String) : List Event := [.arrive (.refresh token)] ++ proceeds i 2

/-- Call `i`, which has found its session, deletes it and finds its user. -/
def rotates (i : Nat) : List Event := proceeds i 2

/-- Where call after call leads. -/
def thereafter (c : State) (request : Request) (xs : List Choice) : State :=
  (execute (system settings).step ((system settings).arrive c request) (xs.map (.exec c.calls.length))).getD
    State.initial

theorem execute_thereafter {c : State} {request : Request} {xs : List Choice}
    (h : (execute (system settings).step ((system settings).arrive c request)
      (xs.map (.exec c.calls.length))).isSome = true) :
    execute (system settings).step ((system settings).arrive c request) (xs.map (.exec c.calls.length)) =
      some (thereafter c request xs) := by
  obtain ⟨c', hc'⟩ := Option.isSome_iff_exists.mp h
  simp [thereafter, hc']

end Trial

end FlashWallet.Auth
