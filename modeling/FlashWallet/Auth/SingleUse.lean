import FlashWallet.Proof.AuthRuns

/-!
# A refresh token is used once

A refresh looks the session up and deletes it, in two statements: what the deletion finds is not asked.
As long as no refresh of a token finds its session while another refresh of it is about to delete it, the
session is found by one call, and one call returns a pair for the token.
-/

set_option autoImplicit false

namespace FlashWallet.Auth

open Lib

variable {env : Settings}

/-- Of the refreshes of `token` at most one has returned a pair. -/
def SingleUse (c : State) (token : String) : Prop :=
  ∀ (i j : Nat) (call call' : ServiceCall) (t t' : AuthTokens), c.calls[i]? = some call →
    c.calls[j]? = some call' → call.request = .refresh token → call'.request = .refresh token →
    call.result? = some (.ok (.tokens t)) → call'.result? = some (.ok (.tokens t')) → i = j

/-- The call has found the session of `token` under `key`, and is about to delete it. -/
def isDeleting (token key : String) : ServiceCall → Bool
  | ⟨.refresh token', .call (.redisDel keys) _, false⟩ => token' = token && keys = [key]
  | _ => false

/-- The step is a refresh of `token` that finds its session while another refresh of `token` has found
it and not yet deleted it. -/
def findsTwice (token : String) (c : State) : Event → Bool
  | .exec i _ =>
    match c.calls[i]? with
    | some ⟨.refresh token', .call (.redisGet key) _, false⟩ =>
      token' = token && (c.world.redisGet key).isSome && c.calls.any (isDeleting token key)
    | _ => false
  | _ => false

def findsOnce (token : String) : State → Event → Prop := fun c l => findsTwice token c l = false

/-- What is claimed is settled, what is spent is gone, and `token` is claimed by one call. -/
structure Claimed (token : String) (c : State) (gs : List Stage) : Prop where
  keyed : Keyed c gs
  settled : ∀ (i : Nat) (g : Stage) (s : Presented), gs[i]? = some g → g.claims = some s →
    Settled c gs s.payload.jti
  gone : ∀ (i : Nat) (g : Stage) (s : Presented), gs[i]? = some g → g.spends = some s →
    ∀ row ∈ c.world.redis, row.key ≠ s.key
  alone : ∀ (i j : Nat) (g g' : Stage) (s s' : Presented), gs[i]? = some g → gs[j]? = some g' →
    g.claims = some s → g'.claims = some s' → s.token = token → s'.token = token → i = j

/-- Whoever claims a token has spent it or is about to. -/
theorem held_or_spends {g : Stage} {s : Presented} (h : g.claims = some s) :
    g = .held s ∨ g.spends = some s := by
  cases g with
  | held s' => exact Or.inl (congrArg Stage.held (Option.some.inj h))
  | rotating | issuing | named | signed | stored => exact Or.inr h
  | _ => cases h

theorem claims_of_spends {g : Stage} {s : Presented} (h : g.spends = some s) : g.claims = some s := by
  cases g with
  | rotating | issuing | named | signed | stored => exact h
  | _ => cases h

theorem presented_of_claims {g : Stage} {s : Presented} (h : g.claims = some s) : g.presented = some s := by
  cases g with
  | held | rotating | issuing | named | signed | stored => exact h
  | _ => cases h

/-- The same token says the same. -/
theorem Keyed.payload_eq {c : State} {gs : List Stage} (h : Keyed c gs) {i j : Nat} {g g' : Stage}
    {s s' : Presented} (hg : gs[i]? = some g) (hg' : gs[j]? = some g') (hs : g.presented = some s)
    (hs' : g'.presented = some s') (htoken : s.token = s'.token) : s = s' := by
  obtain ⟨exp, hjwt⟩ := h.presented i g s hg hs
  obtain ⟨exp', hjwt'⟩ := h.presented j g' s' hg' hs'
  obtain ⟨token, payload⟩ := s
  obtain ⟨token', payload'⟩ := s'
  obtain rfl : token = token' := htoken
  cases Option.some.inj (hjwt.symm.trans hjwt')
  rfl

theorem not_outcome_held {r : Request} {result : Except Err Response} {s : Presented} :
    ¬Outcome r result (.held s) := by
  intro h
  cases h with
  | gaveUp _ _ _ gives => exact gives.elim

/-- A call that has found its session is about to delete it. -/
theorem deleting_of_held {c : State} {gs : List Stage} (h : Keyed c gs)
    (ha : Platform.Aligned (machine env).discipline Outcome c.calls gs) {j : Nat} {s : Presented}
    (hg : gs[j]? = some (.held s)) : ∃ call ∈ c.calls, isDeleting s.token s.key call = true := by
  have hlt : j < c.calls.length := ha.length ▸ (List.getElem?_eq_some_iff.mp hg).1
  obtain ⟨call, hcall⟩ : ∃ call, c.calls[j]? = some call := ⟨_, List.getElem?_eq_getElem hlt⟩
  have hlive : call.crashed = false := by
    cases hcrashed : call.crashed with
    | false => rfl
    | true => cases h.cut j call _ hcall hg hcrashed
  obtain ⟨o, k, hprog, hmay⟩ := Platform.Aligned.next_of_stage (T := stages env) ha hcall hg hlive
    fun _ => not_outcome_held
  have hrequest : call.request = .refresh s.token := h.asked j call _ hcall hg _ rfl
  obtain ⟨request, prog, crashed⟩ := call
  cases hrequest
  cases hprog
  cases hlive
  cases hmay
  exact ⟨_, List.mem_of_getElem? hcall, by simp [isDeleting]⟩

theorem Claimed.initial (token : String) : Claimed token State.initial [] where
  keyed := .initial
  settled := by simp
  gone := by simp
  alone := by simp

section

variable {token : String} {c : State} {gs : List Stage} {i : Nat} {r : Request} {o : Stmt}
  {k : Except Err o.Reply → Service Response} {g : Stage} {x : Choice} {reply : Except Err o.Reply}
  {w : World}

/-- A call that finds the session of `token` is the only one to claim it. -/
theorem Claimed.found_alone (h : Claimed token c gs) (hok : findsOnce token c (.exec i x)) {s : Presented}
    (hissues : Issues env c gs i r o k (.verified s) x reply w) {row : RedisRow} (hrow : row ∈ c.world.redis)
    (hkey : row.key = s.key) (htoken : s.token = token) {j : Nat} {g' : Stage} {s' : Presented}
    (hg' : gs[j]? = some g') (hs' : g'.claims = some s') : s'.token ≠ token := by
  intro htoken'
  obtain rfl := h.keyed.payload_eq hissues.stage hg' rfl (presented_of_claims hs')
    (htoken.trans htoken'.symm)
  subst htoken
  rcases held_or_spends hs' with rfl | hspends
  · -- the other is about to delete it, which no step allows
    obtain ⟨call, hcall, hdeleting⟩ := deleting_of_held h.keyed hissues.aligned hg'
    have hcalli := hissues.call
    obtain rfl : r = .refresh s.token := h.keyed.asked i _ _ hcalli hissues.stage _ rfl
    have hmay := hissues.may
    cases hmay with
    | look =>
      have hfound : (c.world.redisGet s.key).isSome = true := by
        rw [World.redisGet, Option.isSome_map, List.find?_isSome]
        exact ⟨row, hrow, by simpa using hkey⟩
      have hallowed : findsTwice s.token c (.exec i x) = false := hok
      simp only [findsTwice, hcalli, hfound, decide_true, Bool.true_and] at hallowed
      rw [List.any_eq_true.mpr ⟨call, hcall, hdeleting⟩] at hallowed
      cases hallowed
  · exact h.gone j g' s hg' hspends row hrow hkey

/-- A claim that is new is for a settled session, and `token` is claimed by nobody else. -/
theorem Claimed.claims_exec (h : Claimed token c gs) (hok : findsOnce token c (.exec i x))
    (hissues : Issues env c gs i r o k g x reply w) {s : Presented}
    (hclaims : (g.next o reply).claims = some s) :
    g.claims = some s ∨ Settled c gs s.payload.jti ∧ (s.token = token →
      ∀ (j : Nat) (g' : Stage) (s' : Presented), gs[j]? = some g' → g'.claims = some s' →
        s'.token ≠ token) := by
  refine (claims_next hissues.may reply hclaims).imp_right ?_
  rintro ⟨rfl, hfinds⟩
  obtain ⟨⟨row, hrow, hkey⟩, -⟩ := World.finds_served (served_of_issues hissues) hfinds
  obtain ⟨sub, jti, hkey', -, hsettled⟩ :=
    h.keyed.rows row hrow (hkey ▸ isSession_refreshKey s.payload.sub s.payload.jti)
  obtain ⟨-, rfl⟩ := refreshKey_inj (hkey.symm.trans hkey')
  exact ⟨hsettled, fun htoken j g' s' hg' hs' => h.found_alone hok hissues hrow hkey htoken hg' hs'⟩

theorem Claimed.gone_exec (h : Claimed token c gs) (hissues : Issues env c gs i r o k g x reply w)
    {s : Presented} (hspends : (g.next o reply).spends = some s) : ∀ row ∈ w.redis, row.key ≠ s.key := by
  rcases spends_next hissues.may reply hspends with hold | ⟨-, hdeletes⟩
  · exact h.keyed.stays_gone hissues (h.settled i g s hissues.stage (claims_of_spends hold))
      (h.gone i g s hissues.stage hold)
  · intro row hrow hkey
    rw [World.deletes_served (served_of_issues hissues) hdeletes] at hrow
    simpa [hkey] using (List.mem_filter.mp hrow).2

end

theorem claimed_staged (token : String) :
    Platform.Staged (system env) (stages env) (findsOnce token) fun _ => Claimed token where
  arrive tr c gs r hlen h hok :=
    { keyed := h.keyed.arrive hlen r
      settled := fun i g s hg hs => by
        rcases Platform.getElem?_concat_cases hg with ⟨-, rfl⟩ | hg
        · cases hs
        · exact (h.settled i g s hg hs).arrive r
      gone := fun i g s hg hs => by
        rcases Platform.getElem?_concat_cases hg with ⟨-, rfl⟩ | hg
        · cases hs
        · exact h.gone i g s hg hs
      alone := fun i j g g' s s' hg hg' hs hs' htoken htoken' => by
        rcases Platform.getElem?_concat_cases hg with ⟨-, rfl⟩ | hg
        · cases hs
        · rcases Platform.getElem?_concat_cases hg' with ⟨-, rfl⟩ | hg'
          · cases hs'
          · exact h.alone i j g g' s s' hg hg' hs hs' htoken htoken' }
  exec tr c gs i r o k g x reply w h hok hissues := by
    have hsettled : ∀ s, (g.next o reply).claims = some s → Settled c gs s.payload.jti := fun s hclaims =>
      (h.claims_exec hok hissues hclaims).elim (h.settled i g s hissues.stage) And.left
    refine
      { keyed := h.keyed.exec hissues
        settled := fun j g' s hg' hclaims => ?_
        gone := fun j g' s hg' hspends => ?_
        alone := fun j j' g' g'' s s' hg' hg'' hclaims hclaims' htoken htoken' => ?_ }
    · rcases Platform.getElem?_set_cases hg' with ⟨rfl, rfl⟩ | ⟨-, hg'⟩
      · exact (hsettled s hclaims).exec hissues
      · exact (h.settled j g' s hg' hclaims).exec hissues
    · rcases Platform.getElem?_set_cases hg' with ⟨rfl, rfl⟩ | ⟨-, hg'⟩
      · exact h.gone_exec hissues hspends
      · exact h.keyed.stays_gone hissues (h.settled j g' s hg' (claims_of_spends hspends))
          (h.gone j g' s hg' hspends)
    · rcases Platform.getElem?_set_cases hg' with ⟨rfl, rfl⟩ | ⟨hne, hold⟩ <;>
        rcases Platform.getElem?_set_cases hg'' with ⟨rfl, rfl⟩ | ⟨hne', hold'⟩
      · rfl
      · rcases h.claims_exec hok hissues hclaims with hmine | ⟨-, honly⟩
        · exact h.alone j j' g g'' s s' hissues.stage hold' hmine hclaims' htoken htoken'
        · exact absurd htoken' (honly htoken j' g'' s' hold' hclaims')
      · rcases h.claims_exec hok hissues hclaims' with hmine | ⟨-, honly⟩
        · exact h.alone j j' g' g s s' hold hissues.stage hclaims hmine htoken htoken'
        · exact absurd htoken (honly htoken' j g' s hold hclaims)
      · exact h.alone j j' g' g'' s s' hold hold' hclaims hclaims' htoken htoken'
  crash tr c gs i r o k g hlen h hok hi hg :=
    { keyed := h.keyed.crash i r o k
      settled := fun j g' s hg' hs => by
        rcases Platform.getElem?_set_cases hg' with ⟨rfl, rfl⟩ | ⟨-, hg'⟩
        · cases hs
        · exact (h.settled j g' s hg' hs).cut i
      gone := fun j g' s hg' hs => by
        rcases Platform.getElem?_set_cases hg' with ⟨rfl, rfl⟩ | ⟨-, hg'⟩
        · cases hs
        · exact h.gone j g' s hg' hs
      alone := fun j j' g' g'' s s' hg' hg'' hs hs' htoken htoken' => by
        rcases Platform.getElem?_set_cases hg' with ⟨rfl, rfl⟩ | ⟨-, hg'⟩
        · cases hs
        · rcases Platform.getElem?_set_cases hg'' with ⟨rfl, rfl⟩ | ⟨-, hg''⟩
          · cases hs'
          · exact h.alone j j' g' g'' s s' hg' hg'' hs hs' htoken htoken' }
  env tr c gs e w hlen h hok he :=
    { keyed := h.keyed.moved he
      settled := fun i g s hg hs => (h.settled i g s hg hs).moved he
      gone := fun i g s hg hs => gone_moved he (h.gone i g s hg hs)
      alone := h.alone }

/-- **A refresh token is used once**, in every state of every run in which no refresh of it finds the
session while another has found it and not yet deleted it. -/
theorem single_use {token : String} {tr : Trace} {c : State}
    (hrun : RunFrom env State.initial (findsOnce token) tr c) : SingleUse c token := by
  obtain ⟨gs, hclaimed, ha⟩ := (claimed_staged token).sound follows (Claimed.initial token) .nil hrun
  -- a pair that was returned was returned for a claim
  have hclaims : ∀ {i : Nat} {call : ServiceCall} {t : AuthTokens}, c.calls[i]? = some call →
      call.request = .refresh token → call.result? = some (.ok (.tokens t)) →
      ∃ g s, gs[i]? = some g ∧ g.claims = some s ∧ s.token = token := by
    intro i call t hi hrequest hresult
    obtain ⟨g, hg⟩ := ha.books hi
    have hends : Outcome call.request (.ok (.tokens t)) g := ha.outcome hi hg hresult
    rw [hrequest] at hends
    cases hends with
    | refreshed s jti access text => exact ⟨_, s, hg, rfl, rfl⟩
  intro i j call call' t t' hi hj hrequest hrequest' hresult hresult'
  obtain ⟨g, s, hg, hs, htoken⟩ := hclaims hi hrequest hresult
  obtain ⟨g', s', hg', hs', htoken'⟩ := hclaims hj hrequest' hresult'
  exact hclaimed.alone i j g g' s s' hg hg' hs hs' htoken htoken'

section

open Trial

/-- Alice's token is refreshed, and then refreshed again. -/
def usedAgain : List Event :=
  register ++ looks 1 "first" ++ rotates 1 ++ issues 1 jti₂ "second" ++ looks 2 "first" ++ proceeds 2 2

set_option maxRecDepth 8000 in
theorem single_use_usedAgain :
    ((stateAfter settings usedAgain).calls.map Call.result? =
      [some (.ok (.tokens ⟨"access for first", "first"⟩)),
        some (.ok (.tokens ⟨"access for second", "second"⟩)), some (.error AuthService.reuseDetected)]) ∧
      SingleUse (stateAfter settings usedAgain) "first" := by
  have hrun : RunFrom settings State.initial (findsOnce "first") (traceAfter settings usedAgain)
      (stateAfter settings usedAgain) :=
    (run_stateAfter settings (fun c l => !findsTwice "first" c l) usedAgain (by decide)).mono
      fun _ _ h => by simpa [findsOnce] using h
  exact ⟨by decide, single_use hrun⟩

/-- Two refreshes of Alice's token overlap: both look it up before either deletes it. -/
def usedTwice : List Event :=
  register ++ looks 1 "first" ++ looks 2 "first" ++ rotates 1 ++ rotates 2 ++ issues 1 jti₂ "second" ++
    issues 2 jti₃ "third"

set_option maxRecDepth 8000 in
theorem used_usedTwice :
    RunFrom settings State.initial anyStep (traceAfter settings usedTwice) (stateAfter settings usedTwice) ∧
      ¬SingleUse (stateAfter settings usedTwice) "first" := by
  refine ⟨(run_stateAfter settings (fun _ _ => true) usedTwice (by decide)).mono fun _ _ _ => trivial, ?_⟩
  intro h
  have hfirst : (stateAfter settings usedTwice).calls[1]?.map (fun call => (call.request, call.result?)) =
      some (.refresh "first", some (.ok (.tokens ⟨"access for second", "second"⟩))) := by decide
  have hsecond : (stateAfter settings usedTwice).calls[2]?.map (fun call => (call.request, call.result?)) =
      some (.refresh "first", some (.ok (.tokens ⟨"access for third", "third"⟩))) := by decide
  obtain ⟨call, hi, heq⟩ := Option.map_eq_some_iff.mp hfirst
  obtain ⟨call', hj, heq'⟩ := Option.map_eq_some_iff.mp hsecond
  obtain ⟨hrequest, hresult⟩ := Prod.mk.inj heq
  obtain ⟨hrequest', hresult'⟩ := Prod.mk.inj heq'
  cases h 1 2 call call' _ _ hi hj hrequest hrequest' hresult hresult'

end

end FlashWallet.Auth
