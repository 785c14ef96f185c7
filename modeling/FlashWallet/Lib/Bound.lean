import FlashWallet.Lib.Pool

/-!
# Handlers that end

A handler that issues at most `n` statements, whatever it is answered, and what is true of many such handlers over
one store: as long as nobody arrives, the steps they take together are numbered. Whether one of them *can* take a
step is another question, and the store's; `Run.of_measure` puts the two together.
-/

set_option autoImplicit false

namespace FlashWallet.Lib

namespace Prog

variable {S : Signature} {ε α β : Type}

/-- Along every path the handler issues at most `n` statements. -/
def AtMost : Prog S ε α → Nat → Prop
  | .done _, _ => True
  | .fail _, _ => True
  | .call _ k, n => 0 < n ∧ ∀ r, (k r).AtMost (n - 1)

theorem AtMost.mono {p : Prog S ε α} {n m : Nat} (h : p.AtMost n) (hle : n ≤ m) : p.AtMost m := by
  induction p generalizing n m with
  | done a => trivial
  | fail e => trivial
  | call o k ih => exact ⟨h.1.trans_le hle, fun r => ih r (h.2 r) (Nat.sub_le_sub_right hle 1)⟩

theorem AtMost.bind {p : Prog S ε α} {f : α → Prog S ε β} {n m : Nat} (hp : p.AtMost n)
    (hf : ∀ a, (f a).AtMost m) : (p.bind f).AtMost (n + m) := by
  induction p generalizing n with
  | done a => exact (hf a).mono (Nat.le_add_left m n)
  | fail e => trivial
  | call o k ih =>
    refine ⟨Nat.add_pos_left hp.1 m, fun r => (ih r (hp.2 r)).mono ?_⟩
    have hpos := hp.1
    omega

theorem AtMost.attempt {p : Prog S ε α} {n : Nat} (hp : p.AtMost n) : p.attempt.AtMost n := by
  induction p generalizing n with
  | done a => trivial
  | fail e => trivial
  | call o k ih => exact ⟨hp.1, fun r => ih r (hp.2 r)⟩

theorem atMost_perform (o : S.Op) : (perform o : Prog S ε (S.Reply o)).AtMost 1 :=
  ⟨Nat.one_pos, fun r => by cases r <;> trivial⟩

/-- A statement, then the rest. -/
theorem atMost_issue {o : S.Op} {f : S.Reply o → Prog S ε β} {n : Nat} (hf : ∀ v, (f v).AtMost n) :
    ((perform o).bind f).AtMost (n + 1) := by
  rw [Nat.add_comm]
  exact (atMost_perform o).bind hf

end Prog

/-- **The measure rule.** Where every configuration that is not to be stopped at has a step after which less is left,
a run leads to one that is, in no more steps than there was left. -/
theorem Run.of_measure {C L : Type} {step : C → L → Option C} {ok : C → L → Prop} {I : Nat → C → Prop}
    {stop : C → Prop} (h : ∀ n c, I n c → stop c ∨ ∃ l c' m, m < n ∧ ok c l ∧ step c l = some c' ∧ I m c')
    {n : Nat} {c : C} (hc : I n c) :
    ∃ tr c', Run step ok c tr c' ∧ stop c' ∧ tr.length ≤ n := by
  induction n using Nat.strong_induction_on generalizing c with
  | _ n ih =>
    rcases h n c hc with hstop | ⟨l, c', m, hm, hok, hstep, hc'⟩
    · exact ⟨[], c, .nil, hstop, Nat.zero_le _⟩
    · obtain ⟨tr, c'', hrun, hstop, hlen⟩ := ih m hm hc'
      refine ⟨[⟨c, l, c'⟩] ++ tr, c'', (Run.single hok hstep).append hrun, hstop, ?_⟩
      simp only [List.length_append, List.length_singleton]
      omega

/-- The step is taken by a call: it issues a statement, or is cut off. -/
def Label.isCall {ρ χ η : Type} : Label ρ χ η → Bool
  | .exec .. | .crash _ => true
  | _ => false

def Label.isArrival {ρ χ η : Type} : Label ρ χ η → Bool
  | .arrive _ => true
  | _ => false

/-- The calls that are in flight. -/
def Config.inFlight {S : Signature} {ε α ρ σ : Type} (c : Config S ε α ρ σ) : List (Call S ε α ρ) :=
  c.calls.filter Call.inFlight

namespace Platform

variable {S : Signature} {ε α ρ χ η σ : Type} {P : Platform S ε α ρ χ η σ}
  {ok : Config S ε α ρ σ → Label ρ χ η → Prop} {c₀ c c' : Config S ε α ρ σ}
  {tr : List (Step (Config S ε α ρ σ) (Label ρ χ η))}

/-- Each call that is not cut off has at most as many statements to issue as its entry of `ns` says. -/
structure Bounded (calls : List (Call S ε α ρ)) (ns : List Nat) : Prop where
  length : ns.length = calls.length
  books : Matched (fun _ call n => call.crashed = false → call.prog.AtMost n) calls ns

theorem sum_set {ns : List Nat} {i n : Nat} (m : Nat) (hi : ns[i]? = some n) :
    (ns.set i m).sum + n = ns.sum + m := by
  simpa using sum_map_set id m hi

/-- A statement is one less to issue, and of a call that is cut off none is left. -/
theorem Bounded.step {l : Label ρ χ η} {ns : List Nat} (h : Bounded c.calls ns) (hstep : P.step c l = some c')
    (harrival : l.isArrival = false) :
    ∃ ns', Bounded c'.calls ns' ∧ ns'.sum + (if l.isCall then 1 else 0) ≤ ns.sum := by
  have hbook : ∀ {i : Nat} {r : ρ} {o : S.Op} {k : Except ε (S.Reply o) → Prog S ε α},
      c.calls[i]? = some ⟨r, .call o k, false⟩ →
      ∃ n, ns[i]? = some n ∧ 0 < n ∧ ∀ reply, (k reply).AtMost (n - 1) := by
    intro i r o k hi
    have hlt : i < ns.length := h.length ▸ (List.getElem?_eq_some_iff.mp hi).1
    have hn : ns[i]? = some ns[i] := List.getElem?_eq_getElem hlt
    exact ⟨_, hn, h.books i _ _ hi hn rfl⟩
  cases l with
  | arrive r => cases harrival
  | exec i x =>
    obtain ⟨r, o, k, reply, w, hi, -, rfl⟩ := P.step_exec hstep
    obtain ⟨n, hn, hpos, hk⟩ := hbook hi
    have hsum := sum_set (n - 1) hn
    refine ⟨ns.set i (n - 1), ⟨by simp [h.length], ?_⟩, by simp only [Label.isCall, if_true]; omega⟩
    exact h.books.set (fun _ _ _ _ hj => hj) fun _ => hk reply
  | crash i =>
    obtain ⟨r, o, k, hi, rfl⟩ := P.step_crash hstep
    obtain ⟨n, hn, hpos, -⟩ := hbook hi
    have hsum := sum_set 0 hn
    refine ⟨ns.set i 0, ⟨by simp [h.length], ?_⟩, by simp only [Label.isCall, if_true]; omega⟩
    exact h.books.set (fun _ _ _ _ hj => hj) nofun
  | env e =>
    obtain ⟨w, -, rfl⟩ := P.step_env hstep
    exact ⟨ns, ⟨h.length, h.books⟩, le_rfl⟩

/-- **The steps calls take are numbered**, as long as nobody arrives. -/
theorem Bounded.steps_le {ns : List Nat} (h : Bounded c₀.calls ns) (hrun : Run P.step ok c₀ tr c)
    (harrivals : ∀ s ∈ tr, s.label.isArrival = false) :
    ∃ ns', Bounded c.calls ns' ∧ ns'.sum + (tr.filter (·.label.isCall)).length ≤ ns.sum := by
  induction hrun with
  | nil => exact ⟨ns, h, by simp⟩
  | @snoc tr c c' l run allowed next ih =>
    obtain ⟨ns₁, hbounded, hle⟩ := ih fun s hs => harrivals s (List.mem_append_left _ hs)
    obtain ⟨ns₂, hbounded', hle'⟩ := hbounded.step next (harrivals _ (List.mem_append_right _ List.mem_cons_self))
    refine ⟨ns₂, hbounded', ?_⟩
    rw [List.filter_append, List.length_append]
    cases hcall : l.isCall <;> simp_all <;> omega

/-- A bound for all handlers is one for what is left of each, and only who is in flight has anything left. -/
theorem bounded_of_run {n : Nat} (hprograms : ∀ r, (P.program r).AtMost n) (hrun : Run P.step ok c₀ tr c)
    (h₀ : c₀.calls = []) : ∃ ns, Bounded c.calls ns ∧ ns.sum = n * c.inFlight.length := by
  have hcalls : ∀ call ∈ c.calls, call.prog.AtMost n :=
    P.progs_of_run (fun _ p => p.AtMost n) hprograms (fun _ _ _ reply h => (h.2 reply).mono (Nat.sub_le n 1)) hrun
      (by simp [h₀])
  refine ⟨c.calls.map fun call => if call.inFlight then n else 0, ⟨by simp, fun i call m hi hm hlive => ?_⟩, ?_⟩
  · rw [List.getElem?_map, hi] at hm
    obtain rfl := Option.some.inj hm
    dsimp only
    split
    · exact hcalls call (List.mem_of_getElem? hi)
    · rename_i hended
      obtain ⟨r, prog, crashed⟩ := call
      subst hlive
      cases prog with
      | call o k => exact absurd rfl hended
      | done a => trivial
      | fail e => trivial
  · rw [Config.inFlight]
    generalize c.calls = calls
    induction calls with
    | nil => rfl
    | cons call calls ih =>
      simp only [List.map_cons, List.sum_cons, ih, List.filter_cons]
      split
      · rw [List.length_cons, Nat.mul_succ, Nat.add_comm]
      · rw [Nat.zero_add]

end Platform

end FlashWallet.Lib
