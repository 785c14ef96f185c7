import Mathlib.Algebra.BigOperators.Group.List.Basic
import Mathlib.Data.List.Forall2
import Mathlib.Data.List.NodupEquivFin

/-!
# Journals

A journal is a list of entries, each with an amount and the balance it claims to leave behind.
`Chained` says the claims are the running sums. What follows is about a journal kept for several
accounts (`total_accounts`) and about double entry, where the entries of one kind match those of
another place by place (`exists_equiv_of_forall₂`, `total_cancels`), and about what two readings of a journal by
date have in common (`take_eq_of_descending`). Entries, amounts and accounts are of any type, because
nothing about them is particular to money.
-/

set_option autoImplicit false

namespace FlashWallet.Lib

variable {ε μ : Type} [AddMonoid μ]

/-- The total of a journal. -/
def total (amount : ε → μ) (es : List ε) : μ := (es.map amount).sum

/-- Each entry's claimed balance is the sum of the amounts up to and including it. -/
def Chained (amount after : ε → μ) (es : List ε) : Prop :=
  ∀ n (h : n < es.length), after es[n] = total amount (es.take (n + 1))

variable {amount after : ε → μ}

@[simp] theorem total_nil : total amount [] = 0 := rfl

@[simp] theorem total_append (es es' : List ε) :
    total amount (es ++ es') = total amount es + total amount es' := by
  simp [total]

@[simp] theorem total_singleton (e : ε) : total amount [e] = amount e := by simp [total]

theorem Chained.nil : Chained amount after [] := fun n h => absurd h (by simp)

/-- **Booking on the current total keeps the chain.** -/
theorem Chained.snoc {es : List ε} (h : Chained amount after es) {e : ε}
    (he : after e = total amount es + amount e) : Chained amount after (es ++ [e]) := by
  intro n hn
  rw [List.length_append, List.length_singleton] at hn
  rcases Nat.lt_or_eq_of_le (Nat.le_of_lt_succ hn) with hlt | rfl
  · rw [List.getElem_append_left hlt, List.take_append_of_le_length hlt]
    exact h n hlt
  · rw [List.getElem_concat_length rfl, List.take_of_length_le (by simp), total_append,
      total_singleton, he]

/-- The last claim is the total. -/
theorem Chained.last {es : List ε} (h : Chained amount after es) :
    (es.getLast?.map after).getD 0 = total amount es := by
  rcases List.eq_nil_or_concat es with rfl | ⟨init, e, rfl⟩
  · rfl
  · have hlast := h init.length (by simp)
    rw [List.concat_eq_append] at *
    simpa [List.take_of_length_le] using hlast

/-! ## Journals of several accounts -/

section

variable {μ : Type} [AddCommMonoid μ] {amount : ε → μ} {ι : Type} [DecidableEq ι]

/-- One entry, looked for in every account of a list that has its account once. -/
theorem total_singleton_accounts (amount : ε → μ) (owner : ε → ι) (e : ε) {accounts : List ι} (hnodup : accounts.Nodup)
    (howner : owner e ∈ accounts) :
    (accounts.map fun a => total amount ([e].filter (owner · = a))).sum = amount e := by
  induction accounts with
  | nil => cases howner
  | cons a accounts ih =>
    obtain ⟨hnew, hnodup⟩ := List.nodup_cons.mp hnodup
    rw [List.map_cons, List.sum_cons]
    by_cases ha : owner e = a
    · -- the account is here, so it is in none of the rest
      have hrest : (accounts.map fun a' => total amount ([e].filter (owner · = a'))).sum = 0 := by
        refine List.sum_eq_zero fun x hx => ?_
        obtain ⟨a', ha', rfl⟩ := List.mem_map.mp hx
        have hne : owner e ≠ a' := fun heq => hnew (ha ▸ heq ▸ ha')
        simp [hne]
      rw [hrest, add_zero]
      simp [ha]
    · have hmem : owner e ∈ accounts := (List.mem_cons.mp howner).resolve_left ha
      rw [ih hnodup hmem]
      simp [ha]

/-- **Nothing is lost between the accounts**: their totals add up to the journal's. -/
theorem total_accounts (owner : ε → ι) {accounts : List ι} (hnodup : accounts.Nodup) {es : List ε}
    (howner : ∀ e ∈ es, owner e ∈ accounts) :
    (accounts.map fun a => total amount (es.filter (owner · = a))).sum = total amount es := by
  induction es with
  | nil => simp
  | cons e es ih =>
    have hhead := total_singleton_accounts amount owner e hnodup (howner e List.mem_cons_self)
    have htail := ih fun e' he' => howner e' (List.mem_cons_of_mem _ he')
    have hsplit : ∀ a, total amount ((e :: es).filter (owner · = a)) =
        total amount ([e].filter (owner · = a)) + total amount (es.filter (owner · = a)) := by
      intro a
      rw [← total_append, ← List.filter_append, List.singleton_append]
    simp only [hsplit, List.sum_map_add, hhead, htail]
    rw [show total amount (e :: es) = total amount ([e] ++ es) from rfl, total_append, total_singleton]

end

/-! ## Dates -/

/-- Two orderings of one list by date agree on the first `n`, where the first `n + 1` have dates of their own. -/
theorem take_eq_of_descending {α : Type} {f : α → Nat} {n : Nat} {as bs : List α} (hperm : as.Perm bs)
    (has : as.Pairwise fun a b => f b ≤ f a) (hbs : bs.Pairwise fun a b => f b ≤ f a)
    (hnodup : ((bs.take (n + 1)).map f).Nodup) : as.take n = bs.take n := by
  induction n generalizing as bs with
  | zero => rfl
  | succ n ih =>
    cases bs with
    | nil => rw [hperm.eq_nil]
    | cons b bs =>
      cases as with
      | nil => exact absurd hperm.symm.eq_nil nofun
      | cons a as =>
        rw [List.take_succ_cons, List.map_cons, List.nodup_cons] at hnodup
        rw [List.pairwise_cons] at has hbs
        have hba : f b ≤ f a := by
          rcases List.mem_cons.mp (hperm.symm.subset List.mem_cons_self) with rfl | hmem
          · exact le_rfl
          · exact has.1 b hmem
        -- whoever has the latest date is alone with it
        obtain rfl : a = b := by
          rcases List.mem_cons.mp (hperm.subset List.mem_cons_self) with rfl | hmem
          · rfl
          · cases bs with
            | nil => cases hmem
            | cons b' bs =>
              have hab : f a ≤ f b' := by
                rcases List.mem_cons.mp hmem with rfl | hmem
                · exact le_rfl
                · exact (List.pairwise_cons.mp hbs.2).1 a hmem
              have hsame : f b' = f b := le_antisymm (hbs.1 b' List.mem_cons_self) (hba.trans hab)
              exact absurd (List.mem_map.mpr ⟨b', List.mem_cons_self, hsame⟩) hnodup.1
        rw [List.take_succ_cons, List.take_succ_cons, ih hperm.cons_inv has.2 hbs.2 hnodup.2]

/-! ## Double entry -/

section

variable {R : ε → ε → Prop}

/-- Entries that match place by place, without repetitions, match one to one. -/
theorem exists_equiv_of_forall₂ {as bs : List ε} [DecidableEq ε] (h : List.Forall₂ R as bs)
    (has : as.Nodup) (hbs : bs.Nodup) :
    ∃ pair : {a // a ∈ as} ≃ {b // b ∈ bs}, ∀ a, R a.1 (pair a).1 := by
  refine ⟨((has.getEquiv as).symm.trans (finCongr h.length_eq)).trans (hbs.getEquiv bs), fun a => ?_⟩
  have hplace : as.get ((has.getEquiv as).symm a) = a.1 :=
    congrArg Subtype.val ((has.getEquiv as).apply_symm_apply a)
  have hmatch := h.get ((has.getEquiv as).symm a).2 (h.length_eq ▸ ((has.getEquiv as).symm a).2)
  rw [← hplace]
  exact hmatch

/-- What matches up to the sign cancels out. -/
theorem total_cancels {amount : ε → Int} {as bs : List ε} (h : List.Forall₂ R as bs)
    (hR : ∀ a b, R a b → amount b = -amount a) : total amount as + total amount bs = 0 := by
  induction h with
  | nil => rfl
  | cons hab _ ih =>
    have := hR _ _ hab
    simp only [total, List.map_cons, List.sum_cons] at ih ⊢
    omega

end

end FlashWallet.Lib
