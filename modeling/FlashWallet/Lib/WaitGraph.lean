import Mathlib.Order.WellFoundedSet

/-!
# Wait graphs

`waits i r j` says that `i` cannot go on until `j` gives up the resource `r`. If whoever is waited
for only ever waits for a greater resource, the graph has no cycle, and from every node of a finite
one a chain of waits leads to a node that waits for nobody.

Nothing is assumed about what a resource is, or about how many may wait for one.
-/

set_option autoImplicit false

namespace FlashWallet.Lib

variable {ι R : Type} [Preorder R] {waits : ι → R → ι → Prop}

/-- Somebody waits for somebody. -/
def WaitsFor (waits : ι → R → ι → Prop) (i j : ι) : Prop := ∃ r, waits i r j

/-- Who is waited for waits for something greater. -/
def Ascending (waits : ι → R → ι → Prop) : Prop :=
  ∀ i r j r' k, waits i r j → waits j r' k → r < r'

namespace Ascending

/-- Along a chain of waits the resource does not fall. -/
theorem chain (h : Ascending waits) {i j : ι} (hij : Relation.TransGen (WaitsFor waits) i j) :
    ∃ r r' i' j', waits i r i' ∧ waits j' r' j ∧ r ≤ r' := by
  induction hij with
  | single hwait =>
    obtain ⟨r, hr⟩ := hwait
    exact ⟨r, r, _, _, hr, hr, le_rfl⟩
  | tail _ hwait ih =>
    obtain ⟨r, r', i', j', hfirst, hlast, hle⟩ := ih
    obtain ⟨r'', hr''⟩ := hwait
    exact ⟨r, r'', i', _, hfirst, hr'', hle.trans (h _ _ _ _ _ hlast hr'').le⟩

/-- **No deadlock.** -/
theorem acyclic (h : Ascending waits) (i : ι) : ¬ Relation.TransGen (WaitsFor waits) i i := by
  intro hcycle
  obtain ⟨r, r', i', j', hfirst, hlast, hle⟩ := h.chain hcycle
  -- the last wait of the cycle is for the node the first one starts from
  exact absurd (h _ _ _ _ _ hlast hfirst) (not_lt_of_ge hle)

/-- **Somebody can go on.** In a finite graph every chain of waits ends. -/
theorem exists_free (h : Ascending waits) {nodes : Set ι} (hfinite : nodes.Finite)
    (hnodes : ∀ i j, WaitsFor waits i j → j ∈ nodes) {i : ι} (hi : i ∈ nodes) :
    ∃ j ∈ nodes, Relation.ReflTransGen (WaitsFor waits) i j ∧ ∀ k, ¬ WaitsFor waits j k := by
  have horder : IsStrictOrder ι (Function.swap (Relation.TransGen (WaitsFor waits))) :=
    { irrefl := h.acyclic
      trans := fun _ _ _ hab hbc => hbc.trans hab }
  have hwf : nodes.WellFoundedOn (Function.swap (Relation.TransGen (WaitsFor waits))) :=
    hfinite.wellFoundedOn
  refine hwf.induction (P := fun i => ∃ j ∈ nodes, Relation.ReflTransGen (WaitsFor waits) i j ∧
    ∀ k, ¬ WaitsFor waits j k) hi fun i hi ih => ?_
  by_cases hfree : ∃ k, WaitsFor waits i k
  · obtain ⟨k, hk⟩ := hfree
    obtain ⟨j, hj, hchain, hlast⟩ := ih k (hnodes i k hk) (.single hk)
    exact ⟨j, hj, .head hk hchain, hlast⟩
  · exact ⟨i, hi, .refl, fun k hk => hfree ⟨k, hk⟩⟩

end Ascending

end FlashWallet.Lib
