import FlashWallet.Proof.Moves

/-!
# Auditing a run

Who moved the money: the entries that the selected steps of a run **booked**. A balance changes by
the steps of a caller exactly as far as the entries that caller booked say (`effect_balanceOf`),
and an entry a caller booked is one its request accounts for (`mem_booked`).
-/

set_option autoImplicit false

namespace FlashWallet

open Lib

theorem Reachable.bankOk {ok : State → Event → Prop} {c : State} (h : Reachable ok c) :
    c.world.bank.Ok :=
  let ⟨_, hrun⟩ := h
  let ⟨_, hkept, _⟩ := kept_of_run hrun
  hkept.bank

theorem initial_reachable : Reachable anyStep State.initial := ⟨[], .nil⟩

theorem Reachable.any {ok : State → Event → Prop} {c : State} (h : Reachable ok c) :
    Reachable anyStep c :=
  let ⟨tr, hrun⟩ := h
  ⟨tr, hrun.mono fun _ _ _ => trivial⟩

/-- A run from a state that is reachable goes on being reachable. -/
theorem Reachable.run {ok ok' : State → Event → Prop} {c₀ c : State} {tr : Trace}
    (h : Reachable ok c₀) (hrun : RunFrom c₀ ok' tr c) : Reachable anyStep c :=
  let ⟨_, hrun₀⟩ := h.any
  ⟨_, hrun₀.append (hrun.mono fun _ _ _ => trivial)⟩

/-- The entries a step adds to the ledger. -/
def entriesOf (s : Step State Event) : List LedgerEntry :=
  s.after.world.ledger.drop s.before.world.ledger.length

/-- The entries the selected steps booked. -/
def booked (sel : Step State Event → Bool) (tr : Trace) : List LedgerEntry :=
  (tr.filter sel).flatMap entriesOf

/-- Call `i` took the step. -/
def byCall (i : Nat) (s : Step State Event) : Bool := s.label.actor = some i

theorem entriesOf_of_idle {s : Step State Event}
    (ledger : s.after.world.ledger = s.before.world.ledger) : entriesOf s = [] := by
  simp [entriesOf, ledger]

theorem entriesOf_of_post {s : Step State Event} {es : List LedgerEntry}
    (bank : s.after.world.bank = s.before.world.bank.post es) : entriesOf s = es := by
  have hledger : s.after.world.ledger = s.before.world.ledger ++ es := congrArg Bank.ledger bank
  simp [entriesOf, hledger]

/-- What the entries of a step are. -/
inductive Entries (s : Step State Event) : Prop where
  | none (entries : entriesOf s = []) (ledger : s.after.world.ledger = s.before.world.ledger)
  | some (i : Nat) (x : Choice) (call : ServiceCall) (label : s.label = .exec i x)
      (found : s.before.calls[i]? = some call)
      (balanced : s.before.world.bank.Balanced (entriesOf s))
      (posts : call.request.Posts s.before.world.Owns s.before.world.Priced (entriesOf s))
      (bank : s.after.world.bank = s.before.world.bank.post (entriesOf s))

theorem Entries.of_ledger {s : Step State Event}
    (ledger : s.after.world.ledger = s.before.world.ledger) : Entries s :=
  .none (entriesOf_of_idle ledger) ledger

theorem Moves.entries {s : Step State Event} (h : Moves s) : Entries s := by
  cases h with
  | idle bank => exact .of_ledger (congrArg Bank.ledger bank)
  | moved i x call label found move =>
    cases move with
    | idle bank => exact .of_ledger (congrArg Bank.ledger bank)
    | opened row asked balance version fresh blank bank => exact .of_ledger (congrArg Bank.ledger bank)
    | posted es balanced posts bank =>
      obtain rfl := entriesOf_of_post bank
      exact .some i x call label found balanced posts bank

theorem Entries.ledger {s : Step State Event} (h : Entries s) :
    s.after.world.ledger = s.before.world.ledger ++ entriesOf s := by
  cases h with
  | none entries ledger => rw [entries, ledger, List.append_nil]
  | some i x call label found balanced posts bank => exact congrArg Bank.ledger bank

section

variable {ok ok' : State → Event → Prop} {c₀ c : State} {tr : Trace}
  {sel sel' : Step State Event → Bool} {s : Step State Event}

theorem moves_of_mem (h₀ : Reachable ok' c₀) (hrun : RunFrom c₀ ok tr c) (hs : s ∈ tr) : Moves s := by
  obtain ⟨⟨tr', hbefore⟩, -, hstep⟩ := hrun.of_mem hs
  obtain ⟨tr₁, hrun₁⟩ := h₀.run hbefore
  exact moves_of_step hrun₁ hstep

@[simp] theorem booked_nil : booked sel [] = [] := rfl

theorem booked_snoc : booked sel (tr ++ [s]) = booked sel tr ++ if sel s then entriesOf s else [] := by
  unfold booked
  by_cases hs : sel s <;> simp [List.filter_append, hs]

theorem booked_sublist (h : ∀ s, sel s = true → sel' s = true) :
    (booked sel tr).Sublist (booked sel' tr) := by
  induction tr using List.reverseRecOn with
  | nil => simp
  | append_singleton tr s ih =>
    rw [booked_snoc, booked_snoc]
    refine ih.append ?_
    by_cases hs : sel s
    · rw [if_pos hs, if_pos (h s hs)]
    · rw [if_neg hs]
      exact List.nil_sublist _

/-- Steps that book nothing in a wallet need not be selected to list its entries. -/
theorem listing_booked_of_silent {id : Uuid}
    (h : ∀ s ∈ tr, sel s = false → listing (entriesOf s) id = []) :
    listing (booked (fun _ => true) tr) id = listing (booked sel tr) id := by
  induction tr using List.reverseRecOn with
  | nil => rfl
  | append_singleton tr s ih =>
    rw [booked_snoc, booked_snoc, listing_append, listing_append,
      ih fun s' hs' => h s' (List.mem_append_left _ hs'), if_pos rfl]
    cases hsel : sel s with
    | true => rw [if_pos rfl]
    | false =>
      rw [h s (List.mem_append_right _ List.mem_cons_self) hsel, if_neg Bool.false_ne_true]
      rfl

/-- The ledger grows by what is booked, and by nothing else. -/
theorem ledger_eq_booked (h₀ : Reachable ok' c₀) (hrun : RunFrom c₀ ok tr c) :
    c.world.ledger = c₀.world.ledger ++ booked (fun _ => true) tr := by
  induction hrun with
  | nil => simp
  | snoc run allowed next ih =>
    have hs := (moves_of_mem h₀ (.snoc run allowed next) (List.mem_append_right _ List.mem_cons_self)).entries
    rw [booked_snoc, if_pos rfl, ← List.append_assoc, ← ih]
    exact hs.ledger

/-- Nothing is booked twice under one key. -/
theorem booked_nodup (h₀ : Reachable ok' c₀) (hrun : RunFrom c₀ ok tr c) :
    ((booked sel tr).map LedgerEntry.key).Nodup := by
  have hall := (h₀.run hrun).worldOk.ledger_nodup
  rw [ledger_eq_booked h₀ hrun, List.map_append] at hall
  exact hall.of_append_right.sublist ((booked_sublist fun _ _ => rfl).map _)

/-- **Every entry booked is one the request of its booker accounts for.** -/
theorem mem_booked (h₀ : Reachable ok' c₀) (hrun : RunFrom c₀ ok tr c) {e : LedgerEntry}
    (he : e ∈ booked sel tr) :
    ∃ s ∈ tr, sel s = true ∧ ∃ i x call, s.label = .exec i x ∧ s.before.calls[i]? = some call ∧
      e ∈ entriesOf s ∧
      call.request.Posts s.before.world.Owns s.before.world.Priced (entriesOf s) := by
  obtain ⟨s, hs, hes⟩ := List.mem_flatMap.mp he
  obtain ⟨hmem, hsel⟩ := List.mem_filter.mp hs
  cases (moves_of_mem h₀ hrun hmem).entries with
  | none entries ledger => rw [entries] at hes; cases hes
  | some i x call label found balanced posts bank =>
    exact ⟨s, hmem, hsel, i, x, call, label, found, hes, posts⟩

/-- **The audit.** What the selected steps did to a balance is the total of what they booked in
that wallet. -/
theorem effect_balanceOf (h₀ : Reachable ok' c₀) (hrun : RunFrom c₀ ok tr c) (id : Uuid) :
    effect (fun c => c.world.bank.balanceOf id) sel tr =
      sumAmounts (listing (booked sel tr) id) := by
  induction hrun with
  | nil => rfl
  | @snoc tr c c' l run allowed next ih =>
    have hs := (moves_of_mem h₀ (.snoc run allowed next) (List.mem_append_right _ List.mem_cons_self)).entries
    have hbefore := (h₀.run run).bankOk.balanceOf_eq id
    have hafter := (h₀.run (.snoc run allowed next)).bankOk.balanceOf_eq id
    have hledger : c'.world.bank.ledger = c.world.bank.ledger ++ entriesOf ⟨c, l, c'⟩ := hs.ledger
    rw [effect_snoc, ih, booked_snoc]
    by_cases hsel : sel ⟨c, l, c'⟩
    · rw [if_pos hsel, if_pos hsel, listing_append, sumAmounts_append]
      rw [hledger, listing_append, sumAmounts_append] at hafter
      dsimp only
      omega
    · rw [if_neg hsel, if_neg hsel]
      simp

end

end FlashWallet
