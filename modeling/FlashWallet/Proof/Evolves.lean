import FlashWallet.Proof.Engine

/-!
# What a step leaves alone

Two relations between the world before and after a step. `Evolves`: what no step of anybody ever
takes back (who owns a wallet, what an event costs, ledger rows, orders). `Rely j`: in addition,
what no step of **another** call does to call `j`: its buffer, its locks, and the rows it has
locked. They are the two reasons a fact a handler has learnt may still be used later.
-/

set_option autoImplicit false

namespace FlashWallet

open Lib

namespace World

variable {w w' w'' : World} {i j : Nat}

/-- Wallet `id` belongs to `user`. -/
def Owns (w : World) (id user : Uuid) : Prop := (id, user) ∈ identities w.wallets

instance (id user : Uuid) : Decidable (w.Owns id user) :=
  inferInstanceAs (Decidable ((id, user) ∈ identities w.wallets))

/-- The product of event `e` costs `price`. -/
def Priced (w : World) (e : Uuid) (price : Money) : Prop :=
  ∃ ev ∈ w.events, ev.id = e ∧ ∃ p ∈ w.products, p.id = ev.productId ∧ p.price = price

theorem owns_of_mem {row : Wallet} (h : row ∈ w.wallets) : w.Owns row.id row.userId :=
  List.mem_map_of_mem h

theorem Owns.row {id user : Uuid} (h : w.Owns id user) :
    ∃ row ∈ w.wallets, row.id = id ∧ row.userId = user := by
  obtain ⟨row, hrow, heq⟩ := List.mem_map.mp h
  exact ⟨row, hrow, congrArg Prod.fst heq, congrArg Prod.snd heq⟩

theorem Owns.found {id user : Uuid} (h : w.Owns id user) (hw : w.Ok) :
    ∃ row, w.wallet? id = some row ∧ w.walletOf? user = some row := by
  obtain ⟨row, hrow, rfl, rfl⟩ := h.row
  exact ⟨row, hw.wallet?_of_mem hrow, hw.walletOf?_of_mem hrow⟩

/-- A wallet has one owner. -/
theorem Ok.owner_unique (h : Ok w) {id user user' : Uuid} (ho : w.Owns id user)
    (ho' : w.Owns id user') : user = user' :=
  congrArg Prod.snd (List.inj_on_of_nodup_map h.walletIds ho ho' rfl)

/-- A user has one wallet. -/
theorem Ok.owned_unique (h : Ok w) {id id' user : Uuid} (ho : w.Owns id user)
    (ho' : w.Owns id' user) : id = id' :=
  congrArg Prod.fst (List.inj_on_of_nodup_map h.walletUsers ho ho' rfl)

/-- An event has one price. -/
theorem Ok.price_unique (h : Ok w) {e : Uuid} {p p' : Money} (hp : w.Priced e p)
    (hp' : w.Priced e p') : p = p' := by
  obtain ⟨ev, hev, hid, prod, hprod, hpid, rfl⟩ := hp
  obtain ⟨ev', hev', hid', prod', hprod', hpid', rfl⟩ := hp'
  obtain rfl := h.event_ext hev hev' (hid.trans hid'.symm)
  rw [h.product_ext hprod hprod' (hpid.trans hpid'.symm)]

/-! ## Growth -/

/-- What no step ever takes back. -/
structure Evolves (w w' : World) : Prop where
  owns : ∀ id user, w.Owns id user → w'.Owns id user
  ledger : ∃ es, w'.ledger = w.ledger ++ es
  priced : ∀ e price, w.Priced e price → w'.Priced e price
  orders : ∃ os, w'.orders = w.orders ++ os

theorem Evolves.refl (w : World) : Evolves w w where
  owns _ _ h := h
  ledger := ⟨[], by simp⟩
  priced _ _ h := h
  orders := ⟨[], by simp⟩

theorem Evolves.trans (h : Evolves w w') (h' : Evolves w' w'') : Evolves w w'' where
  owns id user ho := h'.owns id user (h.owns id user ho)
  ledger := by
    obtain ⟨es, hes⟩ := h.ledger
    obtain ⟨es', hes'⟩ := h'.ledger
    exact ⟨es ++ es', by rw [hes', hes, List.append_assoc]⟩
  priced e price hp := h'.priced e price (h.priced e price hp)
  orders := by
    obtain ⟨os, hos⟩ := h.orders
    obtain ⟨os', hos'⟩ := h'.orders
    exact ⟨os ++ os', by rw [hos', hos, List.append_assoc]⟩

theorem Evolves.mem_ledger (h : Evolves w w') {e : LedgerEntry} (he : e ∈ w.ledger) :
    e ∈ w'.ledger := by
  obtain ⟨es, hes⟩ := h.ledger
  exact hes ▸ List.mem_append_left _ he

theorem Evolves.mem_orders (h : Evolves w w') {o : Order} (ho : o ∈ w.orders) : o ∈ w'.orders := by
  obtain ⟨os, hos⟩ := h.orders
  exact hos ▸ List.mem_append_left _ ho

/-- Only the four listed parts matter. -/
theorem Evolves.of_eq (hw : identities w'.wallets = identities w.wallets)
    (hl : w'.ledger = w.ledger) (he : w'.events = w.events) (hp : w'.products = w.products)
    (ho : w'.orders = w.orders) : Evolves w w' where
  owns id user h := by rw [Owns, hw]; exact h
  ledger := ⟨[], by simp [hl]⟩
  priced e price h := by rw [Priced, he, hp]; exact h
  orders := ⟨[], by simp [ho]⟩

theorem Evolves.release (w : World) (i : Nat) : Evolves w (w.release i) :=
  .of_eq rfl rfl rfl rfl rfl

/-- Stock may move, but an event stays an event of its product. -/
theorem Evolves.of_events {events : List FlashSaleEvent}
    (h : ∀ ev ∈ w.events, ∃ ev' ∈ events, ev'.id = ev.id ∧ ev'.productId = ev.productId) :
    Evolves w { w with events := events } where
  owns _ _ h := h
  ledger := ⟨[], by simp⟩
  priced e price hp := by
    obtain ⟨ev, hev, hid, prod, hprod, hpid, hprice⟩ := hp
    obtain ⟨ev', hev', hid', hpid'⟩ := h ev hev
    exact ⟨ev', hev', hid'.trans hid, prod, hprod, hpid.trans hpid'.symm, hprice⟩
  orders := ⟨[], by simp⟩

theorem Evolves.served {o : Stmt} {r : Except Err o.Reply} (hs : Served i w o r w') :
    Evolves w w' := by
  cases hs with
  | read | failed | refused | lockMissing | dropped | missed => exact .refl w
  | locked | updated | entered | cached | drew | queued => exact .of_eq rfl rfl rfl rfl rfl
  | committed =>
    exact { Evolves.refl w with
      owns := fun id user h => by rw [Owns, identities_commit]; exact h
      ledger := ⟨(w.tx i).entries, rfl⟩ }
  | commitFailed | rolledBack => exact .release w i
  | walletCreated userId balance row fresh user fits version unique =>
    exact { Evolves.refl w with
      owns := fun id user h => by
        rw [Owns, identities, List.map_append]
        exact List.mem_append_left _ h }
  | eventCreated productId totalStock remaining startsAt endsAt id product fresh found =>
    exact { Evolves.of_events (w := w) fun ev hev =>
      ⟨ev, List.mem_append_left _ hev, rfl, rfl⟩ with }
  | reserved eventId =>
    refine .of_events fun ev hev => ⟨_, List.mem_map_of_mem hev, ?_⟩
    split <;> exact ⟨rfl, rfl⟩
  | released eventId =>
    refine .of_events fun ev hev => ⟨_, List.mem_map_of_mem hev, ?_⟩
    split <;> exact ⟨rfl, rfl⟩
  | ordered d o event found shape freshId freshKey =>
    exact { Evolves.refl w with orders := ⟨[o], rfl⟩ }

theorem Evolves.env {e : Env} (he : e.run w = some w') : Evolves w w' := by
  cases e with
  | tick ms => cases he; exact .of_eq rfl rfl rfl rfl rfl
  | evict key => cases he; exact .of_eq rfl rfl rfl rfl rfl
  | seedProduct p =>
    simp only [Env.run] at he
    split at he
    · cases he
    · cases he
      exact { Evolves.refl w with
        priced := by
          rintro e price ⟨ev, hev, hid, prod, hprod, hpid, hprice⟩
          exact ⟨ev, hev, hid, prod, List.mem_append_left _ hprod, hpid, hprice⟩ }

/-- What the environment has no hand in. -/
structure EnvSame (w w' : World) : Prop where
  wallets : w'.wallets = w.wallets
  ledger : w'.ledger = w.ledger
  events : w'.events = w.events
  orders : w'.orders = w.orders
  tx : w'.tx = w.tx
  holder : w'.holder = w.holder

theorem env_same {e : Env} (he : e.run w = some w') : EnvSame w w' := by
  cases e with
  | tick ms => cases he; exact ⟨rfl, rfl, rfl, rfl, rfl, rfl⟩
  | evict key => cases he; exact ⟨rfl, rfl, rfl, rfl, rfl, rfl⟩
  | seedProduct p =>
    simp only [Env.run] at he
    split at he
    · cases he
    · cases he
      exact ⟨rfl, rfl, rfl, rfl, rfl, rfl⟩

/-- The environment adds nothing to the cache. -/
theorem cache_env {e : Env} (he : e.run w = some w') {key : String} {v : TransferResult}
    (h : w'.cache key = some v) : w.cache key = some v := by
  cases e with
  | tick ms => cases he; exact h
  | evict key' =>
    cases he
    dsimp only at h
    split at h
    · cases h
    · exact h
  | seedProduct p =>
    simp only [Env.run] at he
    split at he
    · cases he
    · cases he
      exact h

/-- What a statement files in the cache. -/
theorem cache_served {o : Stmt} {r : Except Err o.Reply} (hs : Served i w o r w') {key : String}
    {v : TransferResult} (hv : w'.cache key = some v) : w.cache key = some v ∨ o = .redisSet key v := by
  cases hs with
  | cached key' value =>
    simp only [redisSet] at hv
    split at hv
    · rename_i heq
      cases hv
      exact Or.inr (by rw [heq])
    · exact Or.inl hv
  | _ => exact Or.inl hv

/-! ## Other calls -/

/-- What nobody else's step does to call `j`. -/
structure Rely (j : Nat) (w w' : World) : Prop extends Evolves w w' where
  tx : w'.tx j = w.tx j
  holder : ∀ id, w'.holder id = some j ↔ w.holder id = some j
  rows : ∀ row ∈ w.wallets, w.holder row.id = some j → row ∈ w'.wallets

/-- A step that touches neither wallets nor locks nor buffers. -/
theorem Rely.of_evolves (h : Evolves w w') (htx : w'.tx = w.tx) (hh : w'.holder = w.holder)
    (hw : w'.wallets = w.wallets) : Rely j w w' where
  toEvolves := h
  tx := by rw [htx]
  holder id := by rw [hh]
  rows _ hrow _ := hw ▸ hrow

theorem Rely.release (hij : j ≠ i) : Rely j w (w.release i) where
  toEvolves := .release w i
  tx := release_tx_other w hij
  holder id := by
    simp only [World.release]
    split
    · rename_i hi
      simp [hi, Ne.symm hij]
    · rfl
  rows _ hrow _ := hrow

theorem Rely.lock {id : Uuid} (hij : j ≠ i) (free : w.canLock i id = true) :
    Rely j w (w.lock i id) where
  toEvolves := .of_eq rfl rfl rfl rfl rfl
  tx := rfl
  holder id' := by
    refine ⟨fun h => ?_, lock_holder free⟩
    simp only [World.lock] at h
    split at h
    · exact absurd (Option.some.inj h).symm hij
    · exact h
  rows _ hrow _ := hrow

theorem Rely.setTx {t : Tx} (hij : j ≠ i) : Rely j w (w.setTx i t) where
  toEvolves := .of_eq rfl rfl rfl rfl rfl
  tx := setTx_other w t hij
  holder _ := Iff.rfl
  rows _ hrow _ := hrow

theorem Rely.trans (h : Rely j w w') (h' : Rely j w' w'') : Rely j w w'' where
  toEvolves := h.toEvolves.trans h'.toEvolves
  tx := h'.tx.trans h.tx
  holder id := (h'.holder id).trans (h.holder id)
  rows row hrow hheld := h'.rows row (h.rows row hrow hheld) ((h.holder row.id).mpr hheld)

/-- **A commit changes only rows its own call has locked.** -/
theorem Rely.commit (h : Ok w) (hij : j ≠ i) : Rely j w (w.commit i) where
  toEvolves := .served .committed
  tx := release_tx_other _ hij
  holder id := (Rely.release (w := w.apply (w.tx i)) hij).holder id
  rows row hrow hheld := by
    refine mem_foldl_writeBalance hrow fun write hwrite heq => ?_
    have hown := h.writesLocked i write hwrite
    rw [heq, hheld] at hown
    exact hij (Option.some.inj hown)

theorem Rely.served {o : Stmt} {r : Except Err o.Reply} (h : Ok w) (hs : Served i w o r w')
    (hij : j ≠ i) : Rely j w w' := by
  have hevolves := Evolves.served hs
  cases hs with
  | read | failed | refused | lockMissing | dropped | missed | cached | drew | queued
  | eventCreated | reserved | released | ordered => exact .of_evolves hevolves rfl rfl rfl
  | locked id row free found => exact .lock hij free
  | updated id balance row m free found fits => exact (Rely.lock hij free).trans (.setTx hij)
  | entered d e row free found amount balanceAfter key unique =>
    exact (Rely.lock hij free).trans (.setTx hij)
  | committed => exact .commit h hij
  | commitFailed | rolledBack => exact .release hij
  | walletCreated userId balance row fresh user fits version unique =>
    exact { toEvolves := hevolves
            tx := rfl
            holder := fun _ => Iff.rfl
            rows := fun row hrow _ => List.mem_append_left _ hrow }

theorem Rely.env {e : Env} (he : e.run w = some w') : Rely j w w' :=
  have hsame := env_same he
  .of_evolves (Evolves.env he) hsame.tx hsame.holder hsame.wallets

end World

theorem evolves_of_step {c c' : State} {l : Event} (hstep : system.step c l = some c') :
    c.world.Evolves c'.world := by
  cases l with
  | arrive r => cases hstep; exact .refl _
  | exec i x =>
    obtain ⟨r, o, k, reply, w, _, hexec, rfl⟩ := system.step_exec hstep
    exact .served (.of_exec hexec)
  | crash i =>
    obtain ⟨r, o, k, _, rfl⟩ := system.step_crash hstep
    exact .release _ i
  | env e =>
    obtain ⟨w, hw, rfl⟩ := system.step_env hstep
    exact .env hw

/-- What a step of anybody else does to call `j`. -/
theorem rely_of_step {c c' : State} {l : Event} (hw : c.world.Ok) (hstep : system.step c l = some c')
    {j : Nat} (hj : l.actor ≠ some j) : c.world.Rely j c'.world := by
  cases l with
  | arrive r => cases hstep; exact .of_evolves (.refl _) rfl rfl rfl
  | exec i x =>
    obtain ⟨r, o, k, reply, w, _, hexec, rfl⟩ := system.step_exec hstep
    exact .served hw (.of_exec hexec) fun hij => hj (congrArg some hij.symm)
  | crash i =>
    obtain ⟨r, o, k, _, rfl⟩ := system.step_crash hstep
    exact .release fun hij => hj (congrArg some hij.symm)
  | env e =>
    obtain ⟨w, hw, rfl⟩ := system.step_env hstep
    exact .env hw

/-- Along a run the world evolves. -/
theorem evolves_of_run {ok : State → Event → Prop} {tr : Trace} {c₀ c : State}
    (hrun : RunFrom c₀ ok tr c) :
    c₀.world.Evolves c.world ∧
      ∀ s ∈ tr, s.before.world.Evolves c.world ∧ s.after.world.Evolves c.world :=
  hrun.relates (R := fun c c' => c.world.Evolves c'.world) (fun _ => .refl _) .trans evolves_of_step

end FlashWallet
