import FlashWallet.Model.System

/-!
# What a statement can do

`World.exec` is a table with four columns (`Choice`) and a row for each statement. `Served` is
its inversion, said once: every way a statement can be answered, with the reply and the world
after it written out. Every invariant below is proved by cases on it, and nothing below unfolds
`exec` again.
-/

set_option autoImplicit false

namespace FlashWallet

open Lib

/-- Statements the database may refuse. -/
def Stmt.isFallible : Stmt → Bool
  | .walletUpdate .. | .walletCreate .. | .ledgerEntryCreate _ | .flashSaleEventCreate ..
  | .orderCreate _ => true
  | _ => false

namespace World

/-- The statements that only read, and what they read. -/
def read? (w : World) : (o : Stmt) → Option o.Reply
  | .walletFindUnique userId => some (w.walletOf? userId)
  | .ledgerEntryFindUnique walletId referenceId type => some (w.entryOf? (walletId, referenceId, type))
  | .redisGet key => some (w.cache key)
  | .now => some w.clock
  | .productFindUnique id => some (w.product? id)
  | .flashSaleEventFindUnique id =>
    some ((w.event? id).bind fun ev => (w.product? ev.productId).map (ev, ·))
  | .orderFindUnique eventId key => some (w.order? (eventId, key))
  | .sleep _ => some ()
  | _ => none

/-- The errors the database answers by itself, with the reason for each it is ever asked for. -/
def Refuses (w : World) (i : Nat) : Stmt → Err → Prop
  | .walletUpdate id balance, e =>
    e = .recordNotFound ∧ w.wallet? id = none ∨
      e = .numericOverflow ∧ columnBound ≤ balance.natAbs
  | .ledgerEntryCreate d, e =>
    e = .foreignKeyViolation ∧ w.wallet? d.walletId = none ∨
      e = .numericOverflow ∧
        (columnBound ≤ d.amount.natAbs ∨ columnBound ≤ d.balanceAfter.natAbs) ∨
      e = .uniqueViolation ∧ ∃ e' ∈ w.ledger ++ (w.tx i).entries,
        e'.key = (d.walletId, d.referenceId, d.type)
  | .walletCreate userId balance, e =>
    e = .numericOverflow ∧ columnBound ≤ balance.natAbs ∨
      e = .uniqueViolation ∧ (w.walletOf? userId).isSome
  | .flashSaleEventCreate productId .., e =>
    e = .foreignKeyViolation ∧ w.product? productId = none
  | .orderCreate d, e =>
    e = .foreignKeyViolation ∧ w.event? d.flashSaleEventId = none ∨
      e = .uniqueViolation ∧
        ((∃ o ∈ w.orders, o.id = d.id) ∨
          ∃ o ∈ w.orders, o.key = (d.flashSaleEventId, d.idempotencyKey))
  | _, _ => False

/-- Call `i`'s statement `o` is answered `r` in `w`, leaving the world given last. -/
inductive Served (i : Nat) (w : World) : (o : Stmt) → Except Err o.Reply → World → Prop where
  | read (o : Stmt) (v : o.Reply) (answer : w.read? o = some v) : Served i w o (.ok v) w
  | failed (o : Stmt) (remote : o.isLocal = false) (open' : o ≠ .commit) :
      Served i w o (.error .unavailable) w
  | refused (o : Stmt) (e : Err) (reason : w.Refuses i o e) : Served i w o (.error e) w
  | lockMissing (id : Uuid) (missing : w.wallet? id = none) :
      Served i w (.walletForUpdate id) (.ok none) w
  | locked (id : Uuid) (row : Wallet) (free : w.canLock i id = true)
      (found : w.wallet? id = some row) :
      Served i w (.walletForUpdate id) (.ok (some row)) (w.lock i id)
  | updated (id : Uuid) (balance : Int) (row : Wallet) (m : Money)
      (free : w.canLock i id = true) (found : w.wallet? id = some row)
      (fits : Money.ofDecimal? balance = some m) :
      Served i w (.walletUpdate id balance)
        (.ok { row with balance := m, version := row.version + 1 })
        ((w.lock i id).setTx i { w.tx i with writes := (w.tx i).writes ++ [(id, m)] })
  | entered (d : NewLedgerEntry) (e : LedgerEntry) (row : Wallet)
      (free : w.canLock i d.walletId = true) (found : w.wallet? d.walletId = some row)
      (amount : Money.ofDecimal? d.amount = some e.amount)
      (balanceAfter : Money.ofDecimal? d.balanceAfter = some e.balanceAfter)
      (key : e.key = (d.walletId, d.referenceId, d.type))
      (unique : ∀ e' ∈ w.ledger ++ (w.tx i).entries, e'.key ≠ e.key) :
      Served i w (.ledgerEntryCreate d) (.ok e)
        ((w.lock i d.walletId).setTx i { w.tx i with entries := (w.tx i).entries ++ [e] })
  | committed : Served i w .commit (.ok ()) (w.commit i)
  | commitFailed : Served i w .commit (.error .unavailable) (w.release i)
  | rolledBack : Served i w .rollback (.ok ()) (w.release i)
  | walletCreated (userId : Uuid) (balance : Int) (row : Wallet)
      (fresh : row.id ∉ w.drawn) (user : row.userId = userId)
      (fits : Money.ofDecimal? balance = some row.balance) (version : row.version = 0)
      (unique : w.walletOf? userId = none) :
      Served i w (.walletCreate userId balance) (.ok row)
        { w with wallets := w.wallets ++ [row], drawn := row.id :: w.drawn }
  | cached (key : String) (value : TransferResult) :
      Served i w (.redisSet key value) (.ok ()) (w.redisSet key value)
  | dropped (key : String) (value : TransferResult) :
      Served i w (.redisSet key value) (.ok ()) w
  | missed (key : String) : Served i w (.redisGet key) (.ok none) w
  | drew (id : Uuid) (fresh : id ∉ w.drawn) :
      Served i w .randomUUID (.ok id) { w with drawn := id :: w.drawn }
  | eventCreated (productId : Uuid) (totalStock remaining : Int) (startsAt endsAt : Nat) (id : Uuid)
      (product : Product) (fresh : id ∉ w.drawn) (found : w.product? productId = some product) :
      Served i w (.flashSaleEventCreate productId totalStock remaining startsAt endsAt)
        (.ok ⟨id, productId, totalStock, remaining, startsAt, endsAt⟩)
        { w with
          events := w.events ++ [⟨id, productId, totalStock, remaining, startsAt, endsAt⟩]
          drawn := id :: w.drawn }
  | reserved (eventId : Uuid) :
      Served i w (.reserveUnit eventId) (.ok (w.reserveUnit eventId).1) (w.reserveUnit eventId).2
  | released (eventId : Uuid) :
      Served i w (.releaseUnit eventId) (.ok ()) (w.releaseUnit eventId)
  | ordered (d : NewOrder) (o : Order) (event : FlashSaleEvent)
      (found : w.event? d.flashSaleEventId = some event)
      (shape : o = ⟨d.id, d.userId, d.flashSaleEventId, d.status, d.idempotencyKey, w.clock⟩)
      (freshId : ∀ o' ∈ w.orders, o'.id ≠ o.id) (freshKey : ∀ o' ∈ w.orders, o'.key ≠ o.key) :
      Served i w (.orderCreate d) (.ok o) { w with orders := w.orders ++ [o] }
  | queued (job : OrderConfirmationJobData) :
      Served i w (.queueAdd job) (.ok ()) { w with jobs := w.jobs ++ [job] }

variable {w w' : World} {i : Nat}

theorem Served.of_walletUpdate {id : Uuid} {balance : Int} {r : Except Err Wallet}
    (h : w.walletUpdate i id balance = some (r, w')) : Served i w (.walletUpdate id balance) r w' := by
  unfold walletUpdate at h
  split at h
  · rename_i free
    split at h
    · rename_i missing
      cases h
      exact .refused (.walletUpdate id balance) _ (Or.inl ⟨rfl, missing⟩)
    · rename_i found overflow
      cases h
      exact .refused (.walletUpdate id balance) _
        (Or.inr ⟨rfl, Money.ofDecimal?_eq_none.mp overflow⟩)
    · rename_i row m found fits
      cases h
      exact .updated id balance row m free found fits
  · cases h

theorem Served.of_ledgerEntryCreate {d : NewLedgerEntry} {r : Except Err LedgerEntry}
    (h : w.ledgerEntryCreate i d = some (r, w')) : Served i w (.ledgerEntryCreate d) r w' := by
  unfold ledgerEntryCreate at h
  split at h
  · rename_i free
    split at h
    · rename_i missing
      cases h
      exact .refused (.ledgerEntryCreate d) _ (Or.inl ⟨rfl, missing⟩)
    · rename_i row amount balanceAfter found hamount hafter
      dsimp only at h
      split at h
      · rename_i taken
        cases h
        obtain ⟨e', he', hkey⟩ := List.mem_map.mp taken
        exact .refused (.ledgerEntryCreate d) _ (Or.inr (Or.inr ⟨rfl, e', he', hkey⟩))
      · rename_i untaken
        cases h
        exact .entered d _ row free found hamount hafter rfl
          fun e' he' hkey => untaken (List.mem_map.mpr ⟨e', he', hkey⟩)
    · rename_i row found overflow
      cases h
      refine .refused (.ledgerEntryCreate d) _ (Or.inr (Or.inl ⟨rfl, ?_⟩))
      rw [← Money.ofDecimal?_eq_none, ← Money.ofDecimal?_eq_none]
      by_contra hfits
      obtain ⟨ha, hb⟩ := not_or.mp hfits
      obtain ⟨a, ha⟩ := Option.ne_none_iff_exists'.mp ha
      obtain ⟨b, hb⟩ := Option.ne_none_iff_exists'.mp hb
      exact overflow a b ha hb
  · cases h

theorem Served.of_walletCreate {id userId : Uuid} {balance : Int} {r : Except Err Wallet}
    (fresh : id ∉ w.drawn) (h : w.walletCreate id userId balance = (r, w')) :
    Served i w (.walletCreate userId balance) r w' := by
  unfold walletCreate at h
  split at h
  · rename_i overflow
    cases h
    exact .refused (.walletCreate userId balance) _
      (Or.inl ⟨rfl, Money.ofDecimal?_eq_none.mp overflow⟩)
  · rename_i m fits
    split at h
    · rename_i taken
      cases h
      exact .refused (.walletCreate userId balance) _ (Or.inr ⟨rfl, taken⟩)
    · rename_i untaken
      cases h
      exact .walletCreated userId balance ⟨id, userId, m, 0⟩ fresh rfl fits rfl (by simpa using untaken)

theorem Served.of_flashSaleEventCreate {id productId : Uuid} {totalStock remaining : Int}
    {startsAt endsAt : Nat} {r : Except Err FlashSaleEvent} (fresh : id ∉ w.drawn)
    (h : w.flashSaleEventCreate id productId totalStock remaining startsAt endsAt = (r, w')) :
    Served i w (.flashSaleEventCreate productId totalStock remaining startsAt endsAt) r w' := by
  unfold flashSaleEventCreate at h
  split at h
  · rename_i missing
    cases h
    exact .refused (.flashSaleEventCreate productId totalStock remaining startsAt endsAt) _
      ⟨rfl, by simpa using missing⟩
  · rename_i found
    cases h
    obtain ⟨product, hproduct⟩ := Option.ne_none_iff_exists'.mp (by simpa using found)
    exact .eventCreated productId totalStock remaining startsAt endsAt id product fresh hproduct

theorem Served.of_orderCreate {d : NewOrder} {r : Except Err Order}
    (h : w.orderCreate d = (r, w')) : Served i w (.orderCreate d) r w' := by
  unfold orderCreate at h
  split at h
  · rename_i missing
    cases h
    exact .refused (.orderCreate d) _ (Or.inl ⟨rfl, by simpa using missing⟩)
  · rename_i found
    obtain ⟨event, hevent⟩ := Option.ne_none_iff_exists'.mp (by simpa using found)
    split at h
    · rename_i taken
      cases h
      obtain ⟨o, ho, hid⟩ := List.mem_map.mp taken
      exact .refused (.orderCreate d) _ (Or.inr ⟨rfl, Or.inl ⟨o, ho, hid⟩⟩)
    · rename_i freshId
      dsimp only at h
      split at h
      · rename_i taken
        cases h
        obtain ⟨o, ho, hkey⟩ := List.mem_map.mp taken
        exact .refused (.orderCreate d) _ (Or.inr ⟨rfl, Or.inr ⟨o, ho, hkey⟩⟩)
      · rename_i freshKey
        cases h
        exact .ordered d _ event hevent rfl
          (fun o' ho' hid => freshId (List.mem_map.mpr ⟨o', ho', hid⟩))
          (fun o' ho' hkey => freshKey (List.mem_map.mpr ⟨o', ho', hkey⟩))

theorem Served.of_serve {o : Stmt} {r : Except Err o.Reply} (h : w.serve i o = some (r, w')) :
    Served i w o r w' := by
  cases o with
  | walletForUpdate id =>
    simp only [serve, walletForUpdate] at h
    obtain ⟨⟨row, w₁⟩, hlock, heq⟩ := Option.map_eq_some_iff.mp h
    cases heq
    split at hlock
    · rename_i free
      split at hlock
      · rename_i row' found
        cases hlock
        exact .locked id row' free found
      · rename_i missing
        cases hlock
        exact .lockMissing id missing
    · cases hlock
  | walletUpdate id balance => exact .of_walletUpdate h
  | ledgerEntryCreate d => exact .of_ledgerEntryCreate h
  | orderCreate d => exact .of_orderCreate (Option.some.inj h)
  | commit => cases h; exact .committed
  | rollback => cases h; exact .rolledBack
  | redisSet key value => cases h; exact .cached key value
  | reserveUnit eventId => cases h; exact .reserved eventId
  | releaseUnit eventId => cases h; exact .released eventId
  | queueAdd job => cases h; exact .queued job
  | walletCreate | randomUUID | flashSaleEventCreate => cases h
  | walletFindUnique | ledgerEntryFindUnique | redisGet | now | productFindUnique
  | flashSaleEventFindUnique | orderFindUnique | sleep => cases h; exact .read _ _ rfl

theorem Served.of_draw {o : Stmt} {id : Uuid} {r : Except Err o.Reply} (fresh : id ∉ w.drawn)
    (h : w.draw id o = some (r, w')) : Served i w o r w' := by
  cases o with
  | randomUUID => cases h; exact .drew id fresh
  | walletCreate userId balance => exact .of_walletCreate fresh (Option.some.inj h)
  | flashSaleEventCreate productId totalStock remaining startsAt endsAt =>
    exact .of_flashSaleEventCreate fresh (Option.some.inj h)
  | _ => cases h

theorem Served.of_lose {o : Stmt} {r : Except Err o.Reply} (h : w.lose o = some (r, w')) :
    Served i w o r w' := by
  cases o with
  | redisGet key => cases h; exact .missed key
  | redisSet key value => cases h; exact .dropped key value
  | _ => cases h

theorem Served.of_fail {o : Stmt} {r : Except Err o.Reply} (h : w.fail i o = some (r, w')) :
    Served i w o r w' := by
  cases o with
  | commit => cases h; exact .commitFailed
  | _ => first | (cases h; exact .failed _ rfl (by simp)) | cases h

/-- **The inversion of `exec`.** -/
theorem Served.of_exec {o : Stmt} {x : Choice} {r : Except Err o.Reply}
    (h : World.exec i o x w = some (r, w')) : Served i w o r w' := by
  cases x with
  | ok => exact .of_serve h
  | fault => exact .of_fail h
  | lose => exact .of_lose h
  | fresh id =>
    simp only [exec] at h
    split at h
    · cases h
    · rename_i fresh
      exact .of_draw fresh h

/-- What a statement that only reads answers, Redis apart. -/
theorem Served.of_read {o : Stmt} {v v₀ : o.Reply} (hs : Served i w o (.ok v) w')
    (h : w.read? o = some v₀) (hredis : ∀ key, o ≠ .redisGet key) : w' = w ∧ v = v₀ := by
  generalize hr : (Except.ok v : Except Err o.Reply) = r at hs
  cases hs with
  | read _ v' answer =>
    cases hr
    exact ⟨rfl, Option.some.inj (answer.symm.trans h)⟩
  | missed key => exact absurd rfl (hredis key)
  | failed | refused => cases hr
  | _ => cases h

/-- What a lock finds. -/
theorem Served.of_lock {id : Uuid} {v : Option Wallet}
    (hs : Served i w (.walletForUpdate id) (.ok v) w') :
    v = w.wallet? id ∧ w' = if v.isSome then w.lock i id else w := by
  generalize hr : (Except.ok v : Except Err (Option Wallet)) = r at hs
  cases hs with
  | read _ _ answer => cases answer
  | lockMissing id missing => cases hr; exact ⟨missing.symm, rfl⟩
  | locked id row free found => cases hr; exact ⟨found.symm, rfl⟩

/-- A statement that is served does not report the infrastructure to be down. -/
theorem serve_available {o : Stmt} : w.serve i o ≠ some (.error .unavailable, w') := by
  intro h
  cases o with
  | walletForUpdate id =>
    simp only [serve, Option.map_eq_some_iff, Prod.mk.injEq] at h
    obtain ⟨_, _, h, _⟩ := h
    cases h
  | walletUpdate id balance =>
    simp only [serve, walletUpdate] at h
    split at h
    · split at h <;> cases h
    · cases h
  | ledgerEntryCreate d =>
    simp only [serve, ledgerEntryCreate] at h
    split at h
    · split at h
      · cases h
      · split at h <;> cases h
      · cases h
    · cases h
  | orderCreate d =>
    simp only [serve, orderCreate] at h
    split at h
    · cases h
    · split at h
      · cases h
      · split at h <;> cases h
  | _ => cases h

/-- **While nothing fails**, an error is a refusal of the database. -/
theorem refuses_of_error {o : Stmt} {x : Choice} {e : Err} (hx : x ≠ .fault)
    (h : World.exec i o x w = some (.error e, w')) : w.Refuses i o e := by
  cases x with
  | fault => exact absurd rfl hx
  | ok =>
    have hs := Served.of_serve h
    generalize hr : (Except.error e : Except Err o.Reply) = r at hs
    cases hs with
    | refused _ _ reason => cases hr; exact reason
    | failed => cases hr; exact absurd h serve_available
    | commitFailed => cases h
    | _ => cases hr
  | lose => cases o <;> cases h
  | fresh id =>
    simp only [exec] at h
    split at h
    · cases h
    · rename_i fresh
      cases o with
      | walletCreate userId balance =>
        have hs := Served.of_walletCreate (i := i) fresh (Option.some.inj h)
        generalize hr : (Except.error e : Except Err Wallet) = r at hs
        cases hs with
        | refused _ _ reason => cases hr; exact reason
        | failed =>
          cases hr
          simp only [draw, walletCreate] at h
          split at h
          · cases h
          · split at h <;> cases h
      | flashSaleEventCreate productId totalStock remaining startsAt endsAt =>
        simp only [draw, flashSaleEventCreate] at h
        split at h
        · rename_i missing
          cases h
          exact ⟨rfl, by simpa using missing⟩
        · cases h
      | _ => cases h

/-- A failed statement tells nothing else. -/
theorem unavailable_of_fault {o : Stmt} {r : Except Err o.Reply} (h : World.exec i o .fault w = some (r, w')) :
    r = .error .unavailable := by
  have hlocal : ∀ (hfail : (if o.isLocal then none else some (Except.error Err.unavailable, w)) = some (r, w')),
      r = .error .unavailable := fun hfail => by
    split at hfail <;> cases hfail
    rfl
  cases o with
  | commit =>
    cases h
    rfl
  | _ => exact hlocal h

/-- Statements the database never refuses are answered. -/
theorem answered {o : Stmt} {x : Choice} {r : Except Err o.Reply} (hx : x ≠ .fault)
    (h : World.exec i o x w = some (r, w')) (ho : o.isFallible = false) : ∃ v, r = .ok v := by
  cases r with
  | ok v => exact ⟨v, rfl⟩
  | error e =>
    have hrefuses := refuses_of_error hx h
    cases o with
    | walletUpdate | walletCreate | ledgerEntryCreate | flashSaleEventCreate | orderCreate => cases ho
    | _ => exact hrefuses.elim

end World

/-! ## What a reply says by itself -/

/-- Whatever the world, a row that comes back is one the statement asked for. -/
def Stmt.Answers : (o : Stmt) → Except Err o.Reply → Prop
  | .walletFindUnique userId, .ok (some row) => row.userId = userId
  | .walletForUpdate id, .ok (some row) => row.id = id
  | .walletUpdate id balance, .ok row => row.id = id ∧ row.balance.cents = balance
  | .ledgerEntryFindUnique walletId referenceId type, .ok (some e) =>
    e.key = (walletId, referenceId, type)
  | .ledgerEntryCreate d, .ok e =>
    e.key = (d.walletId, d.referenceId, d.type) ∧ e.amount.cents = d.amount ∧
      e.balanceAfter.cents = d.balanceAfter
  | .flashSaleEventFindUnique id, .ok (some (ev, p)) => ev.id = id ∧ p.id = ev.productId
  | .orderFindUnique eventId key, .ok (some o) => o.key = (eventId, key)
  | .orderCreate d, .ok o =>
    o.id = d.id ∧ o.userId = d.userId ∧ o.key = (d.flashSaleEventId, d.idempotencyKey) ∧
      o.status = d.status
  | _, _ => True

end FlashWallet
