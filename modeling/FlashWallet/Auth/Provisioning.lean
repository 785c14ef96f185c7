import FlashWallet.Auth.Registration

/-!
# A registration is all or nothing

The user and the wallet are inserted in one transaction. Whatever fails, whoever is cut off, and whatever the call is
answered in the end: both have come, or neither has.
-/

set_option autoImplicit false

namespace FlashWallet.Auth

open Lib Registering

variable {ms : String → Option Nat} {w w' : World} {tr : Trace} {c c' : State} {i : Nat}

/-- Call `i` has added these rows. -/
structure Wrote (tr : Trace) (i : Nat) (users : List User) (wallets : List Wallet) : Prop where
  users : addedUsers i tr = users
  wallets : addedWallets i tr = wallets

/-- A call has added nothing; or it is a registration, and has added the user it was asked for and the user's wallet. -/
inductive Entire (tr : Trace) (i : Nat) : Request → Prop where
  | nothing (r : Request) (wrote : Wrote tr i [] []) : Entire tr i r
  | all (dto : RegisterDto) (user : User) (wallet : Wallet) (wrote : Wrote tr i [user] [wallet])
      (email : user.email = dto.email) (provisioned : Provisioned user wallet) : Entire tr i (.register dto)

/-- The user has one wallet, with nothing in it. -/
def HasOneWallet (w : World) (user : User) : Prop :=
  ∃ wallet, w.wallets.filter (·.userId = user.id) = [wallet] ∧ wallet.balance.cents = 0

structure AllOrNothing (tr : Trace) (c : State) : Prop where
  emails : (c.world.users.map User.email).Nodup
  ids : (c.world.users.map User.id).Nodup
  wallets : ∀ user ∈ c.world.users, HasOneWallet c.world user
  asked : ∀ user ∈ c.world.users, ∃ i call dto, c.calls[i]? = some call ∧ call.request = .register dto ∧
    user.email = dto.email ∧ addedUsers i tr = [user]
  entire : ∀ i call, c.calls[i]? = some call → Entire tr i call.request
  returned : ∀ i call dto t, c.calls[i]? = some call → call.request = .register dto →
    call.result? = some (.ok (.tokens t)) → ∃ user wallet, Wrote tr i [user] [wallet] ∧ user.email = dto.email ∧
      Provisioned user wallet

/-! ## The two tables -/

theorem not_owned {users : List User} {wallets : List Wallet} {id : Uuid} (h : List.Forall₂ Provisioned users wallets)
    (hid : id ∉ users.map User.id) : wallets.filter (·.userId = id) = [] := by
  induction h with
  | nil => rfl
  | @cons user wallet users wallets hprovisioned _ ih =>
    simp only [List.map_cons, List.mem_cons, not_or] at hid
    rw [List.filter_cons_of_neg (by simpa [hprovisioned.1] using Ne.symm hid.1)]
    exact ih hid.2

/-- Where wallets are paired with users, each user has one. -/
theorem one_owned {users : List User} {wallets : List Wallet} {user : User}
    (h : List.Forall₂ Provisioned users wallets) (hids : (users.map User.id).Nodup) (huser : user ∈ users) :
    ∃ wallet, wallets.filter (·.userId = user.id) = [wallet] ∧ wallet.balance.cents = 0 := by
  induction h with
  | nil => cases huser
  | @cons first wallet users wallets hprovisioned hrest ih =>
    obtain ⟨hnew, hids⟩ := List.nodup_cons.mp hids
    rcases List.mem_cons.mp huser with rfl | huser
    · rw [List.filter_cons_of_pos (by simpa using hprovisioned.1), not_owned hrest hnew]
      exact ⟨wallet, rfl, hprovisioned.2⟩
    · have hne : first.id ≠ user.id := fun heq => hnew (heq ▸ List.mem_map_of_mem huser)
      rw [List.filter_cons_of_neg (by simpa [hprovisioned.1] using hne)]
      exact ih hids huser

/-- `everyone` has registered by now, and the wallets are theirs, row for row. Some of them may be gone. -/
structure Paired (w : World) (everyone : List User) : Prop where
  here : w.users.Sublist everyone
  wallets : List.Forall₂ Provisioned everyone w.wallets
  ids : ((everyone ++ w.newUsers.map (·.2)).map User.id).Nodup
  drawn : ∀ user ∈ everyone ++ w.newUsers.map (·.2), user.id ∈ w.drawn

namespace Paired

variable {everyone : List User}

theorem owns (h : Paired w everyone) {user : User} (huser : user ∈ w.users) : HasOneWallet w user :=
  one_owned h.wallets (h.ids.sublist ((List.sublist_append_left _ _).map _)) (h.here.subset huser)

theorem usersUnique (h : Paired w everyone) : (w.users.map User.id).Nodup :=
  h.ids.sublist ((h.here.trans (List.sublist_append_left _ _)).map _)

/-- Fewer users, and more identifiers drawn, do no harm. -/
theorem fewer (h : Paired w everyone) (hhere : w'.users.Sublist w.users) (hwallets : w'.wallets = w.wallets)
    (hnew : w'.newUsers.Sublist w.newUsers) (hdrawn : ∀ id ∈ w.drawn, id ∈ w'.drawn) : Paired w' everyone where
  here := hhere.trans h.here
  wallets := hwallets ▸ h.wallets
  ids := h.ids.sublist (((List.Sublist.refl everyone).append (hnew.map _)).map _)
  drawn user huser := hdrawn _ (h.drawn user (((List.Sublist.refl everyone).append (hnew.map _)).subset huser))

theorem create (h : Paired w everyone) {user : User} (hfresh : user.id ∉ w.drawn) (i : Nat) :
    Paired { w with newUsers := w.newUsers ++ [(i, user)], drawn := user.id :: w.drawn } everyone := by
  have hrows : everyone ++ (w.newUsers ++ [(i, user)]).map (·.2) = everyone ++ w.newUsers.map (·.2) ++ [user] := by
    simp
  refine ⟨h.here, h.wallets, ?_, fun user' huser' => ?_⟩
  · show ((everyone ++ (w.newUsers ++ [(i, user)]).map (·.2)).map User.id).Nodup
    rw [hrows, List.map_append]
    refine List.nodup_append.mpr ⟨h.ids, List.nodup_singleton _, fun id hid id' hid' heq => hfresh ?_⟩
    obtain ⟨user', huser', rfl⟩ := List.mem_map.mp hid
    obtain rfl : id' = user.id := List.mem_singleton.mp hid'
    exact heq ▸ h.drawn user' huser'
  · rcases List.mem_append.mp (hrows ▸ huser') with huser' | huser'
    · exact List.mem_cons_of_mem _ (h.drawn user' huser')
    · exact List.mem_singleton.mp huser' ▸ List.mem_cons_self

/-- A commit moves the rows of one transaction to the tables. -/
theorem commit (h : Paired w everyone) (hopen : List.Forall₂ Provisioned (w.openUsers i) (w.openWallets i)) :
    Paired (w.commit i) (everyone ++ w.openUsers i) := by
  have hsplit : (w.openUsers i ++ (w.release i).newUsers.map (·.2)).Perm (w.newUsers.map (·.2)) := by
    rw [World.openUsers, ← List.map_append]
    refine List.Perm.map _ ?_
    show (w.newUsers.filter (·.1 = i) ++ w.newUsers.filter (·.1 ≠ i)).Perm w.newUsers
    simpa using List.filter_append_perm (fun p : Nat × User => decide (p.1 = i)) w.newUsers
  have hrows : (everyone ++ w.openUsers i ++ (w.commit i).newUsers.map (·.2)).Perm
      (everyone ++ w.newUsers.map (·.2)) := by
    rw [List.append_assoc]
    exact hsplit.append_left everyone
  exact {
    here := h.here.append (List.Sublist.refl _)
    wallets := List.rel_append h.wallets hopen
    ids := ((hrows.map User.id).nodup_iff).mpr h.ids
    drawn := fun user huser => h.drawn user (hrows.subset huser) }

theorem served (h : Paired w everyone) {o : Stmt} {reply : Except Err o.Reply} (hs : World.Served ms i w o reply w')
    (hopen : o = .commit → List.Forall₂ Provisioned (w.openUsers i) (w.openWallets i)) :
    ∃ everyone', Paired w' everyone' := by
  cases hs with
  | userCreated email password row fresh => exact ⟨everyone, h.create fresh i⟩
  | walletCreated | drew =>
    exact ⟨everyone, h.fewer (.refl _) rfl (.refl _) fun _ hid => List.mem_cons_of_mem _ hid⟩
  | committed => exact ⟨_, h.commit (hopen rfl)⟩
  | commitFailed | rolledBack => exact ⟨everyone, h.fewer (.refl _) rfl List.filter_sublist fun _ hid => hid⟩
  | _ => exact ⟨everyone, h.fewer (.refl _) rfl (.refl _) fun _ hid => hid⟩

theorem env (h : Paired w everyone) {e : Env} (he : e.run w = some w') : Paired w' everyone := by
  cases e with
  | foreign row =>
    simp only [Env.run] at he
    split at he <;> cases he
    exact h.fewer (.refl _) rfl (.refl _) fun _ hid => hid
  | tick | evict =>
    cases he
    exact h.fewer (.refl _) rfl (.refl _) fun _ hid => hid
  | deleteUser id =>
    cases he
    exact h.fewer List.filter_sublist rfl (.refl _) fun _ hid => hid

end Paired

/-- Nobody comes but by a registration. -/
theorem World.users_env {e : Env} (he : e.run w = some w') : ∀ user ∈ w'.users, user ∈ w.users := by
  cases e with
  | foreign row =>
    simp only [Env.run] at he
    split at he <;> cases he
    exact fun _ huser => huser
  | tick | evict =>
    cases he
    exact fun _ huser => huser
  | deleteUser id =>
    cases he
    exact fun _ huser => List.mem_of_mem_filter huser

/-! ## The calls -/

/-- What is known of call `i` at each stage, whatever has failed. -/
def Registering.Stands (w : World) (tr : Trace) (i : Nat) (r : Request) : Registering → Prop
  | .asked _ | .free _ | .hashed _ => Opens w i [] [] ∧ Wrote tr i [] []
  | .created user => Opens w i [user] [] ∧ Wrote tr i [] []
  | .filled user wallet => Opens w i [user] [wallet] ∧ Wrote tr i [] [] ∧ Provisioned user wallet
  | .taken | .failing _ | .failed _ | .other => Wrote tr i [] []
  | .registered user wallet => Wrote tr i [user] [wallet] ∧ Provisioned user wallet
  | .late _ | .cut => Entire tr i r

section

variable {env : Settings} {r : Request} {g : Registering} {o : Stmt} {x : Choice} {reply : Except Err o.Reply}
  {users : List User} {wallets : List Wallet} {s : Step State Event}

theorem Wrote.other (h : Wrote tr i users wallets) (hs : takenBy i s = false) : Wrote (tr ++ [s]) i users wallets where
  users := (added_snoc_of_other hs).trans h.users
  wallets := (added_snoc_of_other hs).trans h.wallets

/-- A step of its own by which no rows become visible. -/
theorem Wrote.same (h : Wrote tr i users wallets) (hs : takenBy i s = true)
    (husers : s.after.world.users = s.before.world.users)
    (hwallets : s.after.world.wallets = s.before.world.wallets) : Wrote (tr ++ [s]) i users wallets := by
  constructor
  · rw [addedUsers, added_snoc_of_append hs [] (by rw [husers, List.append_nil]), List.append_nil]
    exact h.users
  · rw [addedWallets, added_snoc_of_append hs [] (by rw [hwallets, List.append_nil]), List.append_nil]
    exact h.wallets

theorem Wrote.commit (h : Wrote tr i [] []) (hopens : Opens c.world i users wallets)
    (hs : World.Served ms i c.world .commit (.ok ()) c'.world) :
    Wrote (tr ++ [⟨c, .exec i x, c'⟩]) i users wallets := by
  obtain ⟨husers, hwallets⟩ := World.rows_committed hs
  rw [hopens.users] at husers
  rw [hopens.wallets] at hwallets
  constructor
  · rw [addedUsers, added_snoc_of_append takenBy_exec _ husers]
    exact congrArg (· ++ users) h.users
  · rw [addedWallets, added_snoc_of_append takenBy_exec _ hwallets]
    exact congrArg (· ++ wallets) h.wallets

theorem Entire.mono {tr' : Trace} (h : Entire tr i r)
    (hwrote : ∀ users wallets, Wrote tr i users wallets → Wrote tr' i users wallets) : Entire tr' i r := by
  cases h with
  | nothing r wrote => exact .nothing r (hwrote _ _ wrote)
  | all dto user wallet wrote email provisioned => exact .all dto user wallet (hwrote _ _ wrote) email provisioned

/-- At every stage a call has added all, or nothing. -/
theorem Registering.Stands.entire (h : g.Stands w tr i r) (hfor : For r g) : Entire tr i r := by
  cases g with
  | asked | free | hashed | created => exact .nothing r h.2
  | filled => exact .nothing r h.2.1
  | taken | failing | failed | other => exact .nothing r h
  | registered user wallet =>
    obtain ⟨dto, rfl⟩ := hfor.register (by rintro ⟨⟩) (by rintro ⟨⟩)
    exact .all dto user wallet h.1 hfor h.2
  | late | cut => exact h

/-- What others do changes nothing that is known of a call. -/
theorem Registering.Stands.bystand (h : g.Stands w tr i r)
    (hopen : w'.openUsers i = w.openUsers i ∧ w'.openWallets i = w.openWallets i) (hs : takenBy i s = false) :
    g.Stands w' (tr ++ [s]) i r := by
  cases g with
  | asked | free | hashed | created => exact ⟨h.1.same hopen, h.2.other hs⟩
  | filled => exact ⟨h.1.same hopen, h.2.1.other hs, h.2.2⟩
  | taken | failing | failed | other => exact Wrote.other h hs
  | registered => exact ⟨h.1.other hs, h.2⟩
  | late | cut => exact Entire.mono h fun _ _ hwrote => hwrote.other hs

theorem Registering.Stands.next (h : g.Stands c.world tr i r) (hmay : May env g o) (hfor : For r g)
    (hexec : World.exec ms i o x c.world = some (reply, c'.world)) :
    (g.next o reply).Stands c'.world (tr ++ [⟨c, .exec i x, c'⟩]) i r := by
  have hs := World.Served.of_exec hexec
  have hsame : ∀ {users wallets}, o ≠ .commit ∨ reply.isOk = false → Wrote tr i users wallets →
      Wrote (tr ++ [⟨c, .exec i x, c'⟩]) i users wallets := fun ho hwrote =>
    hwrote.same takenBy_exec (World.rows_served hs ho).1 (World.rows_served hs ho).2
  cases hmay with
  | other o leaves =>
    rw [Registering.next_other]
    exact hsame (Or.inl (by rintro rfl; exact leaves)) h
  | find email =>
    have hwrote := hsame (Or.inl (by rintro ⟨⟩)) h.2
    rcases reply with err | found | user
    · exact hwrote
    · exact ⟨h.1.same (World.open_own hs trivial (by rintro ⟨⟩)), hwrote⟩
    · exact hwrote
  | hash email password =>
    have hwrote := hsame (Or.inl (by rintro ⟨⟩)) h.2
    cases reply with
    | error err => exact hwrote
    | ok hash => exact ⟨h.1.same (World.open_own hs trivial (by rintro ⟨⟩)), hwrote⟩
  | create email password =>
    have hwrote := hsame (Or.inl (by rintro ⟨⟩)) h.2
    cases reply with
    | error err => exact hwrote
    | ok user =>
      obtain ⟨-, -, -, drawn, hw⟩ := World.exec_userCreate hexec
      refine ⟨⟨?_, ?_⟩, hwrote⟩
      · rw [hw]
        simpa [World.openUsers] using h.1.users
      · rw [hw]
        exact h.1.wallets
  | provision user =>
    have hwrote := hsame (Or.inl (by rintro ⟨⟩)) h.2
    cases reply with
    | error err => exact hwrote
    | ok wallet =>
      obtain ⟨huser, hbalance, drawn, hw⟩ := World.exec_walletCreate hexec
      refine ⟨⟨?_, ?_⟩, hwrote, huser, hbalance⟩
      · rw [hw]
        exact h.1.users
      · rw [hw]
        simpa [World.openWallets] using h.1.wallets
  | commit user wallet =>
    obtain ⟨hopens, hwrote, hprovisioned⟩ := h
    cases reply with
    | error err => exact hsame (Or.inr rfl) hwrote
    | ok v => exact ⟨hwrote.commit hopens hs, hprovisioned⟩
  | rollback err =>
    have hwrote := hsame (Or.inl (by rintro ⟨⟩)) h
    cases reply <;> exact hwrote
  | issue user wallet o issues =>
    have hwrote := hsame (Or.inl (by rintro rfl; exact issues)) h.1
    cases reply with
    | error err =>
      -- what is thrown behind the commit leaves both rows there
      obtain ⟨dto, rfl⟩ := hfor.register (by rintro ⟨⟩) (by rintro ⟨⟩)
      exact .all dto user wallet hwrote hfor h.2
    | ok v =>
      rw [Registering.next_registered]
      exact ⟨hwrote, h.2⟩

/-- Who commits has a user and the user's wallet to commit. -/
theorem Registering.Stands.commits (h : g.Stands w tr i r) (hmay : May env g .commit) :
    List.Forall₂ Provisioned (w.openUsers i) (w.openWallets i) := by
  cases hmay with
  | other _ leaves => exact leaves.elim
  | issue _ _ _ issues => exact issues.elim
  | commit user wallet =>
    rw [h.1.users, h.1.wallets]
    exact .cons h.2.2 .nil

end

/-! ## Every run -/

/-- How registrations stand, whatever has failed. -/
structure Standing (tr : Trace) (c : State) (gs : List Registering) : Prop where
  emails : c.world.EmailsUnique
  paired : ∃ everyone, Paired c.world everyone
  asked : Platform.Matched (fun _ call g => For call.request g) c.calls gs
  stands : Platform.Matched (fun i call g => g.Stands c.world tr i call.request) c.calls gs
  beyond : ∀ i, c.calls.length ≤ i → Opens c.world i [] [] ∧ Wrote tr i [] []

theorem Standing.initial : Standing [] State.initial [] where
  emails := by simp [World.EmailsUnique, State.initial, World.initial]
  paired := ⟨[], by constructor <;> simp [State.initial, World.initial]⟩
  asked := .nil
  stands := .nil
  beyond i _ := ⟨⟨rfl, rfl⟩, rfl, rfl⟩

section

variable {env : Settings} {gs : List Registering}

/-- A number that is no call's yet is none's after a step either. -/
theorem Standing.untouched (h : Standing tr c gs) {s : Step State Event} (hi : c.calls.length ≤ i)
    (hopen : w'.openUsers i = c.world.openUsers i ∧ w'.openWallets i = c.world.openWallets i)
    (hs : takenBy i s = false) : Opens w' i [] [] ∧ Wrote (tr ++ [s]) i [] [] :=
  ⟨(h.beyond i hi).1.same hopen, (h.beyond i hi).2.other hs⟩

theorem standing_staged (env : Settings) : Platform.Staged (system env) (registrations env) anyStep Standing where
  arrive tr c gs r hlen h _ := by
    have hl : ∀ i, takenBy i ⟨c, .arrive r, (system env).arrive c r⟩ = false := fun _ => rfl
    refine ⟨h.emails, h.paired, h.asked.arrive hlen ?_, Platform.Matched.arrive ?_ hlen ?_,
      fun i hi => h.untouched ?_ ⟨rfl, rfl⟩ (hl i)⟩
    · cases r <;> trivial
    · exact h.stands.mono fun i call g hstands => hstands.bystand ⟨rfl, rfl⟩ (hl i)
    · have hnew := h.untouched (Nat.le_refl _) ⟨rfl, rfl⟩ (hl c.calls.length)
      cases r with
      | register dto => exact hnew
      | _ => exact hnew.2
    · simp only [Platform.arrive, List.length_append, List.length_singleton] at hi
      exact Nat.le_of_succ_le hi
  exec tr c gs i r o k g x reply w h _ hissues := by
    have hexec : World.exec env.ms i o x c.world =
      some (reply, (⟨w, c.calls.set i ⟨r, k reply, false⟩⟩ : State).world) := hissues.exec
    have hs := World.Served.of_exec hexec
    have hfor := h.asked i _ g hissues.call hissues.stage
    have hstands := h.stands i _ g hissues.call hissues.stage
    have hl : ∀ j, j ≠ i → takenBy j ⟨c, .exec i x, ⟨w, c.calls.set i ⟨r, k reply, false⟩⟩⟩ = false :=
      fun j hj => by simpa [takenBy] using Ne.symm hj
    obtain ⟨everyone, hpaired⟩ := h.paired
    refine ⟨h.emails.exec hissues.exec, hpaired.served hs ?_, ?_, h.stands.set (fun j call g' hj hstands' => ?_) ?_,
      fun j hj => ?_⟩
    · rintro rfl
      exact hstands.commits hissues.may
    · exact h.asked.set (fun _ _ _ _ hj => hj) (For.next hfor hissues.may hexec)
    · exact hstands'.bystand (World.open_served hs hj) (hl j hj)
    · exact hstands.next hissues.may hfor hexec
    · have hlt := (List.getElem?_eq_some_iff.mp hissues.call).1
      simp only [List.length_set] at hj
      have hij : j ≠ i := by omega
      exact h.untouched hj (World.open_served hs hij) (hl j hij)
  crash tr c gs i r o k g hlen h _ hi hg := by
    have hs : World.Served env.ms i c.world .rollback (.ok ()) (c.world.release i) := .rolledBack
    have hl : ∀ j, j ≠ i → takenBy j ⟨c, .crash i, ⟨c.world.release i, c.calls.set i ⟨r, .call o k, true⟩⟩⟩ = false :=
      fun j hj => by simpa [takenBy] using Ne.symm hj
    obtain ⟨everyone, hpaired⟩ := h.paired
    refine ⟨h.emails.release, hpaired.served hs (by rintro ⟨⟩), h.asked.set (fun _ _ _ _ hj => hj) ?_,
      h.stands.set (fun j call g' hj hstands' => hstands'.bystand (World.open_served hs hj) (hl j hj)) ?_,
      fun j hj => ?_⟩
    · cases r <;> trivial
    · -- what the call has added stays, and its open transaction is gone
      exact ((h.stands i _ g hi hg).entire (h.asked i _ g hi hg)).mono fun _ _ hwrote =>
        hwrote.same (by simp [takenBy]) rfl rfl
    · have hlt := (List.getElem?_eq_some_iff.mp hi).1
      simp only [List.length_set] at hj
      have hij : j ≠ i := by omega
      exact h.untouched hj (World.open_served hs hij) (hl j hij)
  env tr c gs e w hlen h _ he := by
    have hl : ∀ i, takenBy i ⟨c, .env e, { c with world := w }⟩ = false := fun _ => rfl
    obtain ⟨everyone, hpaired⟩ := h.paired
    refine ⟨h.emails.env he, ⟨everyone, hpaired.env he⟩, h.asked, ?_,
      fun i hi => h.untouched hi (World.open_env he i) (hl i)⟩
    exact h.stands.mono fun i call g hstands => hstands.bystand (World.open_env he i) (hl i)

/-- Whoever is there has been added by a call. -/
theorem added_by (hrun : RunFrom env State.initial anyStep tr c) :
    ∀ user ∈ c.world.users, ∃ i, user ∈ addedUsers i tr := by
  induction hrun with
  | nil => intro user huser; cases huser
  | @snoc tr c c' l run allowed next ih =>
    have hold : ∀ user ∈ c.world.users, ∃ i, user ∈ addedUsers i (tr ++ [⟨c, l, c'⟩]) := by
      intro user huser
      obtain ⟨i, hadded⟩ := ih user huser
      refine ⟨i, ?_⟩
      rw [addedUsers, added_snoc]
      exact List.mem_append_left _ hadded
    cases l with
    | arrive r =>
      obtain rfl := Option.some.inj next
      exact hold
    | exec i x =>
      obtain ⟨r, o, k, reply, w, hi, hexec, rfl⟩ := (system env).step_exec next
      have hs := World.Served.of_exec hexec
      by_cases ho : o ≠ .commit ∨ reply.isOk = false
      · intro user huser
        exact hold user ((World.rows_served hs ho).1 ▸ huser)
      · simp only [ne_eq, not_or, not_not] at ho
        obtain ⟨rfl, hok⟩ := ho
        rcases reply with err | v
        · exact absurd rfl hok
        have husers := (World.rows_committed hs).1
        intro user huser
        rcases List.mem_append.mp (husers ▸ huser) with huser | huser
        · exact hold user huser
        · refine ⟨i, ?_⟩
          rw [addedUsers, added_snoc_of_append takenBy_exec _ husers]
          exact List.mem_append_right _ huser
    | crash i =>
      obtain ⟨r, o, k, hi, rfl⟩ := (system env).step_crash next
      exact hold
    | env e =>
      obtain ⟨w, hw, rfl⟩ := (system env).step_env next
      intro user huser
      exact hold user (World.users_env hw user huser)

/-- **A registration is all or nothing**, in every state of every run: whatever fails, whoever is cut off, and whichever
users are deleted. -/
theorem all_or_nothing (hrun : RunFrom env State.initial anyStep tr c) : AllOrNothing tr c := by
  obtain ⟨gs, h, ha⟩ := (standing_staged env).sound registrations_follows .initial .nil hrun
  obtain ⟨everyone, hpaired⟩ := h.paired
  have hentire : ∀ i call, c.calls[i]? = some call → Entire tr i call.request := by
    intro i call hi
    obtain ⟨g, hg⟩ := ha.books hi
    exact (h.stands i call g hi hg).entire (h.asked i call g hi hg)
  refine ⟨h.emails.users, hpaired.usersUnique, fun user huser => hpaired.owns huser, fun user huser => ?_, hentire,
    fun i call dto t hi hreq hr => ?_⟩
  · obtain ⟨i, hadded⟩ := added_by hrun user huser
    have hlt : i < c.calls.length := by
      by_contra hbeyond
      rw [(h.beyond i (Nat.le_of_not_lt hbeyond)).2.users] at hadded
      cases hadded
    obtain ⟨call, hi⟩ : ∃ call, c.calls[i]? = some call := ⟨_, List.getElem?_eq_getElem hlt⟩
    have hall := hentire i call hi
    generalize hreq : call.request = request at hall
    cases hall with
    | nothing _ wrote =>
      rw [wrote.users] at hadded
      cases hadded
    | all dto user' wallet wrote email provisioned =>
      rw [wrote.users] at hadded
      obtain rfl := List.mem_singleton.mp hadded
      exact ⟨i, call, dto, hi, hreq, email, wrote.users⟩
  · obtain ⟨g, hg⟩ := ha.books hi
    obtain ⟨hlive, hprog⟩ := Call.result?_eq_some hr
    have hanswered := ha.keeps i call g hi hg hlive
    have hfor := h.asked i call g hi hg
    have hstands := h.stands i call g hi hg
    rw [hprog, Prog.keeps_ended] at hanswered
    rw [hreq] at hfor
    cases hanswered with
    | other => exact hfor.elim
    | registered user wallet => exact ⟨user, wallet, hstands.1, hfor, hstands.2⟩

open Trial

/-- Alice's session cannot be stored, and her next attempt finds her email taken; she is deleted, and one more attempt is
cut off with both rows inserted. -/
def troubled : List Event :=
  register.take 9 ++ [.exec 0 .fault, .arrive (.register ⟨"alice@example.com", "again"⟩), .exec 1 .ok,
    .env (.deleteUser alice), .arrive (.register ⟨"alice@example.com", "once more"⟩), .exec 2 .ok,
    .exec 2 (.text "hash"), .exec 2 (.fresh jti₂), .exec 2 (.fresh jti₃), .crash 2]

set_option maxRecDepth 4000 in
theorem all_or_nothing_troubled :
    AllOrNothing (traceAfter settings troubled) (stateAfter settings troubled) ∧
      (stateAfter settings troubled).calls.map Call.result? =
        [some (.error .unavailable), some (.error emailTaken), none] :=
  ⟨all_or_nothing ((run_stateAfter settings (fun _ _ => true) troubled (by decide)).mono fun _ _ _ => trivial), rfl⟩

end

end FlashWallet.Auth
