import FlashWallet.Proof.Registration

/-!
# What a registration answers

The user and the wallet are there when the transaction has committed; the tokens are issued after that. And an email
that is free when it is looked up need not be free when it is inserted.
-/

set_option autoImplicit false

namespace FlashWallet.Auth

open Lib Registering

variable {env : Settings}

/-! ## What a call has done -/

/-- Call `i` takes the step. -/
def takenBy (i : Nat) (s : Step State Event) : Bool :=
  match s.label with
  | .exec j _ => j = i
  | .crash j => j = i
  | _ => false

/-- The rows call `i` has added to a table. -/
def added {α : Type} (rows : World → List α) (i : Nat) (tr : Trace) : List α :=
  (tr.filter (takenBy i)).flatMap fun s => (rows s.after.world).drop (rows s.before.world).length

abbrev addedUsers (i : Nat) (tr : Trace) : List User := added World.users i tr

abbrev addedWallets (i : Nat) (tr : Trace) : List Wallet := added World.wallets i tr

/-- The statement looks up, or inserts, an email that a user has. -/
def Stmt.meets (w : World) : Stmt → Bool
  | .userFindByEmail email | .userCreate email _ => w.users.any (·.email = email)
  | _ => false

/-- By this step call `i` learns that the email is taken. -/
def meetsTaken (i : Nat) (s : Step State Event) : Bool :=
  match s.label with
  | .exec j x => j = i && x ≠ .fault && (nextStmt? s.before s.label).any (Stmt.meets s.before.world)
  | _ => false

/-- What registrations have answered by now is what they have done. -/
structure AnswersTruly (tr : Trace) (c : State) : Prop where
  emails : (c.world.users.map User.email).Nodup
  returned : ∀ i call dto t, c.calls[i]? = some call → call.request = .register dto →
    call.result? = some (.ok (.tokens t)) → ∃ user wallet, addedUsers i tr = [user] ∧ addedWallets i tr = [wallet] ∧
      user.email = dto.email ∧ wallet.userId = user.id ∧ wallet.balance.cents = 0
  rejected : ∀ i call dto e, c.calls[i]? = some call → call.request = .register dto →
    call.result? = some (.error e) → addedUsers i tr = [] ∧ addedWallets i tr = []
  taken : ∀ i call dto e, c.calls[i]? = some call → call.request = .register dto →
    call.result? = some (.error e) → (∃ s ∈ tr, meetsTaken i s = true) → e = emailTaken

/-! ## When that fails -/

/-- The token library reads both times to live, and `ttlToSeconds` makes a number of seconds of the second. -/
def wellTimed (env : Settings) : Bool :=
  (env.ms env.accessTtl).isSome && (env.ms env.refreshTtl).isSome && match ttlToSeconds env.refreshTtl with
    | .ok seconds => 0 < seconds
    | .error _ => false

/-- A registration inserts an email that has been taken since it looked; or commits though the times to live are no
good; or, committed, fails to sign a token or to reach Redis. -/
def strays (env : Settings) (c : State) : Event → Bool
  | .exec i x =>
    match c.calls[i]? with
    | some ⟨.register _, .call (.userCreate email _) _, false⟩ => c.world.users.any (·.email = email)
    | some ⟨.register _, .call .commit _, false⟩ => !wellTimed env
    | some ⟨.register _, .call (.signAccess ..) _, false⟩ => x = .fault
    | some ⟨.register _, .call (.signRefresh ..) _, false⟩ => x = .fault
    | some ⟨.register _, .call (.redisSet ..) _, false⟩ => x = .fault
    | _ => false
  | _ => false

/-! ## The invariant -/

section

variable {α : Type} {rows : World → List α} {i : Nat} {tr : Trace} {s : Step State Event}

theorem added_snoc (rows : World → List α) (i : Nat) (tr : Trace) (s : Step State Event) :
    added rows i (tr ++ [s]) =
      added rows i tr ++ if takenBy i s then (rows s.after.world).drop (rows s.before.world).length else [] := by
  unfold added
  by_cases hs : takenBy i s <;> simp [List.filter_append, hs]

theorem added_snoc_of_other (h : takenBy i s = false) : added rows i (tr ++ [s]) = added rows i tr := by
  rw [added_snoc, h, if_neg Bool.false_ne_true, List.append_nil]

theorem added_snoc_of_append (h : takenBy i s = true) (new : List α)
    (hrows : rows s.after.world = rows s.before.world ++ new) : added rows i (tr ++ [s]) = added rows i tr ++ new := by
  rw [added_snoc, h, if_pos rfl, hrows, List.drop_left]

end

/-- Call `i` has added these rows, and has not learnt that its email is taken. -/
structure Done (tr : Trace) (i : Nat) (users : List User) (wallets : List Wallet) : Prop where
  users : addedUsers i tr = users
  wallets : addedWallets i tr = wallets
  unmet : ∀ s ∈ tr, meetsTaken i s = false

/-- Call `i` has these rows in its open transaction. -/
structure Opens (w : World) (i : Nat) (users : List User) (wallets : List Wallet) : Prop where
  users : w.openUsers i = users
  wallets : w.openWallets i = wallets

/-- The wallet is the user's, and there is nothing in it. -/
def Provisioned (user : User) (wallet : Wallet) : Prop := wallet.userId = user.id ∧ wallet.balance.cents = 0

/-- What is known of call `i` at each stage. -/
def Registering.Known (env : Settings) (w : World) (tr : Trace) (i : Nat) : Registering → Prop
  | .asked _ | .free _ | .hashed _ => Opens w i [] [] ∧ Done tr i [] []
  | .taken => addedUsers i tr = [] ∧ addedWallets i tr = []
  | .created user => Opens w i [user] [] ∧ Done tr i [] []
  | .filled user wallet => Opens w i [user] [wallet] ∧ Done tr i [] [] ∧ Provisioned user wallet
  | .failing _ | .failed _ => Done tr i [] []
  | .registered user wallet => Done tr i [user] [wallet] ∧ Provisioned user wallet ∧ wellTimed env = true
  | .late _ => False
  | .other | .cut => True

section

variable {w w' : World} {i : Nat} {tr : Trace} {s : Step State Event} {g : Registering}

theorem unmet_of_other (h : takenBy i s = false) : meetsTaken i s = false := by
  obtain ⟨c, l, c'⟩ := s
  cases l with
  | exec j x =>
    have hj : decide (j = i) = false := h
    simp only [meetsTaken, hj, Bool.false_and]
  | _ => rfl

theorem unmet_snoc (h : ∀ s ∈ tr, meetsTaken i s = false) (hs : meetsTaken i s = false) :
    ∀ s' ∈ tr ++ [s], meetsTaken i s' = false := by
  intro s' hs'
  rcases List.mem_append.mp hs' with hs' | hs'
  · exact h s' hs'
  · exact List.mem_singleton.mp hs' ▸ hs

theorem Done.other {users : List User} {wallets : List Wallet} (h : Done tr i users wallets)
    (hs : takenBy i s = false) : Done (tr ++ [s]) i users wallets where
  users := (added_snoc_of_other hs).trans h.users
  wallets := (added_snoc_of_other hs).trans h.wallets
  unmet := unmet_snoc h.unmet (unmet_of_other hs)

theorem Opens.same {users : List User} {wallets : List Wallet} (h : Opens w i users wallets)
    (hopen : w'.openUsers i = w.openUsers i ∧ w'.openWallets i = w.openWallets i) : Opens w' i users wallets :=
  ⟨hopen.1.trans h.users, hopen.2.trans h.wallets⟩

/-- What others do changes nothing that is known of a call. -/
theorem Registering.Known.other (h : Known env w tr i g)
    (hopen : w'.openUsers i = w.openUsers i ∧ w'.openWallets i = w.openWallets i) (hs : takenBy i s = false) :
    Known env w' (tr ++ [s]) i g := by
  cases g with
  | asked | free | hashed | created => exact ⟨h.1.same hopen, h.2.other hs⟩
  | taken => exact ⟨(added_snoc_of_other hs).trans h.1, (added_snoc_of_other hs).trans h.2⟩
  | filled => exact ⟨h.1.same hopen, h.2.1.other hs, h.2.2⟩
  | failing | failed => exact Done.other h hs
  | registered => exact ⟨h.1.other hs, h.2⟩
  | late => exact h
  | other | cut => trivial

end

/-- The stage is one of the request's. -/
def For : Request → Registering → Prop
  | .register dto, .asked email | .register dto, .free email | .register dto, .hashed email => email = dto.email
  | .register dto, .created user | .register dto, .filled user _ | .register dto, .registered user _ =>
    user.email = dto.email
  | .register _, .other => False
  | .register _, _ => True
  | _, .other | _, .cut => True
  | _, _ => False

/-- The call takes its own step `o` from `c`, and leaves the world `w`. -/
structure Takes (env : Settings) (c : State) (i : Nat) (r : Request) (o : Stmt) (x : Choice)
    (reply : Except Err o.Reply) (c' : State) : Prop where
  call : ∃ k, c.calls[i]? = some ⟨r, .call (S := sql) o k, false⟩
  exec : World.exec env.ms i o x c.world = some (reply, c'.world)
  allowed : strays env c (.exec i x) = false

section

variable {c c' : State} {i : Nat} {r : Request} {o : Stmt} {x : Choice} {reply : Except Err o.Reply} {tr : Trace}
  {g : Registering} {users : List User} {wallets : List Wallet} {before : List User × List Wallet}

theorem Takes.meets (h : Takes env c i r o x reply c') :
    meetsTaken i ⟨c, .exec i x, c'⟩ = (decide (x ≠ .fault) && o.meets c.world) := by
  obtain ⟨k, hk⟩ := h.call
  simp [meetsTaken, nextStmt?, hk]

theorem takenBy_exec : takenBy i ⟨c, .exec i x, c'⟩ = true := by simp [takenBy]

/-- A step that makes no rows visible. -/
theorem Takes.added (tr : Trace) (h : Takes env c i r o x reply c') (ho : o ≠ .commit ∨ reply.isOk = false) :
    addedUsers i (tr ++ [⟨c, .exec i x, c'⟩]) = addedUsers i tr ∧
      addedWallets i (tr ++ [⟨c, .exec i x, c'⟩]) = addedWallets i tr := by
  have hsame := World.rows_served (.of_exec h.exec) ho
  constructor
  · rw [addedUsers, added_snoc_of_append takenBy_exec [] (by rw [hsame.1, List.append_nil]), List.append_nil]
  · rw [addedWallets, added_snoc_of_append takenBy_exec [] (by rw [hsame.2, List.append_nil]), List.append_nil]

/-- Such a step, if the call does not learn by it that the email is taken. -/
theorem Done.step (h : Done tr i users wallets) (htakes : Takes env c i r o x reply c')
    (ho : o ≠ .commit ∨ reply.isOk = false) (hmeets : x ≠ .fault → o.meets c.world = false) :
    Done (tr ++ [⟨c, .exec i x, c'⟩]) i users wallets where
  users := (htakes.added tr ho).1.trans h.users
  wallets := (htakes.added tr ho).2.trans h.wallets
  unmet := by
    refine unmet_snoc h.unmet (htakes.meets.trans ?_)
    by_cases hx : x = .fault
    · simp [hx]
    · rw [hmeets hx, Bool.and_false]

/-- The step that makes the user and the wallet visible. -/
theorem Done.commit (h : Done tr i [] []) (hopens : Opens c.world i users wallets)
    (htakes : Takes env c i r .commit x (.ok ()) c') : Done (tr ++ [⟨c, .exec i x, c'⟩]) i users wallets := by
  obtain ⟨husers, hwallets⟩ := World.rows_committed (.of_exec htakes.exec)
  rw [hopens.users] at husers
  rw [hopens.wallets] at hwallets
  refine ⟨?_, ?_, unmet_snoc h.unmet (htakes.meets.trans (Bool.and_false _))⟩
  · rw [addedUsers, added_snoc_of_append takenBy_exec _ husers]
    exact congrArg (· ++ users) h.users
  · rw [addedWallets, added_snoc_of_append takenBy_exec _ hwallets]
    exact congrArg (· ++ wallets) h.wallets

/-- Whoever is at a stage of a registration is one. -/
theorem For.register (h : For r g) (hother : g ≠ .other) (hcut : g ≠ .cut) : ∃ dto, r = .register dto := by
  cases r with
  | register dto => exact ⟨dto, rfl⟩
  | _ => cases g <;> first | exact h.elim | exact absurd rfl hother | exact absurd rfl hcut

theorem Takes.free {email password : String} {reply : Except Err User}
    (h : Takes env c i r (.userCreate email password) x reply c') (hfor : For r (.hashed email)) :
    c.world.users.any (·.email = email) = false := by
  obtain ⟨dto, rfl⟩ := hfor.register nofun nofun
  obtain ⟨k, hk⟩ := h.call
  simpa only [strays, hk] using h.allowed

theorem Takes.timed {user : User} {wallet : Wallet} {reply : Except Err Unit}
    (h : Takes env c i r .commit x reply c') (hfor : For r (.filled user wallet)) : wellTimed env = true := by
  obtain ⟨dto, rfl⟩ := hfor.register nofun nofun
  obtain ⟨k, hk⟩ := h.call
  have hallowed := h.allowed
  simp only [strays, hk] at hallowed
  simpa using hallowed

/-- Nothing fails behind the commit. -/
theorem Takes.issues {user : User} {wallet : Wallet} {err : Err} (h : Takes env c i r o x (.error err) c')
    (hfor : For r (.registered user wallet)) (issues : Registering.Issues env o) (htimed : wellTimed env = true) :
    False := by
  obtain ⟨dto, rfl⟩ := hfor.register nofun nofun
  obtain ⟨k, hk⟩ := h.call
  have hallowed := h.allowed
  have hexec := h.exec
  simp only [wellTimed, Bool.and_eq_true] at htimed
  obtain ⟨⟨haccess, hrefresh⟩, hseconds⟩ := htimed
  -- well timed settings leave the statements behind the commit no reason to refuse
  have hrefuses : ¬c.world.Refuses env.ms o err := by
    intro hreason
    cases o with
    | signAccess payload expiresIn =>
      obtain rfl : expiresIn = env.accessTtl := issues
      rw [hreason.1] at haccess
      cases haccess
    | signRefresh payload expiresIn =>
      obtain rfl : expiresIn = env.refreshTtl := issues
      rw [hreason.1] at hrefresh
      cases hrefresh
    | redisSet key value seconds =>
      rw [show ttlToSeconds env.refreshTtl = .ok seconds from issues] at hseconds
      obtain rfl := hreason.1
      cases hseconds
    | randomUUID => exact hreason
    | _ => exact issues.elim
  -- and a fault there is a stray step
  obtain rfl := World.fault_of_error hexec hrefuses
  cases o with
  | signAccess | signRefresh | redisSet =>
    simp only [strays, hk] at hallowed
    cases hallowed
  | randomUUID => cases hexec
  | _ => exact issues.elim

theorem Registering.Known.next (h : Known env c.world tr i g) (hmay : May env g o) (hfor : For r g)
    (htakes : Takes env c i r o x reply c') :
    Known env c'.world (tr ++ [⟨c, .exec i x, c'⟩]) i (g.next o reply) := by
  have hs := World.Served.of_exec htakes.exec
  cases hmay with
  | other o =>
    rw [Registering.next_other]
    trivial
  | find email =>
    obtain ⟨hopens, hdone⟩ := h
    have hcommit : Stmt.userFindByEmail email ≠ .commit := by rintro ⟨⟩
    cases reply with
    | error err =>
      have hx := World.fault_of_error htakes.exec (by rintro ⟨⟩)
      exact hdone.step htakes (Or.inl hcommit) fun h => absurd hx h
    | ok found =>
      cases found with
      | some user =>
        obtain ⟨husers, hwallets⟩ := htakes.added tr (Or.inl hcommit)
        exact ⟨husers.trans hdone.users, hwallets.trans hdone.wallets⟩
      | none =>
        -- the read answers `none` of the committed users alone
        have hfree : c.world.users.any (·.email = email) = false := by
          have hfind : c.world.users.find? (·.email = email) = none := World.found_served hs
          simpa using hfind
        exact ⟨hopens.same (World.open_own hs trivial (by rintro ⟨⟩)),
          hdone.step htakes (Or.inl hcommit) fun _ => hfree⟩
  | hash email password =>
    obtain ⟨hopens, hdone⟩ := h
    have hdone' := hdone.step htakes (Or.inl (by rintro ⟨⟩)) fun _ => rfl
    cases reply with
    | error err => exact hdone'
    | ok hash => exact ⟨hopens.same (World.open_own hs trivial (by rintro ⟨⟩)), hdone'⟩
  | create email password =>
    obtain ⟨hopens, hdone⟩ := h
    have hdone' := hdone.step htakes (Or.inl (by rintro ⟨⟩)) fun _ => htakes.free hfor
    cases reply with
    | error err => exact hdone'
    | ok user =>
      obtain ⟨-, -, -, drawn, hw⟩ := World.exec_userCreate htakes.exec
      refine ⟨⟨?_, ?_⟩, hdone'⟩
      · rw [hw]
        simpa [World.openUsers] using hopens.users
      · rw [hw]
        exact hopens.wallets
  | provision user =>
    obtain ⟨hopens, hdone⟩ := h
    have hdone' := hdone.step htakes (Or.inl (by rintro ⟨⟩)) fun _ => rfl
    cases reply with
    | error err => exact hdone'
    | ok wallet =>
      obtain ⟨huser, hbalance, drawn, hw⟩ := World.exec_walletCreate htakes.exec
      refine ⟨⟨?_, ?_⟩, hdone', huser, hbalance⟩
      · rw [hw]
        exact hopens.users
      · rw [hw]
        simpa [World.openWallets] using hopens.wallets
  | commit user wallet =>
    obtain ⟨hopens, hdone, hprovisioned⟩ := h
    cases reply with
    | error err => exact hdone.step htakes (Or.inr rfl) fun _ => rfl
    | ok v => exact ⟨hdone.commit hopens htakes, hprovisioned, htakes.timed hfor⟩
  | rollback err =>
    have hdone' := Done.step h htakes (Or.inl (by rintro ⟨⟩)) fun _ => rfl
    cases reply <;> exact hdone'
  | issue user wallet o issues =>
    obtain ⟨hdone, hprovisioned, htimed⟩ := h
    have hdone' := hdone.step htakes (Or.inl (by rintro rfl; exact issues)) fun _ => by
      cases o <;> first | rfl | exact issues.elim
    cases reply with
    | error err => exact (htakes.issues hfor issues htimed).elim
    | ok v =>
      rw [Registering.next_registered]
      exact ⟨hdone', hprovisioned, htimed⟩

theorem For.next (h : For r g) (hmay : Registering.May env g o)
    (hexec : World.exec env.ms i o x c.world = some (reply, c'.world)) : For r (g.next o reply) := by
  cases hmay with
  | other o =>
    rw [Registering.next_other]
    exact h
  | create email password =>
    obtain ⟨dto, rfl⟩ := h.register nofun nofun
    cases reply with
    | error err => trivial
    | ok user => exact (World.exec_userCreate hexec).1.trans h
  | issue user wallet o issues =>
    obtain ⟨dto, rfl⟩ := h.register nofun nofun
    cases reply with
    | error err => trivial
    | ok v =>
      rw [Registering.next_registered]
      exact h
  | find | hash | provision | commit | rollback =>
    obtain ⟨dto, rfl⟩ := h.register nofun nofun
    rcases reply with err | v
    · trivial
    · first | exact h | (cases v <;> first | exact h | trivial)

end

/-- How registrations stand. -/
structure Registered (env : Settings) (tr : Trace) (c : State) (gs : List Registering) : Prop where
  emails : c.world.EmailsUnique
  asked : Platform.Matched (fun _ call g => For call.request g) c.calls gs
  known : ∀ (i : Nat) (g : Registering), gs[i]? = some g → Registering.Known env c.world tr i g
  beyond : ∀ i, c.calls.length ≤ i → Opens c.world i [] [] ∧ Done tr i [] []

theorem Registered.initial (env : Settings) : Registered env [] State.initial [] where
  emails := by simp [World.EmailsUnique, State.initial, World.initial]
  asked := .nil
  known i g hg := by simp at hg
  beyond i _ := ⟨⟨rfl, rfl⟩, rfl, rfl, by simp⟩

/-- A step that call `i` has no part in. -/
theorem Registered.bystander {tr : Trace} {c : State} {gs : List Registering} (h : Registered env tr c gs) (c' : State)
    (l : Event) (i : Nat)
    (hopen : c'.world.openUsers i = c.world.openUsers i ∧ c'.world.openWallets i = c.world.openWallets i)
    (hl : takenBy i ⟨c, l, c'⟩ = false) :
    (∀ g, gs[i]? = some g → Registering.Known env c'.world (tr ++ [⟨c, l, c'⟩]) i g) ∧
      (c.calls.length ≤ i → Opens c'.world i [] [] ∧ Done (tr ++ [⟨c, l, c'⟩]) i [] []) :=
  ⟨fun g hg => (h.known i g hg).other hopen hl, fun hi => ⟨(h.beyond i hi).1.same hopen, (h.beyond i hi).2.other hl⟩⟩

theorem registered_staged (env : Settings) :
    Platform.Staged (system env) (registrations env) (fun c l => strays env c l = false) (Registered env) where
  arrive tr c gs r hlen h _ := by
    have hby := fun i => h.bystander ((system env).arrive c r) (.arrive r) i ⟨rfl, rfl⟩ rfl
    refine ⟨h.emails, h.asked.arrive hlen ?_, fun i g hg => ?_, fun i hi => (hby i).2 ?_⟩
    · cases r <;> trivial
    · rcases Platform.getElem?_concat_cases hg with ⟨rfl, rfl⟩ | hg
      · have hnew := (hby gs.length).2 hlen.ge
        cases r with
        | register dto => exact hnew
        | _ => trivial
      · exact (hby i).1 g hg
    · simp only [Platform.arrive, List.length_append, List.length_singleton] at hi
      exact Nat.le_of_succ_le hi
  exec tr c gs i r o k g x reply w h hok hissues := by
    have hs := World.Served.of_exec hissues.exec
    have hfor := h.asked i _ g hissues.call hissues.stage
    have hby : ∀ j, j ≠ i → _ := fun j hj => h.bystander ⟨w, c.calls.set i ⟨r, k reply, false⟩⟩ (.exec i x) j
      (World.open_served hs hj) (by simpa [takenBy] using Ne.symm hj)
    have htakes : Takes env c i r o x reply ⟨w, c.calls.set i ⟨r, k reply, false⟩⟩ :=
      ⟨⟨k, hissues.call⟩, hissues.exec, hok⟩
    refine ⟨h.emails.exec hissues.exec, ?_, fun j g' hg' => ?_, fun j hj => ?_⟩
    · exact h.asked.set (fun _ _ _ _ hj => hj) (For.next hfor hissues.may htakes.exec)
    · rcases Platform.getElem?_set_cases hg' with ⟨rfl, rfl⟩ | ⟨hij, hg'⟩
      · exact (h.known j g hissues.stage).next hissues.may hfor htakes
      · exact (hby j hij).1 g' hg'
    · have hlt := (List.getElem?_eq_some_iff.mp hissues.call).1
      simp only [List.length_set] at hj
      exact (hby j (by omega)).2 hj
  crash tr c gs i r o k g hlen h _ hi hg := by
    have hs : World.Served env.ms i c.world .rollback (.ok ()) (c.world.release i) := .rolledBack
    have hby : ∀ j, j ≠ i → _ := fun j hj => h.bystander ⟨c.world.release i, c.calls.set i ⟨r, .call o k, true⟩⟩
      (.crash i) j (World.open_served hs hj) (by simpa [takenBy] using Ne.symm hj)
    refine ⟨h.emails.release, h.asked.set (fun _ _ _ _ hj => hj) ?_, fun j g' hg' => ?_, fun j hj => ?_⟩
    · cases r <;> trivial
    · rcases Platform.getElem?_set_cases hg' with ⟨rfl, rfl⟩ | ⟨hij, hg'⟩
      · trivial
      · exact (hby j hij).1 g' hg'
    · have hlt := (List.getElem?_eq_some_iff.mp hi).1
      simp only [List.length_set] at hj
      exact (hby j (by omega)).2 hj
  env tr c gs e w hlen h _ he := by
    have hby := fun i => h.bystander { c with world := w } (.env e) i (World.open_env he i) rfl
    exact ⟨h.emails.env he, h.asked, fun i g hg => (hby i).1 g hg, fun i hi => (hby i).2 hi⟩

/-- **What registrations answer is what they have done**, in every state of every run in which none strays. -/
theorem register_answers {tr : Trace} {c : State}
    (hrun : RunFrom env State.initial (fun c l => strays env c l = false) tr c) : AnswersTruly tr c := by
  obtain ⟨gs, h, ha⟩ := (registered_staged env).sound registrations_follows (.initial env) .nil hrun
  -- where a registration that has answered stands
  have hstands : ∀ (i : Nat) (call : ServiceCall) (dto : RegisterDto) (r : Except Err Response),
      c.calls[i]? = some call → call.request = .register dto → call.result? = some r →
      ∃ g, Registering.Answered env r g ∧ Registering.Known env c.world tr i g ∧ For (.register dto) g := by
    intro i call dto r hi hreq hr
    obtain ⟨g, hg⟩ := ha.books hi
    obtain ⟨hlive, hprog⟩ := Call.result?_eq_some hr
    have hkeeps := ha.keeps i call g hi hg hlive
    rw [hprog, Prog.keeps_ended] at hkeeps
    exact ⟨g, hkeeps, h.known i g hg, hreq ▸ h.asked i call g hi hg⟩
  refine ⟨h.emails.users, fun i call dto t hi hreq hr => ?_, fun i call dto e hi hreq hr => ?_,
    fun i call dto e hi hreq hr hmet => ?_⟩
  · obtain ⟨g, hanswered, hknown, hfor⟩ := hstands i call dto _ hi hreq hr
    cases hanswered with
    | other => exact hfor.elim
    | registered user wallet =>
      obtain ⟨hdone, hprovisioned, -⟩ := hknown
      exact ⟨user, wallet, hdone.users, hdone.wallets, hfor, hprovisioned⟩
  · obtain ⟨g, hanswered, hknown, hfor⟩ := hstands i call dto _ hi hreq hr
    cases hanswered with
    | other => exact hfor.elim
    | taken => exact hknown
    | failed => exact ⟨hknown.users, hknown.wallets⟩
    | illTimed user wallet err ttl =>
      have htimed := hknown.2.2
      simp only [wellTimed, ttl, Bool.and_false] at htimed
      cases htimed
    | late => exact hknown.elim
  · obtain ⟨g, hanswered, hknown, hfor⟩ := hstands i call dto _ hi hreq hr
    have hunmet : ∀ {users wallets}, Done tr i users wallets → False := by
      intro users wallets hdone
      obtain ⟨s, hs, hmet⟩ := hmet
      rw [hdone.unmet s hs] at hmet
      cases hmet
    cases hanswered with
    | other => exact hfor.elim
    | taken => rfl
    | failed => exact (hunmet hknown).elim
    | illTimed => exact (hunmet hknown.1).elim
    | late => exact hknown.elim

section

open Trial

/-- Alice registers, and somebody comes with her email. -/
def registersAgain : List Event :=
  Trial.register ++ [.arrive (.register ⟨"alice@example.com", "another"⟩), .exec 1 .ok]

set_option maxRecDepth 4000 in
theorem register_answers_again :
    AnswersTruly (traceAfter settings registersAgain) (stateAfter settings registersAgain) ∧
      ∃ call, (stateAfter settings registersAgain).calls[1]? = some call ∧
        call.request = .register ⟨"alice@example.com", "another"⟩ ∧ call.result? = some (.error emailTaken) := by
  have htruly : AnswersTruly (traceAfter settings registersAgain) (stateAfter settings registersAgain) :=
    register_answers ((run_stateAfter settings (fun c l => !strays settings c l) registersAgain (by decide)).mono
      fun _ _ h => by simpa using h)
  -- the second call has been answered with an error and has met the email, so the error is the conflict
  obtain ⟨call, e, hi, hreq, hr⟩ : ∃ call e, (stateAfter settings registersAgain).calls[1]? = some call ∧
      call.request = .register ⟨"alice@example.com", "another"⟩ ∧ call.result? = some (.error e) :=
    ⟨_, _, rfl, rfl, rfl⟩
  have hmet : (traceAfter settings registersAgain).any (meetsTaken 1) = true := by decide
  exact ⟨htruly, call, hi, hreq, htruly.taken 1 call _ e hi hreq hr (List.any_eq_true.mp hmet) ▸ hr⟩

/-- Two registrations with one email look it up before either has inserted it. -/
def race : List Event :=
  [.arrive (.register ⟨"alice@example.com", "one"⟩), .arrive (.register ⟨"alice@example.com", "two"⟩),
    .exec 0 .ok, .exec 1 .ok, .exec 0 (.text "hash of one"), .exec 1 (.text "hash of two"),
    .exec 0 (.fresh alice), .exec 0 (.fresh wallet), .exec 0 .ok, .exec 1 (.fresh jti₁), .exec 1 .ok]

/-- Alice registers, and Redis is not there when her session is to be stored. -/
def unstored : List Event := Trial.register.take 9 ++ [.exec 0 .fault]

/-- What the call has been answered. -/
def answerOf (ls : List Event) (i : Nat) : Option (Except Err Response) :=
  (stateAfter settings ls).calls[i]?.bind Call.result?

theorem called (ls : List Event) (i : Nat) (request : Request) (r : Except Err Response) (hr : answerOf ls i = some r)
    (hreq : (stateAfter settings ls).calls[i]?.map (·.request) = some request) :
    ∃ call, (stateAfter settings ls).calls[i]? = some call ∧ call.request = request ∧ call.result? = some r := by
  obtain ⟨call, hcall, hr⟩ := Option.bind_eq_some_iff.mp hr
  rw [hcall] at hreq
  exact ⟨call, hcall, Option.some.inj hreq, hr⟩

set_option maxRecDepth 4000 in
/-- The loser of the race is told of the index, and whoever meets the outage is told that nothing was done. -/
theorem not_answersTruly_race :
    (RunFrom settings State.initial anyStep (traceAfter settings race) (stateAfter settings race) ∧
      ¬AnswersTruly (traceAfter settings race) (stateAfter settings race)) ∧
    RunFrom settings State.initial anyStep (traceAfter settings unstored) (stateAfter settings unstored) ∧
      ¬AnswersTruly (traceAfter settings unstored) (stateAfter settings unstored) := by
  have hrun : ∀ ls, Allowed settings (fun _ _ => true) ls = true →
      RunFrom settings State.initial anyStep (traceAfter settings ls) (stateAfter settings ls) :=
    fun ls h => (run_stateAfter settings _ ls h).mono fun _ _ _ => trivial
  refine ⟨⟨hrun race (by decide), fun h => ?_⟩, hrun unstored (by decide), fun h => ?_⟩
  · obtain ⟨call, hi, hreq, hr⟩ := called race 1 (.register ⟨"alice@example.com", "two"⟩)
      (.error .uniqueViolation) rfl rfl
    have hmet : (traceAfter settings race).any (meetsTaken 1) = true := by decide
    have he := h.taken 1 call _ _ hi hreq hr (List.any_eq_true.mp hmet)
    cases he
  · obtain ⟨call, hi, hreq, hr⟩ := called unstored 0 (.register ⟨"alice@example.com", "in plain text"⟩)
      (.error .unavailable) rfl rfl
    have hnone := (h.rejected 0 call _ _ hi hreq hr).1
    have hadded : addedUsers 0 (traceAfter settings unstored) =
        [⟨alice, "alice@example.com", "hashed", .CUSTOMER⟩] := by
      decide
    rw [hadded] at hnone
    cases hnone

end

end FlashWallet.Auth
