import FlashWallet.Proof.AuthStages

/-!
# Sessions

A session is a key of Redis. Its identifier is drawn by one call, written by that call or never, and
then settled: what is deleted after that does not come back. `Keyed` holds in every state of every run.
-/

set_option autoImplicit false

namespace FlashWallet.Auth

open Lib

variable {env : Settings}

/-- The reply hands over identifier `jti`. -/
def Draws (jti : Uuid) : (o : Stmt) → Except Err o.Reply → Prop
  | .randomUUID, .ok (drawn : Uuid) => drawn = jti
  | _, _ => False

/-- The reply accepts the token `s` was presented as, for what `s` says. -/
def Verifies (s : Presented) : (o : Stmt) → Except Err o.Reply → Prop
  | .verifyRefresh token _, .ok (payload : RefreshTokenPayload) => token = s.token ∧ payload = s.payload
  | _, _ => False

/-- The reply is `token`, signed for the session `jti` of `sub`. -/
def Mints (sub jti : Uuid) (token : String) : (o : Stmt) → Except Err o.Reply → Prop
  | .signRefresh payload _, .ok (text : String) => payload = ⟨sub, jti⟩ ∧ text = token
  | _, _ => False

/-- The reply shows the key to be there. -/
def Finds (key : String) : (o : Stmt) → Except Err o.Reply → Prop
  | .redisGet key', .ok (found : Option String) => key' = key ∧ AuthService.truthy found = true
  | _, _ => False

/-- The reply says that the keys are deleted. -/
def Deletes (keys : List String) : (o : Stmt) → Except Err o.Reply → Prop
  | .redisDel keys', .ok _ => keys' = keys
  | _, _ => False

/-- What a look at Redis leads to. -/
theorem next_look (s : Presented) (r : Except Err (Option String)) :
    (Stage.verified s).next (.redisGet s.key) r = .held s ∧ Finds s.key (.redisGet s.key) r ∨
      (Stage.verified s).next (.redisGet s.key) r = .missed s ∨
      (Stage.verified s).next (.redisGet s.key) r = .lost := by
  cases r with
  | error e => exact Or.inr (Or.inr rfl)
  | ok found =>
    cases hfound : AuthService.truthy found with
    | true => exact Or.inl ⟨if_pos hfound, rfl, hfound⟩
    | false => exact Or.inr (Or.inl (if_neg (by simp [hfound])))

/-- What listing the sessions of a user leads to. -/
theorem next_list (s : Presented) (pattern : String) (r : Except Err (List String)) :
    (∃ keys, r = .ok keys ∧ (Stage.missed s).next (.redisKeys pattern) r = .listed s keys) ∨
      (r = .ok [] ∧ (Stage.missed s).next (.redisKeys pattern) r = .revoked s) ∨
      (Stage.missed s).next (.redisKeys pattern) r = .lost := by
  rcases r with e | _ | ⟨key, keys⟩
  · exact Or.inr (Or.inr rfl)
  · exact Or.inr (Or.inl ⟨rfl, rfl⟩)
  · exact Or.inl ⟨key :: keys, rfl, rfl⟩

/-- A reply leaves no identifier to be written but one it has drawn. -/
theorem pending_next {g : Stage} {o : Stmt} (may : May env g o) (r : Except Err o.Reply) {jti : Uuid}
    (h : (g.next o r).pending = some jti) :
    g.pending = some jti ∨ Draws jti o r := by
  cases may with
  | draw source sub =>
    cases r with
    | ok drawn => exact Or.inr (Option.some.inj h)
    | error e => cases h
  | sign source sub jti' =>
    cases r with
    | ok token => exact Or.inl h
    | error e => cases h
  | look s' => rcases next_look s' r with ⟨hnext, -⟩ | hnext | hnext <;> rw [hnext] at h <;> cases h
  | list s' => rcases next_list s' _ r with ⟨_, -, hnext⟩ | ⟨-, hnext⟩ | hnext <;> rw [hnext] at h <;> cases h
  | _ => cases r <;> cases h

/-- The token a call is asked about is the one it was shown. -/
theorem presented_next {g : Stage} {o : Stmt} (may : May env g o) (r : Except Err o.Reply) {s : Presented}
    (h : (g.next o r).presented = some s) :
    g.presented = some s ∨ Verifies s o r := by
  cases may with
  | verify token | verifyLate token =>
    cases r with
    | ok payload =>
      obtain rfl : ⟨token, payload⟩ = s := Option.some.inj h
      exact Or.inr ⟨rfl, rfl⟩
    | error e => cases h
  | look s' =>
    rcases next_look s' r with ⟨hnext, -⟩ | hnext | hnext <;> rw [hnext] at h <;> first | exact Or.inl h | cases h
  | list s' =>
    rcases next_list s' _ r with ⟨_, -, hnext⟩ | ⟨-, hnext⟩ | hnext <;> rw [hnext] at h <;>
      first | exact Or.inl h | cases h
  | enter => cases r <;> cases h
  | _ => cases r <;> first | exact Or.inl h | cases h

/-- A token a call has was signed for it. -/
theorem minted_next {g : Stage} {o : Stmt} (may : May env g o) (r : Except Err o.Reply) {sub jti : Uuid}
    {token : String} (h : (g.next o r).minted = some (sub, jti, token)) :
    g.minted = some (sub, jti, token) ∨ Mints sub jti token o r := by
  cases may with
  | look s' => rcases next_look s' r with ⟨hnext, -⟩ | hnext | hnext <;> rw [hnext] at h <;> cases h
  | list s' => rcases next_list s' _ r with ⟨_, -, hnext⟩ | ⟨-, hnext⟩ | hnext <;> rw [hnext] at h <;> cases h
  | sign source sub' jti' =>
    cases r with
    | ok text =>
      cases h
      exact Or.inr ⟨rfl, rfl⟩
    | error e => cases h
  | _ => cases r <;> first | exact Or.inl h | cases h

/-- A session is saved by being written. -/
theorem saved_next {g : Stage} {o : Stmt} (may : May env g o) (r : Except Err o.Reply) {jti : Uuid}
    (h : (g.next o r).saved = some jti) : ∃ key value seconds, o = .redisSet key value seconds := by
  cases may with
  | look s' => rcases next_look s' r with ⟨hnext, -⟩ | hnext | hnext <;> rw [hnext] at h <;> cases h
  | list s' => rcases next_list s' _ r with ⟨_, -, hnext⟩ | ⟨-, hnext⟩ | hnext <;> rw [hnext] at h <;> cases h
  | store => exact ⟨_, _, _, rfl⟩
  | _ => cases r <;> cases h

/-- What a call claims it has found. -/
theorem claims_next {g : Stage} {o : Stmt} (may : May env g o) (r : Except Err o.Reply) {s : Presented}
    (h : (g.next o r).claims = some s) : g.claims = some s ∨ g = .verified s ∧ Finds s.key o r := by
  cases may with
  | look s' =>
    rcases next_look s' r with ⟨hnext, hfinds⟩ | hnext | hnext <;> rw [hnext] at h
    · obtain rfl := Option.some.inj h
      exact Or.inr ⟨rfl, hfinds⟩
    · cases h
    · cases h
  | list s' => rcases next_list s' _ r with ⟨_, -, hnext⟩ | ⟨-, hnext⟩ | hnext <;> rw [hnext] at h <;> cases h
  | enter => cases r <;> cases h
  | _ => cases r <;> first | exact Or.inl h | cases h

/-- What a call has spent it has deleted. -/
theorem spends_next {g : Stage} {o : Stmt} (may : May env g o) (r : Except Err o.Reply) {s : Presented}
    (h : (g.next o r).spends = some s) :
    g.spends = some s ∨ g = .held s ∧ Deletes [s.key] o r := by
  cases may with
  | spend s' =>
    cases r with
    | ok n =>
      obtain rfl := Option.some.inj h
      exact Or.inr ⟨rfl, rfl⟩
    | error e => cases h
  | look s' => rcases next_look s' r with ⟨hnext, -⟩ | hnext | hnext <;> rw [hnext] at h <;> cases h
  | list s' => rcases next_list s' _ r with ⟨_, -, hnext⟩ | ⟨-, hnext⟩ | hnext <;> rw [hnext] at h <;> cases h
  | enter => cases r <;> cases h
  | _ => cases r <;> first | exact Or.inl h | cases h

theorem asked_next {g : Stage} {o : Stmt} (may : May env g o) (r : Except Err o.Reply) {q : Request}
    (h : (g.next o r).asked = some q) : g.asked = some q := by
  cases may with
  | look s' =>
    rcases next_look s' r with ⟨hnext, -⟩ | hnext | hnext <;> rw [hnext] at h <;> first | exact h | cases h
  | list s' =>
    rcases next_list s' _ r with ⟨_, -, hnext⟩ | ⟨-, hnext⟩ | hnext <;> rw [hnext] at h <;>
      first | exact h | cases h
  | _ => cases r <;> first | exact h | cases h

/-- The identifier is drawn, and no call has it still to write. -/
structure Settled (c : State) (gs : List Stage) (jti : Uuid) : Prop where
  drawn : jti ∈ c.world.drawn
  unpending : ∀ (i : Nat) (g : Stage), gs[i]? = some g → g.pending ≠ some jti

structure Keyed (c : State) (gs : List Stage) : Prop where
  cut : Platform.Matched (fun _ call g => call.crashed = true → g = .lost) c.calls gs
  asked : Platform.Matched (fun _ call g => ∀ r, g.asked = some r → call.request = r) c.calls gs
  presented : ∀ (i : Nat) (g : Stage) (s : Presented), gs[i]? = some g → g.presented = some s →
    ∃ exp, c.world.jwt? s.token = some ⟨s.token, .refresh s.payload, exp⟩
  drawn : ∀ (i : Nat) (g : Stage) (jti : Uuid), gs[i]? = some g → g.pending = some jti →
    jti ∈ c.world.drawn
  distinct : ∀ (i j : Nat) (g g' : Stage) (jti : Uuid), gs[i]? = some g → gs[j]? = some g' →
    g.pending = some jti → g'.pending = some jti → i = j
  rows : ∀ row ∈ c.world.redis, isSession row.key = true →
    ∃ sub jti, row.key = refreshKey sub jti ∧ row.value = "1" ∧ Settled c gs jti
  minted : ∀ (i : Nat) (g : Stage) (sub jti : Uuid) (token : String), gs[i]? = some g →
    g.minted = some (sub, jti, token) → ∃ exp, c.world.jwt? token = some ⟨token, .refresh ⟨sub, jti⟩, exp⟩
  saved : ∀ (i : Nat) (g : Stage) (jti : Uuid), gs[i]? = some g → g.saved = some jti → Settled c gs jti

theorem Keyed.initial : Keyed State.initial [] where
  cut := .nil
  asked := .nil
  presented := by simp
  drawn := by simp
  distinct := by simp
  rows := by simp [State.initial, World.initial]
  minted := by simp
  saved := by simp

abbrev Issues (env : Settings) (c : State) (gs : List Stage) (i : Nat) (r : Request) (o : Stmt)
    (k : Except Err o.Reply → Service Response) (g : Stage) (x : Choice) (reply : Except Err o.Reply)
    (w : World) : Prop :=
  Platform.Issues (system env) (stages env) c gs i r o k g x reply w

theorem served_of_issues {c : State} {gs : List Stage} {i : Nat} {r : Request} {o : Stmt}
    {k : Except Err o.Reply → Service Response} {g : Stage} {x : Choice} {reply : Except Err o.Reply}
    {w : World} (h : Issues env c gs i r o k g x reply w) : World.Served env.ms i c.world o reply w :=
  .of_exec h.exec

theorem World.draws_served {ms : String → Option Nat} {i : Nat} {w w' : World} {o : Stmt}
    {r : Except Err o.Reply} (hs : Served ms i w o r w') {jti : Uuid} (h : Draws jti o r) :
    jti ∉ w.drawn ∧ jti ∈ w'.drawn := by
  cases o with
  | randomUUID =>
    cases r with
    | error e => exact h.elim
    | ok drawn =>
      obtain rfl : drawn = jti := h
      cases hs with
      | drew id fresh => exact ⟨fresh, List.mem_cons_self⟩
      | read _ _ answer => cases answer
  | _ => cases r <;> exact h.elim

/-- A token that is accepted has been signed. -/
theorem World.verifies_served {ms : String → Option Nat} {i : Nat} {w w' : World} {o : Stmt}
    {r : Except Err o.Reply} (hs : Served ms i w o r w') {s : Presented} (h : Verifies s o r) :
    ∃ exp, w.jwt? s.token = some ⟨s.token, .refresh s.payload, exp⟩ := by
  cases o with
  | verifyRefresh token ignoreExpiration =>
    cases r with
    | error e => exact h.elim
    | ok payload =>
      obtain ⟨rfl, rfl⟩ : token = s.token ∧ payload = s.payload := h
      generalize hreply : (Except.ok s.payload : Except Err RefreshTokenPayload) = reply at hs
      cases hs with
      | verified _ _ payload exp genuine =>
        cases hreply
        exact ⟨exp, genuine⟩
      | read _ _ answer => cases answer
  | _ => cases r <;> exact h.elim

theorem World.mints_served {ms : String → Option Nat} {i : Nat} {w w' : World} {o : Stmt}
    {r : Except Err o.Reply} (hs : Served ms i w o r w') {sub jti : Uuid} {token : String}
    (h : Mints sub jti token o r) : ∃ exp, w'.jwt? token = some ⟨token, .refresh ⟨sub, jti⟩, exp⟩ := by
  cases o with
  | signRefresh payload expiresIn =>
    cases r with
    | error e => exact h.elim
    | ok text =>
      obtain ⟨rfl, rfl⟩ : payload = ⟨sub, jti⟩ ∧ text = token := h
      cases hs with
      | signedRefresh _ _ _ span reads fresh =>
        exact ⟨w.now + span / 1000, World.jwt?_signed fresh⟩
      | read _ _ answer => cases answer
  | _ => cases r <;> exact h.elim

theorem World.redisGet_eq_some {w : World} {key value : String} (h : w.redisGet key = some value) :
    ∃ row ∈ w.redis, row.key = key ∧ row.value = value := by
  obtain ⟨row, hrow, hvalue⟩ := Option.map_eq_some_iff.mp h
  exact ⟨row, List.mem_of_find?_eq_some hrow, by simpa using List.find?_some hrow, hvalue⟩

/-- A key that is found is there. -/
theorem World.finds_served {ms : String → Option Nat} {i : Nat} {w w' : World} {o : Stmt}
    {r : Except Err o.Reply} (hs : Served ms i w o r w') {key : String} (h : Finds key o r) :
    (∃ row ∈ w.redis, row.key = key) ∧ w' = w := by
  cases o with
  | redisGet key' =>
    cases r with
    | error e => exact h.elim
    | ok found =>
      obtain ⟨rfl, htruthy⟩ : key' = key ∧ AuthService.truthy found = true := h
      cases hs with
      | read _ _ answer =>
        obtain rfl : w.redisGet key' = found := Option.some.inj answer
        cases hget : w.redisGet key' with
        | none =>
          rw [hget] at htruthy
          cases htruthy
        | some value =>
          obtain ⟨row, hrow, hkey, -⟩ := World.redisGet_eq_some hget
          exact ⟨⟨row, hrow, hkey⟩, rfl⟩
  | _ => cases r <;> exact h.elim

/-- What a pattern lists. -/
theorem World.lists_served {ms : String → Option Nat} {i : Nat} {w w' : World} {pattern : String}
    {keys : List String} (hs : Served ms i w (.redisKeys pattern) (.ok keys) w') :
    keys = w.redisKeys pattern ∧ w' = w := by
  cases hs with
  | read _ _ answer => exact ⟨(Option.some.inj answer).symm, rfl⟩

theorem World.deletes_served {ms : String → Option Nat} {i : Nat} {w w' : World} {o : Stmt}
    {r : Except Err o.Reply} (hs : Served ms i w o r w') {keys : List String} (h : Deletes keys o r) :
    w' = w.redisDel keys := by
  cases o with
  | redisDel keys' =>
    cases r with
    | error e => exact h.elim
    | ok n =>
      obtain rfl : keys' = keys := h
      cases hs with
      | deleted => rfl
      | read _ _ answer => cases answer
  | _ => cases r <;> exact h.elim

section

variable {c : State} {gs : List Stage} {i : Nat} {r : Request} {o : Stmt}
  {k : Except Err o.Reply → Service Response} {g : Stage} {x : Choice} {reply : Except Err o.Reply}
  {w : World} {jti : Uuid}

theorem Settled.exec {calls : List ServiceCall} (h : Settled c gs jti)
    (hissues : Issues env c gs i r o k g x reply w) : Settled ⟨w, calls⟩ (gs.set i (g.next o reply)) jti where
  drawn := World.drawn_served (served_of_issues hissues) h.drawn
  unpending j g' hg' hpending := by
    rcases Platform.getElem?_set_cases hg' with ⟨rfl, rfl⟩ | ⟨-, hg'⟩
    · rcases pending_next hissues.may reply hpending with hold | hdraws
      · exact h.unpending j g hissues.stage hold
      · exact (World.draws_served (served_of_issues hissues) hdraws).1 h.drawn
    · exact h.unpending j g' hg' hpending

theorem Settled.arrive (h : Settled c gs jti) (r : Request) :
    Settled ((system env).arrive c r) (gs ++ [.entered r]) jti where
  drawn := h.drawn
  unpending j g hg hpending := by
    rcases Platform.getElem?_concat_cases hg with ⟨-, rfl⟩ | hg
    · cases hpending
    · exact h.unpending j g hg hpending

theorem Settled.cut {calls : List ServiceCall} (h : Settled c gs jti) (i : Nat) :
    Settled ⟨c.world.release i, calls⟩ (gs.set i .lost) jti where
  drawn := h.drawn
  unpending j g hg hpending := by
    rcases Platform.getElem?_set_cases hg with ⟨rfl, rfl⟩ | ⟨-, hg⟩
    · cases hpending
    · exact h.unpending j g hg hpending

theorem Settled.moved {e : Env} (h : Settled c gs jti) (he : e.run c.world = some w) :
    Settled ⟨w, c.calls⟩ gs jti where
  drawn := drawn_env he ▸ h.drawn
  unpending := h.unpending

/-- A session is written by the call that drew it, and settled from then on. -/
theorem Keyed.written (h : Keyed c gs) (calls : List ServiceCall)
    (hissues : Issues env c gs i r o k g x reply w) {key value : String} {seconds : Nat}
    (ho : o = .redisSet key value seconds) :
    ∃ source sub jti token, g = .signed source sub jti token ∧ key = refreshKey sub jti ∧ value = "1" ∧
      Settled ⟨w, calls⟩ (gs.set i (g.next o reply)) jti := by
  subst ho
  have hs := served_of_issues hissues
  have hmay := hissues.may
  cases hmay with
  | store source sub jti token seconds ttl =>
    have hpending : (Stage.signed source sub jti token).pending = some jti := rfl
    refine ⟨source, sub, jti, token, rfl, rfl, rfl,
      World.drawn_served hs (h.drawn i _ jti hissues.stage hpending), fun j g' hg' hpending' => ?_⟩
    rcases Platform.getElem?_set_cases hg' with ⟨rfl, rfl⟩ | ⟨hij, hg'⟩
    · cases reply <;> cases hpending'
    · exact hij (h.distinct j i g' _ jti hg' hissues.stage hpending' hpending)

/-- **What is gone stays gone**: no statement brings a settled session back. -/
theorem Keyed.stays_gone (h : Keyed c gs) (hissues : Issues env c gs i r o k g x reply w) {sub : Uuid}
    (hsettled : Settled c gs jti) (hgone : ∀ row ∈ c.world.redis, row.key ≠ refreshKey sub jti) :
    ∀ row ∈ w.redis, row.key ≠ refreshKey sub jti := by
  intro row hrow
  rcases World.redis_served (served_of_issues hissues) with hkept | ⟨key, value, seconds, ho, hset⟩ |
    ⟨keys, -, hdel⟩
  · exact hgone row (hkept ▸ hrow)
  · rcases List.mem_append.mp (hset ▸ hrow) with hrow | hrow
    · exact hgone row (List.mem_of_mem_filter hrow)
    · obtain ⟨source, sub', jti', token, rfl, rfl, -⟩ := h.written c.calls hissues ho
      obtain rfl := List.mem_singleton.mp hrow
      intro hkey
      obtain ⟨-, rfl⟩ := refreshKey_inj hkey
      exact hsettled.unpending i _ hissues.stage rfl
  · exact hgone row (List.mem_of_mem_filter (hdel ▸ hrow))

/-- Nor does the environment. -/
theorem gone_moved {e : Env} {w w' : World} (he : e.run w = some w') {sub jti : Uuid}
    (hgone : ∀ row ∈ w.redis, row.key ≠ refreshKey sub jti) :
    ∀ row ∈ w'.redis, row.key ≠ refreshKey sub jti := by
  intro row hrow hkey
  rcases redis_env he hrow with hrow | hforeign
  · exact hgone row hrow hkey
  · rw [hkey, isSession_refreshKey] at hforeign
    cases hforeign

/-! ### What each kind of step keeps -/

theorem Keyed.arrive (h : Keyed c gs) (hlen : gs.length = c.calls.length) (r : Request) :
    Keyed ((system env).arrive c r) (gs ++ [.entered r]) where
  cut := h.cut.arrive hlen nofun
  asked := h.asked.arrive hlen fun _ hr => Option.some.inj hr
  presented i g s hg hs := by
    rcases Platform.getElem?_concat_cases hg with ⟨-, rfl⟩ | hg
    · cases hs
    · exact h.presented i g s hg hs
  drawn i g jti hg hjti := by
    rcases Platform.getElem?_concat_cases hg with ⟨-, rfl⟩ | hg
    · cases hjti
    · exact h.drawn i g jti hg hjti
  distinct i j g g' jti hg hg' hjti hjti' := by
    rcases Platform.getElem?_concat_cases hg with ⟨-, rfl⟩ | hg
    · cases hjti
    · rcases Platform.getElem?_concat_cases hg' with ⟨-, rfl⟩ | hg'
      · cases hjti'
      · exact h.distinct i j g g' jti hg hg' hjti hjti'
  rows row hrow hsession :=
    let ⟨sub, jti, hkey, hvalue, hsettled⟩ := h.rows row hrow hsession
    ⟨sub, jti, hkey, hvalue, hsettled.arrive r⟩
  minted i g sub jti token hg hminted := by
    rcases Platform.getElem?_concat_cases hg with ⟨-, rfl⟩ | hg
    · cases hminted
    · exact h.minted i g sub jti token hg hminted
  saved i g jti hg hsaved := by
    rcases Platform.getElem?_concat_cases hg with ⟨-, rfl⟩ | hg
    · cases hsaved
    · exact (h.saved i g jti hg hsaved).arrive r

/-- An identifier that waits after a statement has waited before it, or is drawn by it. -/
theorem pending_exec (hissues : Issues env c gs i r o k g x reply w)
    (hpending : (g.next o reply).pending = some jti) :
    g.pending = some jti ∨ jti ∉ c.world.drawn ∧ jti ∈ w.drawn :=
  (pending_next hissues.may reply hpending).imp_right (World.draws_served (served_of_issues hissues))

/-- A fresh identifier is nobody else's. -/
theorem Keyed.pending_alone (h : Keyed c gs) (hissues : Issues env c gs i r o k g x reply w) {j : Nat}
    {g' : Stage} (hj : gs[j]? = some g') (hpending : g'.pending = some jti)
    (hnext : (g.next o reply).pending = some jti) : j = i := by
  rcases pending_exec hissues hnext with hold | ⟨hfresh, -⟩
  · exact h.distinct j i g' g jti hj hissues.stage hpending hold
  · exact absurd (h.drawn j g' jti hj hpending) hfresh

theorem Keyed.distinct_exec (h : Keyed c gs) (hissues : Issues env c gs i r o k g x reply w) {j j' : Nat}
    {g' g'' : Stage} (hj : (gs.set i (g.next o reply))[j]? = some g')
    (hj' : (gs.set i (g.next o reply))[j']? = some g'') (hpending : g'.pending = some jti)
    (hpending' : g''.pending = some jti) : j = j' := by
  rcases Platform.getElem?_set_cases hj with ⟨rfl, rfl⟩ | ⟨hne, hold⟩ <;>
    rcases Platform.getElem?_set_cases hj' with ⟨rfl, rfl⟩ | ⟨hne', hold'⟩
  · rfl
  · exact absurd (h.pending_alone hissues hold' hpending' hpending) hne'
  · exact absurd (h.pending_alone hissues hold hpending hpending') hne
  · exact h.distinct j j' g' g'' jti hold hold' hpending hpending'

/-- A session that is new was written by the call that drew it. -/
theorem Keyed.rows_exec (h : Keyed c gs) (calls : List ServiceCall)
    (hissues : Issues env c gs i r o k g x reply w) {row : RedisRow} (hrow : row ∈ w.redis)
    (hsession : isSession row.key = true) :
    ∃ sub jti, row.key = refreshKey sub jti ∧ row.value = "1" ∧
      Settled ⟨w, calls⟩ (gs.set i (g.next o reply)) jti := by
  have hold : row ∈ c.world.redis → ∃ sub jti, row.key = refreshKey sub jti ∧ row.value = "1" ∧
      Settled ⟨w, calls⟩ (gs.set i (g.next o reply)) jti := fun hrow =>
    let ⟨sub, jti, hkey, hvalue, hsettled⟩ := h.rows row hrow hsession
    ⟨sub, jti, hkey, hvalue, hsettled.exec hissues⟩
  rcases World.redis_served (served_of_issues hissues) with hkept | ⟨key, value, seconds, ho, hset⟩ |
    ⟨keys, -, hdel⟩
  · exact hold (hkept ▸ hrow)
  · rcases List.mem_append.mp (hset ▸ hrow) with hrow | hrow
    · exact hold (List.mem_of_mem_filter hrow)
    · obtain ⟨source, sub, jti, token, -, rfl, rfl, hsettled⟩ := h.written calls hissues ho
      obtain rfl := List.mem_singleton.mp hrow
      exact ⟨sub, jti, rfl, rfl, hsettled⟩
  · exact hold (List.mem_of_mem_filter (hdel ▸ hrow))

/-- A call that has saved its session is done with the identifier. -/
theorem Keyed.saved_exec (h : Keyed c gs) (calls : List ServiceCall)
    (hissues : Issues env c gs i r o k g x reply w) (hsaved : (g.next o reply).saved = some jti) :
    Settled ⟨w, calls⟩ (gs.set i (g.next o reply)) jti := by
  obtain ⟨key, value, seconds, rfl⟩ := saved_next hissues.may reply hsaved
  obtain ⟨source, sub, jti', token, rfl, -, -, hsettled⟩ := h.written calls hissues rfl
  cases reply with
  | ok _ =>
    obtain rfl := Option.some.inj hsaved
    exact hsettled
  | error e => cases hsaved

theorem Keyed.exec (h : Keyed c gs) (hissues : Issues env c gs i r o k g x reply w) :
    Keyed ⟨w, c.calls.set i ⟨r, k reply, false⟩⟩ (gs.set i (g.next o reply)) where
  cut := h.cut.set (fun _ _ _ _ hcut => hcut) nofun
  asked := h.asked.set (fun _ _ _ _ hasked => hasked) fun q hq =>
    h.asked i _ g hissues.call hissues.stage q (asked_next hissues.may reply hq)
  presented j g' s hg' hpresented := by
    have hs := served_of_issues hissues
    rcases Platform.getElem?_set_cases hg' with ⟨rfl, rfl⟩ | ⟨-, hg'⟩
    · rcases presented_next hissues.may reply hpresented with hold | hverifies
      · obtain ⟨exp, hjwt⟩ := h.presented j g s hissues.stage hold
        exact ⟨exp, World.jwt?_served hs hjwt⟩
      · obtain ⟨exp, hjwt⟩ := World.verifies_served hs hverifies
        exact ⟨exp, World.jwt?_served hs hjwt⟩
    · obtain ⟨exp, hjwt⟩ := h.presented j g' s hg' hpresented
      exact ⟨exp, World.jwt?_served hs hjwt⟩
  drawn j g' jti hg' hjti := by
    have hs := served_of_issues hissues
    rcases Platform.getElem?_set_cases hg' with ⟨rfl, rfl⟩ | ⟨-, hg'⟩
    · rcases pending_exec hissues hjti with hold | ⟨-, hnew⟩
      · exact World.drawn_served hs (h.drawn j g jti hissues.stage hold)
      · exact hnew
    · exact World.drawn_served hs (h.drawn j g' jti hg' hjti)
  distinct _ _ _ _ _ hg' hg'' hjti hjti' := h.distinct_exec hissues hg' hg'' hjti hjti'
  rows _ hrow hsession := h.rows_exec _ hissues hrow hsession
  minted j g' sub jti token hg' hminted := by
    have hs := served_of_issues hissues
    rcases Platform.getElem?_set_cases hg' with ⟨rfl, rfl⟩ | ⟨-, hg'⟩
    · rcases minted_next hissues.may reply hminted with hold | hmints
      · obtain ⟨exp, hjwt⟩ := h.minted j g sub jti token hissues.stage hold
        exact ⟨exp, World.jwt?_served hs hjwt⟩
      · exact World.mints_served hs hmints
    · obtain ⟨exp, hjwt⟩ := h.minted j g' sub jti token hg' hminted
      exact ⟨exp, World.jwt?_served hs hjwt⟩
  saved j g' jti hg' hsaved := by
    rcases Platform.getElem?_set_cases hg' with ⟨rfl, rfl⟩ | ⟨-, hg'⟩
    · exact h.saved_exec _ hissues hsaved
    · exact (h.saved j g' jti hg' hsaved).exec hissues

theorem Keyed.crash (h : Keyed c gs) (i : Nat) (r : Request) (o : Stmt)
    (k : Except Err o.Reply → Service Response) :
    Keyed ⟨c.world.release i, c.calls.set i ⟨r, .call o k, true⟩⟩ (gs.set i .lost) where
  cut := h.cut.set (fun _ _ _ _ hcut => hcut) fun _ => rfl
  asked := h.asked.set (fun _ _ _ _ hasked => hasked) fun _ hq => by cases hq
  presented j g' s hg' hs := by
    rcases Platform.getElem?_set_cases hg' with ⟨rfl, rfl⟩ | ⟨-, hg'⟩
    · cases hs
    · exact h.presented j g' s hg' hs
  drawn j g' jti hg' hjti := by
    rcases Platform.getElem?_set_cases hg' with ⟨rfl, rfl⟩ | ⟨-, hg'⟩
    · cases hjti
    · exact h.drawn j g' jti hg' hjti
  distinct j j' g' g'' jti hg' hg'' hjti hjti' := by
    rcases Platform.getElem?_set_cases hg' with ⟨rfl, rfl⟩ | ⟨-, hg'⟩
    · cases hjti
    · rcases Platform.getElem?_set_cases hg'' with ⟨rfl, rfl⟩ | ⟨-, hg''⟩
      · cases hjti'
      · exact h.distinct j j' g' g'' jti hg' hg'' hjti hjti'
  rows row hrow hsession :=
    let ⟨sub, jti, hkey, hvalue, hsettled⟩ := h.rows row hrow hsession
    ⟨sub, jti, hkey, hvalue, hsettled.cut i⟩
  minted j g' sub jti token hg' hminted := by
    rcases Platform.getElem?_set_cases hg' with ⟨rfl, rfl⟩ | ⟨-, hg'⟩
    · cases hminted
    · exact h.minted j g' sub jti token hg' hminted
  saved j g' jti hg' hsaved := by
    rcases Platform.getElem?_set_cases hg' with ⟨rfl, rfl⟩ | ⟨-, hg'⟩
    · cases hsaved
    · exact (h.saved j g' jti hg' hsaved).cut i

theorem Keyed.moved (h : Keyed c gs) {e : Env} (he : e.run c.world = some w) : Keyed ⟨w, c.calls⟩ gs where
  cut := h.cut
  asked := h.asked
  presented i g s hg hs :=
    let ⟨exp, hjwt⟩ := h.presented i g s hg hs
    ⟨exp, (jwt?_env he s.token).trans hjwt⟩
  drawn i g jti hg hjti := drawn_env he ▸ h.drawn i g jti hg hjti
  distinct := h.distinct
  rows row hrow hsession := by
    rcases redis_env he hrow with hrow | hforeign
    · obtain ⟨sub, jti, hkey, hvalue, hsettled⟩ := h.rows row hrow hsession
      exact ⟨sub, jti, hkey, hvalue, hsettled.moved he⟩
    · rw [hforeign] at hsession
      cases hsession
  minted i g sub jti token hg hminted :=
    let ⟨exp, hjwt⟩ := h.minted i g sub jti token hg hminted
    ⟨exp, (jwt?_env he token).trans hjwt⟩
  saved i g jti hg hsaved := (h.saved i g jti hg hsaved).moved he

end

theorem keyed_staged (ok : State → Event → Prop) :
    Platform.Staged (system env) (stages env) ok fun _ => Keyed where
  arrive _ _ _ r hlen h _ := h.arrive hlen r
  exec _ _ _ _ _ _ _ _ _ _ _ h _ hissues := h.exec hissues
  crash _ _ _ i r o k _ _ h _ _ _ := h.crash i r o k
  env _ _ _ _ _ _ h _ he := h.moved he

/-- A token stays what it was signed for. -/
theorem jwt?_of_run {ok : State → Event → Prop} {c₀ c : State} {tr : Trace} (hrun : RunFrom env c₀ ok tr c)
    {token : String} {jwt : Jwt} (h : c₀.world.jwt? token = some jwt) : c.world.jwt? token = some jwt := by
  refine hrun.invariant (I := fun c => c.world.jwt? token = some jwt) h fun c l c' hc _ hstep => ?_
  cases l with
  | arrive r =>
    obtain rfl := Option.some.inj hstep
    exact hc
  | exec i x =>
    obtain ⟨r, o, k, reply, w, -, hexec, rfl⟩ := (system env).step_exec hstep
    exact World.jwt?_served (.of_exec hexec) hc
  | crash i =>
    obtain ⟨r, o, k, -, rfl⟩ := (system env).step_crash hstep
    exact hc
  | env e =>
    obtain ⟨w, hw, rfl⟩ := (system env).step_env hstep
    exact (jwt?_env hw token).trans hc

end FlashWallet.Auth
