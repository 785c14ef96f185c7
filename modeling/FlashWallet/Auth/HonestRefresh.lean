import FlashWallet.Proof.AuthCalls
import FlashWallet.Proof.AuthRuns

/-!
# What a refresh that fails leaves behind

A refresh deletes the session of its token and then looks its user up, has two tokens signed and stores the
new session. Where one of these fails, the old session is gone and there is no new one: the client, who
has been told of an error, comes back with the same token and is taken for a thief.
-/

set_option autoImplicit false

namespace FlashWallet.Auth

open Lib

variable {env : Settings}

/-- The token is genuine and has not expired, its session is there, and so is its user. -/
structure Honest (w : World) (token : String) (p : RefreshTokenPayload) : Prop where
  genuine : ∃ exp, w.Signed token p exp ∧ w.now < exp
  live : AuthService.truthy (w.redisGet p.key) = true
  user : ∃ user ∈ w.users, user.id = p.sub

/-- Call after call: `request` comes in, and is answered `r` when it has taken all the steps, the outside deciding
as `xs` says. -/
structure Alone (env : Settings) (c : State) (request : Request) (xs : List Choice) (r : Except Err Response)
    (c' : State) : Prop where
  executes : execute (system env).step ((system env).arrive c request) (xs.map (.exec c.calls.length)) = some c'
  answers : c'.calls[c.calls.length]?.bind Call.result? = some r

/-- Every session is as it was, and to come again with the same token, when nothing fails and the settings are in
order, is to be answered, and to get a pair. -/
def Unburnt (c c' : State) (token : String) : Prop :=
  c'.world.redis = c.world.redis ∧
    ∀ env' seconds, Timed env' seconds →
      (∀ jti, jti ∉ c'.world.drawn →
        ∃ xs r c'', (∀ x ∈ xs, succeeds x) ∧ Alone env' c' (.refresh token) xs r c'') ∧
      ∀ xs r c'', (∀ x ∈ xs, succeeds x) → Alone env' c' (.refresh token) xs r c'' → ∃ t, r = .ok (.tokens t)

theorem Alone.feed {c c' : State} {request : Request} {xs : List Choice} {r : Except Err Response}
    (h : Alone env c request xs r c') :
    (request.handler env).feed (World.exec env.ms c.calls.length) xs c.world = some (r, c'.world) := by
  have hlast : ((system env).arrive c request).calls[c.calls.length]? =
      some ⟨request, request.handler env, false⟩ := List.getElem?_concat_length
  obtain ⟨w', hfeed, heq⟩ := Platform.execute_feed (P := system env) hlast h.executes h.answers
  rw [heq]
  exact hfeed

/-- Statements that leave Redis alone. -/
def Stmt.sparesRedis : Stmt → Bool
  | .redisSet .. | .redisDel _ => false
  | _ => true

namespace AuthService

variable {i : Nat} {allowed : Choice → Prop} {w w' : World} {e : Err}

theorem redis_kept {o : Stmt} {x : Choice} {r : Except Err o.Reply} (ho : o.sparesRedis = true)
    (hexec : World.exec env.ms i o x w = some (r, w')) :
    w'.redis = w.redis := by
  rcases World.redis_served (.of_exec hexec) with h | ⟨_, _, _, rfl, _⟩ | ⟨_, rfl, _⟩
  · exact h
  · cases ho
  · cases ho

/-- A pair that is not issued is not stored. -/
theorem issueTokenPair_error {sub : Uuid} {role : Role}
    (h : (issueTokenPair env sub role).Finishes (World.exec env.ms i) allowed Eq w (.error e) w') :
    w'.redis = w.redis := by
  obtain ⟨_, _, _, w₁, rfl, -, hexec, ⟨access, rfl, h⟩ | ⟨_, rfl, _, rfl⟩⟩ := h.of_issue
  rotate_left
  · exact redis_kept rfl hexec
  have h₁ := redis_kept rfl hexec
  obtain ⟨_, _, _, w₂, rfl, -, hexec, ⟨jti, rfl, h⟩ | ⟨_, rfl, _, rfl⟩⟩ := h.of_issue
  rotate_left
  · exact (redis_kept rfl hexec).trans h₁
  have h₂ := (redis_kept rfl hexec).trans h₁
  obtain ⟨_, _, _, w₃, rfl, -, hexec, ⟨token, rfl, h⟩ | ⟨_, rfl, _, rfl⟩⟩ := h.of_issue
  rotate_left
  · exact (redis_kept rfl hexec).trans h₂
  have h₃ := (redis_kept rfl hexec).trans h₂
  cases hreads : ttlToSeconds env.refreshTtl with
  | error err =>
    simp only [hreads] at h
    cases h with
    | fail _ drift => exact drift ▸ h₃
  | ok seconds =>
    simp only [hreads] at h
    obtain ⟨_, _, _, w₄, rfl, -, hexec, ⟨_, rfl, h⟩ | ⟨_, rfl, _, rfl⟩⟩ := h.of_issue
    · cases h
    · have hs := World.Served.of_exec hexec
      cases hs with
      | failed => exact h₃
      | refused => exact h₃

/-- Behind the deletion nothing is stored by a refresh that fails. -/
theorem rotated_error {p : RefreshTokenPayload}
    (h : (((issue (.userFindById p.sub)).bind fun
      | none => throw (.unauthorized "User no longer exists")
      | some user => issueTokenPair env user.id user.role) : Service AuthTokens).Finishes
      (World.exec env.ms i) allowed Eq w (.error e) w') : w'.redis = w.redis := by
  obtain ⟨_, _, _, w₁, rfl, -, hexec, ⟨found, rfl, h⟩ | ⟨_, rfl, _, rfl⟩⟩ := h.of_issue
  · have h₁ := redis_kept rfl hexec
    cases found with
    | none =>
      cases h with
      | fail _ drift => exact drift ▸ h₁
    | some user => exact (issueTokenPair_error h).trans h₁
  · exact redis_kept rfl hexec

end AuthService

/-- A token is found genuine as long as it is, whatever the outside does. -/
theorem Honest.verifies {w : World} {token : String} {p : RefreshTokenPayload} (h : Honest w token p) {i : Nat}
    {x : Choice} {reply : Except Err RefreshTokenPayload} {w' : World}
    (hexec : World.exec env.ms i (.verifyRefresh token false) x w = some (reply, w')) : reply = .ok p ∧ w' = w := by
  obtain ⟨exp, hsigned, hnow⟩ := h.genuine
  have hs := World.Served.of_exec hexec
  cases hs with
  | read _ _ answer => cases answer
  | failed _ remote => cases remote
  | verified _ _ p' exp' genuine unexpired =>
    obtain ⟨rfl, -⟩ := hsigned.inj genuine
    exact ⟨rfl, rfl⟩
  | refused _ e reason => exact absurd (reason.2 p exp hsigned).2 (Nat.not_le.mpr hnow)

/-- A token that is honest is refreshed, where nothing fails. -/
theorem Honest.refreshed {c c' : State} {token : String} {p : RefreshTokenPayload} {seconds : Nat} {xs : List Choice}
    {r : Except Err Response} (h : Honest c.world token p) (htimed : Timed env seconds)
    (hxs : ∀ x ∈ xs, succeeds x) (hrun : Alone env c (.refresh token) xs r c') : ∃ t, r = .ok (.tokens t) := by
  have hdrifts : ∀ w w' : World, w = w' → Drifts w w' := fun w w' hw => hw ▸ .refl w
  obtain ⟨r₁, w₁, hfinishes, rfl, rfl⟩ := finishes_map (fun _ => rfl) (Prog.Finishes.of_feed hrun.feed hxs)
  obtain ⟨exp, hsigned, hnow⟩ := h.genuine
  have hrefreshes := AuthService.refresh_finishes htimed hdrifts (fun _ => rfl) (fun _ _ _ => Eq.trans)
    (fun p' exp' hsigned' => (hsigned.inj hsigned').1 ▸ h.user) hfinishes
  cases hrefreshes with
  | rejected before bad after =>
    cases before
    exact absurd (bad p exp hsigned) (Nat.not_le.mpr hnow)
  | reused p' exp' before genuine unexpired looks gone lists deletes after =>
    cases before
    cases looks
    obtain ⟨rfl, -⟩ := hsigned.inj genuine
    exact absurd (h.live.symm.trans gone) nofun
  | rotated p' exp' t s before genuine unexpired looks found deletes after text => exact ⟨t, rfl⟩

/-- Where nothing has happened, nothing is lost. -/
theorem Honest.unburnt {c c' : State} {token : String} {p : RefreshTokenPayload} (h : Honest c.world token p)
    (hworld : c'.world = c.world) : Unburnt c c' token := by
  have h' : Honest c'.world token p := hworld ▸ h
  refine ⟨by rw [hworld], fun env' seconds htimed => ⟨fun jti hjti => ?_, ?_⟩⟩
  · obtain ⟨xs, r, c'', hxs, hexecutes, hanswer⟩ := AuthService.refresh_executes htimed c' token hjti
    exact ⟨xs, r, c'', hxs, hexecutes, hanswer⟩
  · exact fun xs r c'' hxs hrun => h'.refreshed htimed hxs hrun

/-- What is found in Redis is gone once it is deleted. -/
theorem redisDel_ne {w : World} {key : String} (h : AuthService.truthy (w.redisGet key) = true) :
    (w.redisDel [key]).redis ≠ w.redis := by
  intro hsame
  cases hfind : w.redis.find? (·.key = key) with
  | none => simp [World.redisGet, hfind, AuthService.truthy] at h
  | some row =>
    have hrow : row ∈ (w.redisDel [key]).redis := hsame ▸ List.mem_of_find?_eq_some hfind
    have hkey : row.key = key := by simpa using List.find?_some hfind
    simp [World.redisDel, hkey] at hrow

theorem redisGet_exec {i : Nat} {x : Choice} {key : String} {w w' : World} {reply : Except Err (Option String)}
    (h : World.exec env.ms i (.redisGet key) x w = some (reply, w')) :
    w' = w ∧ (x = .fault ∧ reply = .error .unavailable ∨ x ≠ .fault ∧ reply = .ok (w.redisGet key)) := by
  cases x with
  | ok =>
    cases h
    exact ⟨rfl, Or.inr ⟨nofun, rfl⟩⟩
  | fault =>
    cases h
    exact ⟨rfl, Or.inl ⟨rfl, rfl⟩⟩
  | fresh id =>
    change (if id ∈ w.drawn then none else none) = _ at h
    split at h <;> cases h
  | text s => cases h
  | verdict b => cases h

theorem redisDel_exec {i : Nat} {x : Choice} {keys : List String} {w w' : World} {reply : Except Err Nat}
    (h : World.exec env.ms i (.redisDel keys) x w = some (reply, w')) :
    x = .fault ∧ reply = .error .unavailable ∧ w' = w ∨ x ≠ .fault ∧ (∃ n, reply = .ok n) ∧ w' = w.redisDel keys := by
  cases x with
  | ok =>
    cases h
    exact Or.inr ⟨nofun, ⟨_, rfl⟩, rfl⟩
  | fault =>
    cases h
    exact Or.inl ⟨rfl, rfl, rfl⟩
  | fresh id =>
    change (if id ∈ w.drawn then none else none) = _ at h
    split at h <;> cases h
  | text s => cases h
  | verdict b => cases h

/-- **A refresh that fails burns its session as soon as it has got past the deletion.** Only where it is
the look at the session or the deletion itself that fails is everything as it was. -/
theorem failed_refresh {c c' : State} {token : String} {p : RefreshTokenPayload} {xs : List Choice} {e : Err}
    (h : Honest c.world token p) (hrun : Alone env c (.refresh token) xs (.error e) c') :
    Unburnt c c' token ↔ xs[1]? = some .fault ∨ xs[2]? = some .fault := by
  obtain ⟨x₀, xs₁, reply, w₁, rfl, hexec, hfeed⟩ := Prog.feed_call hrun.feed
  obtain ⟨rfl, rfl⟩ := h.verifies hexec
  obtain ⟨x₁, xs₂, reply, w₁, rfl, hexec, hfeed⟩ := Prog.feed_call hfeed
  obtain ⟨rfl, ⟨rfl, rfl⟩ | ⟨hx₁, rfl⟩⟩ := redisGet_exec hexec
  · obtain ⟨-, hworld, -⟩ := Prog.feed_fail hfeed
    exact iff_of_true (h.unburnt hworld) (Or.inl rfl)
  have hfeed : (Response.tokens <$> if AuthService.truthy (c.world.redisGet p.key) then
      AuthService.rotate env p else do
        AuthService.revokeAllSessions p.sub
        throw AuthService.reuseDetected).feed (World.exec env.ms c.calls.length) xs₂ c.world =
      some (.error e, c'.world) := hfeed
  rw [if_pos h.live] at hfeed
  obtain ⟨x₂, xs₃, reply, w₂, rfl, hexec, hfeed⟩ := Prog.feed_call hfeed
  obtain ⟨rfl, rfl, rfl⟩ | ⟨hx₂, ⟨n, rfl⟩, rfl⟩ := redisDel_exec hexec
  · obtain ⟨-, hworld, -⟩ := Prog.feed_fail hfeed
    exact iff_of_true (h.unburnt hworld) (Or.inr rfl)
  -- the session has been deleted, and whatever fails now comes too late
  refine iff_of_false (fun hunburnt => redisDel_ne h.live ?_) (by simp [hx₁, hx₂])
  have hany : ∀ x ∈ xs₃, (fun _ : Choice => True) x := fun _ _ => trivial
  obtain ⟨_, w₃, _, h'⟩ | ⟨e', hr, herror⟩ := (Prog.Finishes.of_feed hfeed hany).of_bind fun _ => rfl
  · cases h'
  · exact (AuthService.rotated_error herror).symm.trans hunburnt.1

namespace Trial

theorem alone_thereafter {c : State} {request : Request} {xs : List Choice} {r : Except Err Response}
    (h : (execute (system settings).step ((system settings).arrive c request)
      (xs.map (.exec c.calls.length))).isSome = true)
    (hr : (thereafter c request xs).calls[c.calls.length]?.bind Call.result? = some r) :
    Alone settings c request xs r (thereafter c request xs) :=
  ⟨execute_thereafter h, hr⟩

/-- Alice refreshes, and Redis is not there when the new session is to be stored. -/
def outage : List Choice :=
  [.ok, .ok, .ok, .ok, .text "access for second", .fresh jti₂, .text "second", .fault]

/-- Redis is not there when the session is to be deleted. -/
def earlyOutage : List Choice := [.ok, .ok, .fault]

def afterOutage : State := thereafter (stateAfter settings register) (.refresh "first") outage

set_option maxRecDepth 8000 in
theorem honest : Honest (stateAfter settings register).world "first" ⟨alice, jti₁⟩ where
  genuine := ⟨604800, rfl, by decide⟩
  live := by decide
  user := by decide

end Trial

open Trial in
set_option maxRecDepth 8000 in
/-- The deletion fails, and Alice can try again. -/
theorem failed_refresh_early : Unburnt (stateAfter settings register)
    (thereafter (stateAfter settings register) (.refresh "first") earlyOutage) "first" :=
  (failed_refresh honest (alone_thereafter (r := .error .unavailable) (by decide) rfl)).mpr (Or.inr rfl)

open Trial in
set_option maxRecDepth 8000 in
/-- The new session cannot be stored, and Alice is taken for a thief when she comes back. -/
theorem not_unburnt_outage :
    Honest (stateAfter settings register).world "first" ⟨alice, jti₁⟩ ∧
      Alone settings (stateAfter settings register) (.refresh "first") outage (.error .unavailable) afterOutage ∧
      ¬Unburnt (stateAfter settings register) afterOutage "first" := by
  refine ⟨honest, alone_thereafter (by decide) rfl, fun h => ?_⟩
  have hretry : Alone settings afterOutage (.refresh "first") [.ok, .ok, .ok] (.error AuthService.reuseDetected)
      (thereafter afterOutage (.refresh "first") [.ok, .ok, .ok]) := alone_thereafter (by decide) rfl
  have htimed : Timed settings 604800 := ⟨rfl, by decide, rfl, rfl⟩
  obtain ⟨t, ht⟩ := (h.2 settings 604800 htimed).2 _ _ _ (by simp [succeeds]) hretry
  cases ht

end FlashWallet.Auth
