import FlashWallet.Auth.TimesToLive
import FlashWallet.Model.WalletService

/-!
# The session store and its history

What Redis holds is told by what has been asked and answered. Where calls come one after another and nothing
fails, a refresh token is good exactly as long as it has not expired and nothing in the history since
it was issued has put an end to it.
-/

set_option autoImplicit false

namespace FlashWallet.Auth

open Lib

variable {env : Settings}

/-! ## Histories -/

/-- Calls come one after another and nothing fails; time passes and the rest of the application works whenever
it likes. -/
def sequential : State → Event → Prop := Platform.Serial succeeds passes

/-- `<positive integer><s|m|h|d>`, which makes `seconds` seconds. -/
def IsTtl (ttl : String) (seconds : Nat) : Prop :=
  ∃ digits unit multiplier, ttl = String.ofList (digits ++ [unit]) ∧ (∀ c ∈ digits, c.isDigit = true) ∧
    0 < parseInt digits ∧ multiplier? [unit] = some multiplier ∧ seconds = parseInt digits * multiplier

/-- Call `j` has returned `token`, which has been signed for `p` and expires at `exp`. -/
structure Issued (c : State) (j : Nat) (token : String) (p : RefreshTokenPayload) (exp : Nat) : Prop where
  returned : ∃ call access, c.calls[j]? = some call ∧ call.result? = some (.ok (.tokens ⟨access, token⟩))
  signed : c.world.Signed token p exp

/-- A call that is asked `request` and answered `r` puts an end to `token` of user `sub`: a refresh or a
logout with this token, or a refresh with any of the user's that has detected reuse. -/
def Ends (w : World) (token : String) (sub : Uuid) (request : Request) (r : Except Err Response) : Prop :=
  (request = .refresh token ∧ ∃ t, r = .ok (.tokens t)) ∨ request = .logout token ∨
    ∃ token' p exp, request = .refresh token' ∧ r = .error AuthService.reuseDetected ∧
      w.Signed token' p exp ∧ p.sub = sub

/-- A call after call `j` has put an end to `token` of user `sub`. -/
def Spent (c : State) (j : Nat) (token : String) (sub : Uuid) : Prop :=
  ∃ k call r, j < k ∧ c.calls[k]? = some call ∧ call.result? = some r ∧ Ends c.world token sub call.request r

/-! ## Times to live -/

theorem ttlToSeconds_of_isTtl {ttl : String} {seconds : Nat} (h : IsTtl ttl seconds) :
    ttlToSeconds ttl = .ok seconds ∧ 0 < seconds := by
  obtain ⟨digits, unit, multiplier, rfl, hdigits, hpositive, hmultiplier, rfl⟩ := h
  obtain ⟨htake, hdrop, htrim⟩ := digits_and_unit hdigits hmultiplier
  have hnonempty : digits ≠ [] := by
    rintro rfl
    exact absurd hpositive (by decide)
  refine ⟨?_, Nat.mul_pos hpositive (unit_of_multiplier hmultiplier).1⟩
  simp only [ttlToSeconds, String.toList_ofList, htrim, htake, hdrop, hmultiplier, if_neg hnonempty]

/-! ## What a call does to the history -/

/-- The call that is asked `request` in `w` and answered `r` in `w'` deletes the sessions it puts an end
to, and signs what it returns. -/
structure Effect (gone : String → Prop) (new : Option Minted) (w : World) (request : Request)
    (r : Except Err Response) (w' : World) : Prop where
  changes : Changes gone new w w'
  ends : ∀ {token p exp}, w.Signed token p exp → (gone p.key ↔ Ends w token p.sub request r)
  returns : ∀ {access token}, r = .ok (.tokens ⟨access, token⟩) → ∃ s, new = some s ∧ s.text = token
  returned : ∀ {s}, new = some s → ∃ access, r = .ok (.tokens ⟨access, s.text⟩)
  detected : ∀ {token}, request = .refresh token → r = .error AuthService.reuseDetected →
    ∃ p exp, w.Signed token p exp

namespace Effect

variable {w w' : World} {request : Request} {r : Except Err Response}

/-- The call signs nothing and ends nothing. -/
theorem quiet (h : Drifts w w') (htokens : ∀ t, r ≠ .ok (.tokens t))
    (hdetected : ∀ token, request = .refresh token → r ≠ .error AuthService.reuseDetected)
    (hlogout : ∀ token p exp, w.Signed token p exp → request ≠ .logout token) :
    Effect noKey none w request r w' where
  changes := h
  ends hsigned := by
    refine ⟨False.elim, ?_⟩
    rintro (⟨-, t, hr⟩ | hrequest | ⟨_, _, _, hrequest, hr, -⟩)
    · exact htokens t hr
    · exact hlogout _ _ _ hsigned hrequest
    · exact hdetected _ hrequest hr
  returns hr := absurd hr (htokens _)
  returned hs := nomatch hs
  detected hrequest hr := absurd hr (hdetected _ hrequest)

/-- The call signs a token, and may have used one. -/
theorem granted {gone : String → Prop} {s : Minted} {t : AuthTokens} (h : Changes gone (some s) w w')
    (htext : t.refreshToken = s.text) (hlogout : ∀ token, request ≠ .logout token)
    (hgone : ∀ {token p exp}, w.Signed token p exp → (gone p.key ↔ request = .refresh token)) :
    Effect gone (some s) w request (.ok (.tokens t)) w' where
  changes := h
  ends hsigned := by
    refine (hgone hsigned).trans ⟨fun hrequest => Or.inl ⟨hrequest, t, rfl⟩, ?_⟩
    rintro (⟨hrequest, -⟩ | hrequest | ⟨_, _, _, -, hr, -⟩)
    · exact hrequest
    · exact absurd hrequest (hlogout _)
    · cases hr
  returns hr := by
    cases hr
    exact ⟨s, rfl, htext.symm⟩
  returned hs := by
    cases hs
    exact ⟨t.accessToken, by rw [← htext]⟩
  detected _ hr := nomatch hr

/-- The call finds its token used. -/
theorem reused {token : String} {p : RefreshTokenPayload} {exp : Nat} (hsigned : w.Signed token p exp)
    (h : Changes (fun key => Glob.isMatch (refreshPattern p.sub) key = true) none w w') :
    Effect (fun key => Glob.isMatch (refreshPattern p.sub) key = true) none w (.refresh token)
      (.error AuthService.reuseDetected) w' where
  changes := h
  ends {token' p' exp'} hsigned' := by
    rw [RefreshTokenPayload.key, isMatch_refreshKey]
    constructor
    · exact fun hsub => Or.inr (Or.inr ⟨token, p, exp, rfl, rfl, hsigned, hsub.symm⟩)
    · rintro (⟨-, t, hr⟩ | hrequest | ⟨_, p'', _, hrequest, -, hsigned'', hsub⟩)
      · cases hr
      · cases hrequest
      · cases hrequest
        obtain ⟨rfl, -⟩ := hsigned.inj hsigned''
        exact hsub.symm
  returns hr := nomatch hr
  returned hs := nomatch hs
  detected hrequest _ := by
    cases hrequest
    exact ⟨p, exp, hsigned⟩

/-- The call gives its session up. -/
theorem left {token : String} {p : RefreshTokenPayload} {exp : Nat} (hsigned : w.Signed token p exp)
    (honce : ∀ {token' p' exp'}, w.Signed token' p' exp' → p'.jti = p.jti → token' = token)
    (h : Changes (· = p.key) none w w') :
    Effect (· = p.key) none w (.logout token) (.ok .loggedOut) w' where
  changes := h
  ends {token' p' exp'} hsigned' := by
    constructor
    · intro hkey
      obtain rfl := honce hsigned' (refreshKey_inj hkey).2
      exact Or.inr (Or.inl rfl)
    · rintro (⟨hrequest, -⟩ | hrequest | ⟨_, _, _, hrequest, -⟩)
      · cases hrequest
      · cases hrequest
        obtain ⟨rfl, -⟩ := hsigned.inj hsigned'
        rfl
      · cases hrequest
  returns hr := nomatch hr
  returned hs := nomatch hs
  detected hrequest _ := nomatch hrequest

/-- Time passes afterwards. -/
theorem afterwards {gone : String → Prop} {new : Option Minted} {w₁ : World} (h : Effect gone new w request r w₁)
    (h' : Drifts w₁ w') : Effect gone new w request r w' :=
  { h with changes := h.changes.afterwards h' }

end Effect

/-- What becomes of the world between two statements of a call. -/
structure Rests (w w' : World) : Prop where
  drifts : Drifts w w'
  opened : w'.newUsers = w.newUsers

theorem Rests.refl (w : World) : Rests w w := ⟨.refl w, rfl⟩

theorem Rests.trans (w w₁ w₂ : World) (h : Rests w w₁) (h' : Rests w₁ w₂) : Rests w w₂ :=
  ⟨h.drifts.afterwards h'.drifts, h'.opened.trans h.opened⟩

theorem Rests.of_env {e : Env} {w w' : World} (hmoves : passes e) (he : e.run w = some w') : Rests w w' := by
  refine ⟨.of_env hmoves he, ?_⟩
  cases e with
  | foreign row =>
    simp only [Env.run] at he
    split at he <;> cases he
    rfl
  | _ => cases he; rfl

section

variable {D : World → World → Prop} {i seconds : Nat} {w w' : World}

/-- A refresh, as a change. -/
theorem Effect.of_refreshes (hD : ∀ w w', D w w' → Drifts w w') {token : String} {r : Except Err AuthTokens}
    (honce : ∀ {token token' p p' exp exp'}, w.Signed token p exp → w.Signed token' p' exp' → p'.jti = p.jti →
      token' = token) (h : AuthService.Refreshes D token w w' r) :
    ∃ gone new, Effect gone new w (.refresh token) (r.map .tokens) w' := by
  cases h with
  | rejected before bad after =>
    refine ⟨noKey, none, .quiet ((hD _ _ before).afterwards (hD _ _ after)) nofun ?_ nofun⟩
    exact fun _ _ hr => absurd (Except.error.inj hr) (by decide)
  | @reused w₁ w₂ w₃ w₄ p exp before genuine unexpired looks gone lists deletes after =>
    have hsigned : w.Signed token p exp := ((hD _ _ before).genuine genuine).resolve_right nofun
    have h₃ : Drifts w w₃ := ((hD _ _ before).afterwards (hD _ _ looks)).afterwards (hD _ _ lists)
    have h₄ : Drifts w₃ w₄ := hD _ _ deletes
    refine ⟨_, none, .reused hsigned (.afterwards (.since ?_ h₃) (hD _ _ after))⟩
    have hdeleted := Changes.of_delete w₄ (w₃.redisKeys (refreshPattern p.sub))
    refine ⟨h₄.later, h₄.users, h₄.drawn, h₄.signed, h₄.genuine, ?_, ?_, nofun⟩
    · intro row hrow hsession hgone _ hlasts
      refine hdeleted.kept row (h₄.kept row hrow hsession id nofun hlasts) hsession (fun hlisted => ?_) nofun hlasts
      exact hgone (List.of_mem_filter hlisted)
    · intro row hrow hsession
      obtain ⟨hrow₄, hunlisted⟩ := hdeleted.listed hrow hsession
      obtain ⟨hrow₃, -⟩ := h₄.listed hrow₄ hsession
      refine Or.inl ⟨hrow₃, fun hmatch => hunlisted ?_⟩
      exact List.mem_filter.mpr ⟨List.mem_map_of_mem hrow₃, hmatch⟩
  | @rotated w₁ w₂ w₃ p exp t s before genuine unexpired looks found deletes after text =>
    have hsigned : w.Signed token p exp := ((hD _ _ before).genuine genuine).resolve_right nofun
    have h₃ : Drifts w w₃ := ((hD _ _ before).afterwards (hD _ _ looks)).afterwards (hD _ _ deletes)
    refine ⟨_, _, .granted (((Changes.of_delete w₃ [p.key]).trans after).since h₃) text nofun ?_⟩
    intro token' p' exp' hsigned'
    simp only [List.mem_singleton, noKey, or_false]
    constructor
    · intro hkey
      rw [honce hsigned hsigned' (refreshKey_inj hkey).2]
    · intro hrequest
      cases hrequest
      rw [(hsigned.inj hsigned').1]

/-- **What a whole call does.** -/
theorem Effect.of_finishes (htimed : Timed env seconds) (hD : ∀ w w', D w w' → Rests w w') (hrefl : ∀ w, D w w)
    (htrans : ∀ w w₁ w₂, D w w₁ → D w₁ w₂ → D w w₂)
    (honce : ∀ {token token' p p' exp exp'}, w.Signed token p exp → w.Signed token' p' exp' → p'.jti = p.jti →
      token' = token)
    (huser : ∀ {token p exp}, w.Signed token p exp → ∃ user ∈ w.users, user.id = p.sub) {request : Request}
    {r : Except Err Response} (h : Finishes env i D (request.handler env) w r w') :
    ∃ gone new, Effect gone new w request r w' := by
  have hdrifts : ∀ w w', D w w' → Drifts w w' := fun w w' h => (hD w w' h).drifts
  have hopen : ∀ w w', D w w' → w'.newUsers = w.newUsers := fun w w' h => (hD w w' h).opened
  -- a call that comes with a password
  have henters : ∀ {r : Except Err AuthTokens} {w₁ : World}, (∀ token, request ≠ .refresh token) →
      (∀ token, request ≠ .logout token) →
      ((∃ t s, r = .ok t ∧ t.refreshToken = s.text ∧ Changes noKey (some s) w w₁) ∨
        ∃ e, r = .error e ∧ Drifts w w₁) → ∃ gone new, Effect gone new w request (r.map .tokens) w₁ := by
    rintro r w₁ hrefresh hlogout (⟨t, s, rfl, htext, hchanges⟩ | ⟨e, rfl, hchanges⟩)
    · exact ⟨_, _, .granted hchanges htext hlogout fun _ => ⟨False.elim, fun h => absurd h (hrefresh _)⟩⟩
    · exact ⟨_, _, .quiet hchanges nofun (fun token h => absurd h (hrefresh token)) fun token _ _ _ => hlogout token⟩
  cases request with
  | register dto =>
    obtain ⟨r₁, w₁, h₁, hdrift, rfl⟩ := finishes_map hrefl h
    obtain ⟨gone, new, heffect⟩ :=
      henters nofun nofun (AuthService.register_finishes htimed hdrifts hrefl hopen h₁)
    exact ⟨gone, new, heffect.afterwards (hdrifts _ _ hdrift)⟩
  | login dto =>
    obtain ⟨r₁, w₁, h₁, hdrift, rfl⟩ := finishes_map hrefl h
    obtain ⟨gone, new, heffect⟩ := henters nofun nofun (AuthService.login_finishes htimed hdrifts h₁)
    exact ⟨gone, new, heffect.afterwards (hdrifts _ _ hdrift)⟩
  | refresh token =>
    obtain ⟨r₁, w₁, h₁, hdrift, rfl⟩ := finishes_map hrefl h
    have hrefreshes := AuthService.refresh_finishes htimed hdrifts hrefl htrans (fun p exp => huser) h₁
    obtain ⟨gone, new, heffect⟩ := Effect.of_refreshes hdrifts honce hrefreshes
    exact ⟨gone, new, heffect.afterwards (hdrifts _ _ hdrift)⟩
  | logout token =>
    rcases Prog.Finishes.of_bind hrefl h with ⟨_, w₁, h₁, h₂⟩ | ⟨e, rfl, h₁⟩
    · obtain ⟨rfl, hdrift⟩ := Finishes.done h₂
      rcases AuthService.logout_finishes hdrifts hrefl h₁ with ⟨p, exp, hsigned, -, hchanges⟩ | ⟨-, ⟨_, hr⟩, -⟩
      · exact ⟨_, none, (Effect.left hsigned (honce hsigned) hchanges).afterwards (hdrifts _ _ hdrift)⟩
      · cases hr
    · rcases AuthService.logout_finishes hdrifts hrefl h₁ with ⟨_, _, _, hr, _⟩ | ⟨hforged, -, hchanges⟩
      · cases hr
      · refine ⟨_, _, .quiet hchanges nofun nofun fun token' p exp hsigned heq => ?_⟩
        cases heq
        exact hforged p exp hsigned

end

/-! ## The store and the history -/

/-- What is in Redis is what the history says. -/
structure Told (c : State) : Prop where
  genuine : ∀ {token p exp}, c.world.Signed token p exp → ∃ j, Issued c j token p exp
  user : ∀ {token p exp}, c.world.Signed token p exp → ∃ user ∈ c.world.users, user.id = p.sub
  drawn : ∀ {token p exp}, c.world.Signed token p exp → p.jti ∈ c.world.drawn
  once : ∀ {token token' p p' exp exp'}, c.world.Signed token p exp → c.world.Signed token' p' exp' →
    p'.jti = p.jti → token' = token
  returned : ∀ {j : Nat} {access token} {call : ServiceCall}, c.calls[j]? = some call →
    call.result? = some (.ok (.tokens ⟨access, token⟩)) → ∃ p exp, c.world.Signed token p exp
  detected : ∀ {j : Nat} {token} {call : ServiceCall}, c.calls[j]? = some call → call.request = .refresh token →
    call.result? = some (.error AuthService.reuseDetected) → ∃ p exp, c.world.Signed token p exp
  keyed : ∀ row ∈ c.world.redis, isSession row.key = true →
    ∃ p : RefreshTokenPayload, row.key = p.key ∧ p.jti ∈ c.world.drawn ∧ row.value = "1"
  live : ∀ {j token p exp}, Issued c j token p exp → c.world.now < exp → ¬Spent c j token p.sub →
    c.world.Stored p exp
  dead : ∀ {j token p exp}, Issued c j token p exp → Spent c j token p.sub →
    ∀ row ∈ c.world.redis, row.key ≠ p.key

theorem RefreshTokenPayload.key_inj {p p' : RefreshTokenPayload} (h : p.key = p'.key) : p = p' := by
  obtain ⟨hsub, hjti⟩ := refreshKey_inj h
  cases p
  cases p'
  simp_all

theorem Told.initial : Told State.initial where
  genuine h := nomatch h
  user h := nomatch h
  drawn h := nomatch h
  once h := nomatch h
  returned h := by simp [State.initial] at h
  detected h := by simp [State.initial] at h
  keyed _ h := nomatch h
  live h := nomatch h.signed
  dead h := nomatch h.signed

section

variable {c : State} {w' : World}

/-- Time passes. -/
theorem Told.drift (h : Told c) (hdrift : Drifts c.world w') : Told { c with world := w' } := by
  have hsigned : ∀ {token p exp}, w'.Signed token p exp → c.world.Signed token p exp :=
    fun hs => (hdrift.genuine hs).resolve_right nofun
  have hold : ∀ row ∈ w'.redis, isSession row.key = true → row ∈ c.world.redis :=
    fun row hrow hsession => (hdrift.listed hrow hsession).1
  have hissued : ∀ {j token p exp}, Issued { c with world := w' } j token p exp → Issued c j token p exp :=
    fun hi => ⟨hi.returned, hsigned hi.signed⟩
  have hends : ∀ {token sub request r}, Ends w' token sub request r ↔ Ends c.world token sub request r := by
    intro token sub request r
    refine or_congr_right (or_congr_right ?_)
    constructor
    · rintro ⟨token', p, exp, hrequest, hr, hs, hsub⟩
      exact ⟨token', p, exp, hrequest, hr, hsigned hs, hsub⟩
    · rintro ⟨token', p, exp, hrequest, hr, hs, hsub⟩
      exact ⟨token', p, exp, hrequest, hr, hdrift.signed hs, hsub⟩
  have hspent : ∀ {j token sub}, Spent { c with world := w' } j token sub ↔ Spent c j token sub := by
    intro j token sub
    simp only [Spent, hends]
  exact {
    genuine := fun hs => (h.genuine (hsigned hs)).imp fun j hi => ⟨hi.returned, hs⟩
    user := fun hs => (h.user (hsigned hs)).imp fun user hu => ⟨hdrift.users user hu.1, hu.2⟩
    drawn := fun hs => hdrift.drawn _ (h.drawn (hsigned hs))
    once := fun hs hs' => h.once (hsigned hs) (hsigned hs')
    returned := fun hj hr => (h.returned hj hr).imp fun p => .imp fun exp => hdrift.signed
    detected := fun hj hrequest hr => (h.detected hj hrequest hr).imp fun p => .imp fun exp => hdrift.signed
    keyed := fun row hrow hsession => (h.keyed row (hold row hrow hsession) hsession).imp
      fun p hp => ⟨hp.1, hdrift.drawn _ hp.2.1, hp.2.2⟩
    live := fun hi hnow hunspent => hdrift.stored (h.live (hissued hi)
      (lt_of_le_of_lt (World.now_mono hdrift.later) hnow) (fun hs => hunspent (hspent.mpr hs))) id nofun hnow
    dead := fun hi hs row hrow hkey => h.dead (hissued hi) (hspent.mp hs) row
      (hold row hrow (hkey ▸ isSession_refreshKey _ _)) hkey }

/-- The next call has come, and has been answered. -/
def answered (c : State) (request : Request) (r : Except Err Response) (w' : World) : State :=
  ⟨w', c.calls ++ [⟨request, .ended r, false⟩]⟩

theorem answered_cases {request : Request} {r r' : Except Err Response} {k : Nat} {call : ServiceCall}
    (hk : (answered c request r w').calls[k]? = some call) (hr : call.result? = some r') :
    k = c.calls.length ∧ call.request = request ∧ r' = r ∨ c.calls[k]? = some call := by
  rcases Platform.getElem?_concat_cases hk with ⟨rfl, rfl⟩ | hk
  · refine Or.inl ⟨rfl, rfl, Option.some.inj (hr.symm.trans ?_)⟩
    cases r <;> rfl
  · exact Or.inr hk

theorem answered_kept {request : Request} {r : Except Err Response} {k : Nat} {call : ServiceCall}
    (hk : c.calls[k]? = some call) : (answered c request r w').calls[k]? = some call :=
  (List.getElem?_append_left (List.getElem?_eq_some_iff.mp hk).1).trans hk

theorem answered_last (c : State) (request : Request) (r : Except Err Response) (w' : World) :
    ∃ call, (answered c request r w').calls[c.calls.length]? = some call ∧ call.request = request ∧
      call.result? = some r := by
  refine ⟨_, List.getElem?_concat_length, rfl, ?_⟩
  cases r <;> rfl

section

variable {gone : String → Prop} {new : Option Minted} {request : Request} {r : Except Err Response}

/-- A token that had been signed before is not signed for anything else. -/
theorem Changes.signed_before (h : Changes gone new c.world w') {token : String} {p p₀ : RefreshTokenPayload}
    {exp exp₀ : Nat} (h₀ : c.world.Signed token p₀ exp₀) (hs : w'.Signed token p exp) :
    c.world.Signed token p exp := by
  obtain ⟨rfl, rfl⟩ := (show w'.Signed token p₀ exp₀ from h.signed h₀).inj hs
  exact h₀

theorem Changes.ends_iff (h : Changes gone new c.world w') {token : String} {sub : Uuid} {request : Request}
    {r : Except Err Response} (hdetected : ∀ {token'}, request = .refresh token' →
      r = .error AuthService.reuseDetected → ∃ p exp, c.world.Signed token' p exp) :
    Ends w' token sub request r ↔ Ends c.world token sub request r := by
  refine or_congr_right (or_congr_right ⟨?_, ?_⟩)
  · rintro ⟨token', p, exp, hrequest, hr, hs, hsub⟩
    obtain ⟨p₀, exp₀, h₀⟩ := hdetected hrequest hr
    exact ⟨token', p, exp, hrequest, hr, h.signed_before h₀ hs, hsub⟩
  · rintro ⟨token', p, exp, hrequest, hr, hs, hsub⟩
    exact ⟨token', p, exp, hrequest, hr, h.signed hs, hsub⟩

/-- A token that has been issued now was issued before, or is what the call has signed. -/
theorem Told.issued_cases (h : Told c) (heffect : Effect gone new c.world request r w') {j : Nat} {token : String}
    {p : RefreshTokenPayload} {exp : Nat} (hi : Issued (answered c request r w') j token p exp) :
    Issued c j token p exp ∨ j = c.calls.length ∧ new = some ⟨token, p, exp⟩ := by
  obtain ⟨⟨call, access, hj, hr⟩, hs⟩ := hi
  rcases answered_cases hj hr with ⟨rfl, -, heq⟩ | hj
  · obtain ⟨s, hnew, rfl⟩ := heffect.returns heq.symm
    obtain ⟨rfl, rfl⟩ := (heffect.changes.fresh s hnew).2.2.2.1.inj hs
    exact Or.inr ⟨rfl, hnew⟩
  · obtain ⟨p₀, exp₀, h₀⟩ := h.returned hj hr
    exact Or.inl ⟨⟨call, access, hj, hr⟩, heffect.changes.signed_before h₀ hs⟩

/-- What the call deletes is what it puts an end to. -/
theorem Told.spent_iff (h : Told c) (heffect : Effect gone new c.world request r w') {j : Nat} {token : String}
    {p : RefreshTokenPayload} {exp : Nat} (hi : Issued c j token p exp) :
    Spent (answered c request r w') j token p.sub ↔ Spent c j token p.sub ∨ gone p.key := by
  have hends : Ends w' token p.sub request r ↔ gone p.key :=
    (heffect.changes.ends_iff heffect.detected).trans (heffect.ends hi.signed).symm
  have hbefore : ∀ {k : Nat} {call : ServiceCall} {r'}, c.calls[k]? = some call → call.result? = some r' →
      (Ends w' token p.sub call.request r' ↔ Ends c.world token p.sub call.request r') :=
    fun hk hr => heffect.changes.ends_iff fun hrequest hr' => h.detected hk hrequest (hr' ▸ hr)
  constructor
  · rintro ⟨k, call, r', hjk, hk, hr, he⟩
    rcases answered_cases hk hr with ⟨rfl, rfl, rfl⟩ | hk
    · exact Or.inr (hends.mp he)
    · exact Or.inl ⟨k, call, r', hjk, hk, hr, (hbefore hk hr).mp he⟩
  · rintro (⟨k, call, r', hjk, hk, hr, he⟩ | hgone)
    · exact ⟨k, call, r', hjk, answered_kept hk, hr, (hbefore hk hr).mpr he⟩
    · obtain ⟨_, _, hj, -⟩ := hi.returned
      obtain ⟨call, hlast, rfl, hr⟩ := answered_last c request r w'
      exact ⟨c.calls.length, call, r, (List.getElem?_eq_some_iff.mp hj).1, hlast, hr, hends.mpr hgone⟩

/-- A token is not spent by the call that returns it. -/
theorem not_spent_last (c : State) (request : Request) (r : Except Err Response) (w' : World) (token : String)
    (sub : Uuid) : ¬Spent (answered c request r w') c.calls.length token sub := by
  rintro ⟨k, call, r', hlt, hk, -⟩
  have := (List.getElem?_eq_some_iff.mp hk).1
  simp only [answered, List.length_append, List.length_singleton] at this
  omega

/-- A call that is made after the others keeps the store what its history says. -/
theorem Told.call (h : Told c) (heffect : Effect gone new c.world request r w') :
    Told (answered c request r w') := by
  have hchanges := heffect.changes
  have hjti : ∀ {token p exp s}, c.world.Signed token p exp → new = some s → p.jti ≠ s.payload.jti :=
    fun hs hnew heq => (hchanges.fresh _ hnew).2.1 (heq ▸ h.drawn hs)
  have hminted : ∀ {token p exp}, new = some ⟨token, p, exp⟩ →
      Issued (answered c request r w') c.calls.length token p exp := by
    intro token p exp hnew
    obtain ⟨access, rfl⟩ := heffect.returned hnew
    obtain ⟨call, hlast, -, hr⟩ := answered_last c request (.ok (.tokens ⟨access, token⟩)) w'
    exact ⟨⟨call, access, hlast, hr⟩, (hchanges.fresh _ hnew).2.2.2.1⟩
  refine {
    genuine := ?genuine, user := ?user, drawn := ?drawn, once := ?once, returned := ?returned,
    detected := ?detected, keyed := ?keyed, live := ?live, dead := ?dead }
  case genuine =>
    intro token p exp hs
    rcases hchanges.genuine hs with hs₀ | hnew
    · obtain ⟨j, ⟨call, access, hj, hr⟩, -⟩ := h.genuine hs₀
      exact ⟨j, ⟨call, access, answered_kept hj, hr⟩, hs⟩
    · exact ⟨_, hminted hnew⟩
  case user =>
    intro token p exp hs
    rcases hchanges.genuine hs with hs | hnew
    · exact (h.user hs).imp fun user hu => ⟨hchanges.users user hu.1, hu.2⟩
    · exact (hchanges.fresh _ hnew).2.2.2.2.1
  case drawn =>
    intro token p exp hs
    rcases hchanges.genuine hs with hs | hnew
    · exact hchanges.drawn _ (h.drawn hs)
    · exact (hchanges.fresh _ hnew).2.2.1
  case once =>
    intro token token' p p' exp exp' hs hs' heq
    rcases hchanges.genuine hs with hs | hnew <;> rcases hchanges.genuine hs' with hs' | hnew'
    · exact h.once hs hs' heq
    · exact absurd heq.symm (hjti hs hnew')
    · exact absurd heq (hjti hs' hnew)
    · cases hnew.symm.trans hnew'
      rfl
  case returned =>
    intro j access token call hj hr
    rcases answered_cases hj hr with ⟨rfl, -, heq⟩ | hj
    · obtain ⟨s, hnew, rfl⟩ := heffect.returns heq.symm
      exact ⟨_, _, (hchanges.fresh s hnew).2.2.2.1⟩
    · exact (h.returned hj hr).imp fun p => .imp fun exp => hchanges.signed
  case detected =>
    intro j token call hj hrequest hr
    rcases answered_cases hj hr with ⟨rfl, rfl, heq⟩ | hj
    · exact (heffect.detected hrequest heq.symm).imp fun p => .imp fun exp => hchanges.signed
    · exact (h.detected hj hrequest hr).imp fun p => .imp fun exp => hchanges.signed
  case keyed =>
    intro row hrow hsession
    rcases hchanges.old row hrow hsession with ⟨hrow, -⟩ | ⟨s, hnew, hkey, hvalue⟩
    · exact (h.keyed row hrow hsession).imp fun p hp => ⟨hp.1, hchanges.drawn _ hp.2.1, hp.2.2⟩
    · exact ⟨s.payload, hkey, (hchanges.fresh s hnew).2.2.1, hvalue⟩
  case live =>
    intro j token p exp hi hnow hunspent
    rcases h.issued_cases heffect hi with hi | ⟨rfl, hnew⟩
    -- an older token: its key was there before, and this call has neither spent nor overwritten it
    · have hunspent := fun hs => hunspent ((h.spent_iff heffect hi).mpr hs)
      have hstored := h.live hi (lt_of_le_of_lt (World.now_mono hchanges.later) hnow)
        fun hs => hunspent (Or.inl hs)
      refine hchanges.stored hstored (fun hgone => hunspent (Or.inr hgone)) (fun s hnew hkey => ?_) hnow
      exact hjti hi.signed hnew (congrArg _ (RefreshTokenPayload.key_inj hkey))
    · exact (hchanges.fresh _ hnew).2.2.2.2.2 hnow
  case dead =>
    intro j token p exp hi hspent row hrow hkey
    rcases h.issued_cases heffect hi with hi | ⟨rfl, -⟩
    · have hsession : isSession row.key = true := hkey ▸ isSession_refreshKey p.sub p.jti
      rcases hchanges.old row hrow hsession with ⟨hrow, hkept⟩ | ⟨s, hnew, hkey', -⟩
      -- the key can only come back with a new token, whose identifier is fresh
      · rcases (h.spent_iff heffect hi).mp hspent with hspent | hgone
        · exact h.dead hi hspent row hrow hkey
        · exact hkept (hkey ▸ hgone)
      · exact hjti hi.signed hnew (congrArg _ (RefreshTokenPayload.key_inj (hkey.symm.trans hkey')))
    · exact not_spent_last c request r w' token p.sub hspent

end

end

/-! ## The next refresh -/

/-- After any history Redis is what the history says. -/
theorem told_of_run {seconds : Nat} (htimed : Timed env seconds) {tr : Trace} {c : State}
    (hrun : RunFrom env State.initial sequential tr c) (hidle : c.Idle) : Told c := by
  refine Platform.serial_invariant (P := system env) Rests.refl Rests.trans Rests.of_env
    (fun c w h hrests => h.drift hrests.drifts) (fun c request r w' _ h hfinishes => ?_) hrun nofun .initial hidle
  obtain ⟨gone, new, heffect⟩ :=
    Effect.of_finishes htimed (fun _ _ h => h) Rests.refl Rests.trans h.once h.user hfinishes
  exact h.call heffect

/-- The keys of the user's sessions. -/
def isRefreshKeyOf (userId : Uuid) (key : String) : Bool :=
  ("refresh:" ++ userId.text ++ ":").toList.isPrefixOf key.toList

/-- Where all calls have been answered, `request` comes in, and is answered `r` while no time passes. -/
structure Performs (env : Settings) (c : State) (request : Request) (c' : State) (r : Except Err Response) :
    Prop where
  idle : c.Idle
  runs : ∃ tr, Run (system env).step (Platform.Solo c.calls.length succeeds fun _ => False)
    ((system env).arrive c request) tr c'
  answer : c'.calls[c.calls.length]?.bind Call.result? = some r

/-- `token` has been issued, has not expired and has not been spent. -/
def Good (c : State) (token : String) : Prop :=
  ∃ j p exp, Issued c j token p exp ∧ c.world.now < exp ∧ ¬Spent c j token p.sub

theorem isMatch_refreshPattern (userId : Uuid) (key : String) :
    Glob.isMatch (refreshPattern userId) key = isRefreshKeyOf userId key := by
  rw [Bool.eq_iff_iff, refreshPattern, Glob.isMatch_star (refreshPattern_literal userId), isRefreshKeyOf,
    List.isPrefixOf_iff_prefix]

theorem head?_refresh (userId : Uuid) : ("refresh:" ++ userId.text ++ ":").toList.head? = some 'r' := by
  rw [String.toList_append, String.toList_append, List.append_assoc, List.head?_append,
    show "refresh:".toList.head? = some 'r' by decide]
  rfl

theorem head?_idemKey (userId : Uuid) (idempotencyKey : String) :
    ("wallet:transfer:" ++ userId.text ++ ":" ++ idempotencyKey).toList.head? = some 'w' := by
  rw [String.toList_append, String.toList_append, String.toList_append, List.append_assoc, List.append_assoc,
    List.head?_append, show "wallet:transfer:".toList.head? = some 'w' by decide]
  rfl

/-- The keys of one user's sessions are not those of another's, nor those of the wallet. -/
theorem isRefreshKeyOf_other {userId : Uuid} {key : String}
    (h : (∃ userId' jti, userId' ≠ userId ∧ key = refreshKey userId' jti) ∨
      ∃ userId' idempotencyKey, key = WalletService.idemKey userId' idempotencyKey) :
    isRefreshKeyOf userId key = false := by
  rcases h with ⟨userId', jti, hother, rfl⟩ | ⟨userId', idempotencyKey, rfl⟩
  · rw [← isMatch_refreshPattern, Bool.eq_false_iff]
    exact fun h => hother ((isMatch_refreshKey userId userId' jti).mp h)
  · rw [isRefreshKeyOf, Bool.eq_false_iff, ne_eq, List.isPrefixOf_iff_prefix]
    rintro ⟨t, ht⟩
    have hhead := congrArg List.head? ht
    unfold WalletService.idemKey at hhead
    rw [List.head?_append, head?_refresh, head?_idemKey] at hhead
    exact absurd hhead nofun

section

variable {seconds : Nat} {c c' : State} {token : String} {r : Except Err Response}

theorem Performs.refreshes (htimed : Timed env seconds) (htold : Told c)
    (h : Performs env c (.refresh token) c' r) :
    ∃ r₁, r = r₁.map .tokens ∧ AuthService.Refreshes Eq token c.world c'.world r₁ := by
  obtain ⟨-, ⟨tr, hrun⟩, hanswer⟩ := h
  have hlast : ((system env).arrive c (.refresh token)).calls[c.calls.length]? =
      some ⟨.refresh token, (Request.refresh token).handler env, false⟩ := List.getElem?_concat_length
  obtain ⟨hfinishes, -⟩ : Finishes env c.calls.length Eq ((Request.refresh token).handler env) c.world r c'.world ∧
      _ := Platform.finishes_of_run (P := system env) (fun _ => rfl) (fun _ _ _ => Eq.trans) (fun h => h.elim) hrun
        hlast hanswer
  obtain ⟨r₁, w₁, h₁, rfl, rfl⟩ := finishes_map (fun _ => rfl) hfinishes
  refine ⟨r₁, rfl, AuthService.refresh_finishes htimed ?_ (fun _ => rfl) (fun _ _ _ => Eq.trans)
    (fun p exp => htold.user) h₁⟩
  rintro w _ rfl
  exact .refl w

/-- A refresh returns, if there is an identifier left to draw. -/
theorem exists_performs (htimed : Timed env seconds) (hidle : c.Idle) (token : String) {jti : Uuid}
    (hjti : jti ∉ c.world.drawn) : ∃ c' r, Performs env c (.refresh token) c' r := by
  obtain ⟨xs, r, c', hxs, hexecutes, hanswer⟩ := AuthService.refresh_executes htimed c token hjti
  exact ⟨c', r, hidle, Platform.run_of_execute hxs hexecutes, hanswer⟩

/-- A session that is there is found. -/
theorem Told.truthy_get (h : Told c) {p : RefreshTokenPayload} {exp : Nat} (hstored : c.world.Stored p exp) :
    AuthService.truthy (c.world.redisGet p.key) = true := by
  obtain ⟨row, hrow, hkey, -⟩ := hstored
  obtain ⟨found, hfound⟩ : ∃ found, c.world.redis.find? (·.key = p.key) = some found := by
    cases hfind : c.world.redis.find? (·.key = p.key) with
    | some found => exact ⟨found, rfl⟩
    | none => exact absurd hkey (by simpa using List.find?_eq_none.mp hfind row hrow)
  have hfoundkey : found.key = p.key := by simpa using List.find?_some hfound
  obtain ⟨_, _, _, hvalue⟩ := h.keyed found (List.mem_of_find?_eq_some hfound)
    (hfoundkey ▸ isSession_refreshKey p.sub p.jti)
  simp only [World.redisGet, hfound, Option.map_some, hvalue]
  decide

/-- A session that is not there is not found. -/
theorem truthy_get_of_gone {w : World} {key : String} (h : ∀ row ∈ w.redis, row.key ≠ key) :
    AuthService.truthy (w.redisGet key) = false := by
  have hnone : w.redis.find? (·.key = key) = none := by
    rw [List.find?_eq_none]
    simpa using h
  simp only [World.redisGet, hnone]
  rfl

/-- What is listed for a user and deleted at once are the keys of the user's sessions. -/
theorem redisDel_redisKeys (w : World) (userId : Uuid) :
    w.redisDel (w.redisKeys (refreshPattern userId)) =
      { w with redis := w.redis.filter fun row => !isRefreshKeyOf userId row.key } := by
  have hsame : ∀ row ∈ w.redis, decide (row.key ∉ w.redisKeys (refreshPattern userId)) =
      !isRefreshKeyOf userId row.key := by
    intro row hrow
    rw [← isMatch_refreshPattern]
    have hlisted : row.key ∈ w.redisKeys (refreshPattern userId) ↔
        Glob.isMatch (refreshPattern userId) row.key = true := by
      simp only [World.redisKeys, List.mem_filter, and_iff_right (List.mem_map_of_mem hrow)]
    cases hmatch : Glob.isMatch (refreshPattern userId) row.key <;> simp [hlisted, hmatch]
  simp only [World.redisDel, List.filter_congr hsame]

/-- A refresh returns a pair exactly for a token that is good, and the refresh token of the pair is a new one, signed
and with its session stored; where it refuses one that has been issued and
has not expired, the sessions of its user are deleted and nothing else happens; and for any other token
nothing happens at all. -/
structure Answers (c : State) (token : String) (c' : State) (r : Except Err Response) : Prop where
  good : (∃ t, r = .ok (.tokens t)) ↔ Good c token
  granted : ∀ {t : AuthTokens}, r = .ok (.tokens t) → c.world.jwt? t.refreshToken = none ∧
    ∃ p exp, c'.world.Signed t.refreshToken p exp ∧ (c'.world.now < exp → c'.world.Stored p exp)
  refused : ∀ {j p exp}, Issued c j token p exp → c.world.now < exp → (∀ t, r ≠ .ok (.tokens t)) →
    c'.world = { c.world with redis := c.world.redis.filter fun row => !isRefreshKeyOf p.sub row.key } ∧
    ∀ row ∈ c.world.redis, (∃ userId jti, userId ≠ p.sub ∧ row.key = refreshKey userId jti) ∨
      (∃ userId idempotencyKey, row.key = WalletService.idemKey userId idempotencyKey) → row ∈ c'.world.redis
  ignored : (∀ j p exp, Issued c j token p exp → exp ≤ c.world.now) → c'.world = c.world

theorem Performs.answers (htimed : Timed env seconds) (htold : Told c) (h : Performs env c (.refresh token) c' r) :
    Answers c token c' r := by
  obtain ⟨r₁, rfl, hrefreshes⟩ := h.refreshes htimed htold
  cases hrefreshes with
  | rejected before bad after =>
    cases before
    refine ⟨⟨fun ⟨t, ht⟩ => (nomatch ht), ?_⟩, nofun, ?_, fun _ => after.symm⟩
    · rintro ⟨j, p, exp, hissued, hnow, -⟩
      exact absurd (bad p exp hissued.signed) (Nat.not_le.mpr hnow)
    · intro j p exp hissued hnow
      exact absurd (bad p exp hissued.signed) (Nat.not_le.mpr hnow)
  | reused p exp before genuine unexpired looks gone lists deletes after =>
    cases before
    cases looks
    cases lists
    cases deletes
    obtain ⟨j, hissued⟩ := htold.genuine genuine
    have hdeleted := after.symm.trans (redisDel_redisKeys c.world p.sub)
    refine ⟨⟨fun ⟨t, ht⟩ => (nomatch ht), ?_⟩, nofun, ?_, ?_⟩
    · rintro ⟨j', p', exp', hissued', hnow, hunspent⟩
      obtain ⟨rfl, rfl⟩ := genuine.inj hissued'.signed
      rw [htold.truthy_get (htold.live hissued' hnow hunspent)] at gone
      cases gone
    · intro j' p' exp' hissued' _ _
      obtain ⟨rfl, rfl⟩ := genuine.inj hissued'.signed
      refine ⟨hdeleted, fun row hrow hother => ?_⟩
      rw [hdeleted]
      exact List.mem_filter.mpr ⟨hrow, by rw [isRefreshKeyOf_other hother]; rfl⟩
    · intro hexpired
      exact absurd (hexpired j p exp hissued) (Nat.not_le.mpr unexpired)
  | rotated p exp t s before genuine unexpired looks found deletes after text =>
    cases before
    cases looks
    cases deletes
    obtain ⟨j, hissued⟩ := htold.genuine genuine
    refine ⟨⟨fun _ => ⟨j, p, exp, hissued, unexpired, fun hspent => ?_⟩, fun _ => ⟨t, rfl⟩⟩, ?_, ?_, ?_⟩
    · rw [truthy_get_of_gone (htold.dead hissued hspent)] at found
      cases found
    · intro t' ht'
      cases ht'
      obtain ⟨hnew, -, -, hsigned, -, hstored⟩ := after.fresh s rfl
      rw [text]
      exact ⟨hnew, s.payload, s.exp, hsigned, hstored⟩
    · exact fun _ _ hr => absurd rfl (hr t)
    · intro hexpired
      exact absurd (hexpired j p exp hissued) (Nat.not_le.mpr unexpired)

/-- **A refresh token is good as long as its history says so.** After any history of calls one after
another, any refresh returns, and answers as the history of its token says. -/
theorem session_store {ttl : Nat} (hform : IsTtl env.refreshTtl ttl)
    (hrefresh : env.ms env.refreshTtl = some (ttl * 1000)) (haccess : (env.ms env.accessTtl).isSome = true)
    {tr : Trace} (history : RunFrom env State.initial sequential tr c) (hidle : c.Idle) (token : String) :
    (∀ jti, jti ∉ c.world.drawn → ∃ c' r, Performs env c (.refresh token) c' r) ∧
      ∀ c' r, Performs env c (.refresh token) c' r → Answers c token c' r := by
  have htimed : Timed env ttl :=
    ⟨(ttlToSeconds_of_isTtl hform).1, (ttlToSeconds_of_isTtl hform).2, hrefresh, haccess⟩
  have htold : Told c := told_of_run htimed history hidle
  exact ⟨fun jti => exists_performs htimed hidle token, fun c' r h => h.answers htimed htold⟩

end

instance (c : State) : Decidable c.Idle :=
  inferInstanceAs (Decidable (∀ call ∈ c.calls, call.result?.isSome = true))

instance (x : Choice) : Decidable (succeeds x) := inferInstanceAs (Decidable (x ≠ .fault))

instance (e : Env) : Decidable (passes e) :=
  match e with
  | .tick _ | .foreign _ => isTrue trivial
  | .evict _ | .deleteUser _ => isFalse id

instance (c : State) (l : Event) : Decidable (sequential c l) :=
  match l with
  | .arrive _ => inferInstanceAs (Decidable c.Idle)
  | .exec _ x => inferInstanceAs (Decidable (succeeds x))
  | .crash _ => isFalse id
  | .env e => inferInstanceAs (Decidable (passes e))

open Trial in
/-- Alice has registered, and refreshes with the token she got. -/
def Trial.refreshed : State :=
  thereafter (stateAfter settings register) (.refresh "first")
    [.ok, .ok, .ok, .ok, .text "access for second", .fresh jti₂, .text "second", .ok]

open Trial in
set_option maxRecDepth 8000 in
theorem session_store_first :
    Performs settings (stateAfter settings register) (.refresh "first") refreshed
        (.ok (.tokens ⟨"access for second", "second"⟩)) ∧
      Good (stateAfter settings register) "first" ∧
      ∃ p exp, refreshed.world.Signed "second" p exp ∧ refreshed.world.Stored p exp := by
  have hform : IsTtl settings.refreshTtl 604800 :=
    ⟨['7'], 'd', 86400, by decide, by simp, by decide, by decide, by decide⟩
  have history : RunFrom settings State.initial sequential (traceAfter settings register)
      (stateAfter settings register) :=
    (run_stateAfter settings (fun c l => decide (sequential c l)) register (by decide)).mono
      fun c l => of_decide_eq_true
  have hperforms : Performs settings (stateAfter settings register) (.refresh "first") refreshed
      (.ok (.tokens ⟨"access for second", "second"⟩)) :=
    ⟨by decide, Platform.run_of_execute (by simp [succeeds]) (execute_thereafter (by decide)), rfl⟩
  obtain ⟨-, hanswers⟩ := session_store hform (by decide) (by decide) history (by decide) "first"
  have h := hanswers _ _ hperforms
  obtain ⟨-, p, exp, hsigned, hstored⟩ := h.granted rfl
  have hexp : refreshed.world.jwt? "second" = some ⟨"second", .refresh ⟨alice, jti₂⟩, 604800⟩ := rfl
  obtain rfl : 604800 = exp := by
    cases hexp.symm.trans hsigned
    rfl
  exact ⟨hperforms, h.good.mp ⟨_, rfl⟩, p, 604800, hsigned, hstored (by decide)⟩

end FlashWallet.Auth
