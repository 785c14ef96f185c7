import FlashWallet.Lib.Finish
import FlashWallet.Proof.AuthServed
import Mathlib.Data.Set.Finite.Basic

/-!
# What a whole call does to the sessions

Where nothing fails and no other call is under way, a call of the authentication service can be told by what
it has done when it returns: `Changes gone new w w'` says that the sessions `gone` are deleted, that
`new` is signed and stored, and that nothing else has happened to the others but that time has passed.
-/

set_option autoImplicit false

namespace FlashWallet.Auth

open Lib

variable {env : Settings}

/-- Nothing the outside decides is a failure. -/
def succeeds (x : Choice) : Prop := x ≠ .fault

/-- Time passes, and the rest of the application works. -/
def passes : Env → Prop
  | .tick _ | .foreign _ => True
  | _ => False

/-- A refresh token, and what it was signed for. -/
structure Minted where
  text : String
  payload : RefreshTokenPayload
  exp : Nat

def RefreshTokenPayload.key (p : RefreshTokenPayload) : String := refreshKey p.sub p.jti

/-- `token` has been signed for `p`, and expires at `exp`. -/
def World.Signed (w : World) (token : String) (p : RefreshTokenPayload) (exp : Nat) : Prop :=
  w.jwt? token = some ⟨token, .refresh p, exp⟩

/-- The session of `p` is there, and will be when `exp` comes. -/
def World.Stored (w : World) (p : RefreshTokenPayload) (exp : Nat) : Prop :=
  ∃ row ∈ w.redis, row.key = p.key ∧ ∃ t, row.expiresAt = some t ∧ exp * 1000 ≤ t

/-- From `w` to `w'` the sessions `gone` are deleted, and `new` is signed and stored. -/
structure Changes (gone : String → Prop) (new : Option Minted) (w w' : World) : Prop where
  later : w.clock ≤ w'.clock
  users : ∀ user ∈ w.users, user ∈ w'.users
  drawn : ∀ id ∈ w.drawn, id ∈ w'.drawn
  signed : ∀ {token jwt}, w.jwt? token = some jwt → w'.jwt? token = some jwt
  genuine : ∀ {token p exp}, w'.Signed token p exp →
    w.Signed token p exp ∨ new = some ⟨token, p, exp⟩
  kept : ∀ row ∈ w.redis, isSession row.key = true → ¬gone row.key → (∀ s, new = some s → row.key ≠ s.payload.key) →
    row.lasts w'.clock = true → row ∈ w'.redis
  old : ∀ row ∈ w'.redis, isSession row.key = true →
    (row ∈ w.redis ∧ ¬gone row.key) ∨ ∃ s, new = some s ∧ row.key = s.payload.key ∧ row.value = "1"
  fresh : ∀ s, new = some s → w.jwt? s.text = none ∧ s.payload.jti ∉ w.drawn ∧ s.payload.jti ∈ w'.drawn ∧
    w'.Signed s.text s.payload s.exp ∧ (∃ user ∈ w'.users, user.id = s.payload.sub) ∧
    (w'.now < s.exp → w'.Stored s.payload s.exp)

/-- No session is deleted. -/
def noKey : String → Prop := fun _ => False

/-- Nothing happens to any session, but that time passes. -/
abbrev Drifts (w w' : World) : Prop := Changes noKey none w w'

namespace World

theorem now_mono {w w' : World} (h : w.clock ≤ w'.clock) : w.now ≤ w'.now := Nat.div_le_div_right h

theorem Signed.inj {w : World} {token : String} {p p' : RefreshTokenPayload} {exp exp' : Nat}
    (h : w.Signed token p exp) (h' : w.Signed token p' exp') : p = p' ∧ exp = exp' := by
  cases h.symm.trans h'
  exact ⟨rfl, rfl⟩

/-- A row that is there until `exp` is there before. -/
theorem lasts_of_now {w : World} {row : RedisRow} {t exp : Nat} (hexpires : row.expiresAt = some t)
    (ht : exp * 1000 ≤ t) (hnow : w.now < exp) : row.lasts w.clock = true := by
  simp only [RedisRow.lasts, hexpires, Option.all_some, decide_eq_true_eq]
  unfold now at hnow
  omega

theorem lasts_mono {w w' : World} {row : RedisRow} (h : w.clock ≤ w'.clock) (hlasts : row.lasts w'.clock = true) :
    row.lasts w.clock = true := by
  revert hlasts
  unfold RedisRow.lasts
  cases row.expiresAt with
  | none => exact fun _ => rfl
  | some t =>
    simp only [Option.all_some, decide_eq_true_eq]
    exact fun hlasts => lt_of_le_of_lt h hlasts

/-- A token of the longer list is one of the shorter, or the last. -/
theorem jwt?_of_append {w : World} {token : String} {jwt jwt' : Jwt}
    (h : ({ w with signed := w.signed ++ [jwt'] } : World).jwt? token = some jwt) :
    w.jwt? token = some jwt ∨ jwt'.text = token ∧ jwt' = jwt := by
  simp only [jwt?, List.find?_append] at h
  rcases Option.or_eq_some_iff.mp h with h | ⟨-, h⟩
  · exact Or.inl h
  · have htext := List.find?_some h
    obtain rfl := List.mem_singleton.mp (List.mem_of_find?_eq_some h)
    exact Or.inr ⟨by simpa using htext, rfl⟩

end World

namespace Changes

variable {gone gone' : String → Prop} {new : Option Minted} {w w₁ w' : World}

theorem of_same (hclock : w'.clock = w.clock) (husers : ∀ user ∈ w.users, user ∈ w'.users)
    (hdrawn : ∀ id ∈ w.drawn, id ∈ w'.drawn) (hsigned : w'.signed = w.signed) (hredis : w'.redis = w.redis) :
    Drifts w w' where
  later := hclock.ge
  users := husers
  drawn := hdrawn
  signed h := by simpa only [World.jwt?, hsigned] using h
  genuine h := Or.inl (by simpa only [World.Signed, World.jwt?, hsigned] using h)
  kept row hrow _ _ _ _ := hredis ▸ hrow
  old row hrow _ := Or.inl ⟨hredis ▸ hrow, id⟩
  fresh _ h := nomatch h

theorem refl (w : World) : Drifts w w := .of_same rfl (fun _ h => h) (fun _ h => h) rfl rfl

/-- A session that is there until `exp` is there before, unless it is deleted. -/
theorem stored (h : Changes gone new w w') {p : RefreshTokenPayload} {exp : Nat} (hstored : w.Stored p exp)
    (hgone : ¬gone p.key) (hnew : ∀ s, new = some s → p.key ≠ s.payload.key) (hnow : w'.now < exp) :
    w'.Stored p exp := by
  obtain ⟨row, hrow, hkey, t, hexpires, ht⟩ := hstored
  have hsession : isSession row.key = true := hkey ▸ isSession_refreshKey p.sub p.jti
  have hlasts := World.lasts_of_now hexpires ht hnow
  exact ⟨row, h.kept row hrow hsession (hkey ▸ hgone) (hkey ▸ hnew) hlasts, hkey, t, hexpires, ht⟩

/-- One thing after another, when the first signs nothing. -/
theorem trans (h : Changes gone none w w₁) (h' : Changes gone' new w₁ w') :
    Changes (fun key => gone key ∨ gone' key) new w w' where
  later := h.later.trans h'.later
  users user huser := h'.users user (h.users user huser)
  drawn id hid := h'.drawn id (h.drawn id hid)
  signed hjwt := h'.signed (h.signed hjwt)
  genuine hjwt := (h'.genuine hjwt).imp (fun hjwt => (h.genuine hjwt).resolve_right nofun) (fun h => h)
  kept row hrow hsession hgone hnew hlasts := by
    have hlasts₁ := World.lasts_mono h'.later hlasts
    have hrow₁ := h.kept row hrow hsession (fun hg => hgone (Or.inl hg)) nofun hlasts₁
    exact h'.kept row hrow₁ hsession (fun hg => hgone (Or.inr hg)) hnew hlasts
  old row hrow hsession := by
    rcases h'.old row hrow hsession with ⟨hrow₁, hgone'⟩ | hnew
    · rcases h.old row hrow₁ hsession with ⟨hrow₀, hgone⟩ | ⟨_, hs, _⟩
      · exact Or.inl ⟨hrow₀, fun hg => hg.elim hgone hgone'⟩
      · cases hs
    · exact Or.inr hnew
  fresh s hs := by
    obtain ⟨hunsigned, hdrawn, hrest⟩ := h'.fresh s hs
    refine ⟨?_, fun hmem => hdrawn (h.drawn _ hmem), hrest⟩
    cases hjwt : w.jwt? s.text with
    | none => rfl
    | some jwt => exact absurd ((h.signed hjwt).symm.trans hunsigned) nofun

/-- Where no session is new, what is listed was listed. -/
theorem listed (h : Changes gone none w w') {row : RedisRow} (hrow : row ∈ w'.redis)
    (hsession : isSession row.key = true) : row ∈ w.redis ∧ ¬gone row.key :=
  (h.old row hrow hsession).resolve_right (by rintro ⟨_, hs, _⟩; cases hs)

/-- Time passes before. -/
theorem since (h' : Changes gone new w₁ w') (h : Drifts w w₁) : Changes gone new w w' := by
  have hgone : (fun key => noKey key ∨ gone key) = gone := funext fun key => false_or _
  exact hgone ▸ h.trans h'

/-- Time passes afterwards. -/
theorem afterwards (h : Changes gone new w w₁) (h' : Drifts w₁ w') : Changes gone new w w' where
  later := h.later.trans h'.later
  users user huser := h'.users user (h.users user huser)
  drawn id hid := h'.drawn id (h.drawn id hid)
  signed hjwt := h'.signed (h.signed hjwt)
  genuine hjwt := h.genuine ((h'.genuine hjwt).resolve_right nofun)
  kept row hrow hsession hgone hnew hlasts :=
    h'.kept row (h.kept row hrow hsession hgone hnew (World.lasts_mono h'.later hlasts)) hsession id nofun hlasts
  old row hrow hsession := h.old row (h'.listed hrow hsession).1 hsession
  fresh s hs := by
    obtain ⟨hunsigned, hundrawn, hdrawn, hsigned, ⟨user, huser, hid⟩, hstored⟩ := h.fresh s hs
    refine ⟨hunsigned, hundrawn, h'.drawn _ hdrawn, h'.signed hsigned, ⟨user, h'.users user huser, hid⟩, fun hnow => ?_⟩
    exact h'.stored (hstored (lt_of_le_of_lt (World.now_mono h'.later) hnow)) id nofun hnow

/-- A token is signed, and then its session is stored. -/
theorem granted {e f g : World} (s : Minted) {span : Nat} (h : Drifts w e) (hdrawn : s.payload.jti ∉ w.drawn)
    (hdrawn' : s.payload.jti ∈ e.drawn) (huser : ∃ user ∈ e.users, user.id = s.payload.sub)
    (hfresh : e.jwt? s.text = none)
    (hf : f = { e with signed := e.signed ++ [⟨s.text, .refresh s.payload, s.exp⟩] }) (hdrift : Drifts f g)
    (hspan : s.exp * 1000 ≤ g.clock + span)
    (hw' : w' = { g with
      redis := g.redis.filter (·.key ≠ s.payload.key) ++ [⟨s.payload.key, "1", some (g.clock + span)⟩] }) :
    Changes noKey (some s) w w' := by
  subst hf hw'
  have hsigned : ∀ {token jwt}, e.jwt? token = some jwt → g.jwt? token = some jwt :=
    fun hjwt => hdrift.signed (World.jwt?_append hjwt)
  have hnew : g.Signed s.text s.payload s.exp := hdrift.signed (World.jwt?_signed hfresh)
  refine ⟨h.later.trans hdrift.later, fun user huser => hdrift.users user (h.users user huser),
    fun id hid => hdrift.drawn id (h.drawn id hid), fun hjwt => hsigned (h.signed hjwt), ?_, ?_, ?_, ?_⟩
  · intro token p exp hjwt
    rcases hdrift.genuine hjwt with hjwt | hjwt
    · rcases World.jwt?_of_append hjwt with hjwt | ⟨rfl, heq⟩
      · exact Or.inl ((h.genuine hjwt).resolve_right nofun)
      · cases heq
        exact Or.inr rfl
    · cases hjwt
  · intro row hrow hsession _ hother hlasts
    refine List.mem_append_left _ (List.mem_filter.mpr ⟨?_, by simpa using hother s rfl⟩)
    have hrow₁ := h.kept row hrow hsession id nofun (World.lasts_mono hdrift.later hlasts)
    exact hdrift.kept row hrow₁ hsession id nofun hlasts
  · intro row hrow hsession
    rcases List.mem_append.mp hrow with hrow | hrow
    · exact Or.inl (h.listed (hdrift.listed (List.mem_of_mem_filter hrow) hsession).1 hsession)
    · obtain rfl := List.mem_singleton.mp hrow
      exact Or.inr ⟨s, rfl, rfl, rfl⟩
  · intro s' hs'
    cases hs'
    obtain ⟨user, huser, hid⟩ := huser
    refine ⟨?_, hdrawn, hdrift.drawn _ hdrawn', hnew, ⟨user, hdrift.users user huser, hid⟩, fun _ => ?_⟩
    · cases hjwt : w.jwt? s.text with
      | none => rfl
      | some jwt => exact absurd ((h.signed hjwt).symm.trans hfresh) nofun
    · exact ⟨_, List.mem_append_right _ (List.mem_singleton.mpr rfl), rfl, _, rfl, hspan⟩

end Changes

/-! ## Statement by statement -/

section

variable {ms : String → Option Nat} {i : Nat} {w w' : World}

/-- Nothing is out of reach that does not fail. -/
theorem World.available {o : Stmt} {x : Choice} {r : Except Err o.Reply} (hx : succeeds x)
    (h : World.exec ms i o x w = some (r, w')) : r ≠ .error .unavailable := by
  rintro rfl
  cases x with
  | fault => exact hx rfl
  | ok =>
    cases o with
    | verifyRefresh token ignoreExpiration =>
      have h : w.verifyRefresh token ignoreExpiration = .error .unavailable := (Prod.mk.inj (Option.some.inj h)).1
      unfold verifyRefresh at h
      split at h
      · split at h <;> cases h
      · cases h
    | redisSet key value seconds =>
      have h : w.redisSet key value seconds = (.error .unavailable, w') := Option.some.inj h
      unfold redisSet at h
      split at h <;> cases (Prod.mk.inj h).1
    | userCreate | walletCreate | bcryptHash | bcryptCompare | signAccess | signRefresh | randomUUID => cases h
    | _ => cases (Prod.mk.inj (Option.some.inj h)).1
  | fresh id =>
    simp only [exec] at h
    split at h
    · cases h
    · cases o with
      | userCreate email password =>
        have h : w.userCreate i id email password = some (.error .unavailable, w') := h
        unfold userCreate at h
        split at h
        · cases h
        split at h
        · cases (Prod.mk.inj (Option.some.inj h)).1
        · cases (Prod.mk.inj (Option.some.inj h)).1
      | walletCreate userId =>
        have h : w.walletCreate i id userId = some (.error .unavailable, w') := h
        unfold walletCreate at h
        split at h
        · cases h
        split at h
        · cases (Prod.mk.inj (Option.some.inj h)).1
        split at h
        · cases (Prod.mk.inj (Option.some.inj h)).1
        · cases (Prod.mk.inj (Option.some.inj h)).1
      | randomUUID => cases (Prod.mk.inj (Option.some.inj h)).1
      | _ => cases h
  | text s =>
    cases o with
    | signAccess payload expiresIn | signRefresh payload expiresIn =>
      rcases Served.of_sign h with ⟨message, -, h, -⟩ | ⟨span, -, -, h, -⟩ <;> cases h
    | bcryptHash => cases (Prod.mk.inj (Option.some.inj h)).1
    | _ => cases h
  | verdict b =>
    cases o with
    | bcryptCompare => cases (Prod.mk.inj (Option.some.inj h)).1
    | _ => cases h

/-- Statements that leave the sessions alone. -/
def Stmt.isQuiet : Stmt → Bool
  | .redisSet .. | .redisDel _ | .signRefresh .. => false
  | _ => true

theorem Changes.of_served {o : Stmt} {r : Except Err o.Reply} (hs : World.Served ms i w o r w')
    (ho : o.isQuiet = true) : Drifts w w' := by
  cases hs with
  | stored | deleted | signedRefresh => cases ho
  | userCreated | walletCreated | drew =>
    exact .of_same rfl (fun _ h => h) (fun _ h => List.mem_cons_of_mem _ h) rfl rfl
  | committed => exact .of_same rfl (fun _ h => List.mem_append_left _ h) (fun _ h => h) rfl rfl
  | commitFailed | rolledBack => exact .of_same rfl (fun _ h => h) (fun _ h => h) rfl rfl
  | signedAccess payload expiresIn text span reads fresh =>
    refine ⟨le_refl _, fun _ h => h, fun _ h => h, fun h => World.jwt?_append h, fun h => ?_,
      fun _ h _ _ _ _ => h, fun _ h _ => Or.inl ⟨h, id⟩, nofun⟩
    rcases World.jwt?_of_append h with h | ⟨-, h⟩
    · exact Or.inl h
    · cases h
  | _ => exact .refl w

theorem Changes.of_env {e : Env} (hmoves : passes e) (he : e.run w = some w') : Drifts w w' := by
  cases e with
  | evict | deleteUser => exact hmoves.elim
  | tick ms =>
    cases he
    refine ⟨Nat.le_add_right _ _, fun _ h => h, fun _ h => h, fun h => h, Or.inl, ?_, ?_, nofun⟩
    · exact fun row hrow _ _ _ hlasts => List.mem_filter.mpr ⟨hrow, hlasts⟩
    · exact fun row hrow _ => Or.inl ⟨List.mem_of_mem_filter hrow, id⟩
  | foreign row' =>
    simp only [Env.run] at he
    split at he
    · cases he
    · rename_i hforeign
      cases he
      refine ⟨le_refl _, fun _ h => h, fun _ h => h, fun h => h, Or.inl, ?_, ?_, nofun⟩
      · intro row hrow hsession _ _ _
        refine List.mem_append_left _ (List.mem_filter.mpr ⟨hrow, ?_⟩)
        simp only [ne_eq, decide_eq_true_eq]
        exact fun hkey => hforeign (hkey ▸ hsession)
      · intro row hrow hsession
        rcases List.mem_append.mp hrow with hrow | hrow
        · exact Or.inl ⟨List.mem_of_mem_filter hrow, id⟩
        · obtain rfl := List.mem_singleton.mp hrow
          exact absurd hsession hforeign

theorem Changes.of_delete (w : World) (keys : List String) : Changes (· ∈ keys) none w (w.redisDel keys) where
  later := le_refl _
  users _ h := h
  drawn _ h := h
  signed h := h
  genuine h := Or.inl h
  kept row hrow _ hgone _ _ := List.mem_filter.mpr ⟨hrow, by simpa using hgone⟩
  old row hrow _ := Or.inl ⟨List.mem_of_mem_filter hrow, by simpa using List.of_mem_filter hrow⟩
  fresh _ h := nomatch h

end

/-! ## Handler by handler -/

section

variable {i : Nat} {D : World → World → Prop} {w w' : World} {β : Type}

/-- The handler runs to its end with `r`, and takes the world from `w` to `w'`. -/
abbrev Finishes (env : Settings) (i : Nat) (D : World → World → Prop) (p : Service β) (w : World)
    (r : Except Err β) (w' : World) : Prop :=
  Prog.Finishes (World.exec env.ms i) succeeds D p w r w'

/-- A statement and the rest, taken apart. -/
theorem Finishes.issue {o : Stmt} {f : o.Reply → Service β} {r : Except Err β}
    (h : Finishes env i D ((issue o).bind f) w r w') :
    ∃ w₀ w₁, D w w₀ ∧ ((∃ v, World.Served env.ms i w₀ o (.ok v) w₁ ∧ Finishes env i D (f v) w₁ r w') ∨
      ∃ e, World.Served env.ms i w₀ o (.error e) w₁ ∧ e ≠ .unavailable ∧ r = .error e ∧ D w₁ w') := by
  obtain ⟨w₀, x, reply, w₁, hdrift, hx, hexec, hrest⟩ := h.of_issue
  refine ⟨w₀, w₁, hdrift, ?_⟩
  rcases hrest with ⟨v, rfl, hrest⟩ | ⟨e, rfl, rfl, hdrift'⟩
  · exact Or.inl ⟨v, .of_exec hexec, hrest⟩
  · exact Or.inr ⟨e, .of_exec hexec, fun he => World.available hx hexec (he ▸ rfl), rfl, hdrift'⟩

/-- A statement that cannot be refused, and the rest. -/
theorem Finishes.granted {o : Stmt} {f : o.Reply → Service β} {r : Except Err β}
    (ho : ∀ w e, ¬World.Refuses env.ms w o e) (h : Finishes env i D ((Auth.issue o).bind f) w r w') :
    ∃ w₀ w₁ v, D w w₀ ∧ World.Served env.ms i w₀ o (.ok v) w₁ ∧ Finishes env i D (f v) w₁ r w' := by
  obtain ⟨w₀, w₁, hdrift, ⟨v, hs, hrest⟩ | ⟨e, hs, he, -, -⟩⟩ := h.issue
  · exact ⟨w₀, w₁, v, hdrift, hs, hrest⟩
  · cases hs with
    | failed | commitFailed => exact absurd rfl he
    | refused _ _ reason => exact absurd reason (ho _ _)

theorem Finishes.done {a : β} {r : Except Err β} (h : Finishes env i D (.done a) w r w') : r = .ok a ∧ D w w' := by
  cases h with
  | done _ drift => exact ⟨rfl, drift⟩

theorem Finishes.fail {e : Err} {r : Except Err β} (h : Finishes env i D (.fail e) w r w') :
    r = .error e ∧ D w w' := by
  cases h with
  | fail _ drift => exact ⟨rfl, drift⟩

/-- What a handler's answer is made into. -/
theorem finishes_map {α : Type} (hrefl : ∀ w, D w w) {f : α → β} {p : Service α} {r : Except Err β}
    (h : Finishes env i D (f <$> p) w r w') :
    ∃ r₁ w₁, Finishes env i D p w r₁ w₁ ∧ D w₁ w' ∧ r = r₁.map f := by
  rcases h.of_bind hrefl with ⟨a, w₁, hp, h⟩ | ⟨e, rfl, hp⟩
  · obtain ⟨rfl, hdrift⟩ := Finishes.done h
    exact ⟨.ok a, w₁, hp, hdrift, rfl⟩
  · exact ⟨.error e, w', hp, hrefl w', rfl⟩

end

/-- The library and the service read the times to live alike: the refresh token's is `seconds`. -/
structure Timed (env : Settings) (seconds : Nat) : Prop where
  reads : ttlToSeconds env.refreshTtl = .ok seconds
  positive : 0 < seconds
  refresh : env.ms env.refreshTtl = some (seconds * 1000)
  access : (env.ms env.accessTtl).isSome = true

namespace AuthService

variable {seconds i : Nat} {D : World → World → Prop} {w w' : World}

theorem issueTokenPair_finishes (htimed : Timed env seconds) (hD : ∀ w w', D w w' → Drifts w w') {sub : Uuid}
    {role : Role} (huser : ∃ user ∈ w.users, user.id = sub) {r : Except Err AuthTokens}
    (h : Finishes env i D (issueTokenPair env sub role) w r w') :
    ∃ t s, r = .ok t ∧ t.refreshToken = s.text ∧ s.payload.sub = sub ∧ Changes noKey (some s) w w' := by
  obtain ⟨user, huser, rfl⟩ := huser
  obtain ⟨w₀, w₁, access, hdrift, hs, h⟩ := h.granted (fun w e h => by
    obtain ⟨hms, -⟩ := h
    exact absurd htimed.access (by simp [hms]))
  have h₁ : Drifts w w₁ := (Changes.of_served hs rfl).since (hD _ _ hdrift)
  obtain ⟨w₂, w₃, jti, hdrift, hs, h⟩ := h.granted (fun w e h => by cases h)
  have h₂ : Drifts w w₂ := h₁.afterwards (hD _ _ hdrift)
  have h₃ : Drifts w w₃ := h₂.afterwards (.of_served hs rfl)
  obtain ⟨hfresh, hdrawn⟩ : jti ∉ w₂.drawn ∧ jti ∈ w₃.drawn := by
    cases hs with
    | read _ _ answer => cases answer
    | drew id fresh => exact ⟨fresh, List.mem_cons_self⟩
  obtain ⟨w₄, w₅, token, hdrift, hs, h⟩ := h.granted (fun w e h => by
    obtain ⟨hms, -⟩ := h
    exact absurd (htimed.refresh.symm.trans hms) nofun)
  have h₄ : Drifts w w₄ := h₃.afterwards (hD _ _ hdrift)
  simp only [htimed.reads] at h
  cases hs with
  | read _ _ answer => cases answer
  | signedRefresh payload expiresIn text span reads fresh =>
  obtain rfl : seconds * 1000 = span := Option.some.inj (htimed.refresh.symm.trans reads)
  obtain ⟨w₆, w₇, _, hdrift', hs, h⟩ := h.granted (fun w e h => by
    exact absurd h.1 htimed.positive.ne')
  obtain ⟨rfl, hdrift''⟩ := h.done
  cases hs with
  | read _ _ answer => cases answer
  | stored key value _ positive =>
  refine ⟨_, ⟨token, ⟨user.id, jti⟩, w₄.now + seconds * 1000 / 1000⟩, rfl, rfl, rfl, ?_⟩
  have hlater : w₄.clock ≤ w₆.clock := (hD _ _ hdrift').later
  -- the key outlives the token
  have hspan : (w₄.now + seconds * 1000 / 1000) * 1000 ≤ w₆.clock + seconds * 1000 := by
    unfold World.now
    omega
  exact (Changes.granted ⟨token, ⟨user.id, jti⟩, w₄.now + seconds * 1000 / 1000⟩ h₄
      (fun hmem => hfresh (h₂.drawn _ hmem)) ((hD _ _ hdrift).drawn _ hdrawn)
    ⟨user, h₄.users user huser, rfl⟩ fresh rfl (hD _ _ hdrift') hspan rfl).afterwards (hD _ _ hdrift'')

/-- The transaction of a registration leaves the sessions alone, and a user if it does not throw. -/
theorem transaction_finishes (hD : ∀ w w', D w w' → Drifts w w') (hrefl : ∀ w, D w w)
    (hopen : ∀ w w', D w w' → w'.newUsers = w.newUsers) {email hashed : String} {r : Except Err User}
    (h : Finishes env i D (transaction do
      let created : User ← issue (.userCreate email hashed)
      let _ ← issue (.walletCreate created.id)
      return created) w r w') :
    Drifts w w' ∧ ∀ user, r = .ok user → user ∈ w'.users := by
  obtain ⟨r₁, w₁, hbody, h⟩ := h.of_attempt hrefl
  have hopened : Drifts w w₁ ∧ ∀ user, r₁ = .ok user → (i, user) ∈ w₁.newUsers := by
    obtain ⟨w₂, w₃, hdrift, ⟨created, hs, hbody⟩ | ⟨e, hs, -, rfl, hdrift'⟩⟩ := Finishes.issue hbody
    · have h₃ : Drifts w w₃ := (Changes.of_served hs rfl).since (hD _ _ hdrift)
      obtain ⟨w₄, w₅, hdrift', ⟨_, hs', hbody⟩ | ⟨e, hs', -, rfl, hdrift''⟩⟩ := hbody.issue
      · obtain ⟨rfl, hdrift''⟩ := hbody.done
        refine ⟨(h₃.afterwards ((Changes.of_served hs' rfl).since (hD _ _ hdrift'))).afterwards (hD _ _ hdrift''), ?_⟩
        rintro user heq
        cases heq
        -- the user waits in the transaction for the commit
        have hnew : (i, created) ∈ w₃.newUsers := by
          cases hs with
          | read _ _ answer => cases answer
          | userCreated => exact List.mem_append_right _ (List.mem_singleton.mpr rfl)
        have hsame : w₅.newUsers = w₄.newUsers := by
          cases hs' with
          | read _ _ answer => cases answer
          | walletCreated => rfl
        rwa [hopen _ _ hdrift'', hsame, hopen _ _ hdrift']
      · exact ⟨(h₃.afterwards ((Changes.of_served hs' rfl).since (hD _ _ hdrift'))).afterwards (hD _ _ hdrift''), nofun⟩
    · exact ⟨((Changes.of_served hs rfl).since (hD _ _ hdrift)).afterwards (hD _ _ hdrift'), nofun⟩
  obtain ⟨h₁, hnew⟩ := hopened
  cases r₁ with
  | ok user =>
    obtain ⟨w₂, w₃, _, hdrift, hs, h⟩ := Finishes.granted (fun w e h => by cases h) h
    obtain ⟨rfl, hdrift'⟩ := h.done
    refine ⟨(h₁.afterwards ((Changes.of_served hs rfl).since (hD _ _ hdrift))).afterwards (hD _ _ hdrift'), ?_⟩
    intro user' heq
    cases heq
    refine (hD _ _ hdrift').users user ?_
    cases hs with
    | read _ _ answer => cases answer
    | committed =>
      refine List.mem_append_right _ (List.mem_map.mpr ⟨(i, user), List.mem_filter.mpr ⟨?_, by simp⟩, rfl⟩)
      rw [hopen _ _ hdrift]
      exact hnew user rfl
  | error e =>
    obtain ⟨w₂, w₃, _, hdrift, hs, h⟩ := Finishes.granted (fun w e h => by cases h) h
    obtain ⟨rfl, hdrift'⟩ := h.fail
    exact ⟨(h₁.afterwards ((Changes.of_served hs rfl).since (hD _ _ hdrift))).afterwards (hD _ _ hdrift'), nofun⟩

theorem register_finishes (htimed : Timed env seconds) (hD : ∀ w w', D w w' → Drifts w w') (hrefl : ∀ w, D w w)
    (hopen : ∀ w w', D w w' → w'.newUsers = w.newUsers) {dto : RegisterDto} {r : Except Err AuthTokens}
    (h : Finishes env i D (register env dto) w r w') :
    (∃ t s, r = .ok t ∧ t.refreshToken = s.text ∧ Changes noKey (some s) w w') ∨
      ∃ e, r = .error e ∧ Drifts w w' := by
  obtain ⟨w₀, w₁, found, hdrift, hs, h⟩ := h.granted (fun w e h => by cases h)
  have h₁ : Drifts w w₁ := (Changes.of_served hs rfl).since (hD _ _ hdrift)
  cases found with
  | some user =>
    obtain ⟨rfl, hdrift'⟩ := h.fail
    exact Or.inr ⟨_, rfl, h₁.afterwards (hD _ _ hdrift')⟩
  | none =>
    obtain ⟨w₂, w₃, hashed, hdrift, hs, h⟩ := h.granted (fun w e h => by cases h)
    have h₃ : Drifts w w₃ := (h₁.afterwards (hD _ _ hdrift)).afterwards (.of_served hs rfl)
    rcases h.of_bind hrefl with ⟨user, w₄, htransaction, h⟩ | ⟨e, rfl, htransaction⟩
    · obtain ⟨h₄, huser⟩ := transaction_finishes hD hrefl hopen htransaction
      obtain ⟨t, s, hr, hs, -, hchanges⟩ := issueTokenPair_finishes htimed hD ⟨user, huser user rfl, rfl⟩ h
      exact Or.inl ⟨t, s, hr, hs, hchanges.since (h₃.afterwards h₄)⟩
    · exact Or.inr ⟨e, rfl, h₃.afterwards (transaction_finishes hD hrefl hopen htransaction).1⟩

theorem login_finishes (htimed : Timed env seconds) (hD : ∀ w w', D w w' → Drifts w w')
    {dto : LoginDto} {r : Except Err AuthTokens} (h : Finishes env i D (login env dto) w r w') :
    (∃ t s, r = .ok t ∧ t.refreshToken = s.text ∧ Changes noKey (some s) w w') ∨
      ∃ e, r = .error e ∧ Drifts w w' := by
  obtain ⟨w₀, w₁, found, hdrift, hs, h⟩ := h.granted (fun w e h => by cases h)
  have h₁ : Drifts w w₁ := (Changes.of_served hs rfl).since (hD _ _ hdrift)
  cases hs with
  | read _ _ answer =>
  cases found with
  | none =>
    obtain ⟨rfl, hdrift'⟩ := h.fail
    exact Or.inr ⟨_, rfl, h₁.afterwards (hD _ _ hdrift')⟩
  | some user =>
    have huser : user ∈ w₀.users := List.mem_of_find?_eq_some (Option.some.inj answer)
    obtain ⟨w₂, w₃, passes, hdrift, hs, h⟩ := h.granted (fun w e h => by cases h)
    have h₂ : Drifts w₀ w₃ := (Changes.of_served hs rfl).since (hD _ _ hdrift)
    cases passes with
    | false =>
      obtain ⟨rfl, hdrift'⟩ := h.fail
      exact Or.inr ⟨_, rfl, (h₁.afterwards h₂).afterwards (hD _ _ hdrift')⟩
    | true =>
      obtain ⟨t, s, hr, hs, -, hchanges⟩ := issueTokenPair_finishes htimed hD ⟨user, h₂.users user huser, rfl⟩ h
      exact Or.inl ⟨t, s, hr, hs, hchanges.since (h₁.afterwards h₂)⟩

theorem verifyRefreshToken_finishes {token : String} {ignoreExpiration : Bool}
    {r : Except Err RefreshTokenPayload}
    (h : Finishes env i D (verifyRefreshToken token ignoreExpiration) w r w') :
    ∃ w₁, D w w₁ ∧ D w₁ w' ∧
      ((∃ p exp, r = .ok p ∧ w₁.Signed token p exp ∧ (ignoreExpiration = false → w₁.now < exp)) ∨
        r = .error (.unauthorized "Invalid or expired refresh token") ∧
          ∀ p exp, w₁.Signed token p exp → ignoreExpiration = false ∧ exp ≤ w₁.now) := by
  obtain ⟨w₁, x, reply, w₂, hdrift, -, hexec, h⟩ := h.of_try
  have hs := World.Served.of_exec hexec
  cases hs with
  | read _ _ answer => cases answer
  | failed _ remote => cases remote
  | verified _ _ p exp genuine unexpired =>
    obtain ⟨rfl, hdrift'⟩ := Finishes.done h
    exact ⟨w₁, hdrift, hdrift', Or.inl ⟨p, exp, rfl, genuine, unexpired⟩⟩
  | refused _ e reason =>
    obtain ⟨rfl, hdrift'⟩ := Finishes.fail h
    exact ⟨w₁, hdrift, hdrift', Or.inr ⟨rfl, reason.2⟩⟩

/-- How a refresh of `token` takes the world from `w` to `w'`. -/
inductive Refreshes (D : World → World → Prop) (token : String) (w w' : World) : Except Err AuthTokens → Prop where
  | rejected {w₁ : World} (before : D w w₁) (bad : ∀ p exp, w₁.Signed token p exp → exp ≤ w₁.now)
      (after : D w₁ w') : Refreshes D token w w' (.error (.unauthorized "Invalid or expired refresh token"))
  | reused {w₁ w₂ w₃ w₄ : World} (p : RefreshTokenPayload) (exp : Nat) (before : D w w₁)
      (genuine : w₁.Signed token p exp) (unexpired : w₁.now < exp) (looks : D w₁ w₂)
      (gone : truthy (w₂.redisGet p.key) = false) (lists : D w₂ w₃) (deletes : D w₃ w₄)
      (after : D (w₄.redisDel (w₃.redisKeys (refreshPattern p.sub))) w') :
      Refreshes D token w w' (.error reuseDetected)
  | rotated {w₁ w₂ w₃ : World} (p : RefreshTokenPayload) (exp : Nat) (t : AuthTokens) (s : Minted)
      (before : D w w₁) (genuine : w₁.Signed token p exp) (unexpired : w₁.now < exp) (looks : D w₁ w₂)
      (found : truthy (w₂.redisGet p.key) = true) (deletes : D w₂ w₃)
      (after : Changes noKey (some s) (w₃.redisDel [p.key]) w') (text : t.refreshToken = s.text) :
      Refreshes D token w w' (.ok t)

theorem revokeAllSessions_finishes (hrefl : ∀ w, D w w) {sub : Uuid} {r : Except Err Unit}
    (h : Finishes env i D (revokeAllSessions sub) w r w') :
    r = .ok () ∧ ∃ w₁ w₂, D w w₁ ∧ D w₁ w₂ ∧ D (w₂.redisDel (w₁.redisKeys (refreshPattern sub))) w' := by
  obtain ⟨w₁, w₂, keys, hdrift, hs, h⟩ := h.granted (fun w e h => by cases h)
  cases hs with
  | read _ _ answer =>
  obtain rfl : w₁.redisKeys (refreshPattern sub) = keys := Option.some.inj answer
  by_cases hkeys : 0 < (w₁.redisKeys (refreshPattern sub)).length
  · have h : Finishes env i D ((issue (.redisDel (w₁.redisKeys (refreshPattern sub)))).bind fun _ => .done ())
        w₁ r w' := by
      rw [if_pos hkeys] at h
      exact h
    obtain ⟨w₂, w₃, _, hdrift', hs, h⟩ := h.granted (fun w e h => by cases h)
    obtain ⟨rfl, hdrift''⟩ := h.done
    cases hs with
    | read _ _ answer => cases answer
    | deleted keys => exact ⟨rfl, w₁, w₂, hdrift, hdrift', hdrift''⟩
  -- without keys nothing is deleted, which is to delete none
  · rw [if_neg hkeys] at h
    obtain ⟨rfl, hdrift'⟩ := Finishes.done h
    have hnone : w₁.redisKeys (refreshPattern sub) = [] := List.length_eq_zero_iff.mp (Nat.eq_zero_of_not_pos hkeys)
    have hsame : w₁.redisDel [] = w₁ := by simp [World.redisDel]
    exact ⟨rfl, w₁, w₁, hdrift, hrefl _, by rwa [hnone, hsame]⟩

theorem refresh_finishes (htimed : Timed env seconds) (hD : ∀ w w', D w w' → Drifts w w') (hrefl : ∀ w, D w w)
    (htrans : ∀ w w₁ w₂, D w w₁ → D w₁ w₂ → D w w₂) {token : String}
    (huser : ∀ p exp, w.Signed token p exp → ∃ user ∈ w.users, user.id = p.sub) {r : Except Err AuthTokens}
    (h : Finishes env i D (refresh env token) w r w') : Refreshes D token w w' r := by
  rcases h.of_bind hrefl with ⟨p, w₁, hverified, h⟩ | ⟨e, rfl, hrejected⟩
  rotate_left
  · obtain ⟨w₁, hdrift, hdrift', ⟨_, _, hr, _⟩ | ⟨hr, hbad⟩⟩ := verifyRefreshToken_finishes hrejected
    · cases hr
    · cases hr
      exact .rejected hdrift (fun p exp h => (hbad p exp h).2) hdrift'
  obtain ⟨w₂, hdrift, hdrift', ⟨_, exp, hr, hgenuine, hunexpired⟩ | ⟨hr, -⟩⟩ :=
    verifyRefreshToken_finishes hverified
  rotate_left
  · cases hr
  cases hr
  obtain ⟨w₃, w₄, found, hlooks, hs, h⟩ := Finishes.granted (fun w e h => by cases h) h
  have hlooks : D w₂ w₃ := htrans _ _ _ hdrift' hlooks
  cases hs with
  | read _ _ answer =>
  obtain rfl : w₃.redisGet p.key = found := Option.some.inj answer
  cases hfound : truthy (w₃.redisGet p.key) with
  | true =>
    have h : Finishes env i D (rotate env p) w₃ r w' := by
      rw [if_pos hfound] at h
      exact h
    obtain ⟨w₄, w₅, _, hdeletes, hs, h⟩ := h.granted (fun w e h => by cases h)
    cases hs with
    | read _ _ answer => cases answer
    | deleted keys =>
    obtain ⟨w₆, w₇, user, hfinds, hs, h⟩ := h.granted (fun w e h => by cases h)
    have h₆ : Drifts w w₄ :=
      (((hD _ _ hdrift).afterwards (hD _ _ hlooks)).afterwards (hD _ _ hdeletes))
    have huser₄ : ∃ user ∈ w₄.users, user.id = p.sub := by
      obtain ⟨user, hmem, hid⟩ := huser p exp (((hD _ _ hdrift).genuine hgenuine).resolve_right nofun)
      exact ⟨user, h₆.users user hmem, hid⟩
    cases hs with
    | read _ _ answer =>
    cases user with
    | none =>
      obtain ⟨user, hmem, hid⟩ := huser₄
      -- whom a token was signed for is a user for good
      have hnone := List.find?_eq_none.mp (Option.some.inj answer) user ((hD _ _ hfinds).users user hmem)
      simp [hid] at hnone
    | some user =>
      have hid : user.id = p.sub := by simpa using List.find?_some (Option.some.inj answer)
      have hmem : user ∈ w₆.users := List.mem_of_find?_eq_some (Option.some.inj answer)
      obtain ⟨t, s, rfl, htext, -, hchanges⟩ := issueTokenPair_finishes htimed hD ⟨user, hmem, rfl⟩ h
      exact .rotated p exp t s hdrift hgenuine (hunexpired rfl) hlooks hfound hdeletes
        (hchanges.since (hD _ _ hfinds)) htext
  | false =>
    rw [if_neg (by simp [hfound])] at h
    rcases h.of_bind hrefl with ⟨_, w₄, hrevoked, h⟩ | ⟨e, rfl, hrevoked⟩
    · obtain ⟨-, w₅, w₆, hlists, hdeletes, hafter⟩ := revokeAllSessions_finishes hrefl hrevoked
      obtain ⟨rfl, hdrift''⟩ := Finishes.fail h
      exact .reused p exp hdrift hgenuine (hunexpired rfl) hlooks hfound hlists hdeletes
        (htrans _ _ _ hafter hdrift'')
    · cases (revokeAllSessions_finishes hrefl hrevoked).1

theorem logout_finishes (hD : ∀ w w', D w w' → Drifts w w') (hrefl : ∀ w, D w w) {token : String}
    {r : Except Err Unit} (h : Finishes env i D (logout token) w r w') :
    (∃ p exp, w.Signed token p exp ∧ r = .ok () ∧ Changes (· = p.key) none w w') ∨
      (∀ p exp, ¬w.Signed token p exp) ∧ (∃ e, r = .error e) ∧ Drifts w w' := by
  rcases h.of_bind hrefl with ⟨p, w₁, hverified, h⟩ | ⟨e, rfl, hrejected⟩
  · obtain ⟨w₂, hdrift, hdrift', ⟨_, exp, hr, hgenuine, -⟩ | ⟨hr, -⟩⟩ := verifyRefreshToken_finishes hverified
    · cases hr
      obtain ⟨w₃, w₄, _, hdeletes, hs, h⟩ := Finishes.granted (fun w e h => by cases h) h
      obtain ⟨rfl, hafter⟩ := h.done
      have h₃ : Drifts w w₃ := (((hD _ _ hdrift).afterwards (hD _ _ hdrift')).afterwards (hD _ _ hdeletes))
      have hsigned : w.Signed token p exp := ((hD _ _ hdrift).genuine hgenuine).resolve_right nofun
      cases hs with
      | read _ _ answer => cases answer
      | deleted keys =>
        have hchanges := ((Changes.of_delete w₃ [p.key]).since h₃).afterwards (hD _ _ hafter)
        refine Or.inl ⟨p, exp, hsigned, rfl, ?_⟩
        simpa only [List.mem_singleton] using hchanges
    · cases hr
  · obtain ⟨w₁, hdrift, hdrift', ⟨_, _, hr, _⟩ | ⟨hr, hbad⟩⟩ := verifyRefreshToken_finishes hrejected
    · cases hr
    · refine Or.inr ⟨fun p exp hsigned => ?_, ⟨e, rfl⟩, (hD _ _ hdrift).afterwards (hD _ _ hdrift')⟩
      exact absurd (hbad p exp ((hD _ _ hdrift).signed hsigned)).1 nofun

end AuthService

/-! ## That a refresh returns -/

/-- There is always a text that has not been signed. -/
theorem World.exists_unsigned (w : World) : ∃ text, w.jwt? text = none := by
  have hinj : Function.Injective fun n => String.ofList (List.replicate n 'a') := by
    intro n m h
    have hlists := congrArg String.toList h
    simp only [String.toList_ofList] at hlists
    simpa using congrArg List.length hlists
  have : Infinite String := Infinite.of_injective _ hinj
  obtain ⟨text, htext⟩ := Infinite.exists_notMem_finset (w.signed.map (·.text)).toFinset
  refine ⟨text, List.find?_eq_none.mpr fun jwt hjwt => ?_⟩
  simp only [List.mem_toFinset, List.mem_map, not_exists, not_and] at htext
  simpa using htext jwt hjwt

namespace AuthService

variable {seconds i : Nat} {w : World}

/-- The handler can be run to its end. -/
def Returns {β : Type} (env : Settings) (i : Nat) (p : Service β) (w : World) : Prop :=
  ∃ r w', Finishes env i Eq p w r w'

theorem Returns.issue {β : Type} {o : Stmt} {f : o.Reply → Service β} {x : Choice} {v : o.Reply} {w₁ : World}
    (hx : succeeds x) (hexec : World.exec env.ms i o x w = some (.ok v, w₁)) (h : Returns env i (f v) w₁) :
    Returns env i ((Auth.issue o).bind f) w := by
  obtain ⟨r, w', h⟩ := h
  exact ⟨r, w', .call rfl hx hexec h⟩

theorem Returns.ended {β : Type} (r : Except Err β) : Returns env i (.ended r) w := by
  cases r with
  | ok a => exact ⟨_, _, Prog.Finishes.done a rfl⟩
  | error e => exact ⟨_, _, Prog.Finishes.fail e rfl⟩

theorem Returns.bind {β γ : Type} {p : Service β} {f : β → Service γ} (h : Returns env i p w)
    (hf : ∀ a w', Finishes env i Eq p w (.ok a) w' → Returns env i (f a) w') : Returns env i (p.bind f) w := by
  obtain ⟨r, w₁, h⟩ := h
  cases r with
  | ok a =>
    obtain ⟨r', w', h'⟩ := hf a w₁ h
    exact ⟨r', w', h.bind (fun _ _ _ h₁ h₂ => h₁.trans h₂) h'⟩
  | error e => exact ⟨.error e, w₁, h.bind_error⟩

theorem issueTokenPair_returns (htimed : Timed env seconds) (sub : Uuid) (role : Role) {jti : Uuid}
    (hjti : jti ∉ w.drawn) : Returns env i (issueTokenPair env sub role) w := by
  obtain ⟨span, hspan⟩ := Option.isSome_iff_exists.mp htimed.access
  have hsign : ∀ {w : World} {claims expiresIn text span}, env.ms expiresIn = some span → w.jwt? text = none →
      w.sign env.ms claims expiresIn text =
        some (.ok text, { w with signed := w.signed ++ [⟨text, claims, w.now + span / 1000⟩] }) := by
    intro w claims expiresIn text span hspan htext
    simp only [World.sign, hspan, htext, Option.isSome_none, Bool.false_eq_true, if_false]
  obtain ⟨access, haccess⟩ := w.exists_unsigned
  refine .issue (x := .text access) nofun (hsign hspan haccess) (.issue (x := .fresh jti) nofun (if_neg hjti) ?_)
  obtain ⟨token, htoken⟩ := World.exists_unsigned _
  refine .issue (x := .text token) nofun (hsign htimed.refresh htoken) ?_
  simp only [htimed.reads]
  exact .issue (x := .ok) nofun (congrArg some (if_neg htimed.positive.ne')) (.ended (.ok _))

theorem verifyRefreshToken_returns (token : String) (ignoreExpiration : Bool) :
    Returns env i (verifyRefreshToken token ignoreExpiration) w := by
  have hexec : World.exec env.ms i (.verifyRefresh token ignoreExpiration) .ok w =
      some (w.verifyRefresh token ignoreExpiration, w) := rfl
  cases hverify : w.verifyRefresh token ignoreExpiration with
  | ok p =>
    rw [hverify] at hexec
    exact ⟨.ok p, w, .call rfl (show succeeds .ok from nofun) hexec (Prog.Finishes.done p rfl)⟩
  | error e =>
    rw [hverify] at hexec
    exact ⟨_, w, .call rfl (show succeeds .ok from nofun) hexec (Prog.Finishes.fail _ rfl)⟩

theorem refresh_returns (htimed : Timed env seconds) (token : String) {jti : Uuid} (hjti : jti ∉ w.drawn) :
    Returns env i (refresh env token) w := by
  refine (verifyRefreshToken_returns token false).bind fun p w₁ hverified => ?_
  obtain ⟨w₂, rfl, rfl, -⟩ := verifyRefreshToken_finishes hverified
  refine .issue (x := .ok) nofun rfl ?_
  split
  · refine .issue (x := .ok) nofun rfl (.issue (x := .ok) nofun rfl ?_)
    split
    · exact .ended (.error _)
    · exact issueTokenPair_returns htimed _ _ hjti
  · refine .bind (.issue (x := .ok) nofun rfl ?_) fun _ w' _ => .ended (.error _)
    split
    · exact .issue (x := .ok) nofun rfl (.ended (.ok ()))
    · exact .ended (.ok ())

/-- A refresh that comes in can take all the steps to its answer, if there is an identifier left to draw. -/
theorem refresh_executes (htimed : Timed env seconds) (c : State) (token : String) {jti : Uuid}
    (hjti : jti ∉ c.world.drawn) :
    ∃ (xs : List Choice) (r : Except Err Response) (c' : State), (∀ x ∈ xs, succeeds x) ∧
      execute (system env).step ((system env).arrive c (.refresh token)) (xs.map (.exec c.calls.length)) = some c' ∧
      c'.calls[c.calls.length]?.bind Call.result? = some r := by
  obtain ⟨r, w', hfinishes⟩ : Returns env c.calls.length ((Request.refresh token).handler env) c.world :=
    (refresh_returns htimed token hjti).bind fun t _ _ => .ended (.ok (Response.tokens t))
  have hlast : ((system env).arrive c (.refresh token)).calls[c.calls.length]? =
      some ⟨.refresh token, (Request.refresh token).handler env, false⟩ := List.getElem?_concat_length
  obtain ⟨xs, hxs, hexecute⟩ := Platform.execute_of_finishes (P := system env) hfinishes hlast
  refine ⟨xs, r, _, hxs, hexecute, ?_⟩
  dsimp only
  rw [List.getElem?_set_self (List.getElem?_eq_some_iff.mp hlast).1]
  cases r <;> rfl

end AuthService

end FlashWallet.Auth
