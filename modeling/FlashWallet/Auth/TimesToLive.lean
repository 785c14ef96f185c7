import FlashWallet.Proof.AuthRuns
import FlashWallet.Proof.AuthCalls

/-!
# How long a session and its token live

One setting is read twice: by the token library when the refresh token is signed, and by `ttlToSeconds`
when its session is stored. The two readings come to the same where the setting names a unit.
-/

set_option autoImplicit false

namespace FlashWallet.Auth

open Lib

variable {env : Settings}

/-- How the token library reads a duration, if it reads it at all: a number with a unit in that unit, and a
bare number in milliseconds. -/
def ReadsDurations (ms : String → Option Nat) : Prop :=
  ∀ value digits unit multiplier span, trim value.toList = digits ++ unit → digits ≠ [] →
    (∀ c ∈ digits, c.isDigit = true) → multiplier? unit = some multiplier → ms value = some span →
    span = parseInt digits * if unit = [] then 1 else multiplier * 1000

/-- The setting names a unit. -/
def HasUnit (value : String) : Prop := (trim value.toList).dropWhile Char.isDigit ≠ []

instance (value : String) : Decidable (HasUnit value) := inferInstanceAs (Decidable (_ ≠ []))

/-- Every pair that is issued has a refresh token and a session that live equally long, in seconds. -/
def LiveEquallyLong (env : Settings) : Prop :=
  ∀ i sub role w w' t, Finishes env i Eq (AuthService.issueTokenPair env sub role) w (.ok t) w' →
    ∃ jti lifetime, w'.Signed t.refreshToken ⟨sub, jti⟩ (w.now + lifetime) ∧
      (⟨refreshKey sub jti, "1", some (w.clock + lifetime * 1000)⟩ : RedisRow) ∈ w'.redis

theorem unit_of_multiplier {unit : List Char} {multiplier : Nat} (h : multiplier? unit = some multiplier) :
    0 < multiplier ∧ ∀ c ∈ unit, c.isDigit = false ∧ isTrimmed c = false := by
  unfold multiplier? at h
  split at h
  · cases h
    exact ⟨Nat.one_pos, nofun⟩
  all_goals first
    | cases h; done
    | cases h
      refine ⟨by decide, fun c hc => ?_⟩
      obtain rfl := List.mem_singleton.mp hc
      decide

/-- A text without blanks is left as it is. -/
theorem trim_eq_self {cs : List Char} (h : ∀ c ∈ cs, isTrimmed c = false) : trim cs = cs := by
  have hstart : ∀ cs : List Char, (∀ c ∈ cs, isTrimmed c = false) → cs.dropWhile isTrimmed = cs := by
    intro cs h
    cases cs with
    | nil => rfl
    | cons c cs => exact List.dropWhile_cons_of_neg (by simp [h c List.mem_cons_self])
  unfold trim
  rw [hstart cs h, hstart cs.reverse fun c hc => h c (List.mem_reverse.mp hc), List.reverse_reverse]

/-- Digits and a unit are told apart. -/
theorem digits_and_unit {digits unit : List Char} {multiplier : Nat} (hdigits : ∀ c ∈ digits, c.isDigit = true)
    (hunit : multiplier? unit = some multiplier) :
    (digits ++ unit).takeWhile Char.isDigit = digits ∧ (digits ++ unit).dropWhile Char.isDigit = unit ∧
      trim (digits ++ unit) = digits ++ unit := by
  have hletters := (unit_of_multiplier hunit).2
  have hnone : unit.takeWhile Char.isDigit = [] ∧ unit.dropWhile Char.isDigit = unit := by
    cases unit with
    | nil => exact ⟨rfl, rfl⟩
    | cons c cs => simp [(hletters c List.mem_cons_self).1]
  rw [List.takeWhile_append_of_pos hdigits, List.dropWhile_append_of_pos hdigits, hnone.1, List.append_nil]
  refine ⟨rfl, hnone.2, trim_eq_self fun c hc => ?_⟩
  rcases List.mem_append.mp hc with hc | hc
  · exact isTrimmed_of_isDigit (hdigits c hc)
  · exact (hletters c hc).2

/-- What a text that is accepted is made of. -/
theorem ttlToSeconds_eq_ok {value : String} {seconds : Nat} (h : ttlToSeconds value = .ok seconds) :
    ∃ digits unit multiplier, trim value.toList = digits ++ unit ∧ digits ≠ [] ∧
      (∀ c ∈ digits, c.isDigit = true) ∧ multiplier? unit = some multiplier ∧
      seconds = parseInt digits * multiplier ∧ (HasUnit value ↔ unit ≠ []) := by
  simp only [ttlToSeconds] at h
  split at h
  · rename_i multiplier hmultiplier
    split at h
    · cases h
    · rename_i hdigits
      cases h
      refine ⟨_, _, multiplier, List.takeWhile_append_dropWhile.symm, hdigits, fun c hc => ?_, hmultiplier, rfl,
        Iff.rfl⟩
      exact List.all_eq_true.mp List.all_takeWhile c hc
  · cases h

/-- **The two readings**: the library makes of an accepted text with a unit what the service makes of it, and
of a bare number a thousandth part. -/
theorem seconds_eq_iff (hms : ReadsDurations env.ms) {value : String} {seconds span : Nat}
    (haccepts : ttlToSeconds value = .ok seconds) (hpositive : 0 < seconds) (hspan : env.ms value = some span) :
    seconds = span / 1000 ↔ HasUnit value := by
  obtain ⟨digits, unit, multiplier, htext, hdigits, hall, hmultiplier, rfl, hunit⟩ := ttlToSeconds_eq_ok haccepts
  have hreads := hms value digits unit multiplier span htext hdigits hall hmultiplier hspan
  rw [hunit]
  by_cases hnone : unit = []
  · subst hnone
    obtain rfl : 1 = multiplier := Option.some.inj hmultiplier
    simp only [if_true, Nat.mul_one] at hreads hpositive ⊢
    subst hreads
    refine ⟨fun heq => ?_, fun h => absurd rfl h⟩
    omega
  · rw [if_neg hnone, ← Nat.mul_assoc] at hreads
    subst hreads
    simp [hnone]

namespace AuthService

variable {i : Nat} {w w' : World} {sub : Uuid} {role : Role}

/-- What a pair that is issued leaves. -/
theorem issueTokenPair_ok {t : AuthTokens} (h : Finishes env i Eq (issueTokenPair env sub role) w (.ok t) w') :
    ∃ jti span seconds, env.ms env.refreshTtl = some span ∧ ttlToSeconds env.refreshTtl = .ok seconds ∧
      w'.Signed t.refreshToken ⟨sub, jti⟩ (w.now + span / 1000) ∧
      w'.redis = w.redis.filter (·.key ≠ refreshKey sub jti) ++
        [⟨refreshKey sub jti, "1", some (w.clock + seconds * 1000)⟩] := by
  obtain ⟨_, w₁, rfl, ⟨access, hs, h⟩ | ⟨_, _, _, hr, _⟩⟩ := h.issue
  rotate_left
  · cases hr
  cases hs with
  | read _ _ answer => cases answer
  | signedAccess _ _ _ span₀ _ fresh₀ =>
  obtain ⟨_, w₂, rfl, ⟨jti, hs, h⟩ | ⟨_, _, _, hr, _⟩⟩ := h.issue
  rotate_left
  · cases hr
  cases hs with
  | read _ _ answer => cases answer
  | drew id fresh =>
  obtain ⟨_, w₃, rfl, ⟨token, hs, h⟩ | ⟨_, _, _, hr, _⟩⟩ := h.issue
  rotate_left
  · cases hr
  cases hs with
  | read _ _ answer => cases answer
  | signedRefresh _ _ _ span reads fresh' =>
  cases httl : ttlToSeconds env.refreshTtl with
  | error e =>
    simp only [httl] at h
    cases (Finishes.fail h).1
  | ok seconds =>
    simp only [httl] at h
    obtain ⟨_, w₄, rfl, ⟨_, hs, h⟩ | ⟨_, _, _, hr, _⟩⟩ := Finishes.issue h
    rotate_left
    · cases hr
    cases hs with
    | read _ _ answer => cases answer
    | stored _ _ _ positive =>
    obtain ⟨ht, rfl⟩ := Finishes.done h
    cases ht
    have hsigned := @World.jwt?_signed _ ⟨token, .refresh ⟨sub, jti⟩, w.now + span / 1000⟩ fresh'
    exact ⟨jti, span, seconds, reads, rfl, hsigned, rfl⟩

/-- A pair can be issued. -/
theorem exists_issueTokenPair {seconds span : Nat} (haccess : (env.ms env.accessTtl).isSome = true)
    (hspan : env.ms env.refreshTtl = some span) (hseconds : ttlToSeconds env.refreshTtl = .ok seconds)
    (hpositive : 0 < seconds) (i : Nat) (sub jti : Uuid) (role : Role) :
    ∃ t w', Finishes env i Eq (issueTokenPair env sub role) World.initial (.ok t) w' := by
  have hissue : ∀ {β : Type} {o : Stmt} {f : o.Reply → Service β} {x : Choice} {v : o.Reply} {w w₁ : World},
      succeeds x → World.exec env.ms i o x w = some (.ok v, w₁) → (∃ a w', Finishes env i Eq (f v) w₁ (.ok a) w') →
      ∃ a w', Finishes env i Eq ((issue o).bind f) w (.ok a) w' := by
    rintro β o f x v w w₁ hx hexec ⟨a, w', h⟩
    exact ⟨a, w', .call rfl hx hexec h⟩
  obtain ⟨span₀, hspan₀⟩ := Option.isSome_iff_exists.mp haccess
  have hsign : ∀ {w : World} {claims expiresIn text span}, env.ms expiresIn = some span → w.jwt? text = none →
      w.sign env.ms claims expiresIn text =
        some (.ok text, { w with signed := w.signed ++ [⟨text, claims, w.now + span / 1000⟩] }) := by
    intro w claims expiresIn text span hspan htext
    simp only [World.sign, hspan, htext, Option.isSome_none, Bool.false_eq_true, if_false]
  refine hissue (x := .text "access") (by rintro ⟨⟩) (hsign hspan₀ rfl) (hissue (x := .fresh jti) (by rintro ⟨⟩) rfl ?_)
  refine hissue (x := .text "refresh") (by rintro ⟨⟩) (hsign hspan rfl) ?_
  simp only [hseconds]
  refine hissue (x := .ok) (by rintro ⟨⟩) (congrArg some (if_neg hpositive.ne')) ?_
  exact ⟨_, _, Prog.Finishes.done _ rfl⟩

end AuthService

/-- A setting under which all live equally long is one that the service reads as the library does. -/
theorem LiveEquallyLong.seconds_eq (hlive : LiveEquallyLong env) {seconds span : Nat}
    (haccess : (env.ms env.accessTtl).isSome = true) (hspan : env.ms env.refreshTtl = some span)
    (haccepts : ttlToSeconds env.refreshTtl = .ok seconds) (hpositive : 0 < seconds) : seconds = span / 1000 := by
  obtain ⟨t, w', hissued⟩ := AuthService.exists_issueTokenPair haccess hspan haccepts hpositive 0 Trial.alice
    Trial.jti₁ .CUSTOMER
  obtain ⟨jti, lifetime, hsigned, hrow⟩ := hlive _ _ _ _ _ _ hissued
  obtain ⟨jti', span', seconds', hspan', hseconds', hsigned', hredis⟩ := AuthService.issueTokenPair_ok hissued
  cases hspan.symm.trans hspan'
  cases haccepts.symm.trans hseconds'
  have hlifetime : lifetime = span / 1000 := Nat.add_left_cancel (hsigned.inj hsigned').2
  have hrow : (⟨refreshKey Trial.alice jti, "1", some (World.initial.clock + lifetime * 1000)⟩ : RedisRow) ∈
      [⟨refreshKey Trial.alice jti', "1", some (World.initial.clock + seconds * 1000)⟩] := by
    rw [hredis] at hrow
    exact hrow
  have hexpires := congrArg RedisRow.expiresAt (List.mem_singleton.mp hrow)
  simp only [Option.some.injEq] at hexpires
  omega

/-- **Sessions and tokens live equally long where the setting names a unit**, or where the library does not
read it, and nothing is issued. -/
theorem live_equally_long (hms : ReadsDurations env.ms) {seconds : Nat}
    (haccepts : ttlToSeconds env.refreshTtl = .ok seconds) (hpositive : 0 < seconds)
    (haccess : (env.ms env.accessTtl).isSome = true) :
    LiveEquallyLong env ↔ HasUnit env.refreshTtl ∨ env.ms env.refreshTtl = none := by
  constructor
  · intro hlive
    cases hspan : env.ms env.refreshTtl with
    | none => exact Or.inr rfl
    | some span =>
      have hsame := hlive.seconds_eq haccess hspan haccepts hpositive
      exact Or.inl ((seconds_eq_iff hms haccepts hpositive hspan).mp hsame)
  · intro hunit i sub role w w' t hissued
    obtain ⟨jti, span, seconds', hspan, hseconds, hsigned, hredis⟩ := AuthService.issueTokenPair_ok hissued
    cases haccepts.symm.trans hseconds
    rcases hunit with hunit | hnone
    · have hsame := (seconds_eq_iff hms haccepts hpositive hspan).mpr hunit
      refine ⟨jti, span / 1000, hsigned, ?_⟩
      rw [hredis, ← hsame]
      exact List.mem_append_right _ (List.mem_singleton.mpr rfl)
    · cases hspan.symm.trans hnone

namespace Trial

/-- How the library reads what it reads: no unit, or one of the four. -/
def reads (value : String) : Option Nat :=
  (multiplier? (value.toList.dropWhile Char.isDigit)).map fun multiplier =>
    parseInt (value.toList.takeWhile Char.isDigit) *
      if value.toList.dropWhile Char.isDigit = [] then 1 else multiplier * 1000

def sevenDays : Settings := ⟨"15m", "7d", reads⟩

def bare : Settings := ⟨"15m", "604800", reads⟩

theorem readsDurations_reads : ReadsDurations reads := by
  intro value digits unit multiplier span htext hdigits hall hmultiplier hspan
  obtain ⟨multiplier', hmultiplier', rfl⟩ := Option.map_eq_some_iff.mp hspan
  have hsplit : value.toList = value.toList.takeWhile Char.isDigit ++ value.toList.dropWhile Char.isDigit :=
    List.takeWhile_append_dropWhile.symm
  -- what it reads has no blanks
  have hall' : ∀ c ∈ value.toList.takeWhile Char.isDigit, c.isDigit = true :=
    List.all_eq_true.mp List.all_takeWhile
  have htrim : trim value.toList = value.toList := by
    have h := (digits_and_unit hall' hmultiplier').2.2
    rwa [← hsplit] at h
  rw [htrim] at htext
  obtain ⟨htake, hdrop, -⟩ := digits_and_unit hall hmultiplier
  rw [htext, hdrop] at hmultiplier'
  rw [htext, htake, hdrop, Option.some.inj (hmultiplier'.symm.trans hmultiplier)]

end Trial

open Trial

/-- A week, with its unit. -/
theorem live_equally_long_sevenDays : LiveEquallyLong sevenDays := by
  have haccepts : ttlToSeconds sevenDays.refreshTtl = .ok 604800 := by decide
  exact (live_equally_long readsDurations_reads haccepts (by decide) (by decide)).mpr (Or.inl (by decide))

/-- A week in seconds: the session lives so long, the token ten minutes. -/
theorem not_live_equally_long_bare : ttlToSeconds bare.refreshTtl = .ok 604800 ∧ ¬LiveEquallyLong bare := by
  have haccepts : ttlToSeconds bare.refreshTtl = .ok 604800 := by decide
  have hspan : bare.ms bare.refreshTtl = some 604800 := by decide
  refine ⟨haccepts, fun hlive => ?_⟩
  exact absurd (hlive.seconds_eq (by decide) hspan haccepts (by decide)) (by decide)

end FlashWallet.Auth
