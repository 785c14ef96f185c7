import FlashWallet.Lib.Machine
import FlashWallet.Model.AuthService

/-!
# What a statement of the authentication service can do

The inversion of `Auth.World.exec`, said once, as `Served` is for the other stores; then what it means
for each part of the world.
-/

set_option autoImplicit false

namespace FlashWallet.Auth

open Lib

variable {env : Settings}

namespace World

/-- The statements that only read, and what they read. -/
def read? (w : World) : (o : Stmt) → Option o.Reply
  | .userFindByEmail email => some (w.users.find? (·.email = email))
  | .userFindById id => some (w.users.find? (·.id = id))
  | .redisGet key => some (w.redisGet key)
  | .redisKeys pattern => some (w.redisKeys pattern)
  | _ => none

/-- The errors that are answers, with the reason for those the service ever looks into. -/
def Refuses (ms : String → Option Nat) (w : World) : Stmt → Err → Prop
  | .userCreate .., e => e = .uniqueViolation
  | .walletCreate _, e => e = .foreignKeyViolation ∨ e = .uniqueViolation
  | .signAccess _ expiresIn, e => ms expiresIn = none ∧ ∃ message, e = .error message
  | .signRefresh _ expiresIn, e => ms expiresIn = none ∧ ∃ message, e = .error message
  | .verifyRefresh token ignoreExpiration, e =>
    (∃ message, e = .error message) ∧ ∀ payload exp, w.jwt? token = some ⟨token, .refresh payload, exp⟩ →
      ignoreExpiration = false ∧ exp ≤ w.now
  | .redisSet _ _ seconds, e => seconds = 0 ∧ ∃ message, e = .error message
  | _, _ => False

/-- Call `i`'s statement `o` is answered `r` in `w`, leaving the world given last. -/
inductive Served (ms : String → Option Nat) (i : Nat) (w : World) :
    (o : Stmt) → Except Err o.Reply → World → Prop where
  | read (o : Stmt) (v : o.Reply) (answer : w.read? o = some v) : Served ms i w o (.ok v) w
  | failed (o : Stmt) (remote : o.isLocal = false) (open' : o ≠ .commit) :
      Served ms i w o (.error .unavailable) w
  | refused (o : Stmt) (e : Err) (reason : w.Refuses ms o e) : Served ms i w o (.error e) w
  | hashed (password text : String) : Served ms i w (.bcryptHash password) (.ok text) w
  | compared (password hash : String) (b : Bool) : Served ms i w (.bcryptCompare password hash) (.ok b) w
  | userCreated (email password : String) (row : User) (fresh : row.id ∉ w.drawn)
      (shape : row.email = email ∧ row.password = password ∧ row.role = .CUSTOMER) :
      Served ms i w (.userCreate email password) (.ok row)
        { w with newUsers := w.newUsers ++ [(i, row)], drawn := row.id :: w.drawn }
  | walletCreated (userId : Uuid) (row : Wallet) (fresh : row.id ∉ w.drawn) (user : row.userId = userId) :
      Served ms i w (.walletCreate userId) (.ok row)
        { w with newWallets := w.newWallets ++ [(i, row)], drawn := row.id :: w.drawn }
  | committed : Served ms i w .commit (.ok ()) (w.commit i)
  | commitFailed : Served ms i w .commit (.error .unavailable) (w.release i)
  | rolledBack : Served ms i w .rollback (.ok ()) (w.release i)
  | signedAccess (payload : AccessTokenPayload) (expiresIn text : String) (span : Nat)
      (reads : ms expiresIn = some span) (fresh : w.jwt? text = none) :
      Served ms i w (.signAccess payload expiresIn) (.ok text)
        { w with signed := w.signed ++ [⟨text, .access payload, w.now + span / 1000⟩] }
  | signedRefresh (payload : RefreshTokenPayload) (expiresIn text : String) (span : Nat)
      (reads : ms expiresIn = some span) (fresh : w.jwt? text = none) :
      Served ms i w (.signRefresh payload expiresIn) (.ok text)
        { w with signed := w.signed ++ [⟨text, .refresh payload, w.now + span / 1000⟩] }
  | verified (token : String) (ignoreExpiration : Bool) (payload : RefreshTokenPayload) (exp : Nat)
      (genuine : w.jwt? token = some ⟨token, .refresh payload, exp⟩)
      (unexpired : ignoreExpiration = false → w.now < exp) :
      Served ms i w (.verifyRefresh token ignoreExpiration) (.ok payload) w
  | drew (id : Uuid) (fresh : id ∉ w.drawn) :
      Served ms i w .randomUUID (.ok id) { w with drawn := id :: w.drawn }
  | stored (key value : String) (seconds : Nat) (positive : 0 < seconds) :
      Served ms i w (.redisSet key value seconds) (.ok ()) { w with
        redis := w.redis.filter (·.key ≠ key) ++ [⟨key, value, some (w.clock + seconds * 1000)⟩] }
  | deleted (keys : List String) :
      Served ms i w (.redisDel keys) (.ok (w.redis.filter (·.key ∈ keys)).length) (w.redisDel keys)

variable {ms : String → Option Nat} {w w' : World} {i : Nat}

theorem jwt?_eq_some {token : String} {jwt : Jwt} (h : w.jwt? token = some jwt) :
    jwt ∈ w.signed ∧ jwt.text = token :=
  ⟨List.mem_of_find?_eq_some h, by simpa using List.find?_some h⟩

theorem Served.of_sign {claims : Claims} {expiresIn text : String} {r : Except Err String}
    (h : w.sign ms claims expiresIn text = some (r, w')) :
    (∃ message, ms expiresIn = none ∧ r = .error (.error message) ∧ w' = w) ∨
      ∃ span, ms expiresIn = some span ∧ w.jwt? text = none ∧ r = .ok text ∧
        w' = { w with signed := w.signed ++ [⟨text, claims, w.now + span / 1000⟩] } := by
  unfold sign at h
  split at h
  · rename_i hms
    cases h
    exact Or.inl ⟨_, hms, rfl, rfl⟩
  · rename_i span hms
    split at h
    · cases h
    · rename_i hfresh
      cases h
      exact Or.inr ⟨span, hms, by simpa using hfresh, rfl, rfl⟩

theorem Served.of_verify {token : String} {ignoreExpiration : Bool}
    {r : Except Err RefreshTokenPayload} (h : w.verifyRefresh token ignoreExpiration = r) :
    Served ms i w (.verifyRefresh token ignoreExpiration) r w := by
  have hrefused : ∀ message, (∀ payload exp, w.jwt? token = some ⟨token, .refresh payload, exp⟩ →
      ignoreExpiration = false ∧ exp ≤ w.now) →
      Served ms i w (.verifyRefresh token ignoreExpiration) (.error (.error message)) w :=
    fun message hno => .refused (.verifyRefresh token ignoreExpiration) _ ⟨⟨message, rfl⟩, hno⟩
  unfold verifyRefresh at h
  split at h
  · rename_i text payload exp hjwt
    obtain rfl : text = token := (jwt?_eq_some hjwt).2
    split at h
    · rename_i hexpired
      subst h
      refine hrefused _ fun payload' exp' hjwt' => ?_
      cases hjwt.symm.trans hjwt'
      exact hexpired
    · rename_i hlive
      subst h
      refine .verified text ignoreExpiration payload exp hjwt fun hexp => ?_
      exact Nat.not_le.mp fun hle => hlive ⟨hexp, hle⟩
  · rename_i hforged
    subst h
    exact hrefused _ fun payload exp hjwt => absurd hjwt (hforged _ _ _)

theorem Served.of_redisSet {key value : String} {seconds : Nat} {r : Except Err Unit}
    (h : w.redisSet key value seconds = (r, w')) : Served ms i w (.redisSet key value seconds) r w' := by
  unfold redisSet at h
  split at h
  · rename_i hzero
    obtain ⟨rfl, rfl⟩ := Prod.mk.inj h
    exact .refused (.redisSet key value seconds) _ ⟨hzero, _, rfl⟩
  · rename_i hpositive
    obtain ⟨rfl, rfl⟩ := Prod.mk.inj h
    exact .stored key value seconds (Nat.pos_of_ne_zero hpositive)

theorem Served.of_serve {o : Stmt} {r : Except Err o.Reply} (h : w.serve i o = some (r, w')) :
    Served ms i w o r w' := by
  cases o with
  | userFindByEmail | userFindById | redisGet | redisKeys => cases h; exact .read _ _ rfl
  | commit => cases h; exact .committed
  | rollback => cases h; exact .rolledBack
  | verifyRefresh token ignoreExpiration => cases h; exact .of_verify rfl
  | redisSet key value seconds => exact .of_redisSet (Option.some.inj h)
  | redisDel keys => cases h; exact .deleted keys
  | _ => cases h

theorem Served.of_userCreate {id : Uuid} {email password : String} {r : Except Err User}
    (fresh : id ∉ w.drawn) (h : w.userCreate i id email password = some (r, w')) :
    Served ms i w (.userCreate email password) r w' := by
  unfold userCreate at h
  split at h
  · cases h
  split at h
  · obtain ⟨rfl, rfl⟩ := Prod.mk.inj (Option.some.inj h)
    exact .refused (.userCreate email password) _ rfl
  · obtain ⟨rfl, rfl⟩ := Prod.mk.inj (Option.some.inj h)
    exact .userCreated email password ⟨id, email, password, .CUSTOMER⟩ fresh ⟨rfl, rfl, rfl⟩

theorem Served.of_walletCreate {id userId : Uuid} {r : Except Err Wallet} (fresh : id ∉ w.drawn)
    (h : w.walletCreate i id userId = some (r, w')) : Served ms i w (.walletCreate userId) r w' := by
  unfold walletCreate at h
  split at h
  · cases h
  split at h
  · obtain ⟨rfl, rfl⟩ := Prod.mk.inj (Option.some.inj h)
    exact .refused (.walletCreate userId) _ (Or.inl rfl)
  split at h
  · obtain ⟨rfl, rfl⟩ := Prod.mk.inj (Option.some.inj h)
    exact .refused (.walletCreate userId) _ (Or.inr rfl)
  · obtain ⟨rfl, rfl⟩ := Prod.mk.inj (Option.some.inj h)
    exact .walletCreated userId ⟨id, userId, ⟨0, by decide⟩, 0⟩ fresh rfl

theorem Served.of_draw {o : Stmt} {id : Uuid} {r : Except Err o.Reply} (fresh : id ∉ w.drawn)
    (h : w.draw i id o = some (r, w')) : Served ms i w o r w' := by
  cases o with
  | randomUUID => cases h; exact .drew id fresh
  | userCreate email password => exact .of_userCreate fresh h
  | walletCreate userId => exact .of_walletCreate fresh h
  | _ => cases h

theorem Served.of_write {o : Stmt} {text : String} {r : Except Err o.Reply}
    (h : w.write ms text o = some (r, w')) : Served ms i w o r w' := by
  cases o with
  | bcryptHash password => cases h; exact .hashed password text
  | signAccess payload expiresIn =>
    rcases Served.of_sign h with ⟨message, hms, rfl, rfl⟩ | ⟨span, hms, hfresh, rfl, rfl⟩
    · exact .refused (.signAccess payload expiresIn) _ ⟨hms, message, rfl⟩
    · exact .signedAccess payload expiresIn text span hms hfresh
  | signRefresh payload expiresIn =>
    rcases Served.of_sign h with ⟨message, hms, rfl, rfl⟩ | ⟨span, hms, hfresh, rfl, rfl⟩
    · exact .refused (.signRefresh payload expiresIn) _ ⟨hms, message, rfl⟩
    · exact .signedRefresh payload expiresIn text span hms hfresh
  | _ => cases h

theorem Served.of_fail {o : Stmt} {r : Except Err o.Reply} (h : w.fail i o = some (r, w')) :
    Served ms i w o r w' := by
  cases o with
  | commit => cases h; exact .commitFailed
  | _ => first | (cases h; exact .failed _ rfl (by simp)) | cases h

/-- **The inversion of `exec`.** -/
theorem Served.of_exec {o : Stmt} {x : Choice} {r : Except Err o.Reply}
    (h : World.exec ms i o x w = some (r, w')) : Served ms i w o r w' := by
  cases x with
  | ok => exact .of_serve h
  | fault => exact .of_fail h
  | fresh id =>
    simp only [exec] at h
    split at h
    · cases h
    · rename_i fresh
      exact .of_draw fresh h
  | text s => exact .of_write h
  | verdict b =>
    cases o with
    | bcryptCompare password hash => cases h; exact .compared password hash b
    | _ => cases h

/-! ### One part of the world at a time -/

theorem drawn_served {o : Stmt} {r : Except Err o.Reply} (hs : Served ms i w o r w') {id : Uuid}
    (h : id ∈ w.drawn) : id ∈ w'.drawn := by
  cases hs with
  | userCreated | walletCreated | drew => exact List.mem_cons_of_mem _ h
  | _ => exact h

/-- What a statement does to Redis. -/
theorem redis_served {o : Stmt} {r : Except Err o.Reply} (hs : Served ms i w o r w') :
    w'.redis = w.redis ∨
      (∃ key value seconds, o = .redisSet key value seconds ∧ w'.redis = w.redis.filter (·.key ≠ key) ++
        [⟨key, value, some (w.clock + seconds * 1000)⟩]) ∨
      ∃ keys, o = .redisDel keys ∧ w'.redis = w.redis.filter (·.key ∉ keys) := by
  cases hs with
  | stored key value seconds => exact Or.inr (Or.inl ⟨key, value, seconds, rfl, rfl⟩)
  | deleted keys => exact Or.inr (Or.inr ⟨keys, rfl, rfl⟩)
  | _ => exact Or.inl rfl

/-- A token that has been signed stays as it is. -/
theorem jwt?_append {token : String} {jwt jwt' : Jwt} (h : w.jwt? token = some jwt) :
    ({ w with signed := w.signed ++ [jwt'] } : World).jwt? token = some jwt := by
  show (w.signed ++ [jwt']).find? _ = some jwt
  rw [List.find?_append, show w.signed.find? _ = some jwt from h]
  rfl

/-- A token that is new is what it was signed for. -/
theorem jwt?_signed {jwt : Jwt} (h : w.jwt? jwt.text = none) :
    ({ w with signed := w.signed ++ [jwt] } : World).jwt? jwt.text = some jwt := by
  show (w.signed ++ [jwt]).find? _ = some jwt
  rw [List.find?_append, show w.signed.find? _ = none from h]
  simp

theorem jwt?_served {o : Stmt} {r : Except Err o.Reply} (hs : Served ms i w o r w') {token : String}
    {jwt : Jwt} (h : w.jwt? token = some jwt) : w'.jwt? token = some jwt := by
  cases hs with
  | signedAccess | signedRefresh => exact jwt?_append h
  | _ => exact h

end World

theorem drawn_env {e : Env} {w w' : World} (he : e.run w = some w') : w'.drawn = w.drawn := by
  cases e with
  | foreign row =>
    simp only [Env.run] at he
    split at he <;> cases he
    rfl
  | _ => cases he; rfl

theorem jwt?_env {e : Env} {w w' : World} (he : e.run w = some w') (token : String) :
    w'.jwt? token = w.jwt? token := by
  cases e with
  | foreign row =>
    simp only [Env.run] at he
    split at he <;> cases he
    rfl
  | _ => cases he; rfl

/-- The environment adds no session. -/
theorem redis_env {e : Env} {w w' : World} (he : e.run w = some w') {row : RedisRow} (h : row ∈ w'.redis) :
    row ∈ w.redis ∨ isSession row.key = false := by
  cases e with
  | tick ms => cases he; exact Or.inl (List.mem_of_mem_filter h)
  | evict key => cases he; exact Or.inl (List.mem_of_mem_filter h)
  | deleteUser id => cases he; exact Or.inl h
  | foreign row' =>
    simp only [Env.run] at he
    split at he
    · cases he
    · rename_i hforeign
      cases he
      rcases List.mem_append.mp h with h | h
      · exact Or.inl (List.mem_of_mem_filter h)
      · obtain rfl := List.mem_singleton.mp h
        exact Or.inr (by simpa using hforeign)

/-! ## The keys of the service -/

theorem Uuid.literal {u : Uuid} {c : Char} (hc : c ∈ u.text.toList) : Glob.Literal c := by
  have h := u.wellFormed
  simp only [isUuid, Bool.and_eq_true, List.all_eq_true] at h
  obtain ⟨n, hn, rfl⟩ := List.getElem_of_mem hc
  have hcn := h.2 (u.text.toList[n], n) (List.mem_zipIdx_iff_getElem?.mpr (List.getElem?_eq_getElem hn))
  have hdigit : u.text.toList[n] = '-' ∨ (u.text.toList[n].isDigit ||
      ('a' ≤ u.text.toList[n] && u.text.toList[n] ≤ 'f') ||
      ('A' ≤ u.text.toList[n] && u.text.toList[n] ≤ 'F')) = true := by
    dsimp only at hcn
    split at hcn
    · exact Or.inl (by simpa using hcn)
    · exact Or.inr hcn
  revert hdigit
  generalize u.text.toList[n] = c
  rintro (rfl | hc)
  · decide
  · refine ⟨?_, ?_, ?_, ?_⟩ <;> rintro rfl <;> revert hc <;> decide

theorem refreshPattern_literal (userId : Uuid) :
    ∀ c ∈ ("refresh:" ++ userId.text ++ ":").toList, Glob.Literal c := by
  intro c hc
  rw [String.toList_append, String.toList_append, List.mem_append, List.mem_append] at hc
  rcases hc with (hc | hc) | hc
  · have hprefix : ("refresh:".toList.all fun c => decide (Glob.Literal c)) = true := by decide
    exact of_decide_eq_true (List.all_eq_true.mp hprefix c hc)
  · exact Uuid.literal hc
  · have hcolon : (":".toList.all fun c => decide (Glob.Literal c)) = true := by decide
    exact of_decide_eq_true (List.all_eq_true.mp hcolon c hc)

/-- **The wildcard is exact**: the pattern of a user matches the keys of the user's sessions and no
others. -/
theorem isMatch_refreshKey (userId userId' jti : Uuid) :
    Glob.isMatch (refreshPattern userId) (refreshKey userId' jti) = true ↔ userId' = userId := by
  rw [refreshPattern, Glob.isMatch_star (refreshPattern_literal userId)]
  simp only [refreshKey, String.toList_append]
  constructor
  · rintro ⟨t, ht⟩
    have hlen : ("refresh:".toList ++ userId.text.toList).length =
        ("refresh:".toList ++ userId'.text.toList).length := by
      simp [userId.length_toList, userId'.length_toList]
    rw [List.append_assoc, List.append_assoc ("refresh:".toList ++ userId'.text.toList)] at ht
    have hsame := (List.append_inj ht hlen).1
    obtain ⟨text, hwell⟩ := userId
    obtain ⟨text', hwell'⟩ := userId'
    obtain rfl : text = text' := String.toList_injective (List.append_cancel_left hsame)
    rfl
  · rintro rfl
    exact ⟨jti.text.toList, rfl⟩

theorem refreshKey_inj {userId userId' jti jti' : Uuid} (h : refreshKey userId jti = refreshKey userId' jti') :
    userId = userId' ∧ jti = jti' := by
  have huser : userId' = userId :=
    (isMatch_refreshKey userId userId' jti').mp (h ▸ (isMatch_refreshKey userId userId jti).mpr rfl)
  subst huser
  refine ⟨rfl, ?_⟩
  have htext := congrArg String.toList h
  simp only [refreshKey, String.toList_append] at htext
  obtain ⟨text, hwell⟩ := jti
  obtain ⟨text', hwell'⟩ := jti'
  obtain rfl : text = text' := String.toList_injective (List.append_cancel_left htext)
  rfl

theorem isSession_refreshKey (userId jti : Uuid) : isSession (refreshKey userId jti) = true := by
  simp only [isSession, refreshKey, String.toList_append, List.append_assoc]
  exact List.isPrefixOf_iff_prefix.mpr ⟨_, rfl⟩

end FlashWallet.Auth
