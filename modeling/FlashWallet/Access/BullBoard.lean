import FlashWallet.Model.AccessControl

/-!
# Bull Board and the ADMIN routes

The middleware says that it protects Bull Board the same way the guards protect an ADMIN route. It reads
the header in its own way, and asks less of the payload: the two admit the same requests where both
read the same token, and no ADMIN payload lacks its `sub`.
-/

set_option autoImplicit false

namespace FlashWallet.Access

open BullBoardAdminMiddleware (use bearerToken)

/-- Both let the request in, or neither does. -/
def Agree (verify : Verify) (authorization : Option String) : Prop :=
  use verify authorization = .ok () ↔ guardedRoute [ADMIN] verify authorization = .ok ()

instance (verify : Verify) (authorization : Option String) : Decidable (Agree verify authorization) :=
  inferInstanceAs (Decidable (_ ↔ _))

theorem use_eq_ok {verify : Verify} {authorization : Option String} :
    use verify authorization = .ok () ↔ ∃ token payload, bearerToken authorization = some token ∧ token ≠ "" ∧
      verify token = some payload ∧ payload.role = ADMIN := by
  unfold use
  cases hbearer : bearerToken authorization with
  | none => simp
  | some token =>
    by_cases htoken : token = ""
    · simp [htoken]
    · cases hverify : verify token with
      | none => simp [htoken, hverify]
      | some payload => by_cases hrole : payload.role = ADMIN <;> simp [htoken, hverify, hrole]

theorem guardedRoute_eq_ok {verify : Verify} {authorization : Option String} :
    guardedRoute [ADMIN] verify authorization = .ok () ↔ ∃ token payload,
      fromAuthHeaderAsBearerToken authorization = some token ∧ verify token = some payload ∧
      payload.role = ADMIN ∧ payload.sub.truthy = true := by
  unfold guardedRoute JwtAuthGuard.canActivate
  cases hextracted : fromAuthHeaderAsBearerToken authorization with
  | none => simp
  | some token =>
    cases hverify : verify token with
    | none => simp [hverify]
    | some payload =>
      by_cases hrole : payload.role = ADMIN
      · have hadmin : ADMIN.truthy = true := by decide
        cases hsub : payload.sub.truthy <;>
          simp [JwtStrategy.validate, RolesGuard.canActivate, hverify, hrole, hsub, hadmin]
      · have hno : JwtStrategy.validate payload = .error (.unauthorized "Invalid access token payload") ∨
            JwtStrategy.validate payload = .ok ⟨payload.sub, payload.role⟩ := by
          unfold JwtStrategy.validate
          split
          · exact Or.inl rfl
          · exact Or.inr rfl
        rcases hno with hno | hno <;> simp [RolesGuard.canActivate, hverify, hrole, hno]

/-! ## The two readings of a header -/

/-- The header is `Bearer `, and then a token that is one word. -/
def Canonical (authorization : Option String) (token : String) : Prop :=
  authorization = some ("Bearer " ++ token) ∧ token ≠ "" ∧ ∀ c ∈ token.toList, Auth.isTrimmed c = false

theorem bearerToken_eq_some {authorization : Option String} {token : String} :
    bearerToken authorization = some token ↔ authorization = some ("Bearer " ++ token) := by
  unfold bearerToken
  constructor
  · intro h
    obtain ⟨header, rfl, hheader⟩ := Option.bind_eq_some_iff.mp h
    clear h
    split at hheader
    · rename_i hprefix
      obtain ⟨rest, hrest⟩ := List.isPrefixOf_iff_prefix.mp hprefix
      obtain rfl := Option.some.inj hheader
      rw [← hrest, List.drop_left]
      refine congrArg some (String.toList_injective ?_)
      calc header.toList = "Bearer ".toList ++ rest := hrest.symm
        _ = "Bearer ".toList ++ (String.ofList rest).toList := congrArg _ String.toList_ofList.symm
        _ = ("Bearer " ++ String.ofList rest).toList := String.toList_append.symm
    · cases hheader
  · rintro rfl
    have hprefix : "Bearer ".toList.isPrefixOf ("Bearer " ++ token).toList = true := by
      rw [String.toList_append]
      exact List.isPrefixOf_iff_prefix.mpr ⟨_, rfl⟩
    rw [Option.bind_some, if_pos hprefix, String.toList_append, List.drop_left, String.ofList_toList]

/-- The value of a header that starts with `Bearer ` is the first word behind that. -/
theorem schemeAndValue_bearer (token : List Char) :
    schemeAndValue ("Bearer ".toList ++ token) =
      if (token.dropWhile Auth.isTrimmed).takeWhile (fun c => !Auth.isTrimmed c) = [] then none
      else some ("Bearer".toList,
        (token.dropWhile Auth.isTrimmed).takeWhile fun c => !Auth.isTrimmed c) := by
  have htext : "Bearer ".toList ++ token = 'B' :: 'e' :: 'a' :: 'r' :: 'e' :: 'r' :: ' ' :: token := rfl
  have hletters : (['B', 'e', 'a', 'r', 'e', 'r'].all fun c => !Auth.isTrimmed c) = true := by decide
  have hblank : Auth.isTrimmed ' ' = true := by decide
  simp only [List.all_cons, List.all_nil, Bool.and_eq_true, Bool.not_eq_true', and_true] at hletters
  obtain ⟨hB, he, ha, hr, -, -⟩ := hletters
  unfold schemeAndValue
  rw [htext]
  simp only [List.dropWhile_cons, List.takeWhile_cons, hB, he, ha, hr, hblank, Bool.not_false, Bool.not_true,
    Bool.false_eq_true, if_true, if_false]
  split <;> simp_all

/-- A text is its own first word when it is a word. -/
theorem firstWord_eq_self {text : List Char} (htext : text ≠ []) :
    (text.dropWhile Auth.isTrimmed).takeWhile (fun c => !Auth.isTrimmed c) = text ↔
      ∀ c ∈ text, Auth.isTrimmed c = false := by
  constructor
  · intro h c hc
    rw [← h] at hc
    simpa using List.all_eq_true.mp List.all_takeWhile c hc
  · intro h
    obtain ⟨c, cs, rfl⟩ := List.exists_cons_of_ne_nil htext
    rw [List.dropWhile_cons_of_neg (by simp [h c List.mem_cons_self])]
    rw [← List.append_nil (c :: cs), List.takeWhile_append_of_pos fun c' hc' => by simp [h c' hc']]
    rfl

/-- Both find the same token in canonical headers, and in no others. -/
theorem sameToken_iff {authorization : Option String} {token : String} :
    (bearerToken authorization = some token ∧ token ≠ "" ∧
      fromAuthHeaderAsBearerToken authorization = some token) ↔ Canonical authorization token := by
  rw [bearerToken_eq_some]
  constructor
  · rintro ⟨rfl, htoken, h⟩
    refine ⟨rfl, htoken, ?_⟩
    have hlist : token.toList ≠ [] := fun hnil => htoken (String.toList_injective hnil)
    rw [← firstWord_eq_self hlist]
    simp only [fromAuthHeaderAsBearerToken, Option.bind_some, String.toList_append, schemeAndValue_bearer] at h
    split at h
    · rename_i scheme value hmatch
      split at hmatch
      · cases hmatch
      · obtain ⟨rfl, rfl⟩ := Prod.mk.inj (Option.some.inj hmatch)
        rw [if_pos (by decide)] at h
        conv_rhs => rw [← Option.some.inj h]
        rw [String.toList_ofList]
    · cases h
  · rintro ⟨rfl, htoken, hword⟩
    have hlist : token.toList ≠ [] := fun hnil => htoken (String.toList_injective hnil)
    refine ⟨rfl, htoken, ?_⟩
    simp only [fromAuthHeaderAsBearerToken, Option.bind_some, String.toList_append, schemeAndValue_bearer,
      (firstWord_eq_self hlist).mpr hword, if_neg hlist]
    rw [if_pos (by decide), String.ofList_toList]

/-! ## When they agree -/

/-- Where tokens carry only payloads that are `carried`: the header is canonical, and every ADMIN has a
`sub`; or the middleware finds no token, and the guards find none either, or nobody they would let in; or
there is no ADMIN at all. -/
def ReadAlike (carried : AccessTokenPayload → Prop) (authorization : Option String) : Prop :=
  ((∃ token, Canonical authorization token) ∧
      ∀ payload, carried payload → payload.role = ADMIN → payload.sub.truthy = true) ∨
    ((∀ token, bearerToken authorization = some token → token = "") ∧
      (fromAuthHeaderAsBearerToken authorization = none ∨
        ∀ payload, carried payload → payload.role = ADMIN → payload.sub.truthy = false)) ∨
    ∀ payload, carried payload → payload.role ≠ ADMIN

/-- **Guarded alike, header by header**: whatever function verifies tokens that carry such payloads. -/
theorem guarded_alike (carried : AccessTokenPayload → Prop) (authorization : Option String) :
    (∀ verify : Verify, (∀ token payload, verify token = some payload → carried payload) →
      Agree verify authorization) ↔ ReadAlike carried authorization := by
  constructor
  · intro hagree
    by_cases hadmin : ∃ payload, carried payload ∧ payload.role = ADMIN
    rotate_left
    · exact Or.inr (Or.inr fun payload hcarried hrole => hadmin ⟨payload, hcarried, hrole⟩)
    by_cases hfound : ∃ token, bearerToken authorization = some token ∧ token ≠ ""
    · -- a function that knows this token only, and that it is an ADMIN's
      obtain ⟨token, hbearer, htoken⟩ := hfound
      have hadmits : ∀ payload, carried payload → payload.role = ADMIN →
          fromAuthHeaderAsBearerToken authorization = some token ∧ payload.sub.truthy = true := by
        intro payload hcarried hrole
        have h := hagree (fun t => if t = token then some payload else none) fun t payload' h => by
          split at h
          · exact Option.some.inj h ▸ hcarried
          · cases h
        obtain ⟨token', payload', hextracted, hverify, -, hsub⟩ := guardedRoute_eq_ok.mp (h.mp
          (use_eq_ok.mpr ⟨token, payload, hbearer, htoken, if_pos rfl, hrole⟩))
        split at hverify
        · rename_i heq
          cases hverify
          exact ⟨heq ▸ hextracted, hsub⟩
        · cases hverify
      obtain ⟨payload, hcarried, hrole⟩ := hadmin
      have hextracted := (hadmits payload hcarried hrole).1
      exact Or.inl ⟨⟨token, sameToken_iff.mp ⟨hbearer, htoken, hextracted⟩⟩, fun p hp hr => (hadmits p hp hr).2⟩
    · have hnone : ∀ token, bearerToken authorization = some token → token = "" :=
        fun token hbearer => by_contra fun htoken => hfound ⟨token, hbearer, htoken⟩
      refine Or.inr (Or.inl ⟨hnone, ?_⟩)
      cases hextracted : fromAuthHeaderAsBearerToken authorization with
      | none => exact Or.inl rfl
      | some token =>
        refine Or.inr fun payload hcarried hrole => Bool.eq_false_iff.mpr fun hsub => ?_
        have h := hagree (fun _ => some payload) fun _ _ h => Option.some.inj h ▸ hcarried
        obtain ⟨token', _, hbearer, htoken, -⟩ := use_eq_ok.mp (h.mpr
          (guardedRoute_eq_ok.mpr ⟨token, payload, hextracted, rfl, hrole, hsub⟩))
        exact htoken (hnone token' hbearer)
  · intro halike verify hverify
    unfold Agree
    rw [use_eq_ok, guardedRoute_eq_ok]
    constructor
    · rintro ⟨token, payload, hbearer, htoken, hpayload, hrole⟩
      rcases halike with ⟨⟨token', hcanonical⟩, hsub⟩ | ⟨hnone, -⟩ | hadmin
      · obtain ⟨hbearer', -, hextracted⟩ := sameToken_iff.mpr hcanonical
        cases hbearer.symm.trans hbearer'
        exact ⟨token, payload, hextracted, hpayload, hrole, hsub payload (hverify _ _ hpayload) hrole⟩
      · exact absurd (hnone token hbearer) htoken
      · exact absurd hrole (hadmin payload (hverify _ _ hpayload))
    · rintro ⟨token, payload, hextracted, hpayload, hrole, hsub⟩
      rcases halike with ⟨⟨token', hcanonical⟩, -⟩ | ⟨-, hnone | hnosub⟩ | hadmin
      · obtain ⟨hbearer, htoken, hextracted'⟩ := sameToken_iff.mpr hcanonical
        cases hextracted.symm.trans hextracted'
        exact ⟨token, payload, hbearer, htoken, hpayload, hrole⟩
      · cases hextracted.symm.trans hnone
      · exact absurd hsub (by simp [hnosub payload (hverify _ _ hpayload) hrole])
      · exact absurd hrole (hadmin payload (hverify _ _ hpayload))

/-- One token, which stands for `payload`. -/
def knows (payload : AccessTokenPayload) : Verify := fun token => if token = "t0k3n" then some payload else none

/-- A scheme in small letters opens the routes and not the board, an ADMIN without `sub` the board and not
the routes. -/
theorem not_agree_lowercase :
    ¬Agree (knows ⟨.string "a11ce000-0000-4000-8000-000000000000", ADMIN⟩) (some "bearer t0k3n") ∧
      ¬Agree (knows ⟨.undefined, ADMIN⟩) (some "Bearer t0k3n") := by
  decide

end FlashWallet.Access
