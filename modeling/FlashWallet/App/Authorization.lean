import FlashWallet.App.Credentials
import FlashWallet.Proof.AuthRuns
import FlashWallet.Proof.Debits
import FlashWallet.Proof.Runs
import FlashWallet.Proof.Stock

/-!
# Authorization, end to end

Every entry a user's wallet is charged with was asked for with a token of that user, and every event was opened with an
ADMIN's; and the token goes back to somebody who registered or gave the password, and to a promotion. A request that
reaches a service has come through the guards, the guards accept what has been signed and nothing else, and what is
signed is backed (`backed_of_run`).
-/

set_option autoImplicit false

namespace FlashWallet

open Lib

/-! ## What a service was asked for -/

/-- The entry is one the request asks for in the wallet of `userId`. A transfer asks for two; this is its sender's. -/
def Request.Charges (e : LedgerEntry) (userId : Uuid) : Request → Prop
  | .deposit u dto => u = userId ∧ e.type = .DEPOSIT ∧ e.amount.cents = dto.amount
  | .transfer u dto =>
    u = userId ∧ e.type = .TRANSFER_OUT ∧ e.amount.cents = -dto.amount ∧ e.referenceId = dto.idempotencyKey
  | .purchase u dto => u = userId ∧ e.type = .PURCHASE ∧
      e.referenceId = FlashSaleService.walletReferenceId dto.eventId dto.idempotencyKey
  | _ => False

theorem Request.Posts.charges {req : Request} {owns : Uuid → Uuid → Prop} {price : Uuid → Money → Prop}
    {es : List LedgerEntry} (h : req.Posts owns price es) (hapi : req.viaApi) {e : LedgerEntry} (he : e ∈ es)
    (htype : e.type ≠ .TRANSFER_IN) : ∃ userId, req.Charges e userId ∧ owns e.walletId userId := by
  rcases h with rfl | h
  · cases he
  · cases req with
    | deposit userId dto =>
      obtain ⟨e', rfl, ht, hamount, howns⟩ := h
      obtain rfl := List.mem_singleton.mp he
      exact ⟨userId, ⟨rfl, ht, hamount⟩, howns⟩
    | purchase userId dto =>
      obtain ⟨e', p, rfl, ht, -, -, href, howns⟩ := h
      obtain rfl := List.mem_singleton.mp he
      exact ⟨userId, ⟨rfl, ht, href⟩, howns⟩
    | transfer userId dto =>
      obtain ⟨out, inn, rfl, hot, hoa, hor, hoo, hit, -⟩ := h
      rcases List.mem_cons.mp he with rfl | he
      · exact ⟨userId, ⟨rfl, hot, hoa, hor⟩, hoo⟩
      · obtain rfl := List.mem_singleton.mp he
        exact absurd hit htype
    | purchaseDeduct => exact hapi.elim
    | provisionWallet | createEvent => exact h.elim

/-- Every entry but an incoming transfer is one that some call was asked for by the owner of its wallet. -/
theorem entry_asked {ok : FlashWallet.State → FlashWallet.Event → Prop} {tr : FlashWallet.Trace}
    {c : FlashWallet.State} (hok : ∀ c l, ok c l → viaApi c l)
    (hrun : FlashWallet.RunFrom FlashWallet.State.initial ok tr c) {e : LedgerEntry} (he : e ∈ c.world.ledger)
    (htype : e.type ≠ .TRANSFER_IN) :
    ∃ call ∈ c.calls, ∃ userId, call.request.Charges e userId ∧ c.world.Owns e.walletId userId := by
  have hbooked : e ∈ booked (fun _ => true) tr := by
    have hledger := ledger_eq_booked initial_reachable hrun
    rw [show FlashWallet.State.initial.world.ledger = [] from rfl, List.nil_append] at hledger
    exact hledger ▸ he
  obtain ⟨s, hs, -, i, x, call, label, found, hes, posts⟩ := mem_booked initial_reachable hrun hbooked
  obtain ⟨⟨tr', hbefore⟩, -, -⟩ := hrun.of_mem hs
  obtain ⟨userId, hcharges, howns⟩ := posts.charges (request_viaApi hok hbefore found) hes htype
  obtain ⟨call', hi', hreq'⟩ := ((system.keeps_of_run hrun).2 s hs).1 i call found
  exact ⟨call', List.mem_of_getElem? hi', userId, hreq'.symm ▸ hcharges,
    ((evolves_of_run hrun).2 s hs).1.owns _ _ howns⟩

/-! ## Who opens events -/

/-- The event is the one the request describes, whatever is left of it by now. -/
def CreateFlashSaleEventDto.Describes (dto : CreateFlashSaleEventDto) (ev : FlashSaleEvent) : Prop :=
  ev.productId = dto.productId ∧ ev.totalStock = dto.totalStock ∧ ev.startsAt = dto.startsAt ∧ ev.endsAt = dto.endsAt

/-- A call opens no event but the one its request describes. -/
def Request.MayOpen (req : Request) (o : Stmt) : Prop :=
  ∀ ev : FlashSaleEvent, o = .flashSaleEventCreate ev.productId ev.totalStock ev.remaining ev.startsAt ev.endsAt →
    ∃ dto, req = .createEvent dto ∧ dto.Describes ev

/-- Statements that open no event. -/
def Stmt.Opens : Stmt → Prop
  | .flashSaleEventCreate .. => False
  | _ => True

theorem Stmt.Opens.mayOpen {req : Request} {o : Stmt} (h : o.Opens) : req.MayOpen o := by
  rintro ev rfl
  exact h.elim

theorem opens_of_banking {o : Stmt} (h : Banking o) : o.Opens := by
  cases o <;> first | exact trivial | exact h.elim

theorem FlashSaleService.purchase_opens (userId : Uuid) (dto : PurchaseFlashSaleDto) :
    (purchase userId dto).Uses Stmt.Opens := by
  refine uses_issue (o := .orderFindUnique ..) trivial fun existing => ?_
  cases existing with
  | some order => trivial
  | none =>
    refine uses_issue (o := .flashSaleEventFindUnique _) trivial fun found => ?_
    cases found with
    | none => trivial
    | some row =>
      refine uses_issue (o := .now) trivial fun now => ?_
      split
      · trivial
      · refine uses_issue (o := .reserveUnit _) trivial fun reserved => ?_
        split
        · refine uses_issue (o := .randomUUID) trivial fun orderId => ?_
          refine Prog.uses_bind (Prog.uses_attempt ((WalletService.purchaseDeduct_banking ..).mono
            fun _ => opens_of_banking)) fun deducted => ?_
          cases deducted with
          | error err => exact compensate_uses Stmt.Opens (fun _ => trivial) trivial (fun _ _ => trivial) err
          | ok _ =>
            refine Prog.uses_bind (finalizeOrder_uses Stmt.Opens trivial trivial trivial) fun order => ?_
            split
            · exact Prog.uses_bind (Prog.uses_attempt (Prog.uses_perform (S := sql) (o := .queueAdd _) trivial))
                fun _ => trivial
            · trivial
        · refine Prog.uses_bind (poll_uses Stmt.Opens trivial trivial _) fun raced => ?_
          cases raced <;> trivial

theorem handler_mayOpen (req : Request) : req.handler.Uses req.MayOpen := by
  have hopens : req.handler.Uses Stmt.Opens → req.handler.Uses req.MayOpen := fun h => h.mono fun _ ho => ho.mayOpen
  cases req with
  | provisionWallet userId => exact hopens (Prog.uses_bind (uses_issue trivial fun _ => trivial) fun _ => trivial)
  | deposit userId dto =>
    exact hopens (Prog.uses_bind ((WalletService.deposit_banking userId dto).mono fun _ => opens_of_banking)
      fun _ => trivial)
  | purchaseDeduct userId amount referenceId =>
    exact hopens (Prog.uses_bind ((WalletService.purchaseDeduct_banking userId amount referenceId).mono
      fun _ => opens_of_banking) fun _ => trivial)
  | transfer userId dto =>
    exact hopens (Prog.uses_bind (WalletService.transfer_uses Stmt.Opens (fun _ => opens_of_banking)
      (fun _ => trivial) (fun _ _ => trivial) userId dto) fun _ => trivial)
  | purchase userId dto =>
    exact hopens (Prog.uses_bind (FlashSaleService.purchase_opens userId dto) fun _ => trivial)
  | createEvent dto =>
    refine Prog.uses_bind (uses_issue (Stmt.Opens.mayOpen trivial) fun found => ?_) fun _ => trivial
    cases found with
    | none => trivial
    | some product =>
      refine Prog.uses_perform (S := sql) fun ev heq => ⟨dto, rfl, ?_⟩
      simp only [Stmt.flashSaleEventCreate.injEq] at heq
      exact ⟨heq.1.symm, heq.2.1.symm, heq.2.2.2.1.symm, heq.2.2.2.2.symm⟩

/-- Every event is one that some call was asked to open. -/
theorem event_asked {ok : FlashWallet.State → FlashWallet.Event → Prop} {tr : FlashWallet.Trace}
    {c : FlashWallet.State} (hrun : FlashWallet.RunFrom FlashWallet.State.initial ok tr c) {ev : FlashSaleEvent}
    (hev : ev ∈ c.world.events) :
    ∃ call ∈ c.calls, ∃ dto, call.request = .createEvent dto ∧ dto.Describes ev := by
  induction hrun generalizing ev with
  | nil => cases hev
  | @snoc tr c c' l run allowed next ih =>
    -- calls are kept, and with them what they were asked for
    have hkept : (∃ call ∈ c.calls, ∃ dto, call.request = .createEvent dto ∧ dto.Describes ev) →
        ∃ call ∈ c'.calls, ∃ dto, call.request = .createEvent dto ∧ dto.Describes ev := by
      rintro ⟨call, hcall, dto, hreq, hdescribes⟩
      obtain ⟨i, hi⟩ := List.mem_iff_getElem?.mp hcall
      obtain ⟨call', hi', hreq'⟩ := system.keeps_of_step next i call hi
      exact ⟨call', List.mem_of_getElem? hi', dto, hreq'.trans hreq, hdescribes⟩
    cases l with
    | arrive r =>
      obtain rfl := Option.some.inj next
      exact hkept (ih hev)
    | crash i =>
      obtain ⟨r, o, k, hi, rfl⟩ := system.step_crash next
      exact hkept (ih hev)
    | env e =>
      obtain ⟨w, he, rfl⟩ := system.step_env next
      refine hkept (ih ?_)
      cases e with
      | seedProduct p =>
        simp only [system, Env.run] at he
        split at he <;> cases he
        exact hev
      | _ => cases he; exact hev
    | exec i x =>
      have hcalls : ∀ call ∈ c.calls, call.prog.Uses call.request.MayOpen :=
        system.progs_of_run (fun r p => Prog.Uses (Request.MayOpen r) p) handler_mayOpen
          (fun r o k reply (h : Prog.Uses r.MayOpen (.call o k)) => h.2 reply) run (by simp [FlashWallet.State.initial])
      obtain ⟨r, o, k, reply, w, hi, hexec, rfl⟩ := system.step_exec next
      have hok : c.world.Ok := Reachable.worldOk ⟨tr, run⟩
      rcases (World.events_served hok (.of_exec hexec)).2 ev hev with ⟨ev₀, hev₀, hrestocked⟩ | ⟨-, rfl⟩
      · obtain ⟨call, hcall, dto, hreq, hdescribes⟩ := ih hev₀
        have hsame : dto.Describes ev := by
          unfold CreateFlashSaleEventDto.Describes at hdescribes ⊢
          rw [hrestocked.productId, hrestocked.totalStock, hrestocked.startsAt, hrestocked.endsAt]
          exact hdescribes
        exact hkept ⟨call, hcall, dto, hreq, hsame⟩
      · obtain ⟨dto, hreq, hdescribes⟩ := (hcalls _ (List.mem_of_getElem? hi)).1 ev rfl
        exact hkept ⟨_, List.mem_of_getElem? hi, dto, hreq, hdescribes⟩

/-! ## Past the guards -/

namespace App

variable {env : Auth.Settings}

/-- The entry is one the route is for. -/
def Body.Charges (e : LedgerEntry) : Body → Prop
  | .deposit dto => e.type = .DEPOSIT ∧ e.amount.cents = dto.amount
  | .transfer dto => e.type = .TRANSFER_OUT ∧ e.amount.cents = -dto.amount ∧ e.referenceId = dto.idempotencyKey
  | .purchase dto => e.type = .PURCHASE ∧
      e.referenceId = FlashSaleService.walletReferenceId dto.eventId dto.idempotencyKey
  | .createEvent _ => False

/-- The step is a request for `body`, and in its header is a token that was signed for `payload` and lives. -/
structure Presents (s : Step State Event) (payload : Auth.AccessTokenPayload) (body : Body) : Prop where
  token : ∃ authorization token exp, s.label = .request authorization body ∧
    Access.fromAuthHeaderAsBearerToken authorization = some token ∧
    s.before.accounts.world.jwt? token = some ⟨token, .access payload, exp⟩ ∧ s.before.accounts.world.now < exp

theorem verifyAccess_eq_some {w : Auth.World} {token : String} {fields : Access.AccessTokenPayload}
    (h : w.verifyAccess token = some fields) :
    ∃ payload exp, w.jwt? token = some ⟨token, .access payload, exp⟩ ∧ w.now < exp ∧ fields = payload.fields := by
  unfold Auth.World.verifyAccess at h
  cases hjwt : w.jwt? token with
  | none =>
    rw [hjwt] at h
    cases h
  | some jwt =>
    obtain ⟨text, claims, exp⟩ := jwt
    obtain rfl : text = token := (Auth.World.jwt?_eq_some hjwt).2
    rw [hjwt] at h
    cases claims with
    | refresh payload => cases h
    | access payload =>
      dsimp only at h
      split at h
      · cases h
      · cases h
        exact ⟨payload, exp, rfl, by omega, rfl⟩

theorem userId?_fields (payload : Auth.AccessTokenPayload) :
    userId? ⟨payload.fields.sub, payload.fields.role⟩ = some payload.sub := by
  simp only [userId?, Auth.AccessTokenPayload.fields]
  rw [dif_pos payload.sub.wellFormed]

theorem role_of_guard {user : Access.CurrentUserPayload}
    (h : Access.RolesGuard.canActivate [Access.ADMIN] (some user) = .ok ()) : user.role = Access.ADMIN := by
  by_contra hrole
  simp [Access.RolesGuard.canActivate, hrole] at h

/-- A role the guard lets pass for ADMIN is ADMIN. -/
theorem admin_of_text {role : Auth.Role} (h : Access.JsValue.string role.text = Access.ADMIN) : role = .ADMIN := by
  cases role with
  | ADMIN => rfl
  | CUSTOMER => exact absurd h (by decide)

/-- **What the guards let through**: what a living token was signed for, and to ADMIN's routes an ADMIN's. -/
theorem route_eq_ok {w : Auth.World} {authorization : Option String} {body : Body} {r : Request}
    (h : route w.verifyAccess authorization body = .ok (some r)) :
    ∃ token payload exp, Access.fromAuthHeaderAsBearerToken authorization = some token ∧
      w.jwt? token = some ⟨token, .access payload, exp⟩ ∧ w.now < exp ∧
      body.request ⟨payload.fields.sub, payload.fields.role⟩ = some r ∧
      (body.requiredRoles ≠ [] → payload.role = .ADMIN) := by
  unfold route at h
  cases hguard : Access.JwtAuthGuard.canActivate w.verifyAccess authorization with
  | error e =>
    rw [hguard] at h
    cases h
  | ok user =>
    rw [hguard] at h
    unfold Access.JwtAuthGuard.canActivate at hguard
    cases htoken : Access.fromAuthHeaderAsBearerToken authorization with
    | none =>
      rw [htoken] at hguard
      cases hguard
    | some token =>
      rw [htoken] at hguard
      dsimp only at hguard
      cases hverify : w.verifyAccess token with
      | none =>
        rw [hverify] at hguard
        cases hguard
      | some fields =>
        obtain ⟨payload, exp, hjwt, hlives, rfl⟩ := verifyAccess_eq_some hverify
        rw [hverify] at hguard
        simp only [Access.JwtStrategy.validate] at hguard
        split at hguard
        · cases hguard
        · cases hguard
          dsimp only at h
          cases hroles : Access.RolesGuard.canActivate body.requiredRoles
              (some ⟨payload.fields.sub, payload.fields.role⟩) with
          | error e =>
            rw [hroles] at h
            cases h
          | ok u =>
            rw [hroles] at h
            refine ⟨token, payload, exp, rfl, hjwt, hlives, Except.ok.inj h, fun hrequired => ?_⟩
            cases body with
            | createEvent dto =>
              exact admin_of_text (role_of_guard hroles)
            | _ => exact absurd rfl hrequired

/-! ## Runs of the application -/

/-- The steps of the authentication service. -/
def accountsOf (tr : Trace) : List Accounts :=
  tr.filterMap fun s =>
    match s.label with
    | .accounts l => some ⟨s.before.accounts, l, s.after.accounts⟩
    | _ => none

theorem accounts_of_run {tr : Trace} {c : State} (hrun : RunFrom env State.initial tr c) :
    Run (accounts env).step (fun _ _ => True) Auth.State.initial (accountsOf tr) c.accounts := by
  induction hrun with
  | nil => exact .nil
  | @snoc tr c c' l run _ next ih =>
    rw [show accountsOf (tr ++ [⟨c, l, c'⟩]) = accountsOf tr ++ accountsOf [⟨c, l, c'⟩] from List.filterMap_append]
    cases l with
    | accounts l =>
      obtain ⟨a, ha, rfl⟩ := Option.map_eq_some_iff.mp next
      exact ih.snoc trivial ha
    | request authorization body =>
      simp only [step] at next
      split at next <;> cases next <;> simpa [accountsOf] using ih
    | provision userId =>
      simp only [step] at next
      split at next <;> cases next
      simpa [accountsOf] using ih
    | services l =>
      simp only [step] at next
      split at next
      · cases next
      · obtain ⟨w, -, rfl⟩ := Option.map_eq_some_iff.mp next
        simpa [accountsOf] using ih

/-- What the guards hand over is no bare debit. -/
theorem viaApi_of_request {user : Access.CurrentUserPayload} {body : Body} {r : Request}
    (h : body.request user = some r) : r.viaApi := by
  cases body with
  | createEvent dto =>
    cases h
    trivial
  | _ =>
    obtain ⟨userId, -, rfl⟩ := Option.map_eq_some_iff.mp h
    trivial

/-- The services run as they do by themselves, and nobody debits a wallet directly. -/
theorem services_of_run {tr : Trace} {c : State} (hrun : RunFrom env State.initial tr c) :
    ∃ tr', FlashWallet.RunFrom FlashWallet.State.initial viaApi tr' c.services := by
  induction hrun with
  | nil => exact ⟨[], .nil⟩
  | @snoc tr c c' l run _ next ih =>
    obtain ⟨tr', ih⟩ := ih
    have harrive : ∀ {r : Request}, r.viaApi →
        ∃ tr', FlashWallet.RunFrom FlashWallet.State.initial viaApi tr' (system.arrive c.services r) :=
      fun {r} hr => ⟨_, ih.snoc (l := .arrive r) (by cases r <;> first | rfl | exact hr.elim) rfl⟩
    cases l with
    | accounts l =>
      obtain ⟨a, -, rfl⟩ := Option.map_eq_some_iff.mp next
      exact ⟨tr', ih⟩
    | request authorization body =>
      simp only [step] at next
      split at next
      · rename_i r hroute
        cases next
        obtain ⟨token, payload, exp, -, -, -, hrequest, -⟩ := route_eq_ok hroute
        exact harrive (viaApi_of_request hrequest)
      · cases next
        exact ⟨tr', ih⟩
    | provision userId =>
      simp only [step] at next
      split at next <;> cases next
      exact harrive (r := .provisionWallet userId) trivial
    | services l =>
      simp only [step] at next
      split at next
      · cases next
      · rename_i hno
        obtain ⟨w, hw, rfl⟩ := Option.map_eq_some_iff.mp next
        refine ⟨_, ih.snoc ?_ hw⟩
        cases l with
        | arrive r => exact absurd rfl hno
        | _ => rfl

/-- The request came in by a step of the run, with a token in its header that was backed before. -/
structure Authorized (tr : Trace) (r : Request) (payload : Auth.AccessTokenPayload) (body : Body) : Prop where
  step : ∃ tr₁ s tr₂, tr = tr₁ ++ s :: tr₂ ∧ Presents s payload body ∧
    Backed (accountsOf tr₁) (.access payload)
  request : body.request ⟨payload.fields.sub, payload.fields.role⟩ = some r
  role : body.requiredRoles ≠ [] → payload.role = .ADMIN

theorem Authorized.snoc {tr : Trace} {r : Request} {payload : Auth.AccessTokenPayload} {body : Body}
    (h : Authorized tr r payload body) (s : Step State Event) : Authorized (tr ++ [s]) r payload body :=
  let ⟨⟨tr₁, s', tr₂, heq, hpresents, hbacked⟩, hrequest, hrole⟩ := h
  ⟨⟨tr₁, s', tr₂ ++ [s], by simp [heq], hpresents, hbacked⟩, hrequest, hrole⟩

/-- **Whoever is served has come through the guards**, a wallet's provision apart. -/
theorem authorized_of_run {tr : Trace} {c : State} (hrun : RunFrom env State.initial tr c) :
    ∀ call ∈ c.services.calls,
      (∃ userId, call.request = .provisionWallet userId) ∨ ∃ payload body, Authorized tr call.request payload body := by
  induction hrun with
  | nil => exact fun _ h => absurd h List.not_mem_nil
  | @snoc tr c c' l run _ next ih =>
    have hold : ∀ call ∈ c.services.calls, (∃ userId, call.request = .provisionWallet userId) ∨
        ∃ payload body, Authorized (tr ++ [⟨c, l, c'⟩]) call.request payload body := fun call hcall =>
      (ih call hcall).imp_right fun ⟨payload, body, h⟩ => ⟨payload, body, h.snoc _⟩
    have hnew : ∀ {calls : List FlashWallet.ServiceCall} {call : FlashWallet.ServiceCall} {r : Request},
        call ∈ calls ++ [⟨r, r.handler, false⟩] → call ∈ calls ∨ call.request = r := fun hcall =>
      (List.mem_append.mp hcall).imp_right fun h => by rw [List.mem_singleton.mp h]
    cases l with
    | accounts l =>
      obtain ⟨a, -, rfl⟩ := Option.map_eq_some_iff.mp next
      exact hold
    | request authorization body =>
      simp only [step] at next
      split at next
      · rename_i r hroute
        cases next
        intro call hcall
        rcases hnew hcall with hcall | hreq
        · exact hold call hcall
        · obtain ⟨token, payload, exp, htoken, hjwt, hlives, hrequest, hrole⟩ := route_eq_ok hroute
          have hbacked : Backed (accountsOf tr) (.access payload) :=
            backed_of_run (accounts_of_run run) _ (List.mem_of_find?_eq_some hjwt)
          exact Or.inr ⟨payload, body, ⟨⟨tr, _, [], rfl, ⟨_, token, exp, rfl, htoken, hjwt, hlives⟩, hbacked⟩,
            hreq ▸ hrequest, hrole⟩⟩
      · cases next
        exact hold
    | provision userId =>
      simp only [step] at next
      split at next <;> cases next
      intro call hcall
      rcases hnew hcall with hcall | hreq
      · exact hold call hcall
      · exact Or.inl ⟨userId, hreq⟩
    | services l =>
      simp only [step] at next
      split at next
      · cases next
      · rename_i hno
        obtain ⟨w, hw, rfl⟩ := Option.map_eq_some_iff.mp next
        have hstep : Run system.step (fun _ l => l.isArrival = false) c.services [⟨c.services, l, w⟩] w :=
          Run.single (by simpa using hno) hw
        intro call hcall
        exact system.requests_of_run (fun r => (∃ userId, r = .provisionWallet userId) ∨
          ∃ payload body, Authorized (tr ++ [⟨c, .services l, { c with services := w }⟩]) r payload body)
          (fun _ _ h => Bool.noConfusion h) hstep hold call hcall

/-- **Authorization.** In every run of the application, whatever the order of steps and whatever fails: an entry in a
user's wallet other than an incoming transfer was asked for, at the route that makes such entries, with a living access
token of that user; and an event was opened by a request that describes it, with a living token of an ADMIN. By the time
the token was shown, its user had registered or had given the password, and an ADMIN had been promoted. -/
theorem authorization {tr : Trace} {c : State} (hrun : RunFrom env State.initial tr c) :
    (∀ e ∈ c.services.world.ledger, e.type ≠ .TRANSFER_IN →
      ∃ tr₁ s tr₂ payload body, tr = tr₁ ++ s :: tr₂ ∧ Presents s payload body ∧ body.Charges e ∧
        c.services.world.Owns e.walletId payload.sub ∧ Vouched (accountsOf tr₁) payload.sub) ∧
    ∀ ev ∈ c.services.world.events,
      ∃ tr₁ s tr₂ payload dto, tr = tr₁ ++ s :: tr₂ ∧ Presents s payload (.createEvent dto) ∧ dto.Describes ev ∧
        payload.role = .ADMIN ∧ Vouched (accountsOf tr₁) payload.sub ∧ Promoted (accountsOf tr₁) payload.sub := by
  obtain ⟨tr', hservices⟩ := services_of_run hrun
  have hauthorized := authorized_of_run hrun
  refine ⟨fun e he htype => ?_, fun ev hev => ?_⟩
  · obtain ⟨call, hcall, userId, hcharges, howns⟩ := entry_asked (fun _ _ h => h) hservices he htype
    rcases hauthorized call hcall with ⟨u, hreq⟩ | ⟨payload, body, ⟨tr₁, s, tr₂, heq, hpresents, hbacked⟩, hrequest, -⟩
    · rw [hreq] at hcharges
      exact hcharges.elim
    · refine ⟨tr₁, s, tr₂, payload, body, heq, hpresents, ?_⟩
      generalize call.request = r at hcharges hrequest
      cases body with
      | createEvent dto =>
        cases hrequest
        exact hcharges.elim
      | _ =>
        rw [Body.request, userId?_fields] at hrequest
        cases hrequest
        obtain ⟨rfl, hcharges⟩ := hcharges
        exact ⟨hcharges, howns, hbacked.1⟩
  · obtain ⟨call, hcall, dto, hreq, hdescribes⟩ := event_asked hservices hev
    rcases hauthorized call hcall with ⟨u, hreq'⟩ | ⟨payload, body, ⟨tr₁, s, tr₂, heq, hpresents, hbacked⟩, hrequest, hrole⟩
    · cases hreq.symm.trans hreq'
    · rw [hreq] at hrequest
      cases body with
      | createEvent dto' =>
        cases hrequest
        have hadmin := hrole (by simp [Body.requiredRoles])
        exact ⟨tr₁, s, tr₂, payload, dto, heq, hpresents, hdescribes, hadmin, hbacked.1, hbacked.2 hadmin⟩
      | _ =>
        rw [Body.request, userId?_fields] at hrequest
        cases hrequest

section

open Sample

/-- Alice registers, is promoted and logs in. -/
def promotion : List Event :=
  [.arrive (.register ⟨"alice@example.com", "in plain text"⟩), .exec 0 .ok, .exec 0 (.text "hashed"),
    .exec 0 (.fresh alice), .exec 0 (.fresh aliceWallet), .exec 0 .ok, .env (.promote "alice@example.com"),
    .arrive (.login ⟨"alice@example.com", "in plain text"⟩), .exec 1 .ok, .exec 1 (.verdict true),
    .exec 1 (.text "pass")].map .accounts

/-- With her token she opens a sale, and puts five units of money into her wallet. -/
def opening : List Event :=
  promotion ++ [.services (.env (.seedProduct product)), .request (some "Bearer pass") (.createEvent event)] ++
    [.services (.exec 0 .ok), .services (.exec 0 (.fresh sale))] ++
    [.provision alice, .services (.exec 1 (.fresh aliceWallet)),
      .request (some "bearer pass") (.deposit ⟨500, toBob.isPositive⟩), .services (.exec 2 (.fresh id₁))] ++
    List.replicate 5 (.services (.exec 2 .ok))

def opened : State := (execute (step Auth.Trial.settings) State.initial opening).getD State.initial

def fiveIn : LedgerEntry := ⟨aliceWallet, .DEPOSIT, five, five, id₁.text, 0⟩

set_option maxRecDepth 8000 in
theorem authorization_opened :
    ∃ tr, RunFrom Auth.Trial.settings State.initial tr opened ∧ opened.services.world.ledger = [fiveIn] ∧
      opened.services.world.events = [⟨sale, goods, 1, 1, 0, 10⟩] ∧
      ∃ tr₁ s tr₂ payload body, tr = tr₁ ++ s :: tr₂ ∧ Presents s payload body ∧ body.Charges fiveIn ∧
        opened.services.world.Owns fiveIn.walletId payload.sub ∧ Vouched (accountsOf tr₁) payload.sub := by
  have hrun : execute (step Auth.Trial.settings) State.initial opening = some opened := by rfl
  obtain ⟨tr, hrun⟩ : ∃ tr, RunFrom Auth.Trial.settings State.initial tr opened :=
    Run.of_execute (fun _ _ _ => trivial) hrun
  have hledger : opened.services.world.ledger = [fiveIn] := by decide
  exact ⟨tr, hrun, hledger, by decide,
    (authorization hrun).1 fiveIn (hledger ▸ List.mem_singleton.mpr rfl) (by decide)⟩

end

end App

end FlashWallet
