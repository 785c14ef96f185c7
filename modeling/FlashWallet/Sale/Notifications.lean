import FlashWallet.Lib.Deaf
import FlashWallet.Proof.OrderIds
import FlashWallet.Proof.Runs

/-!
# One notification for each confirmed order

Several purchases may have the winning order in hand; the one that wrote it announces it, once.
`announcing` keeps the account: an insert of a `CONFIRMED` row leaves its job owed, `queue.add` settles
it whatever its outcome, and no purchase ends with a job owed. What is enqueued and what is owed are
together the confirmed orders.

A purchase is deaf to `queue.add`: the reply, and the rejection, are dropped.
-/

set_option autoImplicit false

namespace FlashWallet

open Lib

/-- The job a call has yet to enqueue. -/
abbrev Owed := Option OrderConfirmationJobData

/-! ## The account of a call -/

def announcingPre : Stmt → Owed → Prop
  | .queueAdd job, owed => owed = some job
  | .orderCreate _, owed => owed = none
  | _, _ => True

/-- What is owed after a reply. -/
def owe : (o : Stmt) → Except Err o.Reply → Owed → Owed
  | .orderCreate _, .ok (order : Order), owed =>
    if order.status = .CONFIRMED then some ⟨order.id, order.userId⟩ else owed
  | .queueAdd _, _, _ => none
  | _, _, owed => owed

def announcing : Discipline sql Err Owed where
  pre := announcingPre
  post o owed r owed' := owed' = owe o r owed ∧ o.Answers r

/-- Nothing is owed any more. -/
abbrev Settled {α : Type} : Except Err α → Owed → Prop := fun _ owed => owed = none

/-- Statements that are not about orders and jobs. -/
def Unannounced : Stmt → Prop
  | .orderCreate _ | .queueAdd _ => False
  | _ => True

theorem unannounced_of_offSale {o : Stmt} (h : OffSale o) : Unannounced o := by
  cases o with
  | orderCreate | queueAdd => exact h.elim
  | _ => trivial

theorem unannounced_of_banking {o : Stmt} (h : Banking o) : Unannounced o := by
  cases o with
  | orderCreate | queueAdd => exact h.elim
  | _ => trivial

section

variable {α β : Type} {owed : Owed}

theorem announcing_issue {Q : Except Err β → Owed → Prop} {o : Stmt} {f : o.Reply → Service β}
    (hpre : announcingPre o owed)
    (hok : ∀ v, o.Answers (.ok v) → (f v).Keeps announcing Q (owe o (.ok v) owed))
    (herr : ∀ e, Q (.error e) (owe o (.error e) owed)) :
    ((issue o).bind f).Keeps announcing Q owed := by
  refine Prog.Keeps.issue hpre (fun v owed' h => ?_) fun e owed' h => ?_
  · obtain ⟨rfl, hanswers⟩ := h
    exact hok v hanswers
  · obtain ⟨rfl, -⟩ := h
    exact herr e

theorem announcing_try {Q : Except Err β → Owed → Prop} {o : Stmt} {f : Except Err o.Reply → Service β}
    (hpre : announcingPre o owed) (h : ∀ r, o.Answers r → (f r).Keeps announcing Q (owe o r owed)) :
    ((issue o).attempt.bind f).Keeps announcing Q owed := by
  refine ⟨hpre, fun r owed' hpost => ?_⟩
  obtain ⟨rfl, hanswers⟩ := hpost
  cases r <;> exact h _ hanswers

theorem announcing_of_uses {p : Service α} (hp : p.Uses Unannounced) :
    p.Keeps announcing (fun _ owed' => owed' = owed) owed := by
  refine .of_uses hp (fun o ho => ?_) fun o r owed' ho h => ?_
  · cases o with
    | orderCreate | queueAdd => exact ho.elim
    | _ => trivial
  · obtain ⟨rfl, -⟩ := h
    cases o with
    | orderCreate | queueAdd => exact ho.elim
    | _ => rfl

end

namespace FlashSaleService

/-- What an insert leaves owed: the job of the row, if this call wrote it and it is confirmed. -/
def Finalized.Owes (data : NewOrder) : Except Err Finalized → Owed → Prop
  | .error _, owed => owed = none
  | .ok ⟨_, true⟩, owed => owed = none
  | .ok ⟨order, false⟩, owed => order.status = data.status ∧
      owed = if order.status = .CONFIRMED then some ⟨order.id, data.userId⟩ else none

theorem finalizeOrder_announces (data : NewOrder) (eventId : Uuid) :
    (finalizeOrder data (releaseUnit eventId)).Keeps announcing (Finalized.Owes data) none := by
  refine announcing_try (o := .orderCreate data) rfl fun r hr => ?_
  cases r with
  | ok order =>
    obtain ⟨-, huser, -, hstatus⟩ := hr
    refine ⟨hstatus, ?_⟩
    show owe (.orderCreate data) (.ok order) none = _
    simp only [owe, huser]
  | error err =>
    dsimp only
    split
    · rfl
    · -- the row is another call's, and so is its job
      refine announcing_issue (o := .releaseUnit eventId) trivial (fun _ _ => ?_) fun _ => rfl
      refine announcing_issue (o := .orderFindUnique _ _) trivial (fun found _ => ?_) fun _ => rfl
      cases found <;> exact rfl

theorem compensate_announces (userId : Uuid) (dto : PurchaseFlashSaleDto) (orderId : Uuid) (err : Err) :
    (compensate userId dto orderId err).Keeps announcing Settled none := by
  refine announcing_issue (o := .releaseUnit dto.eventId) trivial (fun _ _ => ?_) fun _ => rfl
  refine Prog.Keeps.seq (finalizeOrder_announces _ _) (fun f owed h => ?_) fun _ _ h => h
  obtain ⟨order, raced⟩ := f
  cases raced with
  | true => exact h
  | false =>
    obtain ⟨hstatus, rfl⟩ := h
    -- a failed order is not announced
    rw [hstatus]
    rfl

theorem confirm_announces (userId : Uuid) (dto : PurchaseFlashSaleDto) (orderId : Uuid) :
    (confirm userId dto orderId).Keeps announcing Settled none := by
  refine Prog.Keeps.seq (finalizeOrder_announces _ _) (fun f owed h => ?_) fun _ _ h => h
  obtain ⟨order, raced⟩ := f
  cases raced with
  | true => exact h
  | false =>
    obtain ⟨hstatus, rfl⟩ := h
    rw [if_pos ⟨rfl, hstatus⟩]
    exact announcing_try (o := .queueAdd ⟨order.id, userId⟩) (by simp [announcingPre, hstatus])
      fun _ _ => rfl

theorem settle_announces (userId : Uuid) (dto : PurchaseFlashSaleDto) (price : Money) :
    (settle userId dto price).Keeps announcing Settled none := by
  refine announcing_issue (o := .randomUUID) trivial (fun orderId _ => ?_) fun _ => rfl
  have hdeduct := (WalletService.purchaseDeduct_banking userId price.toDecimal
    (walletReferenceId dto.eventId dto.idempotencyKey)).mono fun _ => unannounced_of_banking
  refine (announcing_of_uses hdeduct).recover fun r owed h => ?_
  obtain rfl := h
  cases r with
  | error err => exact compensate_announces userId dto orderId err
  | ok booked => exact confirm_announces userId dto orderId

theorem purchase_announces (userId : Uuid) (dto : PurchaseFlashSaleDto) :
    (purchase userId dto).Keeps announcing Settled none := by
  refine announcing_issue (o := .orderFindUnique _ _) trivial (fun found _ => ?_) fun _ => rfl
  cases found with
  | some existing => rfl
  | none =>
  refine announcing_issue (o := .flashSaleEventFindUnique dto.eventId) trivial (fun found _ => ?_)
    fun _ => rfl
  cases found with
  | none => rfl
  | some found =>
  obtain ⟨event, product⟩ := found
  refine announcing_issue (o := .now) trivial (fun now _ => ?_) fun _ => rfl
  split
  · rfl
  refine announcing_issue (o := .reserveUnit dto.eventId) trivial (fun reserved _ => ?_) fun _ => rfl
  split
  · exact settle_announces userId dto product.price
  · refine announcing_of_uses (Prog.uses_bind (poll_uses Unannounced trivial trivial 5) fun found => ?_)
    cases found <;> trivial

end FlashSaleService

/-- **Every handler settles what it owes.** -/
theorem handler_announces (req : Request) : req.handler.Keeps announcing Settled none := by
  cases hreq : req.purchase? with
  | none =>
    exact announcing_of_uses ((handler_offSale hreq).mono fun _ => unannounced_of_offSale)
  | some p =>
    obtain ⟨userId, dto⟩ := p
    obtain rfl := Request.purchase?_eq_some.mp hreq
    exact (FlashSaleService.purchase_announces userId dto).seq (fun _ _ h => h) fun _ _ h => h

/-! ## The accounts of all calls -/

/-- The announcement of an order. -/
def Order.job (o : Order) : OrderConfirmationJobData := ⟨o.id, o.userId⟩

/-- The announcements there should be. -/
def World.confirmations (w : World) : List OrderConfirmationJobData :=
  (w.orders.filter (·.status = .CONFIRMED)).map Order.job

/-- The step is a `queue.add` that rejects. -/
def rejectsJob (c : State) (l : Event) : Bool :=
  match nextStmt? c l, l with
  | some (.queueAdd _), .exec _ .fault => true
  | _, _ => false

theorem rejects_of_error {c : State} {i : Nat} {r : Request} {job : OrderConfirmationJobData}
    {k : Except Err Unit → Service Response} {x : Choice} {e : Err} {w : World}
    (hi : c.calls[i]? = some ⟨r, .call (S := sql) (.queueAdd job) k, false⟩)
    (hexec : World.exec i (.queueAdd job) x c.world = some (.error e, w)) :
    rejectsJob c (.exec i x) = true := by
  cases x with
  | fault => simp [rejectsJob, nextStmt?, hi]
  | ok => cases hexec
  | lose => cases hexec
  | fresh id =>
    simp only [World.exec] at hexec
    split at hexec <;> cases hexec

/-- How often a job is owed. -/
def owedCount (job : OrderConfirmationJobData) (gs : List Owed) : Nat :=
  (gs.map fun owed => if owed = some job then 1 else 0).sum

/-- Jobs enqueued and jobs owed are confirmed orders, and all of them as long as nothing is rejected. -/
def Announced (tr : Trace) (c : State) (gs : List Owed) : Prop :=
  ∀ job, c.world.jobs.count job + owedCount job gs ≤ c.world.confirmations.count job ∧
    ((∀ s ∈ tr, rejectsJob s.before s.label = false) →
      c.world.jobs.count job + owedCount job gs = c.world.confirmations.count job)

/-- A step that writes no order and enqueues no job, by a call that owes the same afterwards. -/
theorem Announced.quiet {tr : Trace} {c c' : State} {gs gs' : List Owed} {s : Step State Event}
    (h : Announced tr c gs) (horders : c'.world.orders = c.world.orders)
    (hjobs : c'.world.jobs = c.world.jobs) (howed : ∀ job, owedCount job gs' = owedCount job gs) :
    Announced (tr ++ [s]) c' gs' := by
  intro job
  obtain ⟨hle, heq⟩ := h job
  rw [World.confirmations, horders, hjobs, howed job]
  exact ⟨hle, fun hno => heq fun s hs => hno s (List.mem_append_left _ hs)⟩

/-- What a statement adds to the jobs. -/
theorem World.jobs_served {i : Nat} {w w' : World} {o : Stmt} {r : Except Err o.Reply}
    (hs : Served i w o r w') :
    w'.jobs = w.jobs ∨ ∃ job, o = .queueAdd job ∧ w'.jobs = w.jobs ++ [job] := by
  cases hs with
  | queued job => exact Or.inr ⟨job, rfl, rfl⟩
  | _ => exact Or.inl rfl

theorem World.jobs_env {e : Env} {w w' : World} (he : e.run w = some w') : w'.jobs = w.jobs := by
  cases e with
  | tick ms => cases he; rfl
  | evict key => cases he; rfl
  | seedProduct p =>
    simp only [Env.run] at he
    split at he
    · cases he
    · cases he
      rfl

/-- What a row that is written adds to the confirmations. -/
theorem World.confirmations_append (w : World) (order : Order) (job : OrderConfirmationJobData) :
    ({ w with orders := w.orders ++ [order] } : World).confirmations.count job =
      w.confirmations.count job +
        if (if order.status = .CONFIRMED then some order.job else none) = some job then 1 else 0 := by
  simp only [confirmations, List.filter_append, List.map_append, List.count_append]
  by_cases hstatus : order.status = .CONFIRMED <;> simp [hstatus, List.count_singleton]

/-- A row that is written, by a call that owes its announcement afterwards. -/
theorem Announced.ordered {tr : Trace} {c c' : State} {gs gs' : List Owed} {s : Step State Event}
    (h : Announced tr c gs) {order : Order} (horders : c'.world.orders = c.world.orders ++ [order])
    (hjobs : c'.world.jobs = c.world.jobs)
    (howed : ∀ job, owedCount job gs' = owedCount job gs +
      if (if order.status = .CONFIRMED then some order.job else none) = some job then 1 else 0) :
    Announced (tr ++ [s]) c' gs' := by
  intro job
  obtain ⟨hle, heq⟩ := h job
  have hrow : c'.world.confirmations.count job = c.world.confirmations.count job +
      if (if order.status = .CONFIRMED then some order.job else none) = some job then 1 else 0 := by
    rw [World.confirmations, horders]
    exact World.confirmations_append c.world order job
  rw [hrow, hjobs, howed job]
  refine ⟨by omega, fun hno => ?_⟩
  have hall := heq fun s hs => hno s (List.mem_append_left _ hs)
  omega

/-- A job that is enqueued, by the call that owed it. -/
theorem Announced.queued {tr : Trace} {c c' : State} {gs gs' : List Owed} {s : Step State Event}
    (h : Announced tr c gs) {job : OrderConfirmationJobData} (horders : c'.world.orders = c.world.orders)
    (hjobs : c'.world.jobs = c.world.jobs ++ [job])
    (howed : ∀ job', owedCount job' gs' + (if some job = some job' then 1 else 0) = owedCount job' gs) :
    Announced (tr ++ [s]) c' gs' := by
  intro job'
  obtain ⟨hle, heq⟩ := h job'
  have hsettled := howed job'
  have hjob : c'.world.jobs.count job' =
      c.world.jobs.count job' + if some job = some job' then 1 else 0 := by
    simp [hjobs, List.count_append, List.count_singleton]
  rw [World.confirmations, horders, hjob]
  refine ⟨by rw [World.confirmations] at hle; omega, fun hno => ?_⟩
  have hall := heq fun s hs => hno s (List.mem_append_left _ hs)
  rw [World.confirmations] at hall
  omega

/-- A job that is rejected: nobody owes it any more, and it is not enqueued either. -/
theorem Announced.rejected {tr : Trace} {c c' : State} {gs gs' : List Owed} {s : Step State Event}
    (h : Announced tr c gs) (hrejects : rejectsJob s.before s.label = true)
    (horders : c'.world.orders = c.world.orders) (hjobs : c'.world.jobs = c.world.jobs)
    (howed : ∀ job, owedCount job gs' ≤ owedCount job gs) : Announced (tr ++ [s]) c' gs' := by
  intro job
  have hle := (h job).1
  rw [World.confirmations] at hle ⊢
  rw [horders, hjobs]
  refine ⟨(Nat.add_le_add_left (howed job) _).trans hle, fun hno => ?_⟩
  have hkept := hno s (List.mem_append_right _ List.mem_cons_self)
  rw [hrejects] at hkept
  cases hkept

/-- Calls are not cut off. -/
def uncut : State → Event → Prop := fun _ l => ∀ i, l ≠ .crash i

theorem announced_initial : Announced [] State.initial [] := fun job =>
  ⟨by simp [owedCount, State.initial, World.initial], fun _ => rfl⟩

theorem announcing_bookkeeping (ok : State → Event → Prop) :
    Platform.Bookkeeping system announcing (fun _ => Settled) (fun _ => none) Announced ok
      State.initial where
  handlers _ r _ := handler_announces r
  arrive tr c gs r _ _ h _ := h.quiet rfl rfl fun job => by simp [owedCount]
  exec tr c gs i r o k owed x reply w _ _ h _ hi hg hpre hexec := by
    have hs := World.Served.of_exec hexec
    refine ⟨owe o reply owed, ⟨rfl, hs.answers⟩, ?_⟩
    have hcount : ∀ job, owedCount job (gs.set i (owe o reply owed)) + (if owed = some job then 1 else 0) =
        owedCount job gs + if owe o reply owed = some job then 1 else 0 :=
      fun job => Platform.sum_map_set _ _ hg
    have hquiet : owe o reply owed = owed → w.orders = c.world.orders → w.jobs = c.world.jobs →
        Announced (tr ++ [⟨c, .exec i x, ⟨w, c.calls.set i ⟨r, k reply, false⟩⟩⟩])
          ⟨w, c.calls.set i ⟨r, k reply, false⟩⟩ (gs.set i (owe o reply owed)) := by
      intro howed horders hjobs
      refine h.quiet horders hjobs fun job => ?_
      have := hcount job
      rw [howed] at this ⊢
      omega
    cases o with
    | orderCreate d =>
      obtain rfl : owed = none := hpre
      generalize hr : reply = r' at hs
      cases hs with
      | ordered _ order event found shape =>
        subst hr
        refine h.ordered rfl rfl fun job => ?_
        have hstep := hcount job
        rw [if_neg (by rintro ⟨⟩)] at hstep
        exact hstep
      | failed | refused => subst hr; exact hquiet rfl rfl rfl
      | read _ _ answer => cases answer
    | queueAdd job =>
      obtain rfl : owed = some job := hpre
      have howed : ∀ job', owedCount job' (gs.set i none) + (if some job = some job' then 1 else 0) =
          owedCount job' gs := by
        intro job'
        have hstep := hcount job'
        rw [show owe (.queueAdd job) reply (some job) = none from rfl] at hstep
        simpa using hstep
      generalize hr : reply = r' at hs
      cases hs with
      | queued => exact h.queued rfl rfl howed
      | failed =>
        subst hr
        exact h.rejected (rejects_of_error hi hexec) rfl rfl fun job' => (howed job').symm ▸ Nat.le_add_right _ _
      | refused _ _ reason => exact reason.elim
      | read _ _ answer => cases answer
    | _ =>
      refine hquiet rfl ?_ ?_
      · rcases World.orders_served hs with horders | ⟨d, order, ho, -⟩
        · exact horders
        · cases ho
      · rcases World.jobs_served hs with hjobs | ⟨job, ho, -⟩
        · exact hjobs
        · cases ho
  crash tr c gs i r o k owed _ _ h _ _ hg := by
    -- what it owes it will owe for ever
    refine ⟨owed, ?_⟩
    rw [Platform.set_same hg]
    exact h.quiet rfl rfl fun _ => rfl
  env tr c gs e w _ _ h _ he :=
    h.quiet (World.env_same he).orders (World.jobs_env he) fun _ => rfl

section

variable {ok : State → Event → Prop} {tr : Trace} {c : State}

/-- The jobs are some of the confirmations, whatever fails and whoever is cut off. -/
theorem jobs_of_run (hrun : RunFrom State.initial ok tr c) : c.world.jobs.Subperm c.world.confirmations := by
  obtain ⟨gs, hannounced, -⟩ := (announcing_bookkeeping ok).sound announced_initial .nil hrun
  exact List.subperm_iff_count.mpr fun job => (Nat.le_add_right ..).trans (hannounced job).1

/-- Every job confirms an order to its user. -/
theorem confirmed_of_run (hrun : RunFrom State.initial ok tr c) {job : OrderConfirmationJobData}
    (hjob : job ∈ c.world.jobs) : ∃ o ∈ c.world.orders, o.status = .CONFIRMED ∧ o.job = job := by
  obtain ⟨o, ho, rfl⟩ := List.mem_map.mp ((jobs_of_run hrun).subset hjob)
  obtain ⟨ho, hstatus⟩ := List.mem_filter.mp ho
  exact ⟨o, ho, by simpa using hstatus, rfl⟩

/-- No order is named twice. -/
theorem jobs_nodup_of_run (hrun : RunFrom State.initial ok tr c) :
    (c.world.jobs.map OrderConfirmationJobData.orderId).Nodup := by
  have hids : (c.world.confirmations.map OrderConfirmationJobData.orderId).Nodup := by
    rw [World.confirmations, List.map_map]
    exact (Reachable.worldOk ⟨tr, hrun⟩).orderIds.sublist (List.filter_sublist.map _)
  obtain ⟨js, hperm, hsub⟩ := jobs_of_run hrun
  exact (hperm.map _).nodup_iff.mp (hids.sublist (hsub.map _))

end

/-! ## Who listens to `queue.add` -/

def Stmt.isQueueAdd : Stmt → Bool
  | .queueAdd _ => true
  | _ => false

theorem deaf_issue {α : Type} {o : Stmt} {f : o.Reply → Service α} (ho : o.isQueueAdd = false)
    (hf : ∀ v, (f v).Deaf Stmt.isQueueAdd) : ((issue o).bind f).Deaf Stmt.isQueueAdd :=
  (Prog.deaf_of_uses (Prog.uses_perform ho)).bind hf

namespace FlashSaleService

/-- Statements other than `queue.add`. -/
abbrev Heard (o : Stmt) : Prop := o.isQueueAdd = false

theorem heard_of_banking {o : Stmt} (h : Banking o) : Heard o := by
  cases o <;> first | rfl | exact h.elim

theorem confirm_deaf (userId : Uuid) (dto : PurchaseFlashSaleDto) (orderId : Uuid) :
    (confirm userId dto orderId).Deaf Stmt.isQueueAdd := by
  refine (Prog.deaf_of_uses (finalizeOrder_uses Heard rfl rfl rfl)).bind fun order => ?_
  split
  · exact Prog.deaf_ignore trivial
  · trivial

theorem settle_deaf (userId : Uuid) (dto : PurchaseFlashSaleDto) (price : Money) :
    (settle userId dto price).Deaf Stmt.isQueueAdd := by
  refine deaf_issue rfl fun orderId => ?_
  have hdeduct := (WalletService.purchaseDeduct_banking userId price.toDecimal
    (walletReferenceId dto.eventId dto.idempotencyKey)).mono fun _ => heard_of_banking
  refine (Prog.deaf_of_uses hdeduct).attempt.bind fun r => ?_
  cases r with
  | error err => exact Prog.deaf_of_uses (compensate_uses Heard (fun _ => rfl) rfl (fun _ _ => rfl) err)
  | ok booked => exact confirm_deaf userId dto orderId

theorem purchase_deaf (userId : Uuid) (dto : PurchaseFlashSaleDto) :
    (purchase userId dto).Deaf Stmt.isQueueAdd := by
  refine deaf_issue rfl fun found => ?_
  cases found with
  | some existing => trivial
  | none =>
  refine deaf_issue rfl fun found => ?_
  cases found with
  | none => trivial
  | some found =>
  obtain ⟨event, product⟩ := found
  refine deaf_issue rfl fun now => ?_
  split
  · trivial
  refine deaf_issue rfl fun reserved => ?_
  split
  · exact settle_deaf userId dto product.price
  · refine (Prog.deaf_of_uses (poll_uses Heard rfl rfl 5)).bind fun found => ?_
    cases found <;> trivial

end FlashSaleService

/-- No call goes on differently because its `queue.add` was rejected. -/
theorem handler_deaf (req : Request) : req.handler.Deaf Stmt.isQueueAdd := by
  cases hreq : req.purchase? with
  | none =>
    refine Prog.deaf_of_uses ((handler_offSale hreq).mono fun o ho => ?_)
    cases o <;> first | rfl | exact ho.elim
  | some p =>
    obtain ⟨userId, dto⟩ := p
    obtain rfl := Request.purchase?_eq_some.mp hreq
    exact (FlashSaleService.purchase_deaf userId dto).bind fun _ => trivial

/-! ## Nobody reads the queue -/

/-- The world with another queue. -/
def World.withJobs (w : World) (jobs : List OrderConfirmationJobData) : World := { w with jobs := jobs }

theorem World.walletCreate_withJobs (w : World) (jobs : List OrderConfirmationJobData) (id userId : Uuid)
    (balance : Int) : (w.withJobs jobs).walletCreate id userId balance =
      ((w.walletCreate id userId balance).1, (w.walletCreate id userId balance).2.withJobs jobs) := by
  unfold walletCreate
  cases Money.ofDecimal? balance with
  | none => rfl
  | some m =>
    show (if (w.walletOf? userId).isSome then _ else _) = _
    by_cases htaken : (w.walletOf? userId).isSome
    · simp only [if_pos htaken]
    · simp only [if_neg htaken]
      rfl

theorem World.flashSaleEventCreate_withJobs (w : World) (jobs : List OrderConfirmationJobData)
    (id productId : Uuid) (totalStock remaining : Int) (startsAt endsAt : Nat) :
    (w.withJobs jobs).flashSaleEventCreate id productId totalStock remaining startsAt endsAt =
      ((w.flashSaleEventCreate id productId totalStock remaining startsAt endsAt).1,
        (w.flashSaleEventCreate id productId totalStock remaining startsAt endsAt).2.withJobs jobs) := by
  unfold flashSaleEventCreate
  show (if (w.product? productId).isNone then _ else _) = _
  by_cases hmissing : (w.product? productId).isNone
  · simp only [if_pos hmissing]
  · simp only [if_neg hmissing]
    rfl

theorem World.orderCreate_withJobs (w : World) (jobs : List OrderConfirmationJobData) (d : NewOrder) :
    (w.withJobs jobs).orderCreate d = ((w.orderCreate d).1, (w.orderCreate d).2.withJobs jobs) := by
  unfold orderCreate
  show (if (w.event? d.flashSaleEventId).isNone then _ else if d.id ∈ w.orders.map Order.id then _ else
    if _ ∈ w.orders.map Order.key then _ else _) = _
  by_cases hmissing : (w.event? d.flashSaleEventId).isNone
  · simp only [if_pos hmissing]
  · by_cases hid : d.id ∈ w.orders.map Order.id
    · simp only [if_neg hmissing, if_pos hid]
    · simp only [if_neg hmissing, if_neg hid]
      by_cases hkey : (⟨d.id, d.userId, d.flashSaleEventId, d.status, d.idempotencyKey, w.clock⟩ : Order).key ∈
          w.orders.map Order.key
      · simp only [if_pos hkey]
        exact if_pos hkey
      · simp only [if_neg hkey]
        exact if_neg hkey

@[simp] theorem World.withJobs_canLock (w : World) (jobs : List OrderConfirmationJobData) (i : Nat)
    (id : Uuid) : (w.withJobs jobs).canLock i id = w.canLock i id := rfl

@[simp] theorem World.withJobs_wallet? (w : World) (jobs : List OrderConfirmationJobData) (id : Uuid) :
    (w.withJobs jobs).wallet? id = w.wallet? id := rfl

theorem World.walletForUpdate_withJobs (w : World) (jobs : List OrderConfirmationJobData) (i : Nat)
    (id : Uuid) : (w.withJobs jobs).walletForUpdate i id =
      (w.walletForUpdate i id).map fun (r, w') => (r, w'.withJobs jobs) := by
  unfold walletForUpdate
  rw [withJobs_canLock, withJobs_wallet?]
  by_cases hfree : w.canLock i id = true
  · rw [if_pos hfree, if_pos hfree]
    cases w.wallet? id <;> rfl
  · rw [if_neg hfree, if_neg hfree]
    rfl

theorem World.walletUpdate_withJobs (w : World) (jobs : List OrderConfirmationJobData) (i : Nat)
    (id : Uuid) (balance : Int) : (w.withJobs jobs).walletUpdate i id balance =
      (w.walletUpdate i id balance).map fun (r, w') => (r, w'.withJobs jobs) := by
  unfold walletUpdate
  rw [withJobs_canLock, withJobs_wallet?]
  by_cases hfree : w.canLock i id = true
  · rw [if_pos hfree, if_pos hfree]
    cases w.wallet? id <;> cases Money.ofDecimal? balance <;> rfl
  · rw [if_neg hfree, if_neg hfree]
    rfl

theorem World.ledgerEntryCreate_withJobs (w : World) (jobs : List OrderConfirmationJobData) (i : Nat)
    (d : NewLedgerEntry) : (w.withJobs jobs).ledgerEntryCreate i d =
      (w.ledgerEntryCreate i d).map fun (r, w') => (r, w'.withJobs jobs) := by
  unfold ledgerEntryCreate
  rw [withJobs_canLock, withJobs_wallet?]
  by_cases hfree : w.canLock i d.walletId = true
  · rw [if_pos hfree, if_pos hfree]
    cases w.wallet? d.walletId with
    | none => cases Money.ofDecimal? d.amount <;> cases Money.ofDecimal? d.balanceAfter <;> rfl
    | some row =>
    cases Money.ofDecimal? d.amount with
    | none => cases Money.ofDecimal? d.balanceAfter <;> rfl
    | some amount =>
    cases Money.ofDecimal? d.balanceAfter with
    | none => rfl
    | some balanceAfter =>
      by_cases hkey : (⟨d.walletId, d.type, amount, balanceAfter, d.referenceId, w.clock⟩ :
          LedgerEntry).key ∈ (w.ledger ++ (w.tx i).entries).map LedgerEntry.key
      · refine (if_pos hkey).trans ?_
        dsimp only
        rw [if_pos hkey]
        rfl
      · refine (if_neg hkey).trans ?_
        dsimp only
        rw [if_neg hkey]
        rfl
  · rw [if_neg hfree, if_neg hfree]
    rfl

/-- Any other statement is answered the same, and leaves the queue alone. -/
theorem World.exec_withJobs {o : Stmt} (ho : o.isQueueAdd = false) (i : Nat) (x : Choice) (w : World)
    (jobs : List OrderConfirmationJobData) :
    World.exec i o x (w.withJobs jobs) =
      (World.exec i o x w).map fun (r, w') => (r, w'.withJobs jobs) := by
  cases x with
  | fault => cases o <;> rfl
  | lose => cases o <;> rfl
  | fresh id =>
    show (if id ∈ w.drawn then none else (w.withJobs jobs).draw id o) = Option.map _ (if _ then _ else _)
    by_cases hdrawn : id ∈ w.drawn
    · rw [if_pos hdrawn, if_pos hdrawn]
      rfl
    · rw [if_neg hdrawn, if_neg hdrawn]
      cases o with
      | walletCreate userId balance => exact congrArg some (walletCreate_withJobs ..)
      | flashSaleEventCreate => exact congrArg some (flashSaleEventCreate_withJobs ..)
      | _ => rfl
  | ok =>
    cases o with
    | walletForUpdate id =>
      show ((w.withJobs jobs).walletForUpdate i id).map _ = _
      rw [walletForUpdate_withJobs]
      show _ = ((w.walletForUpdate i id).map _).map _
      rw [Option.map_map, Option.map_map]
      rfl
    | walletUpdate id balance => exact walletUpdate_withJobs w jobs i id balance
    | ledgerEntryCreate d => exact ledgerEntryCreate_withJobs w jobs i d
    | orderCreate d => exact congrArg some (orderCreate_withJobs ..)
    | queueAdd => cases ho
    | _ => rfl

/-- The worlds differ in their queues at most. -/
def World.SameButJobs (w w' : World) : Prop := ∃ jobs, w' = w.withJobs jobs

theorem queueAdd_unheard : Platform.Unheard system Stmt.isQueueAdd (fun _ => .ok) World.SameButJobs where
  exec i o x w w' reply w₁ hsame hexec := by
    obtain ⟨jobs, rfl⟩ := hsame
    cases hadd : o.isQueueAdd with
    | false =>
      refine ⟨reply, w₁.withJobs jobs, ?_, ⟨jobs, rfl⟩, fun _ => rfl⟩
      show World.exec i o x (w.withJobs jobs) = _
      rw [World.exec_withJobs hadd, show World.exec i o x w = _ from hexec]
      rfl
    | true =>
      cases o with
      | queueAdd job =>
        refine ⟨.ok (), w.withJobs (jobs ++ [job]), rfl, ?_, fun h => by cases h⟩
        cases x with
        | ok => cases hexec; exact ⟨jobs ++ [job], rfl⟩
        | fault => cases hexec; exact ⟨jobs ++ [job], rfl⟩
        | lose => cases hexec
        | fresh id =>
          simp only [system, World.exec] at hexec
          split at hexec <;> cases hexec
      | _ => cases hadd
  cutOff i w w' hsame := by
    obtain ⟨jobs, rfl⟩ := hsame
    exact ⟨jobs, rfl⟩
  env e w w' w₁ hsame he := by
    obtain ⟨jobs, rfl⟩ := hsame
    cases e with
    | tick ms => cases he; exact ⟨_, rfl, jobs, rfl⟩
    | evict key => cases he; exact ⟨_, rfl, jobs, rfl⟩
    | seedProduct p =>
      have hdrawn : p.id ∉ w.drawn := by
        intro hmem
        simp [system, Env.run, hmem] at he
      simp only [system, Env.run, if_neg hdrawn, Option.some.injEq] at he
      subst he
      exact ⟨_, if_neg hdrawn, jobs, rfl⟩

/-! ## One job for each confirmed order -/

/-- Nothing is cut off, and no `queue.add` rejects. -/
def accepting : State → Event → Prop := fun c l => uncut c l ∧ rejectsJob c l = false

/-- The step as it is when its `queue.add`, if it issues one, succeeds. -/
def accepted (c : State) (l : Event) : Event := Platform.relabel Stmt.isQueueAdd (fun _ => .ok) c l

theorem accepting_accepted {c c' : State} {l : Event} (huncut : uncut c l) (hcalls : c'.calls = c.calls) :
    accepting c' (accepted c l) := by
  cases l with
  | arrive r => exact ⟨huncut, rfl⟩
  | env e => exact ⟨huncut, rfl⟩
  | crash i => exact absurd rfl (huncut i)
  | exec i x =>
    cases hcall : c.calls[i]? with
    | none => simp [accepting, accepted, uncut, Platform.relabel, rejectsJob, nextStmt?, hcalls, hcall]
    | some call =>
    obtain ⟨r, prog, crashed⟩ := call
    cases prog with
    | call o k =>
      have haccepted : accepted c (.exec i x) = .exec i (if o.isQueueAdd then .ok else x) := by
        simp only [accepted, Platform.relabel, hcall]
      rw [haccepted]
      refine ⟨by rintro j ⟨⟩, ?_⟩
      cases crashed with
      | true => simp [rejectsJob, nextStmt?, hcalls, hcall]
      | false => cases o <;> simp [rejectsJob, nextStmt?, hcalls, hcall, Stmt.isQueueAdd]
    | _ => simp [accepting, accepted, uncut, Platform.relabel, rejectsJob, nextStmt?, hcalls, hcall]

/-- Where nobody is under way nothing is owed. -/
theorem owedCount_eq_zero {calls : List ServiceCall} {gs : List Owed}
    (ha : Platform.Aligned announcing (fun _ => Settled) calls gs)
    (hlive : ∀ call ∈ calls, call.crashed = false) (hdone : ∀ call ∈ calls, call.inFlight = false)
    (job : OrderConfirmationJobData) : owedCount job gs = 0 := by
  refine List.sum_eq_zero fun n hn => ?_
  obtain ⟨owed, howed, rfl⟩ := List.mem_map.mp hn
  obtain ⟨i, hi⟩ := List.mem_iff_getElem?.mp howed
  have hlt : i < calls.length := ha.length ▸ (List.getElem?_eq_some_iff.mp hi).1
  have hcall := List.getElem?_eq_getElem hlt
  have hmem := List.mem_of_getElem? hcall
  have hanswered : (calls[i].result?).isSome := by
    have := hdone _ hmem
    simp only [Call.inFlight, hlive _ hmem, Bool.not_false, Bool.true_and] at this
    simpa using this
  obtain ⟨r, hr⟩ := Option.isSome_iff_exists.mp hanswered
  obtain rfl : owed = none := ha.outcome hcall hi hr
  rfl

/-- **One notification for each confirmed order**, in every state a run without crashes reaches. When
no call is under way and nothing was rejected, the jobs are the confirmations, one each. Whatever was
rejected, a job names a confirmed order and its user, no order is named twice, and the run in which
nothing is rejected has the same calls at the same points, with the same answers, and ends in the same
world but for the queue. -/
theorem one_notification {tr : Trace} {c : State} (hrun : RunFrom State.initial uncut tr c) :
    ((∀ call ∈ c.calls, call.inFlight = false) →
      (∀ s ∈ tr, rejectsJob s.before s.label = false) → c.world.jobs.Perm c.world.confirmations) ∧
    (∀ job ∈ c.world.jobs, ∃ o ∈ c.world.orders, o.job = job ∧ o.status = .CONFIRMED ∧
      ∀ o' ∈ c.world.orders, o'.id = job.orderId → o' = o) ∧
    (c.world.jobs.map OrderConfirmationJobData.orderId).Nodup ∧
    ∃ tr' c', RunFrom State.initial accepting tr' c' ∧
      tr'.map Step.label = tr.map (fun s => accepted s.before s.label) ∧
      c'.calls = c.calls ∧ c'.world = { c.world with jobs := c'.world.jobs } := by
  have hok : c.world.Ok := Reachable.worldOk ⟨tr, hrun⟩
  refine ⟨fun hdone hno => ?_, fun job hjob => ?_, jobs_nodup_of_run hrun, ?_⟩
  · obtain ⟨gs, hannounced, ha⟩ := (announcing_bookkeeping uncut).sound announced_initial .nil hrun
    have hlive := uncrashed_of_run (fun _ i h => h i rfl) (fun _ h => absurd h List.not_mem_nil) hrun
    refine List.perm_iff_count.mpr fun job => ?_
    have hall := (hannounced job).2 hno
    rw [owedCount_eq_zero ha hlive hdone job] at hall
    exact hall
  · obtain ⟨o, ho, hstatus, rfl⟩ := confirmed_of_run hrun hjob
    exact ⟨o, ho, rfl, hstatus, fun o' ho' hid => hok.order_ext_id ho' ho hid⟩
  · obtain ⟨tr', c', hrun', hlabels, hcalls, jobs, hworld⟩ := Platform.replay
      (fun r => handler_deaf r) queueAdd_unheard (fun _ h => absurd h List.not_mem_nil)
      ⟨State.initial.world.jobs, rfl⟩ (fun _ _ _ => accepting_accepted) hrun
    refine ⟨tr', c', hrun', hlabels, hcalls, ?_⟩
    rw [hworld]
    rfl

section

open Sample

/-- Alice buys the one unit on sale, and the queue rejects her confirmation. -/
def boughtUnannounced : List Event := bought.dropLast ++ [.exec 3 .fault]

theorem uncut_stateAfter (ls : List Event)
    (h : Allowed (fun _ l => l matches .arrive _ | .exec .. | .env _) State.initial ls = true) :
    RunFrom State.initial uncut (traceAfter State.initial ls) (stateAfter State.initial ls) :=
  (run_stateAfter _ _ _ h).mono fun _ l h i hl => by subst hl; cases h

set_option maxRecDepth 8000 in
theorem one_notification_bought :
    (stateAfter State.initial bought).world.confirmations = [⟨id₂, alice⟩] ∧
      (stateAfter State.initial bought).world.jobs.Perm (stateAfter State.initial bought).world.confirmations ∧
      (stateAfter State.initial boughtUnannounced).world.jobs = [] ∧
      ∃ tr' c', RunFrom State.initial accepting tr' c' ∧
        c'.calls = (stateAfter State.initial boughtUnannounced).calls ∧
        c'.world = { (stateAfter State.initial boughtUnannounced).world with jobs := c'.world.jobs } := by
  refine ⟨by decide, ?_, by decide, ?_⟩
  · exact (one_notification (uncut_stateAfter bought (by decide))).1 (by decide) (by decide)
  · obtain ⟨-, -, -, tr', c', hrun, -, hcalls, hworld⟩ :=
      one_notification (uncut_stateAfter boughtUnannounced (by decide))
    exact ⟨tr', c', hrun, hcalls, hworld⟩

end

end FlashWallet
