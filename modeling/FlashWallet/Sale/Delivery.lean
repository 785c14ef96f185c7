import FlashWallet.Lib.Machine
import FlashWallet.Model.Notifications
import FlashWallet.Sale.Notifications

/-!
# What becomes of a notification

Whatever the queue does that keeps to `Queue`, the processor tells nobody of an order that is not confirmed, and tells
of no order more often than once and once more for each attempt the queue has lost. What a call of it does is followed
by its `Stage`: a call that throws has sent nothing, and one that has sent does not throw, so each start of an attempt
pays for one or the other.
-/

set_option autoImplicit false

namespace FlashWallet

open Lib

/-- The job is that of a confirmed order. -/
def World.Confirms (w : World) (job : OrderConfirmationJobData) : Prop :=
  ∃ o ∈ w.orders, o.status = .CONFIRMED ∧ o.job = job

namespace Notify

open OrderNotificationProcessor (failedLine)

/-! ## The stages of a call -/

inductive Stage where
  | attempting (job : Job)
  | told (job : Job)
  | reporting (job : Option Job) (message : String)
  | reported

namespace Stage

def start : Request → Stage
  | .process job => .attempting job
  | .failed job message => .reporting job message

def onLog : Stage → Stage
  | .attempting job => .told job
  | .reporting .. => .reported
  | g => g

def next (g : Stage) : (o : Stmt) → Except String o.Reply → Stage
  | .log _, .ok _ => g.onLog
  | _, _ => g

/-- The stage is one of a call that is asked this. -/
def Serves : Stage → Request → Prop
  | .attempting job, r | .told job, r => r = .process job
  | .reporting job message, r => r = .failed job message
  | .reported, r => ∃ job message, r = .failed job message

/-- The call has sent the notification of job `id`. -/
def hasTold (id : Nat) : Stage → Bool
  | .told job => job.id = id
  | _ => false

end Stage

inductive May : Stage → Stmt → Prop where
  | wait (job : Job) (ms : Nat) : May (.attempting job) (.delay ms)
  | draw (job : Job) : May (.attempting job) .random
  | ignore (job : Job) (unknown : job.name ≠ ORDER_CONFIRMATION_JOB) : May (.attempting job) (.log (.ignored job))
  | send (job : Job) : May (.attempting job) (.log (.sent job))
  | report (job : Option Job) (message : String) : May (.reporting job message) (.log (failedLine job message))

/-- No statement fails. -/
def serving : Machine notifying String Stage where
  may := May
  next := Stage.next
  tells _ r := r.isOk = true

/-- How a call ends: it has told, or it has thrown, which it does at no rate that never fails. -/
def Ends (rate : Environment.Number) : Request → Except String Unit → Stage → Prop
  | .process job, .ok _, g => g = .told job
  | .process job, .error _, g => g = .attempting job ∧ neverFails rate = false
  | .failed .., _, _ => True

variable {rate : Environment.Number}

theorem issue_stages {β : Type} {o : Stmt} {f : o.Reply → Handler β} {Q : Except String β → Stage → Prop} {g : Stage}
    (may : May g o) (h : ∀ v, (f v).Keeps serving.discipline Q (g.next o (.ok v))) :
    ((issue o).bind f).Keeps serving.discipline Q g :=
  Machine.keeps_issue (M := serving) may (fun v _ => h v) fun _ hfails => (Bool.false_ne_true hfails).elim

theorem shouldSimulateFailure_stages (job : Job) :
    (OrderNotificationProcessor.shouldSimulateFailure rate).Keeps serving.discipline
      (fun r g => g = .attempting job ∧ ∃ fails, r = .ok fails ∧ (fails = true → neverFails rate = false))
      (.attempting job) := by
  unfold OrderNotificationProcessor.shouldSimulateFailure
  split
  · exact ⟨rfl, false, rfl, fun h => (Bool.false_ne_true h).elim⟩
  · rename_i hfails
    exact issue_stages (.draw job) fun q => ⟨rfl, below q rate, rfl, fun _ => Bool.eq_false_iff.mpr hfails⟩

theorem log_stages {line : Line} {Q : Except String Unit → Stage → Prop} {g : Stage} (may : May g (.log line))
    (h : Q (.ok ()) g.onLog) : (issue (.log line)).Keeps serving.discipline Q g := by
  refine Prog.Keeps.perform may fun r g' hpost => ?_
  obtain ⟨rfl, hfails⟩ := hpost
  cases r with
  | ok v => exact h
  | error e => exact (Bool.false_ne_true hfails).elim

/-- The processor returns when it has written its line, and throws before. -/
theorem process_stages (job : Job) :
    (OrderNotificationProcessor.process rate job).Keeps serving.discipline (Ends rate (.process job))
      (.attempting job) := by
  by_cases unknown : job.name = ORDER_CONFIRMATION_JOB
  · have hknown : OrderNotificationProcessor.process rate job = _ := if_neg (not_not.mpr unknown)
    rw [hknown]
    refine issue_stages (.wait job 200) fun _ => ?_
    refine (shouldSimulateFailure_stages job).seq (fun fails g h => ?_) fun e g h => ?_
    · obtain ⟨rfl, _, hsame, hfails⟩ := h
      cases hsame
      cases fails with
      | true => exact ⟨rfl, hfails rfl⟩
      | false => exact log_stages (.send job) rfl
    · obtain ⟨-, _, herror, -⟩ := h
      cases herror
  · have hignored : OrderNotificationProcessor.process rate job = _ := if_pos unknown
    rw [hignored]
    exact log_stages (.ignore job unknown) rfl

theorem handler_stages (r : Request) :
    (r.handler rate).Keeps serving.discipline (Ends rate r) (Stage.start r) := by
  cases r with
  | process job => exact process_stages job
  | failed job message => exact log_stages (.report job message) trivial

/-! ## Lines -/

/-- The job whose notification a line tells of. -/
def Line.job? : Line → Option Job
  | .noContext _ | .ignored _ => none
  | .sent job | .permanentlyFailed job _ | .willRetry job _ => some job

def Line.isSent (id : Nat) : Line → Bool
  | .sent job => job.id = id
  | _ => false

/-- How often the notification of job `id` has been sent. -/
def World.sent (w : World) (id : Nat) : Nat := w.lines.countP (Line.isSent id)

/-- A line that a call which is asked this writes. -/
def Request.Logs : Request → Line → Prop
  | .process job, line => line = .sent job
  | .failed job message, line => line = failedLine job message

theorem failedLine_isSent (job : Option Job) (message : String) (id : Nat) :
    (failedLine job message).isSent id = false := by
  cases job with
  | none => rfl
  | some job =>
    unfold failedLine
    dsimp only
    split <;> rfl

theorem failedLine_job (job : Job) (message : String) : (failedLine (some job) message).job? = some job := by
  unfold failedLine
  dsimp only
  split <;> rfl

/-- What is reported as a permanent failure has used its attempts up, and what will be retried has not. -/
theorem failedLine_attempts {job : Option Job} {job' : Job} {message message' : String} :
    (failedLine job message = .permanentlyFailed job' message' →
        job = some job' ∧ job'.opts.attempts.getD 1 ≤ job'.attemptsMade) ∧
      (failedLine job message = .willRetry job' message' →
        job = some job' ∧ job'.attemptsMade < job'.opts.attempts.getD 1) := by
  cases job with
  | none => exact ⟨(by rintro ⟨⟩), (by rintro ⟨⟩)⟩
  | some job =>
    unfold failedLine
    dsimp only
    split
    · rename_i hused
      refine ⟨?_, (by rintro ⟨⟩)⟩
      rintro ⟨⟩
      exact ⟨rfl, hused⟩
    · rename_i hunused
      refine ⟨(by rintro ⟨⟩), ?_⟩
      rintro ⟨⟩
      exact ⟨rfl, Nat.not_le.mp hunused⟩

/-! ## What a step does -/

inductive World.Did (w : World) : (o : Stmt) → Except String o.Reply → World → Prop where
  | waited (ms : Nat) : Did w (.delay ms) (.ok ()) w
  | drew (q : ℚ) : Did w .random (.ok q) w
  | wrote (line : Line) : Did w (.log line) (.ok ()) { w with lines := w.lines ++ [line] }

theorem World.did_of_exec {i : Nat} {o : Stmt} {x : Choice} {w w' : World} {reply : Except String o.Reply}
    (h : World.exec i o x w = some (reply, w')) : World.Did w o reply w' := by
  cases o with
  | delay ms =>
    cases x with
    | ok => cases h; exact .waited ms
    | drawn => cases h
  | random =>
    cases x with
    | drawn q =>
      obtain ⟨-, heq⟩ := Option.ite_none_right_eq_some.mp h
      obtain ⟨rfl, rfl⟩ := Prod.mk.inj (Option.some.inj heq)
      exact .drew q
    | ok =>
      have hnone : World.exec i .random .ok w = none := rfl
      exact absurd (hnone.symm.trans h) (Option.some_ne_none _).symm
  | log line =>
    cases x with
    | ok => cases h; exact .wrote line
    | drawn => cases h

/-- The sale queues more jobs, and takes none back. -/
theorem jobs_of_step {c c' : FlashWallet.State} {l : FlashWallet.Event} (hstep : system.step c l = some c') :
    c.world.jobs ++ c'.world.jobs.drop c.world.jobs.length = c'.world.jobs := by
  have hsame : ∀ w : FlashWallet.World, w.jobs = c.world.jobs →
      c.world.jobs ++ w.jobs.drop c.world.jobs.length = w.jobs := by
    intro w hw
    rw [hw, List.drop_length, List.append_nil]
  cases l with
  | arrive r =>
    obtain rfl := Option.some.inj hstep
    exact hsame _ rfl
  | exec i x =>
    obtain ⟨r, o, k, reply, w, -, hexec, rfl⟩ := system.step_exec hstep
    rcases World.jobs_served (World.Served.of_exec hexec) with hjobs | ⟨job, -, hjobs⟩
    · exact hsame w hjobs
    · change _ ++ w.jobs.drop _ = w.jobs
      rw [hjobs, List.drop_left]
  | crash i =>
    obtain ⟨r, o, k, -, rfl⟩ := system.step_crash hstep
    exact hsame _ rfl
  | env e =>
    obtain ⟨w, hw, rfl⟩ := system.step_env hstep
    exact hsame w (World.jobs_env hw)

theorem World.Queued.sell {w : World} {job : Job} (h : w.Queued job) {l : FlashWallet.Event}
    {sale : FlashWallet.State} (hstep : system.step w.sale l = some sale) :
    World.Queued { w with sale := sale } job := by
  refine ⟨h.name, h.opts, ?_⟩
  rw [← jobs_of_step hstep]
  exact (List.getElem?_append_left (List.getElem?_eq_some_iff.mp h.data).1).trans h.data

section

variable {c : State} {i : Nat} {r : Request} {p p' : Handler Unit} {crashed crashed' : Bool} {w : World}

/-- Nobody is asked anything new by a step of a call. -/
theorem requests_set (hi : c.calls[i]? = some ⟨r, p, crashed⟩) :
    State.requests ⟨w, c.calls.set i ⟨r, p', crashed'⟩⟩ = c.requests := by
  have hr : c.requests[i]? = some r := by
    rw [State.requests, List.getElem?_map, hi]
    rfl
  change (c.calls.set i _).map Call.request = c.requests
  rw [List.map_set]
  exact Platform.set_same hr

theorem starts_set (hi : c.calls[i]? = some ⟨r, p, crashed⟩) (id : Nat) :
    State.starts ⟨w, c.calls.set i ⟨r, p', crashed'⟩⟩ id = c.starts id := by
  rw [State.starts, requests_set hi, State.starts]

/-- A call that is at a statement has not thrown yet. -/
theorem throws_set {o : Stmt} {k : Except String o.Reply → Handler Unit}
    (hi : c.calls[i]? = some ⟨r, .call (S := notifying) o k, crashed⟩) (id : Nat) :
    c.throws id ≤ State.throws ⟨w, c.calls.set i ⟨r, p', crashed'⟩⟩ id := by
  have hopen : rejected ⟨r, .call (S := notifying) o k, crashed⟩ = false := by
    cases crashed <;> rfl
  have hcount := Platform.countP_set (fun call => call.request.attempts id && rejected call) ⟨r, p', crashed'⟩ hi
  rw [hopen, Bool.and_false, Bool.toNat_false, Nat.add_zero] at hcount
  exact (Nat.le_add_right _ _).trans hcount.ge

end

/-! ## What is known of a run -/

structure Delivering (c : State) (gs : List Stage) : Prop where
  sale : ∃ tr, FlashWallet.RunFrom FlashWallet.State.initial anyStep tr c.world.sale
  asked : Platform.Matched (fun _ call g => g.Serves call.request) c.calls gs
  genuine : ∀ r ∈ c.requests, ∀ job, r.job? = some job → c.world.Queued job ∧ job.attemptsMade ≤ c.starts job.id
  sent : ∀ id, c.world.sent id = gs.countP (Stage.hasTold id)
  told : ∀ job, .told job ∈ gs → .sent job ∈ c.world.lines
  lines : ∀ line ∈ c.world.lines, ∃ r ∈ c.requests, r.Logs line
  once : ∀ id, c.starts id ≤ 1 + c.throws id + c.world.lost.count id

namespace Delivering

variable {c : State} {gs : List Stage} {queue : Queue}

theorem initial : Delivering State.initial [] where
  sale := ⟨_, .nil⟩
  asked := .nil
  genuine _ h := absurd h List.not_mem_nil
  sent _ := rfl
  told _ h := absurd h List.not_mem_nil
  lines _ h := absurd h List.not_mem_nil
  once _ := Nat.zero_le _

/-- The queue calls. It is here that a new start needs an attempt that has thrown, or is lost. -/
theorem arrive (h : Delivering c gs) (hlen : gs.length = c.calls.length) {r : Request} (hcalls : queue.calls c r) :
    Delivering ((processor rate).arrive c r) (gs ++ [Stage.start r]) := by
  have hrequests : State.requests ((processor rate).arrive c r) = c.requests ++ [r] := List.map_append
  have hstarts : ∀ id, State.starts ((processor rate).arrive c r) id = c.starts id + (r.attempts id).toNat := by
    intro id
    rw [State.starts, hrequests, List.countP_append, List.countP_singleton]
    cases r.attempts id <;> rfl
  have hthrows : ∀ id, c.throws id ≤ State.throws ((processor rate).arrive c r) id := fun id =>
    (List.sublist_append_left c.calls _).countP_le
  have hstart : ∀ id, (Stage.start r).hasTold id = false := fun id => by cases r <;> rfl
  refine ⟨h.sale, h.asked.arrive hlen (by cases r <;> rfl), fun r' hr' job hjob => ?_, fun id => ?_, fun job hjob => ?_,
    fun line hline => ?_, fun id => ?_⟩
  · have hknown : c.world.Queued job ∧ job.attemptsMade ≤ c.starts job.id := by
      rw [hrequests] at hr'
      rcases List.mem_append.mp hr' with hr' | hr'
      · exact h.genuine r' hr' job hjob
      · obtain rfl := List.mem_singleton.mp hr'
        exact ⟨queue.genuine hcalls hjob, queue.counted hcalls hjob⟩
    refine ⟨hknown.1, hknown.2.trans ?_⟩
    rw [hstarts]
    exact Nat.le_add_right _ _
  · rw [List.countP_append, List.countP_singleton, hstart]
    exact h.sent id
  · rcases List.mem_append.mp hjob with hjob | hjob
    · exact h.told job hjob
    · cases r <;> cases List.mem_singleton.mp hjob
  · obtain ⟨r', hr', hlogs⟩ := h.lines line hline
    rw [hrequests]
    exact ⟨r', List.mem_append_left _ hr', hlogs⟩
  · have hold := h.once id
    have hmore := hthrows id
    change _ ≤ 1 + _ + c.world.lost.count id
    rw [hstarts]
    cases r with
    | failed job message =>
      change c.starts id + 0 ≤ _
      omega
    | process job =>
      by_cases hid : job.id = id
      · subst hid
        have hagain := queue.again hcalls
        have hone := Bool.toNat_le ((Request.process job).attempts job.id)
        omega
      · rw [show (Request.process job).attempts id = false from decide_eq_false hid]
        change c.starts id + 0 ≤ _
        omega

/-- A call takes a step, or dies, and writes `new`. -/
theorem move (h : Delivering c gs) {i : Nat} {r : Request} {o : Stmt} {k : Except String o.Reply → Handler Unit}
    {g g' : Stage} {p' : Handler Unit} {crashed : Bool} {w : World} (new : List Line)
    (hi : c.calls[i]? = some ⟨r, .call (S := notifying) o k, false⟩) (hg : gs[i]? = some g) (hserves : g'.Serves r)
    (hsale : w.sale = c.world.sale) (hlost : w.lost = c.world.lost) (hlines : w.lines = c.world.lines ++ new)
    (hlogs : ∀ line ∈ new, r.Logs line)
    (hsent : ∀ id, new.countP (Line.isSent id) + (g.hasTold id).toNat = (g'.hasTold id).toNat)
    (htold : ∀ job, g' = .told job → .sent job ∈ c.world.lines ++ new) :
    Delivering ⟨w, c.calls.set i ⟨r, p', crashed⟩⟩ (gs.set i g') := by
  have hr : r ∈ c.requests := List.mem_map.mpr ⟨_, List.mem_of_getElem? hi, rfl⟩
  refine ⟨?_, h.asked.set (fun _ _ _ _ h => h) hserves, fun r' hr' job hjob => ?_, fun id => ?_, fun job hjob => ?_,
    fun line hline => ?_, fun id => ?_⟩
  · change ∃ tr, FlashWallet.RunFrom _ _ tr w.sale
    rw [hsale]
    exact h.sale
  · rw [requests_set hi] at hr'
    obtain ⟨hqueued, hmade⟩ := h.genuine r' hr' job hjob
    rw [starts_set hi]
    refine ⟨⟨hqueued.name, hqueued.opts, ?_⟩, hmade⟩
    change w.sale.world.jobs[job.id]? = _
    rw [hsale]
    exact hqueued.data
  · have hold := h.sent id
    have hcount := Platform.countP_set (Stage.hasTold id) g' hg
    have hnew := hsent id
    change w.lines.countP _ = _
    rw [hlines, List.countP_append]
    change c.world.sent id + _ = _
    omega
  · change _ ∈ w.lines
    rw [hlines]
    rcases List.mem_or_eq_of_mem_set hjob with hjob | heq
    · exact List.mem_append_left _ (h.told job hjob)
    · exact htold job heq.symm
  · change line ∈ w.lines at hline
    rw [requests_set hi]
    rw [hlines] at hline
    rcases List.mem_append.mp hline with hline | hline
    · exact h.lines line hline
    · exact ⟨r, hr, hlogs line hline⟩
  · have hold := h.once id
    have hmore : c.throws id ≤ State.throws ⟨w, c.calls.set i ⟨r, p', crashed⟩⟩ id := throws_set hi id
    change _ ≤ 1 + _ + w.lost.count id
    rw [starts_set hi, hlost]
    omega

/-- Nothing is written. -/
theorem rest (h : Delivering c gs) {i : Nat} {r : Request} {o : Stmt} {k : Except String o.Reply → Handler Unit}
    {g : Stage} {p' : Handler Unit} {crashed : Bool}
    (hi : c.calls[i]? = some ⟨r, .call (S := notifying) o k, false⟩) (hg : gs[i]? = some g) :
    Delivering ⟨c.world, c.calls.set i ⟨r, p', crashed⟩⟩ (gs.set i g) :=
  h.move [] hi hg (h.asked i _ g hi hg) rfl rfl (List.append_nil _).symm (fun _ hline => absurd hline List.not_mem_nil)
    (fun _ => Nat.zero_add _) fun job hjob => List.mem_append_left _ (h.told job (hjob ▸ List.mem_of_getElem? hg))

theorem env (h : Delivering c gs) {e : Env} {w : World} (he : e.run c.world = some w) :
    Delivering { c with world := w } gs := by
  cases e with
  | sale l =>
    obtain ⟨sale, hstep, rfl⟩ := Option.map_eq_some_iff.mp he
    obtain ⟨tr, hrun⟩ := h.sale
    refine ⟨⟨_, hrun.snoc trivial hstep⟩, h.asked, fun r hr job hjob => ?_, h.sent, h.told, h.lines, h.once⟩
    obtain ⟨hqueued, hmade⟩ := h.genuine r hr job hjob
    exact ⟨hqueued.sell hstep, hmade⟩
  | lose id =>
    obtain rfl := Option.some.inj he
    refine ⟨h.sale, h.asked, fun r hr job hjob => ?_, h.sent, h.told, h.lines, fun id' => (h.once id').trans ?_⟩
    · obtain ⟨hqueued, hmade⟩ := h.genuine r hr job hjob
      exact ⟨⟨hqueued.name, hqueued.opts, hqueued.data⟩, hmade⟩
    · exact Nat.add_le_add_left ((List.sublist_cons_self id c.world.lost).count_le id') _

end Delivering

theorem delivering_bookkeeping (queue : Queue) (rate : Environment.Number) :
    Platform.Bookkeeping (processor rate) serving.discipline (Ends rate) Stage.start (fun _ => Delivering)
      queue.permits State.initial where
  handlers _ r _ := handler_stages r
  arrive _ _ _ _ _ hlen h hcalls := h.arrive hlen hcalls
  exec tr c gs i r o k g x reply w _ _ h _ hi hg may hexec := by
    have hserves : g.Serves r := h.asked i _ g hi hg
    have hdid := World.did_of_exec (i := i) hexec
    refine ⟨g.next o reply, ⟨rfl, ?_⟩, ?_⟩
    · cases hdid <;> rfl
    cases hdid with
    | waited ms => exact h.rest hi hg
    | drew q => exact h.rest hi hg
    | wrote line =>
      cases may with
      | ignore job unknown =>
        -- the queue has no such job
        obtain rfl : r = .process job := hserves
        have hr : Request.process job ∈ State.requests c := List.mem_map.mpr ⟨_, List.mem_of_getElem? hi, rfl⟩
        exact absurd (h.genuine _ hr job rfl).1.name unknown
      | send job =>
        obtain rfl : r = .process job := hserves
        refine h.move [.sent job] hi hg rfl rfl rfl rfl (fun line hline => List.mem_singleton.mp hline)
          (fun id => ?_) fun job' hjob' => ?_
        · change [Line.sent job].countP _ + 0 = (decide (job.id = id)).toNat
          rw [List.countP_singleton]
          change (if decide (job.id = id) = true then 1 else 0) + 0 = _
          cases decide (job.id = id) <;> rfl
        · cases hjob'
          exact List.mem_append_right _ (List.mem_singleton.mpr rfl)
      | report job message =>
        obtain rfl : r = .failed job message := hserves
        refine h.move [failedLine job message] hi hg ⟨job, message, rfl⟩ rfl rfl rfl
          (fun line hline => List.mem_singleton.mp hline) (fun id => ?_) fun job' hjob' => by cases hjob'
        rw [List.countP_singleton, failedLine_isSent]
        rfl
  crash _ _ _ _ _ _ _ g _ _ h _ hi hg := ⟨g, h.rest hi hg⟩
  env _ _ _ _ _ _ _ h _ he := h.env he

/-! ## What is told -/

/-- What the processor owes its users, whatever the queue does: who is told, how often, and when a notification is given
up. -/
structure Notified (rate : Environment.Number) (c : State) : Prop where
  told : ∀ line ∈ c.world.lines, (∃ message, line = .noContext message) ∨
    ∃ job, line.job? = some job ∧ c.world.Queued job ∧ c.world.sale.world.Confirms job.data
  single : ∀ job job', c.world.Queued job → c.world.Queued job' → job.data.orderId = job'.data.orderId →
    job.id = job'.id
  sent : ∀ id, c.world.sent id ≤ 1 + c.world.lost.count id
  started : ∀ id, c.world.sent id + c.throws id ≤ c.starts id
  returned : ∀ call ∈ c.calls, ∀ job, call.request = .process job → call.result? = some (.ok ()) →
    .sent job ∈ c.world.lines
  unfailing : neverFails rate = true → ∀ id, c.throws id = 0
  givenUp : ∀ job message, .permanentlyFailed job message ∈ c.world.lines →
    5 ≤ job.attemptsMade ∧ 5 ≤ c.starts job.id
  retried : ∀ job message, .willRetry job message ∈ c.world.lines → job.attemptsMade < 5

section

variable {c : State} {gs : List Stage}

theorem rejected_eq_true {call : Call notifying String Unit Request} (h : rejected call = true) :
    ∃ message, call.result? = some (.error message) := by
  unfold rejected at h
  split at h
  · exact ⟨_, ‹_›⟩
  · cases h

theorem attempts_eq_true {r : Request} {id : Nat} (h : r.attempts id = true) :
    ∃ job, r = .process job ∧ job.id = id := by
  cases r with
  | process job => exact ⟨job, rfl, of_decide_eq_true h⟩
  | failed => cases h

/-- An attempt that has told has not thrown. -/
theorem Delivering.started (h : Delivering c gs)
    (ha : Platform.Aligned serving.discipline (Ends rate) c.calls gs) (id : Nat) :
    c.world.sent id + c.throws id ≤ c.starts id := by
  have htold : gs.countP (Stage.hasTold id) ≤
      c.calls.countP fun call => call.request.attempts id && !rejected call := by
    refine Platform.countP_le_of_places ha.length fun i g call hg hi hhas => ?_
    have hserves := h.asked i call g hi hg
    cases g with
    | told job =>
      have hreq : call.request = .process job := hserves
      refine Bool.and_eq_true_iff.mpr ⟨hreq ▸ hhas, ?_⟩
      cases hrejected : rejected call with
      | false => rfl
      | true =>
        obtain ⟨message, hresult⟩ := rejected_eq_true hrejected
        have hends := ha.outcome hi hg hresult
        rw [hreq] at hends
        cases hends.1
    | attempting => cases hhas
    | reporting => cases hhas
    | reported => cases hhas
  have hsplit : (c.calls.countP fun call => call.request.attempts id && !rejected call) + c.throws id =
      c.starts id := by
    rw [State.starts, State.requests, List.countP_map, State.throws]
    exact Platform.countP_not_add (fun call => call.request.attempts id) rejected c.calls
  rw [h.sent id]
  omega

theorem Delivering.unthrown (ha : Platform.Aligned serving.discipline (Ends rate) c.calls gs)
    (hrate : neverFails rate = true) (id : Nat) : c.throws id = 0 := by
  refine List.countP_eq_zero.mpr fun call hcall hthrows => ?_
  obtain ⟨hattempts, hrejected⟩ := Bool.and_eq_true_iff.mp hthrows
  obtain ⟨job, hreq, -⟩ := attempts_eq_true hattempts
  obtain ⟨message, hresult⟩ := rejected_eq_true hrejected
  obtain ⟨i, hi⟩ := List.mem_iff_getElem?.mp hcall
  obtain ⟨g, hg⟩ := ha.books hi
  have hends := ha.outcome hi hg hresult
  rw [hreq] at hends
  cases hrate.symm.trans hends.2

end

/-- **What becomes of a notification**, for every queue there may be and every failure rate, in every run of the sale
and the processor: every line tells of a job the sale has queued, which is that of a confirmed order and its user (or
has been given no job at all); it is sent once at most, and once more for each attempt the queue has lost; an attempt
that returns has sent it, and one that throws has not. It is reported as failed for good only after five attempts. -/
theorem notified {queue : Queue} {rate : Environment.Number} {tr : Trace} {c : State}
    (hrun : RunFrom rate State.initial queue.permits tr c) : Notified rate c := by
  obtain ⟨gs, h, ha⟩ := (delivering_bookkeeping queue rate).sound .initial .nil hrun
  obtain ⟨tr', hsale⟩ := h.sale
  -- who has written a line that tells of a job
  have hfailed : ∀ {line job}, line ∈ c.world.lines → line.job? = some job →
      (∀ id, line.isSent id = false) → ∃ r ∈ c.requests, ∃ message, r = .failed (some job) message ∧
        line = failedLine (some job) message := by
    intro line job hline hjob hunsent
    obtain ⟨r, hr, hlogs⟩ := h.lines line hline
    cases r with
    | process job' =>
      obtain rfl : line = .sent job' := hlogs
      exact absurd (hunsent job'.id) (by simp [Line.isSent])
    | failed job' message =>
      obtain rfl : line = failedLine job' message := hlogs
      cases job' with
      | none => cases hjob
      | some job' =>
        obtain rfl := Option.some.inj ((failedLine_job job' message).symm.trans hjob)
        exact ⟨_, hr, message, rfl, rfl⟩
  refine ⟨fun line hline => ?_, fun job job' hjob hjob' hid => ?_, fun id => ?_, h.started ha,
    fun call hcall job hreq hresult => ?_, Delivering.unthrown ha, fun job message hline => ?_,
    fun job message hline => ?_⟩
  · have htells : ∀ r ∈ c.requests, ∀ job, r.job? = some job → line.job? = some job →
        ∃ job, line.job? = some job ∧ c.world.Queued job ∧ c.world.sale.world.Confirms job.data := by
      intro r hr job hjob htells
      have hqueued := (h.genuine r hr job hjob).1
      exact ⟨job, htells, hqueued, confirmed_of_run hsale (List.mem_of_getElem? hqueued.data)⟩
    obtain ⟨r, hr, hlogs⟩ := h.lines line hline
    cases r with
    | process job =>
      obtain rfl : line = .sent job := hlogs
      exact Or.inr (htells _ hr job rfl rfl)
    | failed job message =>
      obtain rfl : line = failedLine job message := hlogs
      cases job with
      | none => exact Or.inl ⟨message, rfl⟩
      | some job => exact Or.inr (htells _ hr job rfl (failedLine_job job message))
  · have horder : ∀ job, c.world.Queued job →
        (c.world.sale.world.jobs.map OrderConfirmationJobData.orderId)[job.id]? = some job.data.orderId :=
      fun job hjob => by rw [List.getElem?_map, hjob.data]; rfl
    have hlt := (List.getElem?_eq_some_iff.mp (horder job hjob)).1
    exact (List.getElem?_inj hlt (jobs_nodup_of_run hsale)).mp
      ((horder job hjob).trans ((congrArg some hid).trans (horder job' hjob').symm))
  · have hstarted := h.started ha id
    have honce := h.once id
    omega
  · obtain ⟨i, hi⟩ := List.mem_iff_getElem?.mp hcall
    obtain ⟨g, hg⟩ := ha.books hi
    have hends := ha.outcome hi hg hresult
    rw [hreq] at hends
    exact h.told job (hends ▸ List.mem_of_getElem? hg)
  · obtain ⟨r, hr, message', rfl, heq⟩ := hfailed hline rfl fun _ => rfl
    obtain ⟨hqueued, hmade⟩ := h.genuine _ hr job rfl
    obtain ⟨-, hused⟩ := failedLine_attempts.1 heq.symm
    rw [hqueued.opts] at hused
    exact ⟨hused, hused.trans hmade⟩
  · obtain ⟨r, hr, message', rfl, heq⟩ := hfailed hline rfl fun _ => rfl
    obtain ⟨-, hunused⟩ := failedLine_attempts.2 heq.symm
    rw [(h.genuine _ hr job rfl).1.opts] at hunused
    exact hunused

section

open FlashWallet.Sample

instance (w : World) (job : Job) : Decidable (w.Queued job) :=
  decidable_of_iff (job.name = ORDER_CONFIRMATION_JOB ∧ job.opts = ORDER_CONFIRMATION_JOB_OPTIONS ∧
      w.sale.world.jobs[job.id]? = some job.data)
    ⟨fun h => ⟨h.1, h.2.1, h.2.2⟩, fun h => ⟨h.name, h.opts, h.data⟩⟩

/-- An attempt counts as made when it has thrown, and then the job is due again; so it is when an attempt is lost. -/
def offers (c : State) : Request → Bool
  | .process job => c.world.Queued job && job.attemptsMade = c.throws job.id &&
      c.starts job.id ≤ c.throws job.id + c.world.lost.count job.id
  | .failed (some job) _ => c.world.Queued job && job.attemptsMade = c.throws job.id
  | .failed none _ => false

theorem offers_queued {c : State} {r : Request} {job : Job} (h : offers c r = true) (hjob : r.job? = some job) :
    c.world.Queued job ∧ job.attemptsMade = c.throws job.id := by
  cases r with
  | process job' =>
    obtain rfl := Option.some.inj hjob
    simp only [offers, Bool.and_eq_true, decide_eq_true_eq] at h
    exact h.1
  | failed job' message =>
    obtain rfl : job' = some job := hjob
    simpa [offers] using h

theorem throws_le_starts (c : State) (id : Nat) : c.throws id ≤ c.starts id := by
  rw [State.starts, State.requests, List.countP_map]
  exact List.countP_mono_left fun call _ h => (Bool.and_eq_true_iff.mp h).1

def bull : Queue where
  calls c r := offers c r = true
  genuine h hjob := (offers_queued h hjob).1
  again h := by
    simp only [offers, Bool.and_eq_true, decide_eq_true_eq] at h
    exact h.2
  counted {c _ job} h hjob := (offers_queued h hjob).2.le.trans (throws_le_starts c job.id)

/-- The job of Alice's lamp. -/
def lampJob (attemptsMade : Nat) : Job :=
  ⟨0, ORDER_CONFIRMATION_JOB, ⟨id₂, alice⟩, attemptsMade, ORDER_CONFIRMATION_JOB_OPTIONS⟩

def simulated : String := "Simulated notification failure for order=" ++ id₂.text ++ " (attempt 1)"

/-- Alice buys the lamp. The first attempt to tell her throws, the second tells her and is lost, and the third tells her
again. -/
def resent : List Event :=
  bought.map (.env <| .sale ·) ++
    [.arrive (.process (lampJob 0)), .exec 0 .ok, .exec 0 (.drawn 0),
      .arrive (.failed (some (lampJob 1)) simulated), .exec 1 .ok,
      .arrive (.process (lampJob 1)), .exec 2 .ok, .exec 2 (.drawn (3 / 4)), .exec 2 .ok, .env (.lose 0),
      .arrive (.process (lampJob 1)), .exec 3 .ok, .exec 3 (.drawn (3 / 4)), .exec 3 .ok]

/-- Every other attempt fails. -/
def half : Environment.Number := .finite (1 / 2)

def permitted (c : State) : Event → Bool
  | .arrive r => offers c r
  | _ => true

set_option maxRecDepth 8000 in
theorem notified_resent :
    ∃ tr c, RunFrom half State.initial bull.permits tr c ∧
      c.world.lines = [.willRetry (lampJob 1) simulated, .sent (lampJob 1), .sent (lampJob 1)] ∧
      c.world.lost = [0] ∧ Notified half c := by
  have hlines : (executeChecked (processor half).step permitted State.initial resent).map (fun c =>
      (c.world.lines, c.world.lost)) =
        some ([.willRetry (lampJob 1) simulated, .sent (lampJob 1), .sent (lampJob 1)], [0]) := by decide +kernel
  obtain ⟨c, hexecute, hpair⟩ := Option.map_eq_some_iff.mp hlines
  obtain ⟨hlines, hlost⟩ := Prod.mk.inj hpair
  have hrun : RunFrom half State.initial bull.permits _ c := (Run.of_executeChecked hexecute).mono fun c l h => by
    cases l with
    | arrive r => exact h
    | _ => trivial
  exact ⟨_, c, hrun, hlines, hlost, notified hrun⟩

end

end Notify

end FlashWallet
