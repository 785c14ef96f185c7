import FlashWallet.Model.Environment
import FlashWallet.Model.System

/-!
# Notifications

`src/modules/notifications/order-notification.processor.ts` and `notifications.constants.ts`, function by function. The
jobs are those the sale has queued. The queue is BullMQ's: which job it has processed, and what it reports as failed, is
a parameter, and `Queue` says what is relied on.
-/

set_option autoImplicit false

namespace FlashWallet.Notify

open Lib

/-! ## Jobs -/

def ORDER_NOTIFICATIONS_QUEUE : String := "order-notifications"

def ORDER_CONFIRMATION_JOB : String := "order-confirmation"

/-- Of the options of a job the processor reads one. -/
structure JobOptions where
  attempts : Option Nat
deriving DecidableEq, Repr

def ORDER_CONFIRMATION_JOB_OPTIONS : JobOptions := ⟨some 5⟩

/-- `id` is the queue's, which numbers the jobs as they are added. -/
structure Job where
  id : Nat
  name : String
  data : OrderConfirmationJobData
  attemptsMade : Nat
  opts : JobOptions
deriving DecidableEq, Repr

/-- What is written into the log. -/
inductive Line where
  | ignored (job : Job)
  | sent (job : Job)
  | noContext (message : String)
  | permanentlyFailed (job : Job) (message : String)
  | willRetry (job : Job) (message : String)
deriving DecidableEq, Repr

namespace Line

def text : Line → String
  | .ignored job => "Ignoring unknown job \"" ++ job.name ++ "\" on " ++ ORDER_NOTIFICATIONS_QUEUE
  | .sent job => "Notification sent for order=" ++ job.data.orderId.text ++ " user=" ++ job.data.userId.text ++
      " (attempt " ++ toString (job.attemptsMade + 1) ++ ")"
  | .noContext message => "Order-notification job failed with no job context: " ++ message
  | .permanentlyFailed job message => "Notification for order=" ++ job.data.orderId.text ++
      " permanently failed after " ++ toString job.attemptsMade ++ " attempts: " ++ message
  | .willRetry job message => "Notification attempt " ++ toString job.attemptsMade ++ " failed for order=" ++
      job.data.orderId.text ++ ", will retry: " ++ message

end Line

/-! ## The processor -/

inductive Stmt where
  | delay (ms : Nat)
  | random
  | log (line : Line)

def Stmt.Reply : Stmt → Type
  | .delay _ => Unit
  | .random => ℚ
  | .log _ => Unit

abbrev notifying : Signature := ⟨Stmt, Stmt.Reply⟩

/-- An error is known by its message. -/
abbrev Handler (α : Type) := Prog notifying String α

abbrev issue (o : Stmt) : Handler o.Reply := Prog.perform (S := notifying) o

/-- `r < rate`. -/
def below (r : ℚ) : Environment.Number → Bool
  | .nan => false
  | .infinity negative => !negative
  | .finite q => r < q

/-- `!rate || rate <= 0`. -/
def neverFails (rate : Environment.Number) : Bool :=
  rate = .nan || rate = .finite 0 || rate.le (.finite 0)

namespace OrderNotificationProcessor

def shouldSimulateFailure (rate : Environment.Number) : Handler Bool :=
  if neverFails rate then return false
  else do
    let drawn : ℚ ← issue .random
    return below drawn rate

def process (rate : Environment.Number) (job : Job) : Handler Unit :=
  if job.name ≠ ORDER_CONFIRMATION_JOB then issue (.log (.ignored job))
  else do
    issue (.delay 200)
    if ← shouldSimulateFailure rate then
      throw ("Simulated notification failure for order=" ++ job.data.orderId.text ++ " (attempt " ++
        toString (job.attemptsMade + 1) ++ ")")
    else issue (.log (.sent job))

/-- The line `onFailed` writes. -/
def failedLine (job : Option Job) (message : String) : Line :=
  match job with
  | none => .noContext message
  | some job =>
    if job.attemptsMade ≥ job.opts.attempts.getD 1 then .permanentlyFailed job message else .willRetry job message

def onFailed (job : Option Job) (message : String) : Handler Unit := issue (.log (failedLine job message))

end OrderNotificationProcessor

/-- What the queue calls: the processor with a job, and its listener with a failure. -/
inductive Request where
  | process (job : Job)
  | failed (job : Option Job) (message : String)
deriving DecidableEq, Repr

namespace Request

def job? : Request → Option Job
  | .process job => some job
  | .failed job _ => job

/-- An attempt of job `id`. -/
def attempts (id : Nat) : Request → Bool
  | .process job => job.id = id
  | .failed .. => false

def handler (rate : Environment.Number) : Request → Handler Unit
  | .process job => OrderNotificationProcessor.process rate job
  | .failed job message => OrderNotificationProcessor.onFailed job message

end Request

/-! ## The world -/

/-- `lost` are the jobs of which the queue has lost an attempt: it has stalled, or its completion has not been taken. -/
structure World where
  sale : FlashWallet.State
  lines : List Line
  lost : List Nat

def World.initial : World := ⟨FlashWallet.State.initial, [], []⟩

/-- What the outside decides about a statement. -/
inductive Choice where
  | ok
  | drawn (q : ℚ)

def World.exec (_ : Nat) (o : Stmt) (x : Choice) (w : World) : Option (Except String o.Reply × World) :=
  match o, x with
  | .delay _, .ok => some (.ok (), w)
  | .random, .drawn q => if 0 ≤ q ∧ q < 1 then some (.ok q, w) else none
  | .log line, .ok => some (.ok (), { w with lines := w.lines ++ [line] })
  | _, _ => none

/-- Moves of the environment: a step of the sale, which may queue a job; an attempt of a job is lost. -/
inductive Env where
  | sale (l : FlashWallet.Event)
  | lose (id : Nat)

def Env.run : Env → World → Option World
  | .sale l, w => (system.step w.sale l).map fun c => { w with sale := c }
  | .lose id, w => some { w with lost := id :: w.lost }

/-- Any number of calls of the processor at once. A worker may die in any. -/
def processor (rate : Environment.Number) : Platform notifying String Unit Request Choice Env World where
  program r := r.handler rate
  exec := World.exec
  cutOff _ w := w
  env := Env.run

abbrev State := Config notifying String Unit Request World

abbrev Event := Label Request Choice Env

abbrev Trace := List (Step State Event)

def State.initial : State := ⟨World.initial, []⟩

/-! ## The queue -/

/-- The job has been queued by the sale, under its name and with its options. -/
structure World.Queued (w : World) (job : Job) : Prop where
  name : job.name = ORDER_CONFIRMATION_JOB
  opts : job.opts = ORDER_CONFIRMATION_JOB_OPTIONS
  data : w.sale.world.jobs[job.id]? = some job.data

/-- What has been called so far. -/
def State.requests (c : State) : List Request := c.calls.map Call.request

/-- How often an attempt of job `id` has been started. -/
def State.starts (c : State) (id : Nat) : Nat := c.requests.countP (Request.attempts id)

/-- The call has rejected. -/
def rejected (call : Call notifying String Unit Request) : Bool :=
  match call.result? with
  | some (.error _) => true
  | _ => false

/-- How often an attempt of job `id` has thrown. -/
def State.throws (c : State) (id : Nat) : Nat :=
  c.calls.countP fun call => call.request.attempts id && rejected call

/-- What is relied on of the queue. Which of its jobs it starts when, and what it reports, is left to it: it may put a
job off, give it up, and start one again that somebody retries by hand. -/
structure Queue where
  /-- What it may call in a state. -/
  calls : State → Request → Prop
  /-- Its jobs are those that have been added, as they were added: nobody adds or edits one by hand. -/
  genuine : ∀ {c : State} {r : Request} {job : Job}, calls c r → r.job? = some job → c.world.Queued job
  /-- A job is delivered at least once, and again only when every attempt of it so far has thrown or is lost. -/
  again : ∀ {c : State} {job : Job}, calls c (.process job) →
    c.starts job.id ≤ c.throws job.id + c.world.lost.count job.id
  /-- No attempt is counted as made that has not been started. -/
  counted : ∀ {c : State} {r : Request} {job : Job}, calls c r → r.job? = some job → job.attemptsMade ≤ c.starts job.id

/-- What is called is what the queue calls. -/
def Queue.permits (queue : Queue) (c : State) : Event → Prop
  | .arrive r => queue.calls c r
  | _ => True

abbrev RunFrom (rate : Environment.Number) (c₀ : State) (ok : State → Event → Prop) (tr : Trace) (c : State) : Prop :=
  Run (processor rate).step ok c₀ tr c

end FlashWallet.Notify
