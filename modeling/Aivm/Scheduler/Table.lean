import Aivm.Lib.Runs

/-!
# The worker scheduler

`aivm_worker_scheduler.c`: a table of tasks under one mutex, an owner who submits, awaits, cancels and releases them,
and `active_limit` worker threads. `C` is the type of callbacks with their context. The table has `outstanding_limit`
slots, and a slot that is not occupied keeps the number and the status of its last task.
-/

namespace Aivm

open Runs

inductive WorkerTaskStatus where
  | queued
  | running
  | completed
  | canceled
deriving DecidableEq, Repr

inductive WorkerSchedulerStatus where
  | ok
  | argument
  | limit
deriving DecidableEq, Repr

structure WorkerSchedulerTask (C : Type) where
  submissionId : UInt64
  run : Option C
  status : WorkerTaskStatus
  occupied : Bool
deriving DecidableEq, Repr

/-- The copies a worker thread makes of a task before it leaves the mutex. -/
structure WorkerCopy (C : Type) where
  submissionId : UInt64
  run : Option C
deriving DecidableEq, Repr

/-- The scheduler and its worker threads; an idle thread has no copy. -/
structure WorkerScheduler (C : Type) where
  activeLimit : Nat
  outstandingLimit : Nat
  outstandingCount : Nat
  tasks : List (WorkerSchedulerTask C)
  workers : List (Option (WorkerCopy C))
deriving DecidableEq, Repr

namespace WorkerScheduler

variable {C : Type}

/-- `aivm_worker_scheduler_create`. -/
def create (activeLimit outstandingLimit : Nat) : Option (WorkerScheduler C) :=
  if activeLimit = 0 ∨ outstandingLimit = 0 ∨ outstandingLimit < activeLimit then none
  else
    some
      { activeLimit := activeLimit
        outstandingLimit := outstandingLimit
        outstandingCount := 0
        tasks := List.replicate outstandingLimit ⟨0, none, .queued, false⟩
        workers := List.replicate activeLimit none }

variable (s : WorkerScheduler C)

def findTask (submissionId : UInt64) : Option Nat :=
  s.tasks.findIdx? fun t => t.occupied && t.submissionId == submissionId

/-- The loop of `find_queued_task` from slot `index` on. -/
def findQueuedFrom : List (WorkerSchedulerTask C) → Nat → Option (Nat × UInt64) → Option (Nat × UInt64)
  | [], _, selected => selected
  | t :: ts, index, selected =>
      if t.occupied = false ∨ t.status ≠ .queued then findQueuedFrom ts (index + 1) selected
      else
        match selected with
        | none => findQueuedFrom ts (index + 1) (some (index, t.submissionId))
        | some (_, least) =>
            if t.submissionId < least then findQueuedFrom ts (index + 1) (some (index, t.submissionId))
            else findQueuedFrom ts (index + 1) selected

def findQueuedTask : Option Nat := (findQueuedFrom s.tasks 0 none).map (·.1)

def statusAt (index : Nat) : Option WorkerTaskStatus := (s.tasks[index]?).map (·.status)

def setStatus (index : Nat) (status : WorkerTaskStatus) : WorkerScheduler C :=
  { s with tasks := s.tasks.modify index fun t => { t with status := status } }

/-- `scheduler_worker_main` up to the call of the callback, for a thread that is idle. -/
def workerPick (worker : Nat) : Option (WorkerCopy C × WorkerScheduler C) := do
  let index ← s.findQueuedTask
  let t ← s.tasks[index]?
  let copy := ⟨t.submissionId, t.run⟩
  return (copy, { s.setStatus index WorkerTaskStatus.running with workers := s.workers.set worker (some copy) })

/-- `scheduler_worker_main` after the callback has returned: the task is looked up again by its number. -/
def workerFinish (worker : Nat) (copy : WorkerCopy C) : WorkerScheduler C :=
  let s' : WorkerScheduler C :=
    match s.findTask copy.submissionId with
    | none => s
    | some index =>
        if s.statusAt index = some .running then s.setStatus index .completed else s
  { s' with workers := s.workers.set worker none }

/-- `aivm_worker_scheduler_submit`. -/
def submit (submissionId : UInt64) (run : Option C) : WorkerSchedulerStatus × WorkerScheduler C :=
  if run.isNone then (.argument, s)
  else if s.outstandingLimit ≤ s.outstandingCount ∨ (s.findTask submissionId).isSome then (.limit, s)
  else
    match s.tasks.findIdx? fun t => !t.occupied with
    | none => (.limit, s)
    | some index =>
        (.ok, { s with
          tasks := s.tasks.set index ⟨submissionId, run, .queued, true⟩
          outstandingCount := s.outstandingCount + 1 })

/-- The status of the task with a number, if there is one. -/
def status (submissionId : UInt64) : Option WorkerTaskStatus := (s.findTask submissionId).bind s.statusAt

def isTerminal (status : WorkerTaskStatus) : Prop := status = .completed ∨ status = .canceled

instance (status : WorkerTaskStatus) : Decidable (isTerminal status) := by
  unfold isTerminal
  infer_instance

/-- `aivm_worker_scheduler_await` at the moment it can return; it waits while the task is queued or running. -/
def await (submissionId : UInt64) : Option (Except WorkerSchedulerStatus WorkerTaskStatus) :=
  match s.status submissionId with
  | none => some (.error .argument)
  | some status => if isTerminal status then some (.ok status) else none

/-- `aivm_worker_scheduler_cancel`. -/
def cancel (submissionId : UInt64) : Except WorkerSchedulerStatus Bool × WorkerScheduler C :=
  match s.findTask submissionId with
  | none => (.error .argument, s)
  | some index =>
      if s.statusAt index = some .queued then (.ok true, s.setStatus index .canceled) else (.ok false, s)

/-- `aivm_worker_scheduler_release`. -/
def release (submissionId : UInt64) : WorkerSchedulerStatus × WorkerScheduler C :=
  match s.findTask submissionId with
  | none => (.argument, s)
  | some index =>
      match s.statusAt index with
      | some status =>
          if isTerminal status then
            (.ok, { s with
              tasks := s.tasks.modify index fun t => { t with occupied := false, run := none }
              outstandingCount := s.outstandingCount - 1 })
          else (.argument, s)
      | none => (.argument, s)

end WorkerScheduler

/-! ## Interleavings -/

/-- What happens under the mutex, with the results of the calls. -/
inductive SchedulerEvent (C : Type) where
  | submit (submissionId : UInt64) (run : Option C) (result : WorkerSchedulerStatus)
  | pick (worker : Nat) (copy : WorkerCopy C)
  | finish (worker : Nat) (copy : WorkerCopy C)
  | cancel (submissionId : UInt64) (result : Except WorkerSchedulerStatus Bool)
  | await (submissionId : UInt64) (result : Except WorkerSchedulerStatus WorkerTaskStatus)
  | release (submissionId : UInt64) (result : WorkerSchedulerStatus)

namespace WorkerScheduler

variable {C : Type}

/-- One step of the owner or of a worker thread. A thread finishes the callback that it has copied. -/
inductive Step : WorkerScheduler C → SchedulerEvent C → WorkerScheduler C → Prop where
  | submit (s submissionId run) :
      Step s (.submit submissionId run (s.submit submissionId run).1) (s.submit submissionId run).2
  | pick {s : WorkerScheduler C} {worker copy s'} :
      s.workers[worker]? = some none → s.workerPick worker = some (copy, s') → Step s (.pick worker copy) s'
  | finish {s : WorkerScheduler C} {worker copy} :
      s.workers[worker]? = some (some copy) → Step s (.finish worker copy) (s.workerFinish worker copy)
  | cancel (s submissionId) : Step s (.cancel submissionId (s.cancel submissionId).1) (s.cancel submissionId).2
  | await {s : WorkerScheduler C} {submissionId result} :
      s.await submissionId = some result → Step s (.await submissionId result) s
  | release (s submissionId) : Step s (.release submissionId (s.release submissionId).1) (s.release submissionId).2

end WorkerScheduler

end Aivm
