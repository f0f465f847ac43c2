import Aivm.Scheduler.Table

/-!
# What the scheduler promises

The life of a submission as its own small automaton, read off the events of a run, and the promises about every run
that `Theorems.lean` proves.
-/

namespace Aivm

variable {C : Type}

/-! ## The table -/

def taskIds (tasks : List (WorkerSchedulerTask C)) : List UInt64 :=
  (tasks.filter (·.occupied)).map (·.submissionId)

/-- The copy that a worker thread has of a task while the task is running. -/
def WorkerSchedulerTask.runningCopy (t : WorkerSchedulerTask C) : Option (WorkerCopy C) :=
  if t.occupied ∧ t.status = .running then some ⟨t.submissionId, t.run⟩ else none

namespace WorkerScheduler

/-- The numbers of the occupied tasks. -/
def outstanding (s : WorkerScheduler C) : List UInt64 := taskIds s.tasks

def runningCopies (s : WorkerScheduler C) : List (WorkerCopy C) := s.tasks.filterMap (·.runningCopy)

/-- The copies held by the worker threads. -/
def busyCopies (s : WorkerScheduler C) : List (WorkerCopy C) := s.workers.filterMap id

end WorkerScheduler

/-! ## The life of a submission -/

namespace SchedulerEvent

/-- The status of the task `id` after an event, from its status before. -/
def after (id : UInt64) : SchedulerEvent C → Option WorkerTaskStatus → Option WorkerTaskStatus
  | .submit k _ .ok, p => if k = id then some .queued else p
  | .pick _ copy, p => if copy.submissionId = id then some .running else p
  | .finish _ copy, p => if copy.submissionId = id then some .completed else p
  | .cancel k (.ok true), p => if k = id then some .canceled else p
  | .release k .ok, p => if k = id then none else p
  | _, p => p

/-- The status of the task `id` with which an event may happen. -/
def allowed (id : UInt64) : SchedulerEvent C → Option WorkerTaskStatus → Prop
  | .submit k _ .ok, p => k = id → p = none
  | .pick _ copy, p => copy.submissionId = id → p = some .queued
  | .finish _ copy, p => copy.submissionId = id → p = some .running
  | .cancel k (.ok true), p => k = id → p = some .queued
  | .release k .ok, p => k = id → p = some .completed ∨ p = some .canceled
  | _, _ => True

/-- A worker thread starts the callback of the task `id`. -/
def starts (id : UInt64) : SchedulerEvent C → Bool
  | .pick _ copy => copy.submissionId == id
  | _ => false

def releases (id : UInt64) : SchedulerEvent C → Bool
  | .release k .ok => k == id
  | _ => false

end SchedulerEvent

/-- The events since the submission of `id` with callback `c`, which was accepted and is not released. -/
def Submission (events : List (SchedulerEvent C)) (id : UInt64) (c : C) (since : List (SchedulerEvent C)) : Prop :=
  ∃ before, events = before ++ .submit id (some c) .ok :: since ∧ ∀ e ∈ since, e.releases id = false

/-- A status moves from queued to running to completed, or from queued to canceled. -/
inductive StatusMoves : WorkerTaskStatus → WorkerTaskStatus → Prop where
  | start : StatusMoves .queued .running
  | return_ : StatusMoves .running .completed
  | cancel : StatusMoves .queued .canceled

/-! ## Promises -/

open WorkerScheduler

/-- What holds of the state `s` that the events of a run lead to. -/
structure SchedulerSafe (activeLimit outstandingLimit : Nat) (events : List (SchedulerEvent C))
    (s : WorkerScheduler C) : Prop where
  distinct : s.outstanding.Nodup
  counted : s.outstandingCount = s.outstanding.length
  bounded : s.outstandingCount ≤ outstandingLimit
  active : s.runningCopies.length ≤ activeLimit
  /-- The callback of a submission is started at most once, and it is the one that was submitted. -/
  startedOnce : ∀ id c since, Submission events id c since → (since.filter (·.starts id)).length ≤ 1
  startsSubmitted : ∀ id c since, Submission events id c since →
    ∀ worker copy, .pick worker copy ∈ since → copy.submissionId = id → copy.run = some c
  /-- A submission whose cancellation has been reported is not started, before or after. -/
  canceledNeverStarts : ∀ id c since, Submission events id c since → .cancel id (.ok true) ∈ since →
    since.filter (·.starts id) = []
  /-- A task is completed only after its callback has been started and has returned. -/
  completedReturned : ∀ id c since, Submission events id c since → s.status id = some .completed →
    ∃ worker, .finish worker ⟨id, some c⟩ ∈ since

/-- What holds of every step from `s` to `s'`. -/
structure SchedulerStepSafe (s : WorkerScheduler C) (e : SchedulerEvent C) (s' : WorkerScheduler C) : Prop where
  moves : ∀ id p p', s.status id = some p → s'.status id = some p' → p = p' ∨ StatusMoves p p'
  appears : ∀ id, s.status id = none → s'.status id = none ∨ s'.status id = some .queued
  disappears : ∀ id, s.status id ≠ none → s'.status id = none → e.releases id = true
  picksLeast : ∀ worker copy, e = .pick worker copy → s.status copy.submissionId = some .queued ∧
    ∀ id, s.status id = some .queued → copy.submissionId ≤ id
  awaits : ∀ id status, e = .await id (.ok status) → s.status id = some status ∧
    (status = .completed ∧ (∀ copy ∈ s.busyCopies, copy.submissionId ≠ id) ∨ status = .canceled)
  releases : ∀ id result, e = .release id result →
    (result = .ok ↔ s.status id = some .completed ∨ s.status id = some .canceled)
  /-- The slot of a callback that a worker thread is running stays its own until the callback returns. -/
  keepsSlots : ∀ worker copy, s.workers[worker]? = some (some copy) → e ≠ .finish worker copy →
    ∃ slot : Nat, s.tasks[slot]? = some ⟨copy.submissionId, copy.run, .running, true⟩ ∧
      s'.tasks[slot]? = some ⟨copy.submissionId, copy.run, .running, true⟩

end Aivm
