import Aivm.Scheduler.Lemmas.Table

/-!
# Steps of the scheduler

What one step can do, and that it keeps the invariant and moves statuses as the life of a submission allows.
-/

namespace Aivm

/-- The event starts and releases nothing and changes no status. -/
structure SchedulerEvent.Quiet {C : Type} (e : SchedulerEvent C) : Prop where
  allowed : ∀ id p, e.allowed id p
  after : ∀ id p, e.after id p = p

namespace WorkerScheduler

variable {C : Type} {s s' : WorkerScheduler C} {e : SchedulerEvent C} {xs ys : List (WorkerSchedulerTask C)}
  {t t' : WorkerSchedulerTask C}

/-! ## What a step can do -/

inductive Moved (s : WorkerScheduler C) : SchedulerEvent C → WorkerScheduler C → Prop where
  | quiet {e : SchedulerEvent C} : e.Quiet → Moved s e s
  | submitted {xs ys : List (WorkerSchedulerTask C)} {t : WorkerSchedulerTask C} {id c} : s.tasks = xs ++ t :: ys → t.occupied = false → s.status id = none →
      Moved s (.submit id (some c) .ok)
        { s with tasks := xs ++ ⟨id, some c, .queued, true⟩ :: ys, outstandingCount := s.outstandingCount + 1 }
  | picked {xs ys : List (WorkerSchedulerTask C)} {t : WorkerSchedulerTask C} {worker} : s.workers[worker]? = some none → s.tasks = xs ++ t :: ys → t.occupied = true →
      t.status = .queued →
      (∀ u ∈ s.tasks, u.occupied = true → u.status = .queued → t.submissionId ≤ u.submissionId) →
      Moved s (.pick worker ⟨t.submissionId, t.run⟩)
        { s with tasks := xs ++ { t with status := .running } :: ys
                 workers := s.workers.set worker (some ⟨t.submissionId, t.run⟩) }
  | finished {xs ys : List (WorkerSchedulerTask C)} {worker copy} : s.workers[worker]? = some (some copy) →
      s.tasks = xs ++ ⟨copy.submissionId, copy.run, .running, true⟩ :: ys →
      Moved s (.finish worker copy)
        { s with tasks := xs ++ ⟨copy.submissionId, copy.run, .completed, true⟩ :: ys
                 workers := s.workers.set worker none }
  | canceled {xs ys : List (WorkerSchedulerTask C)} {t : WorkerSchedulerTask C} : s.tasks = xs ++ t :: ys → t.occupied = true → t.status = .queued →
      Moved s (.cancel t.submissionId (.ok true)) { s with tasks := xs ++ { t with status := .canceled } :: ys }
  | released {xs ys : List (WorkerSchedulerTask C)} {t : WorkerSchedulerTask C} : s.tasks = xs ++ t :: ys → t.occupied = true → isTerminal t.status →
      Moved s (.release t.submissionId .ok)
        { s with tasks := xs ++ { t with occupied := false, run := none } :: ys
                 outstandingCount := s.outstandingCount - 1 }

theorem setStatus_split {i p} (h : s.tasks[i]? = some t) :
    ∃ xs ys, s.tasks = xs ++ t :: ys ∧ s.setStatus i p = { s with tasks := xs ++ { t with status := p } :: ys } := by
  obtain ⟨xs, ys, hl, -, hset⟩ := Slots.split h
  refine ⟨xs, ys, hl, ?_⟩
  rw [setStatus, Slots.modify_eq_set h, hset]

theorem submit_moved (s : WorkerScheduler C) (hs : s.Wf) (id : UInt64) (run : Option C) :
    Moved s (.submit id run (s.submit id run).1) (s.submit id run).2 := by
  unfold submit
  split
  · exact .quiet ⟨fun _ _ => trivial, fun _ _ => rfl⟩
  · rename_i hrun
    split
    · exact .quiet ⟨fun _ _ => trivial, fun _ _ => rfl⟩
    · rename_i hfree
      split
      · exact .quiet ⟨fun _ _ => trivial, fun _ _ => rfl⟩
      · rename_i i hi
        obtain ⟨t, ht, ho⟩ := Slots.find_some hi
        obtain ⟨xs, ys, hl, -, hset⟩ := Slots.split ht
        obtain ⟨c, rfl⟩ := Option.ne_none_iff_exists'.1 (Option.isNone_iff_eq_none.not.1 hrun)
        rw [hset]
        refine .submitted hl (by simpa using ho) ?_
        rw [hs.status_eq_none, ← findTask_none, ← Option.not_isSome_iff_eq_none]
        exact fun hsome => hfree (.inr hsome)

theorem workerPick_moved {worker copy} (hw : s.workers[worker]? = some none)
    (h : s.workerPick worker = some (copy, s')) : Moved s (.pick worker copy) s' := by
  unfold workerPick at h
  simp only [Option.bind_eq_bind, Option.bind_eq_some_iff, Option.pure_def, Option.some.injEq, Prod.mk.injEq] at h
  obtain ⟨i, hi, u, hu, rfl, rfl⟩ := h
  obtain ⟨t, ht, ho, hq, hleast⟩ := findQueuedTask_least hi
  cases hu.symm.trans ht
  obtain ⟨xs, ys, hl, hset⟩ := setStatus_split (p := .running) ht
  rw [hset]
  exact .picked hw hl ho hq hleast

theorem runningCopy_some {copy : WorkerCopy C} (h : t.runningCopy = some copy) :
    t = ⟨copy.submissionId, copy.run, .running, true⟩ := by
  unfold WorkerSchedulerTask.runningCopy at h
  split at h
  · rename_i hc
    cases t
    cases h
    simp_all
  · cases h

/-- A worker thread that holds a copy finds the task it copied. -/
theorem Wf.task_of_worker (hs : s.Wf) {worker : Nat} {copy : WorkerCopy C} (hw : s.workers[worker]? = some (some copy)) :
    ∃ i : Nat, s.findTask copy.submissionId = some i ∧
      s.tasks[i]? = some ⟨copy.submissionId, copy.run, .running, true⟩ := by
  have hbusy : copy ∈ s.busyCopies := List.mem_filterMap.2 ⟨some copy, List.mem_of_getElem? hw, rfl⟩
  obtain ⟨t, ht, hcopy⟩ := List.mem_filterMap.1 (hs.running.mem_iff.2 hbusy)
  have htask := runningCopy_some hcopy
  cases hf : s.findTask copy.submissionId with
  | none =>
      refine absurd (mem_taskIds.2 ⟨t, ht, ?_⟩) (findTask_none.1 hf)
      simp [htask]
  | some i =>
      obtain ⟨u, hu, ho, hid⟩ := findTask_some hf
      have heq : u = t := hs.unique (List.mem_of_getElem? hu) ho ht (by simp [htask]) (by simp [htask, hid])
      exact ⟨i, rfl, by rw [hu, heq, htask]⟩

theorem workerFinish_moved (hs : s.Wf) {worker copy} (hw : s.workers[worker]? = some (some copy)) :
    Moved s (.finish worker copy) (s.workerFinish worker copy) := by
  obtain ⟨i, hi, ht⟩ := hs.task_of_worker hw
  obtain ⟨xs, ys, hl, hset⟩ := setStatus_split (p := .completed) ht
  have hstatus : s.statusAt i = some .running := by simp [statusAt, ht]
  unfold workerFinish
  simp only [hi, hstatus, ↓reduceIte, hset]
  exact .finished hw hl

theorem cancel_moved (s : WorkerScheduler C) (id : UInt64) :
    Moved s (.cancel id (s.cancel id).1) (s.cancel id).2 := by
  unfold cancel
  split
  · exact .quiet ⟨fun _ _ => trivial, fun _ _ => rfl⟩
  · rename_i i hi
    obtain ⟨t, ht, ho, rfl⟩ := findTask_some hi
    split
    · rename_i hq
      obtain ⟨xs, ys, hl, hset⟩ := setStatus_split (p := .canceled) ht
      rw [hset]
      exact .canceled hl ho (by simpa [statusAt, ht] using hq)
    · exact .quiet ⟨fun _ _ => trivial, fun _ _ => rfl⟩

theorem release_moved (s : WorkerScheduler C) (id : UInt64) :
    Moved s (.release id (s.release id).1) (s.release id).2 := by
  unfold release
  split
  · exact .quiet ⟨fun _ _ => trivial, fun _ _ => rfl⟩
  · rename_i i hi
    obtain ⟨t, ht, ho, rfl⟩ := findTask_some hi
    simp only [statusAt, ht, Option.map_some]
    split
    · rename_i hterminal
      obtain ⟨xs, ys, hl, -, hset⟩ := Slots.split ht
      rw [Slots.modify_eq_set ht, hset]
      exact .released hl ho hterminal
    · exact .quiet ⟨fun _ _ => trivial, fun _ _ => rfl⟩

theorem Step.moved (h : Step s e s') (hs : s.Wf) : Moved s e s' := by
  cases h with
  | submit id run => exact submit_moved s hs id run
  | pick hw h => exact workerPick_moved hw h
  | finish hw => exact workerFinish_moved hs hw
  | cancel id => exact cancel_moved s id
  | await _ => exact .quiet ⟨fun _ _ => trivial, fun _ _ => rfl⟩
  | release id => exact release_moved s id

/-! ## The invariant -/

theorem busyCopies_set {worker} {copy c : Option (WorkerCopy C)} (h : s.workers[worker]? = some copy) :
    ∃ us vs : List (WorkerCopy C), s.busyCopies = us ++ copy.toList ++ vs ∧
      (s.workers.set worker c).filterMap id = us ++ c.toList ++ vs := by
  obtain ⟨us, vs, hl, -, hset⟩ := Slots.split h
  refine ⟨us.filterMap id, vs.filterMap id, ?_, ?_⟩
  · rw [busyCopies, hl]
    cases copy <;> simp
  · rw [hset]
    cases c <;> simp

theorem callbacks_replaced (h : ∀ u ∈ s.tasks, u.occupied = true → u.run.isSome) (ht : s.tasks = xs ++ t :: ys)
    (ht' : t'.occupied = true → t'.run.isSome) : ∀ u ∈ xs ++ t' :: ys, u.occupied = true → u.run.isSome := by
  intro u hu ho
  rcases List.mem_append.1 hu with hu | hu
  · exact h u (by simp [ht, hu]) ho
  · rcases List.mem_cons.1 hu with rfl | hu
    · exact ht' ho
    · exact h u (by simp [ht, hu]) ho

theorem Moved.wf (h : Moved s e s') (hs : s.Wf) : s'.Wf := by
  have hids := hs.distinct
  have hcount := hs.counted
  have hslots := hs.slots
  have hrun := hs.running
  cases h with
  | quiet _ => exact hs
  | @submitted xs ys t id c hl ho hnone =>
      rw [hs.status_eq_none] at hnone
      simp only [outstanding, runningCopies, hl, taskIds_append, taskIds_cons, ho, Bool.false_eq_true, ↓reduceIte,
        List.nil_append, List.filterMap_append, List.filterMap_cons, WorkerSchedulerTask.runningCopy,
        false_and] at hids hcount hslots hrun hnone
      refine ⟨?_, ?_, ?_, hs.threads, ?_, ?_⟩
      · simp only [outstanding, taskIds_append, taskIds_cons, ↓reduceIte, List.singleton_append]
        exact List.nodup_middle.2 (List.nodup_cons.2 ⟨by simpa using hnone, hids⟩)
      · simp only [outstanding, taskIds_append, taskIds_cons, ↓reduceIte, List.length_append, List.length_cons,
          List.length_nil] at hcount ⊢
        omega
      · simpa using hslots
      · simpa [runningCopies, WorkerSchedulerTask.runningCopy, busyCopies] using hrun
      · exact callbacks_replaced hs.callbacks hl fun _ => rfl
  | @picked xs ys t worker hw hl ho hq _ =>
      obtain ⟨us, vs, hb, hb'⟩ := busyCopies_set (c := some ⟨t.submissionId, t.run⟩) hw
      simp only [outstanding, runningCopies, hl, taskIds_append, taskIds_cons, ho, ↓reduceIte, hq,
        List.filterMap_append, List.filterMap_cons, WorkerSchedulerTask.runningCopy, reduceCtorEq,
        and_false] at hids hcount hslots hrun
      refine ⟨?_, ?_, ?_, ?_, ?_, ?_⟩
      · simpa [outstanding, ho] using hids
      · simpa [outstanding, ho] using hcount
      · simpa using hslots
      · simpa using hs.threads
      · rw [busyCopies, hb']
        rw [hb] at hrun
        simp only [runningCopies, List.filterMap_append, List.filterMap_cons, WorkerSchedulerTask.runningCopy, ho,
          true_and, ↓reduceIte, Option.toList_some, Option.toList_none, List.append_nil, List.append_assoc,
          List.singleton_append] at hrun ⊢
        exact List.perm_middle.trans ((hrun.cons _).trans List.perm_middle.symm)
      · exact callbacks_replaced hs.callbacks hl fun _ => hs.callbacks t (by simp [hl]) ho
  | @finished xs ys worker copy hw hl =>
      obtain ⟨us, vs, hb, hb'⟩ := busyCopies_set (c := none) hw
      simp only [outstanding, runningCopies, hl, taskIds_append, taskIds_cons, ↓reduceIte,
        List.filterMap_append, List.filterMap_cons, WorkerSchedulerTask.runningCopy,
        and_self] at hids hcount hslots hrun
      refine ⟨?_, ?_, ?_, ?_, ?_, ?_⟩
      · simpa [outstanding] using hids
      · simpa [outstanding] using hcount
      · simpa using hslots
      · simpa using hs.threads
      · rw [busyCopies, hb']
        rw [hb] at hrun
        simp only [runningCopies, List.filterMap_append, List.filterMap_cons, WorkerSchedulerTask.runningCopy,
          reduceCtorEq, and_false, ↓reduceIte, Option.toList_some, Option.toList_none, List.append_nil,
          List.append_assoc, List.singleton_append] at hrun ⊢
        exact (List.perm_cons _).1 (List.perm_middle.symm.trans (hrun.trans List.perm_middle))
      · exact callbacks_replaced hs.callbacks hl fun _ => hs.callbacks ⟨copy.submissionId, copy.run, .running, true⟩ (by simp [hl]) rfl
  | @canceled xs ys t hl ho hq =>
      simp only [outstanding, runningCopies, hl, taskIds_append, taskIds_cons, ho, ↓reduceIte, hq,
        List.filterMap_append, List.filterMap_cons, WorkerSchedulerTask.runningCopy, reduceCtorEq,
        and_false] at hids hcount hslots hrun
      refine ⟨?_, ?_, ?_, hs.threads, ?_, ?_⟩
      · simpa [outstanding, ho] using hids
      · simpa [outstanding, ho] using hcount
      · simpa using hslots
      · simpa [runningCopies, WorkerSchedulerTask.runningCopy, busyCopies] using hrun
      · exact callbacks_replaced hs.callbacks hl fun _ => hs.callbacks t (by simp [hl]) ho
  | @released xs ys t hl ho hterminal =>
      have hnr : t.status ≠ .running := by
        rintro h
        rw [h] at hterminal
        simp [isTerminal] at hterminal
      simp only [outstanding, runningCopies, hl, taskIds_append, taskIds_cons, ho, ↓reduceIte, hnr,
        List.filterMap_append, List.filterMap_cons, WorkerSchedulerTask.runningCopy,
        and_false] at hids hcount hslots hrun
      refine ⟨?_, ?_, ?_, hs.threads, ?_, ?_⟩
      · simp only [outstanding, taskIds_append, taskIds_cons, Bool.false_eq_true, ↓reduceIte, List.nil_append]
        exact (List.nodup_cons.1 (List.nodup_middle.1 hids)).2
      · simp only [outstanding, taskIds_append, taskIds_cons, Bool.false_eq_true, ↓reduceIte, List.nil_append,
          List.length_append, List.length_cons, List.length_nil] at hcount ⊢
        omega
      · simpa using hslots
      · simpa [runningCopies, WorkerSchedulerTask.runningCopy, busyCopies] using hrun
      · exact callbacks_replaced hs.callbacks hl fun h => by cases h

/-! ## Statuses -/

theorem Moved.status (h : Moved s e s') (hs : s.Wf) (id : UInt64) :
    e.allowed id (s.status id) ∧ s'.status id = e.after id (s.status id) := by
  have hs' := h.wf hs
  cases h with
  | quiet hq =>
      exact ⟨hq.allowed _ _, (hq.after _ _).symm⟩
  | @submitted xs ys t k c hl ho hnone =>
      refine ⟨fun hk => hk ▸ hnone, ?_⟩
      rw [status_replaced hs hs' hl rfl]
      simp [SchedulerEvent.after, ho]
  | @picked xs ys t worker hw hl ho hq hleast =>
      refine ⟨fun hk => hs.status_eq_some.2 ⟨t, by simp [hl], ho, hk, hq⟩, ?_⟩
      rw [status_replaced hs hs' hl rfl]
      by_cases hid : t.submissionId = id <;> simp [SchedulerEvent.after, ho, hid]
  | @finished xs ys worker copy hw hl =>
      refine ⟨fun hk => hs.status_eq_some.2 ⟨⟨copy.submissionId, copy.run, .running, true⟩, by simp [hl], rfl, hk, rfl⟩, ?_⟩
      rw [status_replaced hs hs' hl rfl]
      by_cases hid : copy.submissionId = id <;> simp [SchedulerEvent.after, hid]
  | @canceled xs ys t hl ho hq =>
      refine ⟨fun hk => hs.status_eq_some.2 ⟨t, by simp [hl], ho, hk, hq⟩, ?_⟩
      rw [status_replaced hs hs' hl rfl]
      by_cases hid : t.submissionId = id <;> simp [SchedulerEvent.after, ho, hid]
  | @released xs ys t hl ho hterminal =>
      refine ⟨fun hk => ?_, ?_⟩
      · rw [hs.status_eq_some.2 ⟨t, by simp [hl], ho, hk, rfl⟩]
        rcases hterminal with h | h <;> simp [h]
      · rw [status_replaced hs hs' hl rfl]
        by_cases hid : t.submissionId = id <;> simp [SchedulerEvent.after, ho, hid]

end WorkerScheduler

end Aivm
