import Aivm.Scheduler.Lemmas.Runs

/-!
# Safe states and safe steps

The promises of `Safety.lean` that follow from the invariant of one state.
-/

namespace Aivm

open Runs WorkerScheduler

variable {C : Type} {s s' : WorkerScheduler C} {e : SchedulerEvent C}

/-! ## States -/

theorem WorkerScheduler.Wf.bounded (hs : s.Wf) : s.outstandingCount ≤ s.outstandingLimit := by
  rw [hs.counted, ← hs.slots, outstanding, taskIds, List.length_map]
  exact List.length_filter_le ..

theorem WorkerScheduler.Wf.active (hs : s.Wf) : s.runningCopies.length ≤ s.activeLimit := by
  rw [hs.running.length_eq, ← hs.threads]
  exact List.length_filterMap_le ..

theorem WorkerScheduler.Moved.limits (h : WorkerScheduler.Moved s e s') :
    s'.activeLimit = s.activeLimit ∧ s'.outstandingLimit = s.outstandingLimit := by
  cases h <;> exact ⟨rfl, rfl⟩

theorem create_limits {a o : Nat} (h : create a o = some s) : s.activeLimit = a ∧ s.outstandingLimit = o := by
  unfold create at h
  split at h
  · cases h
  · cases h
    exact ⟨rfl, rfl⟩

theorem create_status {a o : Nat} (h : create a o = some s) (id : UInt64) : s.status id = none := by
  rw [(create_wf h).status_eq_none]
  unfold create at h
  split at h
  · cases h
  · cases h
    simp [outstanding, taskIds]

/-- The limits stay as they were created. -/
theorem Run.limits {events} (h : Run WorkerScheduler.Step s events s') (hs : s.Wf) :
    s'.activeLimit = s.activeLimit ∧ s'.outstandingLimit = s.outstandingLimit := by
  induction h with
  | start => exact ⟨rfl, rfl⟩
  | next h hl ih =>
      obtain ⟨h₁, h₂⟩ := (hl.moved (Run.wf h hs)).limits
      exact ⟨h₁.trans ih.1, h₂.trans ih.2⟩

theorem Life.started_le {id : UInt64} {c : C} {since p} (h : Life id c since p) :
    (since.filter (·.starts id)).length ≤ 1 := by
  cases p with
  | queued => simp [h.1]
  | running => exact Nat.le_of_eq h.1
  | completed => exact Nat.le_of_eq h.1
  | canceled =>
      rw [show since.filter (·.starts id) = [] from h]
      exact Nat.zero_le 1

theorem Life.canceled {id : UInt64} {c : C} {since p} (h : Life id c since p) (hc : .cancel id (.ok true) ∈ since) :
    since.filter (·.starts id) = [] := by
  cases p with
  | queued => exact h.1
  | running => exact absurd hc h.2
  | completed => exact absurd hc h.2.1
  | canceled => exact h

/-! ## Steps -/

theorem WorkerScheduler.Wf.busy_status (hs : s.Wf) {copy} (h : copy ∈ s.busyCopies) : s.status copy.submissionId = some .running := by
  obtain ⟨t, ht, hcopy⟩ := List.mem_filterMap.1 (hs.running.mem_iff.2 h)
  have := runningCopy_some hcopy
  exact hs.status_eq_some.2 ⟨t, ht, by simp [this], by simp [this], by simp [this]⟩

theorem WorkerScheduler.await_ok {id status} (h : s.await id = some (.ok status)) : s.status id = some status ∧ isTerminal status := by
  unfold await at h
  split at h
  · cases h
  · rename_i status' hst
    split at h
    · cases h
      exact ⟨hst, ‹_›⟩
    · cases h

theorem WorkerScheduler.release_ok {id} : (s.release id).1 = .ok ↔ s.status id = some .completed ∨ s.status id = some .canceled := by
  unfold release WorkerScheduler.status
  cases hf : s.findTask id with
  | none => simp
  | some i =>
      simp only [Option.bind_some]
      cases hst : s.statusAt i with
      | none => simp
      | some status =>
          rw [Option.some.injEq, Option.some.injEq]
          change _ ↔ isTerminal status
          by_cases hterminal : isTerminal status <;> simp [hterminal]

/-- Two worker threads never hold copies of the same task. -/
theorem WorkerScheduler.Wf.worker_unique (hs : s.Wf) {v w : Nat} {copy : WorkerCopy C} (hv : s.workers[v]? = some (some copy))
    (hw : s.workers[w]? = some (some copy)) : v = w := by
  have hnd : s.busyCopies.Nodup := by
    refine hs.running.nodup_iff.1 (List.Nodup.of_map WorkerCopy.submissionId (hs.distinct.sublist ?_))
    unfold runningCopies outstanding
    induction s.tasks with
    | nil => simp
    | cons t ts ih =>
        rw [List.filterMap_cons, taskIds_cons]
        cases hc : t.runningCopy with
        | none => exact ih.trans (List.sublist_append_right ..)
        | some copy =>
            have := runningCopy_some hc
            subst this
            simpa using ih
  obtain ⟨xs, ys, hl, hlen, -⟩ := Slots.split hv
  rw [busyCopies, hl, List.filterMap_append, List.filterMap_cons_some (f := id) rfl, List.nodup_middle,
    List.nodup_cons] at hnd
  rw [hl] at hw
  by_contra hne
  refine hnd.1 ?_
  rw [← List.filterMap_append, List.mem_filterMap]
  refine ⟨some copy, ?_, rfl⟩
  rcases Nat.lt_or_gt_of_ne hne with hlt | hlt
  · rw [List.getElem?_append_right (by omega)] at hw
    obtain ⟨k, hk⟩ : ∃ k, w - xs.length = k + 1 := ⟨w - xs.length - 1, by omega⟩
    rw [hk, List.getElem?_cons_succ] at hw
    exact List.mem_append_right _ (List.mem_of_getElem? hw)
  · rw [List.getElem?_append_left (by omega)] at hw
    exact List.mem_append_left _ (List.mem_of_getElem? hw)

/-- A step replaces no slot of a running callback, the return of that callback apart. -/
theorem WorkerScheduler.Moved.keeps_slot (h : WorkerScheduler.Moved s e s') (hs : s.Wf) {worker : Nat} {copy : WorkerCopy C}
    (hw : s.workers[worker]? = some (some copy)) (he : e ≠ .finish worker copy) {i : Nat}
    (hi : s.tasks[i]? = some ⟨copy.submissionId, copy.run, .running, true⟩) :
    s'.tasks[i]? = some ⟨copy.submissionId, copy.run, .running, true⟩ := by
  have kept : ∀ {xs ys : List (WorkerSchedulerTask C)} {t t' : WorkerSchedulerTask C}, s.tasks = xs ++ t :: ys →
      t ≠ ⟨copy.submissionId, copy.run, .running, true⟩ →
      (xs ++ t' :: ys)[i]? = some ⟨copy.submissionId, copy.run, .running, true⟩ := by
    intro xs ys t t' hl hne
    rw [hl] at hi
    rcases Nat.lt_trichotomy i xs.length with hlt | rfl | hlt
    · rw [List.getElem?_append_left hlt] at hi ⊢
      exact hi
    · simp only [List.getElem?_append_right (Nat.le_refl _), Nat.sub_self, List.getElem?_cons_zero,
        Option.some.injEq] at hi
      exact absurd hi hne
    · obtain ⟨k, rfl⟩ : ∃ k, i = xs.length + (k + 1) := ⟨i - xs.length - 1, by omega⟩
      simpa [List.getElem?_append_right] using hi
  cases h with
  | quiet _ => exact hi
  | submitted hl ho _ => exact kept hl fun ht => by simp [ht] at ho
  | picked _ hl _ hq _ => exact kept hl fun ht => by simp [ht] at hq
  | @finished xs ys w copy' hw' hl =>
      refine kept hl fun ht => he ?_
      obtain ⟨k, r⟩ := copy'
      obtain ⟨k', r'⟩ := copy
      simp only [WorkerSchedulerTask.mk.injEq, and_true] at ht
      obtain ⟨rfl, rfl⟩ := ht
      rw [hs.worker_unique hw' hw]
  | canceled hl _ hq => exact kept hl fun ht => by simp [ht] at hq
  | released hl _ hterminal => exact kept hl fun ht => by simp [ht, isTerminal] at hterminal

theorem WorkerScheduler.Step.safe (h : WorkerScheduler.Step s e s') (hs : s.Wf) : SchedulerStepSafe s e s' := by
  have hm := h.moved hs
  refine ⟨?_, ?_, ?_, ?_, ?_, ?_, ?_⟩
  · intro id p p' hp hp'
    obtain ⟨ha, hafter⟩ := hm.status hs id
    rw [hp] at ha hafter
    exact SchedulerEvent.after_moves ha (hafter.symm.trans hp')
  · intro id hp
    obtain ⟨ha, hafter⟩ := hm.status hs id
    rw [hp] at ha hafter
    rw [hafter]
    exact SchedulerEvent.after_none ha
  · intro id hp hp'
    obtain ⟨p, hp⟩ := Option.ne_none_iff_exists'.1 hp
    obtain ⟨-, hafter⟩ := hm.status hs id
    rw [hp, hp'] at hafter
    exact SchedulerEvent.after_released hafter.symm
  · rintro worker copy rfl
    cases hm with
    | quiet hq =>
        have := hq.after copy.submissionId none
        simp [SchedulerEvent.after] at this
    | @picked xs ys t _ _ hl ho hq hleast =>
        refine ⟨hs.status_eq_some.2 ⟨t, by simp [hl], ho, rfl, hq⟩, fun id hid => ?_⟩
        obtain ⟨u, hu, huo, rfl, huq⟩ := hs.status_eq_some.1 hid
        exact hleast u hu huo huq
  · rintro id status rfl
    cases h with
    | await hawait =>
        obtain ⟨hst, hterminal⟩ := await_ok hawait
        refine ⟨hst, hterminal.imp_left fun hc => ⟨hc, fun copy hbusy hid => ?_⟩⟩
        have := hs.busy_status hbusy
        rw [hid, hst, hc] at this
        cases this
  · rintro id result rfl
    cases h with
    | release => exact release_ok
  · intro worker copy hw he
    obtain ⟨i, -, hi⟩ := hs.task_of_worker hw
    exact ⟨i, hi, hm.keeps_slot hs hw he hi⟩

/-!
## Safety of the scheduler

Every run of the scheduler, whatever the order in which the owner and the worker threads take the mutex, keeps the
promises of `Safety.lean`.
-/

/-- Whatever the owner and the worker threads do, and in whatever order, every state they reach and every step they
take from there is safe. -/
theorem scheduler_safe {C : Type} {activeLimit outstandingLimit : Nat} {s₀ s : WorkerScheduler C}
    {events : List (SchedulerEvent C)} (h₀ : create activeLimit outstandingLimit = some s₀)
    (h : Run WorkerScheduler.Step s₀ events s) :
    SchedulerSafe activeLimit outstandingLimit events s ∧ ∀ e s', WorkerScheduler.Step s e s' → SchedulerStepSafe s e s' := by
  have hwf₀ := create_wf h₀
  have hs := Run.wf h hwf₀
  obtain ⟨hactive, houtstanding⟩ := Run.limits h hwf₀
  obtain ⟨rfl, rfl⟩ := create_limits h₀
  refine ⟨⟨hs.distinct, hs.counted, houtstanding ▸ hs.bounded, hactive ▸ hs.active, ?_, ?_, ?_, ?_⟩,
    fun e s' hstep => hstep.safe hs⟩
  · intro id c since hsub
    obtain ⟨p, -, -, hlife⟩ := Run.submission h hwf₀ hsub
    exact hlife.started_le
  · intro id c since hsub worker copy
    obtain ⟨p, -, hserves, -⟩ := Run.submission h hwf₀ hsub
    exact hserves.started worker copy
  · intro id c since hsub
    obtain ⟨p, -, -, hlife⟩ := Run.submission h hwf₀ hsub
    exact hlife.canceled
  · intro id c since hsub hcompleted
    obtain ⟨p, hp, -, hlife⟩ := Run.submission h hwf₀ hsub
    cases hcompleted.symm.trans hp
    exact hlife.2.2

/-- One thread and a table of one slot, which serves a task and is used again for the same number. -/
theorem scheduler_safe_reusedSlot :
    ∃ s : WorkerScheduler Nat, ∃ events, events.length = 6 ∧ SchedulerSafe 1 1 events s ∧ s.status 7 = some .queued :=
  have run : Run WorkerScheduler.Step (⟨1, 1, 0, [⟨0, none, .queued, false⟩], [none]⟩ : WorkerScheduler Nat)
      [.submit 7 (some 40) _, .pick 0 _, .finish 0 _, .await 7 _, .release 7 _, .submit 7 (some 41) _] _ :=
    .next (.next (.next (.next (.next (.next .start (.submit _ 7 (some 40)))
      (.pick rfl rfl)) (.finish rfl)) (.await rfl)) (.release _ 7))
      (.submit _ 7 (some 41))
  ⟨_, _, rfl, (scheduler_safe rfl run).1, rfl⟩

end Aivm
