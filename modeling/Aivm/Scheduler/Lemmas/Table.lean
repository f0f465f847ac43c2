import Aivm.Lib.Slots
import Aivm.Scheduler.Safety

/-!
# What a step does to the table

The invariant of the table, and the case analysis of a step: every event that changes anything replaces one slot.
-/

namespace Aivm

variable {C : Type}

@[simp] theorem taskIds_append (xs ys : List (WorkerSchedulerTask C)) :
    taskIds (xs ++ ys) = taskIds xs ++ taskIds ys := by simp [taskIds]

@[simp] theorem taskIds_cons (t : WorkerSchedulerTask C) (ys : List (WorkerSchedulerTask C)) :
    taskIds (t :: ys) = (if t.occupied then [t.submissionId] else []) ++ taskIds ys := by
  unfold taskIds
  cases h : t.occupied <;> simp [h]

theorem mem_taskIds {tasks : List (WorkerSchedulerTask C)} {id} :
    id ∈ taskIds tasks ↔ ∃ t ∈ tasks, t.occupied = true ∧ t.submissionId = id := by
  simp [taskIds, and_assoc]

namespace WorkerScheduler

variable {s s' : WorkerScheduler C} {e : SchedulerEvent C} {xs ys : List (WorkerSchedulerTask C)}
  {t t' : WorkerSchedulerTask C} {id : UInt64}

/-- The invariant of the table and the worker threads. -/
structure Wf (s : WorkerScheduler C) : Prop where
  distinct : s.outstanding.Nodup
  counted : s.outstandingCount = s.outstanding.length
  slots : s.tasks.length = s.outstandingLimit
  threads : s.workers.length = s.activeLimit
  running : s.runningCopies.Perm s.busyCopies
  callbacks : ∀ t ∈ s.tasks, t.occupied = true → t.run.isSome

theorem create_wf {a o : Nat} (h : create a o = some s) : s.Wf := by
  unfold create at h
  split at h
  · cases h
  · cases h
    constructor <;> simp [outstanding, taskIds, runningCopies, busyCopies, WorkerSchedulerTask.runningCopy]

/-! ## Looking up a task -/

theorem Wf.unique (hs : s.Wf) (ht : t ∈ s.tasks) (ho : t.occupied = true) (ht' : t' ∈ s.tasks)
    (ho' : t'.occupied = true) (hid : t.submissionId = t'.submissionId) : t = t' :=
  List.inj_on_of_nodup_map hs.distinct (List.mem_filter.2 ⟨ht, ho⟩) (List.mem_filter.2 ⟨ht', ho'⟩) hid

theorem findTask_some {i} (h : s.findTask id = some i) :
    ∃ t, s.tasks[i]? = some t ∧ t.occupied = true ∧ t.submissionId = id := by
  obtain ⟨t, ht, hp⟩ := Slots.find_some h
  simp only [Bool.and_eq_true, beq_iff_eq] at hp
  exact ⟨t, ht, hp⟩

theorem findTask_none : s.findTask id = none ↔ id ∉ s.outstanding := by
  unfold findTask outstanding
  rw [List.findIdx?_eq_none_iff, mem_taskIds]
  simp

theorem status_of_findTask {i} (h : s.findTask id = some i) : s.status id = s.statusAt i := by
  simp [status, h]

theorem Wf.status_eq_some (hs : s.Wf) {p} :
    s.status id = some p ↔ ∃ t ∈ s.tasks, t.occupied = true ∧ t.submissionId = id ∧ t.status = p := by
  cases hf : s.findTask id with
  | none =>
      rw [findTask_none, outstanding, mem_taskIds] at hf
      simp only [status, findTask_none.2 (mem_taskIds.not.2 hf), Option.bind_none, reduceCtorEq, false_iff]
      rintro ⟨t, ht, ho, hid, -⟩
      exact hf ⟨t, ht, ho, hid⟩
  | some i =>
      obtain ⟨t, ht, ho, hid⟩ := findTask_some hf
      have hmem := List.mem_of_getElem? ht
      simp only [status, hf, Option.bind_some, statusAt, ht, Option.map_some, Option.some.injEq]
      constructor
      · rintro rfl
        exact ⟨t, hmem, ho, hid, rfl⟩
      · rintro ⟨u, hu, huo, huid, rfl⟩
        rw [hs.unique hmem ho hu huo (hid.trans huid.symm)]

theorem Wf.status_eq_none (hs : s.Wf) : s.status id = none ↔ id ∉ s.outstanding := by
  rw [outstanding, mem_taskIds, Option.eq_none_iff_forall_ne_some]
  constructor
  · rintro h ⟨t, ht, ho, hid⟩
    exact h t.status (hs.status_eq_some.2 ⟨t, ht, ho, hid, rfl⟩)
  · intro h p hp
    obtain ⟨t, ht, ho, hid, -⟩ := hs.status_eq_some.1 hp
    exact h ⟨t, ht, ho, hid⟩

/-- Replacing one slot changes the status of the numbers in that slot only. -/
theorem status_replaced (hs : s.Wf) (hs' : s'.Wf) (ht : s.tasks = xs ++ t :: ys) (ht' : s'.tasks = xs ++ t' :: ys) :
    s'.status id = if t'.occupied ∧ t'.submissionId = id then some t'.status
      else if t.occupied ∧ t.submissionId = id then none else s.status id := by
  have hnd := hs.distinct
  rw [outstanding, ht, taskIds_append, taskIds_cons] at hnd
  have hrest : ∀ p, t'.occupied = false ∨ t'.submissionId ≠ id → (s'.status id = some p ↔
      ∃ u, (u ∈ xs ∨ u ∈ ys) ∧ u.occupied = true ∧ u.submissionId = id ∧ u.status = p) := by
    intro p hne
    rw [hs'.status_eq_some, ht']
    constructor
    · rintro ⟨u, hu, ho, hid, hp⟩
      rcases List.mem_append.1 hu with hu | hu
      · exact ⟨u, .inl hu, ho, hid, hp⟩
      · rcases List.mem_cons.1 hu with rfl | hu
        · rcases hne with hne | hne
          · rw [hne] at ho
            cases ho
          · exact absurd hid hne
        · exact ⟨u, .inr hu, ho, hid, hp⟩
    · rintro ⟨u, hu | hu, h⟩
      · exact ⟨u, by simp [hu], h⟩
      · exact ⟨u, by simp [hu], h⟩
  split
  · rename_i h
    exact hs'.status_eq_some.2 ⟨t', by simp [ht'], h.1, h.2, rfl⟩
  · rename_i h
    have hne : t'.occupied = false ∨ t'.submissionId ≠ id := by
      rcases Bool.eq_false_or_eq_true t'.occupied with ho | ho
      · exact .inr fun hid => h ⟨ho, hid⟩
      · exact .inl ho
    split
    · rename_i hold
      refine Option.eq_none_iff_forall_ne_some.2 fun p hp => ?_
      obtain ⟨u, hu, ho, hid, -⟩ := (hrest p hne).1 hp
      rw [hold.1, if_pos rfl, List.singleton_append, List.nodup_middle, List.nodup_cons] at hnd
      refine hnd.1 ?_
      rw [hold.2, ← taskIds_append, mem_taskIds]
      exact ⟨u, List.mem_append.2 hu, ho, hid⟩
    · rename_i hold
      refine Option.ext fun p => ?_
      rw [hrest p hne, hs.status_eq_some, ht]
      constructor
      · rintro ⟨u, hu | hu, h⟩
        · exact ⟨u, by simp [hu], h⟩
        · exact ⟨u, by simp [hu], h⟩
      · rintro ⟨u, hu, ho, hid, hp⟩
        rcases List.mem_append.1 hu with hu | hu
        · exact ⟨u, .inl hu, ho, hid, hp⟩
        · rcases List.mem_cons.1 hu with rfl | hu
          · exact absurd ⟨ho, hid⟩ hold
          · exact ⟨u, .inr hu, ho, hid, hp⟩

/-! ## The least queued task -/

/-- `least`, found in slot `j`, is least among `selected` and the queued tasks of `ts`, which start at slot `index`. -/
structure LeastQueued (ts : List (WorkerSchedulerTask C)) (index : Nat) (selected : Option (Nat × UInt64)) (j : Nat)
    (least : UInt64) : Prop where
  found : selected = some (j, least) ∨ ∃ i t, j = index + i ∧ ts[i]? = some t ∧ t.occupied = true ∧
    t.status = .queued ∧ t.submissionId = least
  leSelected : ∀ k m, selected = some (k, m) → least ≤ m
  leQueued : ∀ t ∈ ts, t.occupied = true → t.status = .queued → least ≤ t.submissionId

theorem findQueuedFrom_least {ts : List (WorkerSchedulerTask C)} {index : Nat} {selected : Option (Nat × UInt64)}
    {j : Nat} {least : UInt64} (h : findQueuedFrom ts index selected = some (j, least)) :
    LeastQueued ts index selected j least := by
  induction ts generalizing index selected with
  | nil =>
      simp only [findQueuedFrom] at h
      subst h
      exact ⟨.inl rfl, by simp, by simp⟩
  | cons u us ih =>
      -- `skip` is the branch that keeps `selected`, `take` the one that selects this slot
      have skip : findQueuedFrom us (index + 1) selected = some (j, least) →
          (u.occupied = true → u.status = .queued → ∃ k m, selected = some (k, m) ∧ m ≤ u.submissionId) →
          LeastQueued (u :: us) index selected j least := by
        intro h hu
        obtain ⟨h₁, h₂, h₃⟩ := ih h
        refine ⟨h₁.imp_right ?_, h₂, ?_⟩
        · rintro ⟨i, t, rfl, ht⟩
          exact ⟨i + 1, t, by omega, by simpa using ht⟩
        · intro t ht ho hq
          rcases List.mem_cons.1 ht with rfl | ht
          · obtain ⟨k, m, hs, hm⟩ := hu ho hq
            exact UInt64.le_trans (h₂ k m hs) hm
          · exact h₃ t ht ho hq
      have take : findQueuedFrom us (index + 1) (some (index, u.submissionId)) = some (j, least) →
          u.occupied = true → u.status = .queued → (∀ k m, selected = some (k, m) → u.submissionId ≤ m) →
          LeastQueued (u :: us) index selected j least := by
        intro h ho hq hsel
        obtain ⟨h₁, h₂, h₃⟩ := ih h
        refine ⟨.inr ?_, fun k m hs => UInt64.le_trans (h₂ _ _ rfl) (hsel k m hs), ?_⟩
        · rcases h₁ with h₁ | ⟨i, t, rfl, ht⟩
          · cases h₁
            exact ⟨0, u, rfl, rfl, ho, hq, rfl⟩
          · exact ⟨i + 1, t, by omega, by simpa using ht⟩
        · intro t ht ho hq
          rcases List.mem_cons.1 ht with rfl | ht
          · exact h₂ _ _ rfl
          · exact h₃ t ht ho hq
      rw [findQueuedFrom.eq_def] at h
      simp only at h
      split at h
      · rename_i hskip
        refine skip h fun ho hq => ?_
        rcases hskip with hf | hf
        · rw [hf] at ho
          cases ho
        · exact absurd hq hf
      · rename_i hin
        have ho : u.occupied = true := by
          by_contra hc
          exact hin (.inl (by simpa using hc))
        have hq : u.status = .queued := by
          by_contra hc
          exact hin (.inr hc)
        split at h
        · exact take h ho hq (by simp)
        · rename_i k m
          split at h
          · rename_i hlt
            exact take h ho hq fun _ _ hs => by cases hs; exact UInt64.le_of_lt hlt
          · rename_i hle
            exact skip h fun _ _ => ⟨k, m, rfl, UInt64.not_lt.1 hle⟩

theorem findQueuedTask_least {i} (h : s.findQueuedTask = some i) :
    ∃ t, s.tasks[i]? = some t ∧ t.occupied = true ∧ t.status = .queued ∧
      ∀ u ∈ s.tasks, u.occupied = true → u.status = .queued → t.submissionId ≤ u.submissionId := by
  unfold findQueuedTask at h
  obtain ⟨⟨j, least⟩, hf, rfl⟩ := Option.map_eq_some_iff.1 h
  obtain ⟨h₁, -, h₃⟩ := findQueuedFrom_least hf
  rcases h₁ with h₁ | ⟨i, t, hj, ht, ho, hq, rfl⟩
  · cases h₁
  · refine ⟨t, ?_, ho, hq, h₃⟩
    rw [show j = i by omega]
    exact ht

end WorkerScheduler

end Aivm
