import Aivm.Scheduler.Lemmas.Steps

/-!
# Runs of the scheduler

The invariant along a run, and the life of one submission from its acceptance on.
-/

namespace Aivm

open Runs WorkerScheduler

variable {C : Type} {s s' : WorkerScheduler C} {e : SchedulerEvent C} {id : UInt64} {c : C}
  {since : List (SchedulerEvent C)} {p p' : WorkerTaskStatus}

namespace SchedulerEvent

theorem Quiet.starts (h : e.Quiet) (id : UInt64) : e.starts id = false := by
  cases e with
  | pick worker copy =>
      have := h.after copy.submissionId none
      simp [SchedulerEvent.after] at this
  | _ => rfl

/-! ## The automaton -/

theorem after_moves (ha : e.allowed id (some p)) (h : e.after id (some p) = some p') : p = p' ∨ StatusMoves p p' := by
  unfold SchedulerEvent.after at h
  split at h
  · split_ifs at h with hk
    · cases ha hk
    · exact .inl (by simpa using h)
  · split_ifs at h with hk
    · cases ha hk
      cases h
      exact .inr .start
    · exact .inl (by simpa using h)
  · split_ifs at h with hk
    · cases ha hk
      cases h
      exact .inr .return_
    · exact .inl (by simpa using h)
  · split_ifs at h with hk
    · cases ha hk
      cases h
      exact .inr .cancel
    · exact .inl (by simpa using h)
  · split_ifs at h with hk
    exact .inl (by simpa using h)
  · exact .inl (by simpa using h)

theorem after_none (ha : e.allowed id none) : e.after id none = none ∨ e.after id none = some .queued := by
  unfold SchedulerEvent.after
  split
  · split_ifs
    · exact .inr rfl
    · exact .inl rfl
  · split_ifs with hk
    · cases ha hk
    · exact .inl rfl
  · split_ifs with hk
    · cases ha hk
    · exact .inl rfl
  · split_ifs with hk
    · cases ha hk
    · exact .inl rfl
  · split_ifs <;> exact .inl rfl
  · exact .inl rfl

theorem after_released (h : e.after id (some p) = none) : e.releases id = true := by
  unfold SchedulerEvent.after at h
  split at h
  any_goals
    split_ifs at h
  · rename_i hk
    simp [SchedulerEvent.releases, hk]
  · cases h

end SchedulerEvent

/-! ## The life of one submission -/

/-- What the events since the acceptance of `id` with callback `c` have been, once its status is `p`. -/
def Life (id : UInt64) (c : C) (since : List (SchedulerEvent C)) : WorkerTaskStatus → Prop
  | .queued => since.filter (·.starts id) = [] ∧ .cancel id (.ok true) ∉ since
  | .running => (since.filter (·.starts id)).length = 1 ∧ .cancel id (.ok true) ∉ since
  | .completed => (since.filter (·.starts id)).length = 1 ∧ .cancel id (.ok true) ∉ since ∧
      ∃ worker, .finish worker ⟨id, some c⟩ ∈ since
  | .canceled => since.filter (·.starts id) = []

/-- The table holds the callback `c` for `id`, and whoever has started `id` started `c`. -/
structure ServesSubmissions (id : UInt64) (c : C) (since : List (SchedulerEvent C)) (s : WorkerScheduler C) : Prop where
  table : ∀ t ∈ s.tasks, t.occupied = true → t.submissionId = id → t.run = some c
  started : ∀ worker copy, .pick worker copy ∈ since → copy.submissionId = id → copy.run = some c

theorem ServesSubmissions.replaced {xs ys : List (WorkerSchedulerTask C)} {t t' : WorkerSchedulerTask C}
    (h : ServesSubmissions id c since s) (ht : s.tasks = xs ++ t :: ys) (ht' : s'.tasks = xs ++ t' :: ys)
    (hnew : t'.occupied = true → t'.submissionId = id → t'.run = some c)
    (he : ∀ worker copy, e = .pick worker copy → copy.submissionId = id → copy.run = some c) :
    ServesSubmissions id c (since ++ [e]) s' := by
  constructor
  · intro u hu ho hid
    rw [ht'] at hu
    rcases List.mem_append.1 hu with hu | hu
    · exact h.table u (by simp [ht, hu]) ho hid
    · rcases List.mem_cons.1 hu with rfl | hu
      · exact hnew ho hid
      · exact h.table u (by simp [ht, hu]) ho hid
  · intro worker copy hmem hid
    rcases List.mem_append.1 hmem with hmem | hmem
    · exact h.started worker copy hmem hid
    · exact he worker copy (List.mem_singleton.1 hmem).symm hid

theorem WorkerScheduler.Moved.serves (h : WorkerScheduler.Moved s e s') (hs : s.Wf) (hid : s.status id = some p) (hc : ServesSubmissions id c since s) :
    ServesSubmissions id c (since ++ [e]) s' := by
  have hallowed := (h.status hs id).1
  rw [hid] at hallowed
  cases h with
  | quiet hq =>
      refine ⟨hc.table, fun worker copy hmem hk => ?_⟩
      rcases List.mem_append.1 hmem with hmem | hmem
      · exact hc.started worker copy hmem hk
      · have := hq.starts id
        rw [← List.mem_singleton.1 hmem] at this
        simp [SchedulerEvent.starts, hk] at this
  | submitted hl ho hnone => exact hc.replaced hl rfl (fun _ hk => by cases hallowed hk) (by simp)
  | @picked xs ys t worker hw hl ho hq hleast =>
      have ht : t.submissionId = id → t.run = some c := hc.table t (by simp [hl]) ho
      exact hc.replaced hl rfl (fun _ => ht) fun _ _ he hk => by
        cases he
        exact ht hk
  | @finished xs ys worker copy hw hl =>
      exact hc.replaced hl rfl (fun _ => hc.table ⟨copy.submissionId, copy.run, .running, true⟩ (by simp [hl]) rfl)
        (by simp)
  | @canceled xs ys t hl ho hq => exact hc.replaced hl rfl (fun _ => hc.table t (by simp [hl]) ho) (by simp)
  | released hl ho hterminal => exact hc.replaced hl rfl (fun h => by cases h) (by simp)

/-- An event that neither starts nor cancels `id`. -/
theorem Life.unmoved (h : Life id c since p) (hstart : e.starts id = false) (hcancel : e ≠ .cancel id (.ok true)) :
    Life id c (since ++ [e]) p := by
  cases p with
  | queued => simpa [Life, hstart, Ne.symm hcancel] using h
  | running => simpa [Life, hstart, Ne.symm hcancel] using h
  | completed =>
      obtain ⟨h₁, h₂, worker, h₃⟩ := h
      exact ⟨by simpa [hstart] using h₁, by simpa [Ne.symm hcancel] using h₂, worker, by simp [h₃]⟩
  | canceled => simpa [Life, hstart] using h

/-- The next event of a life; a worker thread that finishes `id` has the copy made when it was started. -/
theorem Life.next (h : Life id c since p) (ha : e.allowed id (some p)) (hr : e.releases id = false)
    (hf : ∀ worker copy, e = .finish worker copy → copy.submissionId = id → copy = ⟨id, some c⟩) :
    ∃ p', e.after id (some p) = some p' ∧ Life id c (since ++ [e]) p' := by
  unfold SchedulerEvent.after
  split
  · rename_i k run
    have hk : k ≠ id := fun hk => by cases ha hk
    exact ⟨p, if_neg hk, h.unmoved rfl (by simp)⟩
  · rename_i worker copy
    by_cases hk : copy.submissionId = id
    · cases ha hk
      refine ⟨.running, if_pos hk, ?_, by simpa using h.2⟩
      rw [List.filter_append, h.1]
      simp [SchedulerEvent.starts, hk]
    · exact ⟨p, if_neg hk, h.unmoved (by simpa [SchedulerEvent.starts] using hk) (by simp)⟩
  · rename_i worker copy
    by_cases hk : copy.submissionId = id
    · cases ha hk
      refine ⟨.completed, if_pos hk, by simpa [SchedulerEvent.starts] using h.1, by simpa using h.2, worker, ?_⟩
      simp [hf worker copy rfl hk]
    · exact ⟨p, if_neg hk, h.unmoved rfl (by simp)⟩
  · rename_i k
    by_cases hk : k = id
    · cases ha hk
      exact ⟨.canceled, if_pos hk, by simpa [Life, SchedulerEvent.starts] using h.1⟩
    · exact ⟨p, if_neg hk, h.unmoved rfl (by simpa using hk)⟩
  · rename_i k
    have hk : k ≠ id := by simpa [SchedulerEvent.releases] using hr
    exact ⟨p, if_neg hk, h.unmoved rfl (by simp)⟩
  · rename_i hpick _ hcancel _
    refine ⟨p, rfl, h.unmoved ?_ fun hc => hcancel _ hc⟩
    unfold SchedulerEvent.starts
    split
    · exact absurd rfl (hpick _ _)
    · rfl

theorem WorkerScheduler.Moved.life (h : WorkerScheduler.Moved s e s') (hs : s.Wf) (hid : s.status id = some p) (hr : e.releases id = false)
    (hc : ServesSubmissions id c since s) (hl : Life id c since p) :
    ∃ p', s'.status id = some p' ∧ Life id c (since ++ [e]) p' := by
  obtain ⟨hallowed, hafter⟩ := h.status hs id
  rw [hid] at hallowed hafter
  rw [hafter]
  refine hl.next hallowed hr fun worker copy he hk => ?_
  subst he
  cases h with
  | quiet hq =>
      have := hq.after copy.submissionId none
      simp [SchedulerEvent.after] at this
  | finished hw ht =>
      have hrun := hc.table ⟨copy.submissionId, copy.run, .running, true⟩ (by simp [ht]) rfl hk
      cases copy
      simp_all

/-! ## Runs -/

theorem Run.wf {events} (h : Run WorkerScheduler.Step s events s') (hs : s.Wf) : s'.Wf :=
  h.keeps hs fun _ _ _ ha hl => (hl.moved ha).wf ha

/-- From the acceptance of a submission on, its status and the events so far agree. -/
theorem Run.life (h : Run WorkerScheduler.Step s since s') (hs : s.Wf) (hid : s.status id = some .queued)
    (hc : ∀ t ∈ s.tasks, t.occupied = true → t.submissionId = id → t.run = some c)
    (hr : ∀ e ∈ since, e.releases id = false) :
    ∃ p, s'.status id = some p ∧ ServesSubmissions id c since s' ∧ Life id c since p := by
  induction h with
  | start => exact ⟨.queued, hid, ⟨hc, by simp⟩, by simp, by simp⟩
  | next h hl ih =>
      obtain ⟨p, hp, hserves, hlife⟩ := ih fun e he => hr e (by simp [he])
      have hwf := Run.wf h hs
      have hm := hl.moved hwf
      obtain ⟨p', hp', hlife'⟩ := WorkerScheduler.Moved.life hm hwf hp (hr _ (by simp)) hserves hlife
      exact ⟨p', hp', WorkerScheduler.Moved.serves hm hwf hp hserves, hlife'⟩

/-- The state reached by a run in which a submission is outstanding. -/
theorem Run.submission {events} (h : Run WorkerScheduler.Step s events s') (hs : s.Wf) (hsub : Submission events id c since) :
    ∃ p, s'.status id = some p ∧ ServesSubmissions id c since s' ∧ Life id c since p := by
  obtain ⟨before, rfl, hr⟩ := hsub
  rw [List.append_cons] at h
  obtain ⟨b, hb, hrest⟩ := h.split rfl
  obtain ⟨a, ha, hstep⟩ := hb.last
  have hwf := Run.wf ha hs
  have hm := hstep.moved hwf
  refine Run.life hrest (hm.wf hwf) ?_ ?_ hr
  · rw [(hm.status hwf id).2]
    simp [SchedulerEvent.after]
  · have hwf' := hm.wf hwf
    cases hm with
    | quiet hq =>
        have := hq.after id none
        simp [SchedulerEvent.after] at this
    | @submitted xs ys t _ _ hl ho hnone =>
        intro u hu huo hid
        have hself : u = ⟨id, some c, .queued, true⟩ := hwf'.unique hu huo (by simp) rfl hid
        rw [hself]

end Aivm
