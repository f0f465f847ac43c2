import Aivm.Machine.Lemmas.Admits

/-!
# The book of the task table

Tasks are entered under increasing handles, so no two tasks of the table have the same one. A task that is not pending
stays so, and a handle that has been issued and is no longer in the table never comes back.
-/

namespace Aivm

open VmM

/-- What the table says of its tasks in general, of some handles that are settled, and of some that are gone. -/
structure TaskBook (settled gone : Nat → Prop) (entries : List (Nat × TaskState)) (next : Nat) : Prop where
  order : InOrder (entries.map Prod.fst) next
  settled : ∀ handle, settled handle → 0 < handle ∧ handle < next ∧ ∀ e ∈ entries, e.1 = handle → e.2 ≠ .pending
  gone : ∀ handle, gone handle → 0 < handle ∧ handle < next ∧ handle ∉ entries.map Prod.fst

/-- The entry of a task in the book. -/
def CompletedTask.entry {W : Type} (t : CompletedTask W) : Nat × TaskState := (t.handle, t.state)

/-- The task table of a machine, with handles that are settled or gone. -/
def Vm.Booking (settled gone : Nat → Prop) (vm : Vm) : Prop :=
  TaskBook settled gone (vm.completedTasks.map CompletedTask.entry) vm.nextTaskHandle

namespace TaskBook

variable {settled gone : Nat → Prop} {entries entries' : List (Nat × TaskState)} {next : Nat}

/-- A new entry under the next handle. -/
theorem enter (h : TaskBook settled gone entries next) (state : TaskState) :
    TaskBook settled gone (entries ++ [(next, state)]) (next + 1) where
  order := by
    rw [List.map_append]
    refine ⟨Nat.succ_pos _, List.pairwise_append.2 ⟨h.order.increasing, List.pairwise_singleton _ _, fun a ha b hb => ?_⟩,
      fun a ha => ?_⟩
    · cases List.mem_singleton.1 hb
      exact (h.order.issued a ha).2
    · rcases List.mem_append.1 ha with ha | ha
      · obtain ⟨hp, hlt⟩ := h.order.issued a ha
        exact ⟨hp, Nat.lt_succ_of_lt hlt⟩
      · cases List.mem_singleton.1 ha
        exact ⟨h.order.positive, Nat.lt_succ_self _⟩
  settled handle hs := by
    obtain ⟨hp, hlt, hstate⟩ := h.settled handle hs
    refine ⟨hp, Nat.lt_succ_of_lt hlt, fun e he heq => ?_⟩
    rcases List.mem_append.1 he with he | he
    · exact hstate e he heq
    · cases List.mem_singleton.1 he
      exact absurd heq (Nat.ne_of_gt hlt)
  gone handle hg := by
    obtain ⟨hp, hlt, hnot⟩ := h.gone handle hg
    refine ⟨hp, Nat.lt_succ_of_lt hlt, fun hm => ?_⟩
    rw [List.map_append] at hm
    rcases List.mem_append.1 hm with hm | hm
    · exact hnot hm
    · exact absurd (List.mem_singleton.1 hm) (Nat.ne_of_lt hlt)

/-- Entries are taken out. -/
theorem sublist (h : TaskBook settled gone entries next) (hs : entries'.Sublist entries) :
    TaskBook settled gone entries' next where
  order := ⟨h.order.positive, h.order.increasing.sublist (hs.map _), fun a ha => h.order.issued a ((hs.map _).subset ha)⟩
  settled handle ht := by
    obtain ⟨hp, hlt, hstate⟩ := h.settled handle ht
    exact ⟨hp, hlt, fun e he => hstate e (hs.subset he)⟩
  gone handle hg := ⟨(h.gone handle hg).1, (h.gone handle hg).2.1, fun hm => (h.gone handle hg).2.2 ((hs.map _).subset hm)⟩

/-- Some entries are settled. -/
theorem settle (h : TaskBook settled gone entries next) (hh : entries'.map Prod.fst = entries.map Prod.fst)
    (hstate : ∀ e ∈ entries', e ∈ entries ∨ e.2 ≠ .pending) : TaskBook settled gone entries' next where
  order := hh ▸ h.order
  settled handle hs := by
    obtain ⟨hp, hlt, hsettled⟩ := h.settled handle hs
    refine ⟨hp, hlt, fun e he heq => ?_⟩
    obtain hm | hne := hstate e he
    · exact hsettled e hm heq
    · exact hne
  gone handle hg := hh ▸ h.gone handle hg

theorem mono {settled' gone' : Nat → Prop} (h : TaskBook settled gone entries next)
    (hs : ∀ handle, settled' handle → settled handle)
    (hg : ∀ handle, gone' handle → gone handle) : TaskBook settled' gone' entries next :=
  ⟨h.order, fun handle ht => h.settled handle (hs handle ht), fun handle ht => h.gone handle (hg handle ht)⟩

theorem or {settled' : Nat → Prop} (h : TaskBook settled gone entries next) (h' : TaskBook settled' gone entries next) :
    TaskBook (fun handle => settled handle ∨ settled' handle) gone entries next :=
  ⟨h.order, fun handle ht => ht.elim (h.settled handle) (h'.settled handle), h.gone⟩

end TaskBook

namespace Vm.Booking

variable {env : Env} {nested : Vm → Option Vm} {settled gone : Nat → Prop} {vm vm' : Vm}

theorem of_same (h : vm.Booking settled gone)
    (ht : vm'.completedTasks.map CompletedTask.shape = vm.completedTasks.map CompletedTask.shape)
    (hn : vm'.nextTaskHandle = vm.nextTaskHandle) : vm'.Booking settled gone := by
  have he := congrArg (List.map CompletedTask.entry) ht
  rw [List.map_map, List.map_map] at he
  have hentries : vm'.completedTasks.map CompletedTask.entry = vm.completedTasks.map CompletedTask.entry := he
  unfold Vm.Booking
  rw [hentries, hn]
  exact h

theorem of_untouched (h : vm.Booking settled gone) (hu : vm.Untouched vm') : vm'.Booking settled gone := by
  have hn := congrArg Vm.nextTaskHandle hu
  exact h.of_same hu.tasks hn

theorem inOrder (h : vm.Booking settled gone) : vm.TasksInOrder := by
  have ho := h.order
  rw [List.map_map] at ho
  exact ho

/-- The book of a table in order. -/
theorem of_inOrder (h : vm.TasksInOrder) : vm.Booking (fun _ => False) (fun _ => False) := by
  refine ⟨?_, fun _ hs => hs.elim, fun _ hg => hg.elim⟩
  rw [List.map_map]
  exact h

/-- The only task of a handle is settled. -/
theorem of_settled (h : vm.TasksInOrder) {slot handle : Nat} {t : CompletedTask Vm} (ht : vm.completedTasks[slot]? = some t)
    (hh : t.handle = handle) (hs : t.state ≠ .pending) : vm.Booking (· = handle) fun _ => False := by
  have hissued := h.issued handle (List.mem_map.2 ⟨t, List.mem_of_getElem? ht, hh⟩)
  refine ⟨(of_inOrder h).order, ?_, fun _ hg => hg.elim⟩
  rintro _ rfl
  refine ⟨hissued.1, hissued.2, fun e he heq => ?_⟩
  obtain ⟨t', ht', rfl⟩ := List.mem_map.1 he
  -- Two tasks of one handle stand in one slot.
  obtain ⟨i, hi⟩ := List.getElem?_of_mem ht'
  have hnodup : (vm.completedTasks.map (·.handle)).Nodup := h.increasing.imp Nat.ne_of_lt
  have hsame : i = slot := by
    refine (List.getElem?_inj (by simpa using (List.getElem?_eq_some_iff.1 hi).1) hnodup).1 ?_
    simp only [List.getElem?_map, hi, ht, Option.map_some, Option.some.injEq]
    exact Eq.trans heq hh.symm
  subst hsame
  rw [ht] at hi
  cases hi
  exact hs

theorem settledAt (h : vm.Booking settled gone) {handle : Nat} (hs : settled handle) : vm.Settled handle :=
  ⟨(h.settled handle hs).1, (h.settled handle hs).2.1, fun t ht heq =>
    (h.settled handle hs).2.2 t.entry (List.mem_map_of_mem ht) heq⟩

theorem enter (h : vm.Booking settled gone) {t : CompletedTask Vm} (ht : t.handle = vm.nextTaskHandle) :
    (enterTask t vm).Booking settled gone := by
  have hb := TaskBook.enter h t.state
  unfold Vm.Booking enterTask
  rw [List.map_append, List.map_singleton, CompletedTask.entry, ht]
  exact hb

theorem remove (h : vm.Booking settled gone) (slot : Nat) : (removeTaskSlot slot vm).Booking settled gone :=
  TaskBook.sublist h ((List.eraseIdx_sublist _ _).map _)

theorem removeHandle (h : vm.Booking settled gone) (handle : Nat) : (removeCompletedTaskSlot handle vm).Booking settled gone := by
  unfold removeCompletedTaskSlot
  split
  · exact h.remove _
  · exact h

theorem noteSubmission (env : Env) (h : vm.Booking settled gone) (rt : WorkerRuntime) (index id : Nat) (payload : List Byte) :
    (noteSubmission env rt index id payload vm).Booking settled gone := by
  unfold Aivm.noteSubmission
  split
  · exact h
  · exact h

theorem keepTombstone {handle : Nat} {u} (hv : vm.Booking settled gone) (h : keepTombstone handle vm = .ok u vm') :
    vm'.Booking settled gone := by
  obtain rfl | rfl | ⟨-, -, rfl⟩ := keepTombstone_ok h
  · exact hv
  · exact hv
  · exact hv

/-- A task that is settled in its slot. -/
theorem settle (h : vm.Booking settled gone) (slot : Nat) {f : CompletedTask Vm → CompletedTask Vm}
    (hf : ∀ t, (f t).handle = t.handle ∧ (f t).state ≠ .pending) : (modifyTask slot f vm).Booking settled gone := by
  refine TaskBook.settle h ?_ fun e he => ?_
  · simp only [modifyTask, List.map_map]
    refine List.ext_getElem? fun i => ?_
    simp only [List.getElem?_map, List.getElem?_modify]
    cases vm.completedTasks[i]? with
    | none => simp
    | some t =>
        by_cases hi : slot = i
        · simp [hi, CompletedTask.entry, hf]
        · simp [hi, CompletedTask.entry]
  · obtain ⟨t, ht, rfl⟩ := List.mem_map.1 he
    obtain ⟨i, hi⟩ := List.getElem?_of_mem ht
    simp only [modifyTask, List.getElem?_modify] at hi
    obtain ⟨t₀, ht₀, rfl⟩ := Option.map_eq_some_iff.1 hi
    split
    · exact .inr (hf t₀).2
    · exact .inl (List.mem_map_of_mem (List.mem_of_getElem? ht₀))

/-- The changes of an instruction keep the book. -/
theorem proceeds : Proceeds env nested (Keeping (Vm.Booking settled gone)) where
  chains := Keeping.chains _
  quiet hq h := h.of_untouched (.of_quiet hq)
  fault _ _ h := h
  pair _ _ _ h := h
  stackLimit _ _ h := h
  push _ _ _ h := h
  pop _ h := h
  validate := validateCallLocalState_ends (Keeping.chains _) fun _ _ h => h
  localsLimit _ _ h := h
  store index v vm hb hl h := h.of_untouched (Vm.Untouched.ordinary.store index v vm hb hl)
  builder _ _ _ h := h
  map _ _ _ h := h
  workerFault _ _ h := h
  invocationFault _ _ _ h := h
  finished _ _ _ _ _ hs h := h.settle _ fun _ => ⟨rfl, hs⟩
  returned _ _ _ _ _ h := h.settle _ fun _ => ⟨rfl, by simp⟩
  abandoned _ _ _ h := h
  frameLimit _ _ h := h
  pushFrame _ _ _ _ _ h := h
  reuse _ _ _ _ h := h
  openPar _ _ _ h := h
  addPar _ _ _ _ h := h
  closePar _ _ h := h
  reclaimed _ _ h := h.remove _
  entered _ _ _ h := h.enter rfl
  started _ _ _ _ _ _ h := h.enter rfl
  created _ _ _ h := h
  submitted {rt rt' index payload} vm _ _ _ h := by
    have hentered : (setWorkerRuntime rt' (enterTask (pendingWorkerTask index vm.nextTaskHandle) vm)).Booking settled gone :=
      h.enter rfl
    exact hentered.noteSubmission _ _ _ _ _
  refused {rt rt' index payload status} vm _ _ _ h := by
    have hentered : (setWorkerRuntime rt' (enterTask (pendingWorkerTask index vm.nextTaskHandle) vm)).Booking settled gone :=
      h.enter rfl
    exact hentered.removeHandle _
  unheard _ _ _ _ h := removeHandle (h.enter rfl) _
  workload _ _ _ _ _ _ h := h
  materialized {rt rt' slot g payload} vm _ _ _ _ _ _ h := by
    have hentered : (setWorkerRuntime rt' (enterTask (pendingWorkerTask g.workerCatalogIndex vm.nextTaskHandle) vm)).Booking
        settled gone := h.enter rfl
    have hnoted := hentered.noteSubmission env rt' g.workerCatalogIndex vm.nextTaskHandle payload
    exact hnoted
  canceled _ _ _ h := h
  consumed _ _ hq hkeep h := ((hq h).keepTombstone hkeep).removeHandle _
  handled _ _ _ _ h := h

theorem admits : Admits env nested (Keeping (Vm.Booking settled gone)) where
  toProceeds := proceeds
  popFrame _ _ h := h
  leave _ _ _ h := h
  validateReturn := validateVmReturnRestore_ends (Keeping.chains _) fun _ _ h => h

end Vm.Booking

theorem Vm.Awaited.tasksInOrder {vm vm' : Vm} (h : vm.Awaited vm') (ho : vm.TasksInOrder) : vm'.TasksInOrder := by
  unfold Vm.TasksInOrder
  rw [h.handles, h.nextTaskHandle]
  exact ho

end Aivm
