import Aivm.Debugger.Debugger
import Aivm.Lib.Runs

/-!
# What the commands of the debugger execute

Each command takes its steps along a trail of the VM. The lemmas tell, for one step and for each loop, how long the
trail is, where it may pass a breakpoint and at which depth it ends.
-/

namespace Aivm.Debugger

open Trails

variable {next : Vm → Option Vm} {d d' : Debugger} {r : DebuggerReply}

/-- The debugger takes the steps of `executed` and counts them. -/
structure Executes (next : Vm → Option Vm) (d : Debugger) (executed : List Vm) (d' : Debugger) : Prop where
  trail : Trail next d.vm executed d'.vm
  count : d'.executedStepCount = d.executedStepCount + executed.length
  breakpoints : d'.breakpoints = d.breakpoints

/-- No step but the first is taken at a breakpoint. -/
def StopsAt (breakpoints : List Nat) (executed : List Vm) : Prop :=
  ∀ v ∈ executed.tail, v.instructionPointer ∉ breakpoints

/-- The VM, the count and the breakpoints are those of before. -/
structure Same (d d' : Debugger) : Prop where
  vm : d'.vm = d.vm
  count : d'.executedStepCount = d.executedStepCount
  breakpoints : d'.breakpoints = d.breakpoints

theorem Same.refl (d : Debugger) : Same d d := ⟨rfl, rfl, rfl⟩

theorem Same.trans {d'' : Debugger} (h : Same d d') (h' : Same d' d'') : Same d d'' :=
  ⟨h'.vm.trans h.vm, h'.count.trans h.count, h'.breakpoints.trans h.breakpoints⟩

theorem Same.paused (d : Debugger) : Same d { d with state := .paused } := ⟨rfl, rfl, rfl⟩

@[simp] theorem syncState_vm (d : Debugger) : d.syncState.vm = d.vm := by
  unfold syncState
  split <;> rfl

theorem Same.syncState (d : Debugger) : Same d d.syncState := by
  unfold Debugger.syncState
  split <;> exact ⟨rfl, rfl, rfl⟩

theorem Same.executes (h : Same d d') : Executes next d [] d' where
  trail := h.vm ▸ .nil
  count := h.count
  breakpoints := h.breakpoints

namespace Executes

variable {d'' : Debugger} {executed executed' : List Vm}

theorem trans (h : Executes next d executed d') (h' : Executes next d' executed' d'') :
    Executes next d (executed ++ executed') d'' where
  trail := h.trail.append h'.trail
  count := by
    rw [h'.count, h.count, List.length_append]
    omega
  breakpoints := h'.breakpoints.trans h.breakpoints

theorem same_left (h : Same d d') (h' : Executes next d' executed d'') : Executes next d executed d'' := by
  simpa using h.executes.trans h'

theorem same_right (h : Executes next d executed d') (h' : Same d' d'') : Executes next d executed d'' := by
  simpa using h.trans h'.executes

end Executes

/-! ## One step -/

theorem vmStep_ok (h : d.vmStep next = some d') : Executes next d [d.vm] d' := by
  simp only [vmStep, Option.bind_eq_bind, Option.bind_eq_some_iff, Option.pure_def, Option.some.injEq] at h
  obtain ⟨vm, hnext, rfl⟩ := h
  exact ⟨.single hnext, rfl, rfl⟩

theorem answer_ok {s : DebuggerStatus} (h : some (d.answer s) = some (d', r)) : d' = d ∧ r.status = s := by
  simp only [answer, Option.some.injEq, Prod.mk.injEq] at h
  obtain ⟨rfl, rfl⟩ := h
  exact ⟨rfl, rfl⟩

theorem stateStatus_of_stopped (h : d.state = .halted ∨ d.state = .error) : d.stateStatus ≠ .ok := by
  rcases h with h | h <;> simp [stateStatus, h]

/-- A step takes at most one step of the VM, and exactly one if it succeeds. -/
theorem step_ok (h : d.step next = some (d', r)) :
    Executes next d [d.vm] d' ∨ Executes next d [] d' ∧ r.status ≠ .ok := by
  simp only [step] at h
  split at h
  · rename_i hstopped
    obtain ⟨rfl, hs⟩ := answer_ok h
    exact .inr ⟨(Same.syncState d).executes, hs ▸ stateStatus_of_stopped hstopped⟩
  · simp only [Option.bind_eq_bind, Option.bind_eq_some_iff, Option.pure_def] at h
    obtain ⟨d₁, hstep, h⟩ := h
    obtain ⟨rfl, -⟩ := answer_ok h
    have hsame : Same d { d.syncState with state := .running } :=
      ⟨(Same.syncState d).vm, (Same.syncState d).count, (Same.syncState d).breakpoints⟩
    have hone := (vmStep_ok hstep).same_left hsame
    simp only [syncState_vm] at hone
    exact .inl ((hone.same_right (Same.paused d₁)).same_right (Same.syncState _))

/-! ## Loops -/

theorem stopsAt_nil (breakpoints : List Nat) : StopsAt breakpoints [] := nofun

theorem stopsAt_single (breakpoints : List Nat) (v : Vm) : StopsAt breakpoints [v] := nofun

/-- A trail goes on past a state that is not at a breakpoint. -/
theorem stopsAt_cons {breakpoints : List Nat} {v b c : Vm} {executed : List Vm} (ht : Trail next b executed c)
    (hb : b.instructionPointer ∉ breakpoints) (h : StopsAt breakpoints executed) :
    StopsAt breakpoints (v :: executed) := by
  cases executed with
  | nil => exact stopsAt_single breakpoints v
  | cons w executed =>
      cases ht.head_eq
      intro x hx
      cases hx with
      | head => exact hb
      | tail _ hx => exact h x hx

theorem mem_of_hasBreakpoint {pc : Nat} : d.hasBreakpoint pc = true ↔ pc ∈ d.breakpoints := by
  simp [hasBreakpoint]

/-- The loop takes as many steps as its limit allows. It stops at breakpoints, and it succeeds at a breakpoint or where
the depth lets it end. -/
theorem stepWhile_ok {inside : Nat → Bool} {left : Nat} (h : stepWhile next inside left d = some (d', r)) :
    ∃ executed, Executes next d executed d' ∧ executed.length ≤ left ∧ StopsAt d.breakpoints executed ∧
      (r.status = .ok → d'.vm.instructionPointer ∉ d.breakpoints → inside d'.depth = false) := by
  induction left generalizing d with
  | zero =>
      obtain ⟨rfl, hs⟩ := answer_ok h
      refine ⟨[], (Same.refl d').executes, Nat.le_refl 0, stopsAt_nil _, fun hok _ => ?_⟩
      rw [hs] at hok
      simpa using hok
  | succ left ih =>
      simp only [stepWhile] at h
      split at h
      · simp only [Option.bind_eq_bind, Option.bind_eq_some_iff, Prod.exists] at h
        obtain ⟨d₁, r₁, hstep, h⟩ := h
        split at h
        · rename_i hfail
          cases h
          rcases step_ok hstep with hone | ⟨hnone, -⟩
          · exact ⟨[d.vm], hone, by simp, stopsAt_single _ _, fun hok => absurd hok hfail⟩
          · exact ⟨[], hnone, by simp, stopsAt_nil _, fun hok => absurd hok hfail⟩
        · rename_i hok
          have hone : Executes next d [d.vm] d₁ := (step_ok hstep).resolve_right fun h => hok h.2
          split at h
          · rename_i hhit
            obtain ⟨rfl, -⟩ := answer_ok h
            have hmem : d₁.vm.instructionPointer ∈ d.breakpoints := hone.breakpoints ▸ mem_of_hasBreakpoint.1 hhit
            exact ⟨[d.vm], hone.same_right (Same.paused d₁), by simp, stopsAt_single _ _, fun _ hclear =>
              absurd hmem hclear⟩
          · rename_i hmiss
            obtain ⟨executed, hrest, hlen, hstops, hend⟩ := ih h
            have hclear : d₁.vm.instructionPointer ∉ d₁.breakpoints := fun hm => hmiss (mem_of_hasBreakpoint.2 hm)
            have hall := stopsAt_cons (v := d.vm) hrest.trail hclear hstops
            rw [hone.breakpoints] at hall hend
            exact ⟨d.vm :: executed, hone.trans hrest, by simpa using hlen, hall, hend⟩
      · rename_i houtside
        obtain ⟨rfl, -⟩ := answer_ok h
        exact ⟨[], (Same.refl d').executes, Nat.zero_le _, stopsAt_nil _, fun _ _ => by simpa using houtside⟩

/-- The loop of `continue` stops at breakpoints as well. -/
theorem continueLoop_ok {left : Nat} (h : continueLoop next left d = some (d', r)) :
    ∃ executed, Executes next d executed d' ∧ executed.length ≤ left ∧ StopsAt d.breakpoints executed := by
  induction left generalizing d with
  | zero =>
      obtain ⟨rfl, -⟩ := answer_ok h
      exact ⟨[], (Same.paused d).executes, Nat.le_refl 0, stopsAt_nil _⟩
  | succ left ih =>
      simp only [continueLoop, Option.bind_eq_bind, Option.bind_eq_some_iff] at h
      obtain ⟨d₁, hstep, h⟩ := h
      have hone := (vmStep_ok hstep).same_right (Same.syncState d₁)
      split at h
      · obtain ⟨rfl, -⟩ := answer_ok h
        exact ⟨[d.vm], hone, by simp, stopsAt_single _ _⟩
      · split at h
        · obtain ⟨rfl, -⟩ := answer_ok h
          exact ⟨[d.vm], hone.same_right (Same.paused _), by simp, stopsAt_single _ _⟩
        · rename_i hmiss
          obtain ⟨executed, hrest, hlen, hstops⟩ := ih h
          have hclear : d₁.syncState.vm.instructionPointer ∉ d₁.syncState.breakpoints := fun hm =>
            hmiss (mem_of_hasBreakpoint.2 hm)
          have hall := stopsAt_cons (v := d.vm) hrest.trail hclear hstops
          rw [hone.breakpoints] at hall
          exact ⟨d.vm :: executed, hone.trans hrest, by simpa using hlen, hall⟩

/-! ## Commands -/

theorem continue_ok {maxSteps : Nat} (h : d.continue next maxSteps = some (d', r)) :
    ∃ executed, Executes next d executed d' ∧ executed.length ≤ maxSteps ∧ StopsAt d.breakpoints executed := by
  have hsync := Same.syncState d
  have hnone {d' : Debugger} (hsame : Same d d') : ∃ executed, Executes next d executed d' ∧
      executed.length ≤ maxSteps ∧ StopsAt d.breakpoints executed := ⟨[], hsame.executes, Nat.zero_le _, stopsAt_nil _⟩
  simp only [«continue»] at h
  split at h
  · cases h
    exact hnone (Same.refl d)
  · split at h
    · obtain ⟨rfl, -⟩ := answer_ok h
      exact hnone hsync
    · split at h
      · obtain ⟨rfl, -⟩ := answer_ok h
        exact hnone (hsync.trans (Same.paused _))
      · obtain ⟨executed, hrest, hlen, hstops⟩ := continueLoop_ok h
        have hrunning : Same d { d.syncState with state := .running } := ⟨hsync.vm, hsync.count, hsync.breakpoints⟩
        exact ⟨executed, hrest.same_left hrunning, hlen, hsync.breakpoints ▸ hstops⟩

/-- A step over a call may pass a breakpoint with its second step only, and then the first one has entered a call. -/
def OverStops (d : Debugger) (executed : List Vm) : Prop :=
  ∀ i v, executed[i + 1]? = some v → v.instructionPointer ∈ d.breakpoints → i = 0 ∧ d.depth < v.callFrames.length

theorem OverStops.of_short {executed : List Vm} (h : executed.length ≤ 1) : d.OverStops executed := by
  intro i v hi
  have := (List.getElem?_eq_some_iff.1 hi).1
  omega

theorem stepOver_ok {maxSteps : Nat} (h : d.stepOver next maxSteps = some (d', r)) :
    ∃ executed, Executes next d executed d' ∧ executed.length ≤ maxSteps + 1 ∧ d.OverStops executed ∧
      (r.status = .ok → d'.vm.instructionPointer ∉ d.breakpoints → d'.depth ≤ d.depth) := by
  simp only [stepOver] at h
  split at h
  · cases h
    exact ⟨[], (Same.refl d).executes, Nat.zero_le _, .of_short (Nat.zero_le _), nofun⟩
  · simp only [Option.bind_eq_bind, Option.bind_eq_some_iff, Prod.exists] at h
    obtain ⟨d₁, r₁, hstep, h⟩ := h
    split at h
    · rename_i hret
      cases h
      have hend : r.status = .ok → d'.vm.instructionPointer ∉ d.breakpoints → d'.depth ≤ d.depth := fun hok _ =>
        hret.resolve_left fun h => h hok
      rcases step_ok hstep with hone | ⟨hnone, -⟩
      · exact ⟨[d.vm], hone, by simp, .of_short (Nat.le_refl 1), hend⟩
      · exact ⟨[], hnone, by simp, .of_short (Nat.zero_le _), hend⟩
    · rename_i hin
      obtain ⟨hok, hdeep⟩ := not_or.1 hin
      have hone : Executes next d [d.vm] d₁ := (step_ok hstep).resolve_right fun h => hok h.2
      obtain ⟨executed, hrest, hlen, hstops, hend⟩ := stepWhile_ok h
      rw [hone.breakpoints] at hstops hend
      refine ⟨d.vm :: executed, hone.trans hrest, by simpa using hlen, ?_, fun hok hclear => ?_⟩
      · intro i v hi hm
        cases executed with
        | nil => simp at hi
        | cons w executed =>
            cases hrest.trail.head_eq
            cases i with
            | zero =>
                simp only [Nat.zero_add, List.getElem?_cons_succ, List.getElem?_cons_zero, Option.some.injEq] at hi
                exact ⟨rfl, hi ▸ Nat.lt_of_not_le hdeep⟩
            | succ i => exact absurd hm (hstops v (List.mem_of_getElem? hi))
      · simpa using hend hok hclear

theorem StopsAt.overStops {executed : List Vm} (h : StopsAt d.breakpoints executed) : d.OverStops executed := by
  intro i v hi hm
  cases executed with
  | nil => simp at hi
  | cons w executed => exact absurd hm (h v (List.mem_of_getElem? hi))

theorem stepOut_ok {maxSteps : Nat} (hd : 0 < d.depth) (h : d.stepOut next maxSteps = some (d', r)) :
    ∃ executed, Executes next d executed d' ∧ executed.length ≤ maxSteps ∧ StopsAt d.breakpoints executed ∧
      (r.status = .ok → d'.vm.instructionPointer ∉ d.breakpoints → d'.depth < d.depth) := by
  simp only [stepOut, if_neg (Nat.ne_of_gt hd)] at h
  split at h
  · cases h
    exact ⟨[], (Same.refl d).executes, Nat.zero_le _, stopsAt_nil _, nofun⟩
  · obtain ⟨executed, hrest, hlen, hstops, hend⟩ := stepWhile_ok h
    exact ⟨executed, hrest, hlen, hstops, fun hok hclear => by simpa using hend hok hclear⟩

theorem breakPc_same (d : Debugger) (pc : Nat) :
    (d.breakPc pc).1.vm = d.vm ∧ (d.breakPc pc).1.executedStepCount = d.executedStepCount := by
  unfold breakPc
  split_ifs <;> exact ⟨rfl, rfl⟩

theorem breakMapping_same (d : Debugger) (mappings : DebuggerMappings) (name : List Byte) :
    (d.breakMapping mappings name).1.vm = d.vm ∧
      (d.breakMapping mappings name).1.executedStepCount = d.executedStepCount := by
  unfold breakMapping
  split
  · exact ⟨rfl, rfl⟩
  · exact breakPc_same d _

theorem pause_same (d : Debugger) : Same d d.pause.1 := by
  have hsync := Same.syncState d
  simp only [pause]
  split
  · exact hsync
  · exact hsync.trans (Same.paused _)

theorem inspect_same (d : Debugger) (kind : Nat) : Same d (d.inspect kind).1 := by
  simp only [inspect]
  split
  · exact Same.refl d
  · exact Same.syncState d

/-! ## Commands return -/

/-- The VM can take `n` steps. -/
def CanStep (next : Vm → Option Vm) (n : Nat) (vm : Vm) : Prop :=
  ∀ k v, k < n → iterate next k vm = some v → (next v).isSome

theorem CanStep.mono {m n : Nat} {vm : Vm} (h : CanStep next n vm) (hmn : m ≤ n) : CanStep next m vm :=
  fun k v hk => h k v (Nat.lt_of_lt_of_le hk hmn)

/-- One step leaves one fewer. -/
theorem CanStep.tail {n : Nat} (h : CanStep next (n + 1) d.vm) (he : Executes next d [d.vm] d') :
    CanStep next n d'.vm := by
  intro k v hk hv
  have hone : iterate next 1 d.vm = some d'.vm := he.trail.iterate_eq
  refine h (1 + k) v (by omega) ?_
  rw [iterate_add, hone]
  exact hv

theorem vmStep_returns {n : Nat} (h : CanStep next (n + 1) d.vm) : ∃ d₁, d.vmStep next = some d₁ := by
  obtain ⟨vm, hvm⟩ := Option.isSome_iff_exists.1 (h 0 d.vm (Nat.succ_pos n) rfl)
  exact ⟨_, by simp only [vmStep, hvm, Option.bind_eq_bind, Option.bind_some]; rfl⟩

theorem step_returns {n : Nat} (h : CanStep next (n + 1) d.vm) : ∃ p, d.step next = some p := by
  simp only [step]
  split
  · exact ⟨_, rfl⟩
  · have hsame : ({ d.syncState with state := .running } : Debugger).vm = d.vm := syncState_vm d
    obtain ⟨d₁, hd₁⟩ := vmStep_returns (hsame ▸ h)
    exact ⟨_, by rw [hd₁]; rfl⟩

theorem stepWhile_returns {inside : Nat → Bool} {left : Nat} (h : CanStep next left d.vm) :
    (stepWhile next inside left d).isSome := by
  induction left generalizing d with
  | zero => rfl
  | succ left ih =>
      simp only [stepWhile]
      split
      · obtain ⟨⟨d₁, r₁⟩, hstep⟩ := step_returns h
        simp only [hstep, Option.bind_eq_bind, Option.bind_some]
        split
        · rfl
        · rename_i hok
          split
          · rfl
          · exact ih (h.tail ((step_ok hstep).resolve_right fun h => hok h.2))
      · rfl

theorem continueLoop_returns {left : Nat} (h : CanStep next left d.vm) : (continueLoop next left d).isSome := by
  induction left generalizing d with
  | zero => rfl
  | succ left ih =>
      obtain ⟨d₁, hstep⟩ := vmStep_returns h
      have hone := (vmStep_ok hstep).same_right (Same.syncState d₁)
      simp only [continueLoop, hstep, Option.bind_eq_bind, Option.bind_some]
      split
      · rfl
      · split
        · rfl
        · exact ih (h.tail hone)

theorem stepOver_returns {maxSteps : Nat} (h : CanStep next (maxSteps + 1) d.vm) :
    (d.stepOver next maxSteps).isSome := by
  simp only [stepOver]
  split
  · rfl
  · obtain ⟨⟨d₁, r₁⟩, hstep⟩ := step_returns h
    simp only [hstep, Option.bind_eq_bind, Option.bind_some]
    split
    · rfl
    · rename_i hin
      exact stepWhile_returns (h.tail ((step_ok hstep).resolve_right fun h => (not_or.1 hin).1 h.2))

end Aivm.Debugger
