import Aivm.Debugger.Lemmas.Commands
import Aivm.Lib.Runs
import Aivm.Strings.Theorems

/-!
# Debugging

A debugger runs the VM as `aivm_step` does, whatever its commands: they decide only how many steps are taken.
-/

namespace Aivm

open Trails Runs

variable {env : Env} {fuel : Nat} {next : Vm → Option Vm} {d d' : Debugger} {r : DebuggerReply}

/-- The commands that go past the calls of the instruction they begin at: `step_out` is one where there is no call to
leave. -/
def DebuggerCommand.StepsOver (d : Debugger) : DebuggerCommand → Prop
  | .stepOver _ => True
  | .stepOut _ => d.depth = 0
  | _ => False

/-- A command that takes the steps of `executed`, honours the breakpoints and respects the depth of calls. The second
step of a command that steps over a call may be taken at a breakpoint. -/
structure Debugger.Honours (next : Vm → Option Vm) (d : Debugger) (c : DebuggerCommand) (executed : List Vm)
    (d' : Debugger) (status : DebuggerStatus) : Prop where
  trail : Trail next d.vm executed d'.vm
  count : d'.executedStepCount = d.executedStepCount + executed.length
  limit : executed.length ≤ c.maxSteps + 1
  breakpoints : ∀ i v, executed[i + 1]? = some v → v.instructionPointer ∈ d.breakpoints →
    c.StepsOver d ∧ i = 0 ∧ d.depth < v.callFrames.length
  overDepth : c.StepsOver d → status = .ok → d'.vm.instructionPointer ∉ d.breakpoints → d'.depth ≤ d.depth
  outDepth : ∀ maxSteps, c = .stepOut maxSteps → ¬ c.StepsOver d → status = .ok →
    d'.vm.instructionPointer ∉ d.breakpoints → d'.depth < d.depth

namespace Debugger

/-- A command that leaves the VM alone. -/
theorem honours_idle {c : DebuggerCommand} {status : DebuggerStatus} (hvm : d'.vm = d.vm)
    (hcount : d'.executedStepCount = d.executedStepCount) (hout : ∀ maxSteps, c ≠ .stepOut maxSteps) :
    d.Honours next c [] d' status where
  trail := hvm ▸ .nil
  count := hcount
  limit := Nat.zero_le _
  breakpoints _ _ hi := by simp at hi
  overDepth _ _ _ := by simp [depth, hvm]
  outDepth maxSteps h := absurd h (hout maxSteps)

/-- A command that does not step over calls. -/
theorem honours_straight {c : DebuggerCommand} {status : DebuggerStatus} {executed : List Vm}
    (h : Executes next d executed d') (hlen : executed.length ≤ c.maxSteps + 1) (hstops : StopsAt d.breakpoints executed)
    (hover : ¬ c.StepsOver d)
    (hout : ∀ maxSteps, c = .stepOut maxSteps → status = .ok → d'.vm.instructionPointer ∉ d.breakpoints →
      d'.depth < d.depth) : d.Honours next c executed d' status where
  trail := h.trail
  count := h.count
  limit := hlen
  breakpoints i v hi hm := by
    cases executed with
    | nil => simp at hi
    | cons w executed => exact absurd hm (hstops v (List.mem_of_getElem? hi))
  overDepth hc := absurd hc hover
  outDepth maxSteps hc _ := hout maxSteps hc

/-- A command that steps over calls. -/
theorem honours_over {c : DebuggerCommand} {maxSteps : Nat} (h : d.stepOver next maxSteps = some (d', r))
    (hc : c.StepsOver d) (hmax : c.maxSteps = maxSteps) : ∃ executed, d.Honours next c executed d' r.status := by
  obtain ⟨executed, he, hlen, hstops, hend⟩ := stepOver_ok h
  exact ⟨executed, he.trail, he.count, hmax ▸ hlen, fun i v hi hm => ⟨hc, hstops i v hi hm⟩, fun _ => hend,
    fun _ _ hn => absurd hc hn⟩

/-- Every command that returns. -/
theorem run_honours {c : DebuggerCommand} (h : d.run next c = some (d', r)) :
    ∃ executed, d.Honours next c executed d' r.status := by
  have idle {p : Debugger × DebuggerReply} (hp : some p = some (d', r)) (hvm : p.1.vm = d.vm)
      (hcount : p.1.executedStepCount = d.executedStepCount) (hout : ∀ maxSteps, c ≠ .stepOut maxSteps) :
      ∃ executed, d.Honours next c executed d' r.status := by
    cases hp
    exact ⟨[], honours_idle hvm hcount hout⟩
  cases c with
  | breakPc pc => exact idle h (breakPc_same d pc).1 (breakPc_same d pc).2 (by simp)
  | registerFunction name pc => exact idle h rfl rfl (by simp)
  | registerNode nodeId pc => exact idle h rfl rfl (by simp)
  | breakFunction name => exact idle h (breakMapping_same d _ name).1 (breakMapping_same d _ name).2 (by simp)
  | breakNode nodeId => exact idle h (breakMapping_same d _ nodeId).1 (breakMapping_same d _ nodeId).2 (by simp)
  | clearBreakpoints => exact idle h rfl rfl (by simp)
  | setActiveHostOperationCount count => exact idle h rfl rfl (by simp)
  | pause => exact idle h (pause_same d).vm (pause_same d).count (by simp)
  | inspect kind => exact idle h (inspect_same d kind).vm (inspect_same d kind).count (by simp)
  | step =>
      rcases step_ok h with hone | ⟨hnone, -⟩
      · exact ⟨[d.vm], honours_straight hone (by simp) (stopsAt_single _ _) (by simp [DebuggerCommand.StepsOver]) (by simp)⟩
      · exact ⟨[], honours_straight hnone (by simp) (stopsAt_nil _) (by simp [DebuggerCommand.StepsOver]) (by simp)⟩
  | stepOver maxSteps => exact honours_over h trivial rfl
  | stepOut maxSteps =>
      cases Nat.eq_zero_or_pos d.depth with
      | inl hz =>
          simp only [run, stepOut, if_pos hz] at h
          split at h
          · cases h
            exact ⟨[], .nil, rfl, Nat.zero_le _, fun _ _ hi => by simp at hi, by simp [DebuggerStatus.reply], by simp [DebuggerStatus.reply]⟩
          · exact honours_over h hz rfl
      | inr hd =>
          obtain ⟨executed, he, hlen, hstops, hend⟩ := stepOut_ok hd h
          have hover : ¬ (DebuggerCommand.stepOut maxSteps).StepsOver d := Nat.ne_of_gt hd
          exact ⟨executed, honours_straight he (Nat.le_succ_of_le hlen) hstops hover fun _ _ => hend⟩
  | «continue» maxSteps =>
      obtain ⟨executed, he, hlen, hstops⟩ := continue_ok h
      exact ⟨executed, honours_straight he (Nat.le_succ_of_le hlen) hstops (by simp [DebuggerCommand.StepsOver]) (by simp)⟩

/-- A command returns if the VM can take the steps of its limit and one more. -/
theorem run_returns {c : DebuggerCommand} (h : CanStep next (c.maxSteps + 1) d.vm) : (d.run next c).isSome := by
  cases c with
  | step => exact Option.isSome_iff_exists.2 (step_returns h)
  | stepOver maxSteps => exact stepOver_returns h
  | stepOut maxSteps =>
      simp only [run, stepOut]
      split
      · rfl
      · split
        · exact stepOver_returns h
        · exact stepWhile_returns (h.mono (Nat.le_succ _))
  | «continue» maxSteps =>
      have hsame : ({ d.syncState with state := .running } : Debugger).vm = d.vm := syncState_vm d
      simp only [run, «continue»]
      split_ifs
      · rfl
      · rfl
      · rfl
      · exact continueLoop_returns (hsame ▸ h.mono (Nat.le_succ _))
  | _ => rfl

/-- The debugger after a command. -/
def Ran (next : Vm → Option Vm) (d : Debugger) (c : DebuggerCommand) (d' : Debugger) : Prop :=
  ∃ r, d.run next c = some (d', r)

@[simp] theorem init_vm (vm : Vm) : (init vm).vm = vm := syncState_vm _

@[simp] theorem init_count (vm : Vm) : (init vm).executedStepCount = 0 := (Same.syncState _).count

/-- After any commands the VM is where that many steps lead, and each command honours breakpoints and depth. -/
theorem transparent {vm : Vm} {cs : List DebuggerCommand} (h : Run (Ran (Aivm.step env fuel)) (init vm) cs d) :
    iterate (Aivm.step env fuel) d.executedStepCount vm = some d.vm ∧
      ∀ c d' r, d.run (Aivm.step env fuel) c = some (d', r) →
        ∃ executed, d.Honours (Aivm.step env fuel) c executed d' r.status := by
  refine ⟨?_, fun c d' r => run_honours⟩
  refine h.keeps (P := fun d => iterate (Aivm.step env fuel) d.executedStepCount vm = some d.vm) (by simp [iterate]) ?_
  rintro a c b ha ⟨r, hrun⟩
  obtain ⟨executed, he⟩ := run_honours hrun
  rw [he.count, iterate_add, ha]
  exact he.trail.iterate_eq

/-- A program that calls a subroutine. -/
def callingProgram : Program := ⟨[⟨.call, 2⟩, ⟨.halt, 0⟩, ⟨.nop, 0⟩, ⟨.ret, 0⟩], [], []⟩

/-- A breakpoint at its first instruction does not stop the step over the call. -/
example : ((aivmInit .sparing callingProgram 0).bind fun vm =>
    ((init vm).breakPc 2).1.stepOver (Aivm.step .sparing 0) 9).any
      (fun p => p.2.status = .ok ∧ p.1.executedStepCount = 3) = true := by decide +kernel

theorem callingProgram_transparent : ∃ vm d, aivmInit .sparing callingProgram 0 = some vm ∧
    Run (Ran (Aivm.step .sparing 0)) (init vm) [.stepOver 9] d ∧
      iterate (Aivm.step .sparing 0) d.executedStepCount vm = some d.vm := by
  have hret : (aivmInit .sparing callingProgram 0).any (fun vm =>
      ((init vm).run (Aivm.step .sparing 0) (.stepOver 9)).isSome) = true := by decide +kernel
  obtain ⟨vm, hvm, hrun⟩ := Option.any_eq_true _ _ |>.1 hret
  obtain ⟨⟨d, r⟩, hrun⟩ := Option.isSome_iff_exists.1 hrun
  have h : Run (Ran (Aivm.step .sparing 0)) (init vm) [.stepOver 9] d := .next .start ⟨r, hrun⟩
  exact ⟨vm, d, hvm, h, (transparent h).1⟩

/-- Without a call to leave, `step_out` succeeds where it began. -/
theorem stepOut_outermost : ∃ vm d r, aivmInit .sparing callingProgram 0 = some vm ∧
    (init vm).run (Aivm.step .sparing 0) (.stepOut 9) = some (d, r) ∧ r.status = .ok ∧ (init vm).breakpoints = [] ∧
      ¬ d.depth < (init vm).depth := by
  have hret : (aivmInit .sparing callingProgram 0).any (fun vm =>
      ((init vm).run (Aivm.step .sparing 0) (.stepOut 9)).any fun p =>
        p.2.status = .ok ∧ (init vm).breakpoints = [] ∧ ¬ p.1.depth < (init vm).depth) = true := by decide +kernel
  obtain ⟨vm, hvm, hrun⟩ := Option.any_eq_true _ _ |>.1 hret
  obtain ⟨⟨d, r⟩, hrun, hend⟩ := Option.any_eq_true _ _ |>.1 hrun
  exact ⟨vm, d, r, hvm, hrun, by simpa using hend⟩

end Debugger

end Aivm
