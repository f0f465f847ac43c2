import Aivm.Model.Vm
import Aivm.Program.Load

/-!
# The host

What the VM asks of its host: whether an allocation succeeds, how much memory is left, where a new arena is placed,
the arithmetic of `double`, the handlers of system calls, threads and the loading of worker artifacts. Every answer may
depend on the whole state, so it may change over time.
-/

namespace Aivm

/-- `double` arithmetic on bit patterns; `format` is `"%.15g"`. -/
structure FloatOps where
  ofInt : Int → UInt64
  toInt : UInt64 → Int
  add : UInt64 → UInt64 → UInt64
  sub : UInt64 → UInt64 → UInt64
  mul : UInt64 → UInt64 → UInt64
  div : UInt64 → UInt64 → UInt64
  lt : UInt64 → UInt64 → Bool
  eq : UInt64 → UInt64 → Bool
  format : UInt64 → List Byte

/-- What a host handler returns; a status of its own counts as unknown. -/
inductive SyscallStatus where
  | ok
  | invalid
  | nullResult
  | notFound
  | contract
  | returnType
  | unbound
  | resourceLimit
  | capabilityDenied
  | unknown
deriving DecidableEq, Repr

/-- The answer of a host handler, and the processor time it has taken in microseconds. -/
structure HandlerReply where
  status : SyscallStatus
  result : Value
  elapsed : Nat
deriving DecidableEq, Repr

/-- The host. `allocates vm what` answers an allocation whose failure is reported as `what`, and `workerTaken` whether a
worker thread has taken a submitted invocation by now. -/
structure Env where
  allocates : Vm → String → Bool
  hostMemorySnapshot : Vm → Option (Nat × Nat)
  place : Vm → Nat
  floats : FloatOps
  invokeHandler : Vm → (handler : Nat) → (target : List Byte) → (args : List Value) → HandlerReply
  startsThread : Vm → Bool
  startsScheduler : Vm → Bool
  workerTaken : Vm → (submissionId : Nat) → Bool
  loader : LoadHost

/-- Claim host memory or fail with memory pressure. -/
def Env.allocate (env : Env) (detail : String) : VmM Unit := fun vm =>
  if env.allocates vm detail then .ok () vm else .fail (VmM.setVmError ⟨.memoryPressure, detail⟩ vm)

theorem Env.allocate_ok {env : Env} {detail vm u vm'} (h : env.allocate detail vm = .ok u vm') : vm' = vm := by
  unfold Env.allocate at h
  split at h
  · cases h
    rfl
  · cases h

/-- Claim host memory where it is needed. -/
def Env.allocateIf (env : Env) (needed : Bool) (detail : String) : VmM Unit :=
  if needed then env.allocate detail else pure ()

theorem Env.allocateIf_ok {env : Env} {needed detail vm u vm'} (h : env.allocateIf needed detail vm = .ok u vm') :
    vm' = vm := by
  unfold Env.allocateIf at h
  split at h
  · exact Env.allocate_ok h
  · cases h
    rfl

/-- The part of `double` arithmetic on whole numbers, each given by its two's complement. -/
def FloatOps.whole : FloatOps where
  ofInt i := UInt64.ofInt i
  toInt x := x.toNat
  add x y := x + y
  sub x y := x - y
  mul x y := x * y
  div x y := x / y
  lt x y := x < y
  eq x y := x = y
  format x := (Nat.repr x.toNat).toUTF8.toList

/-- A host with memory to spare, which places a new arena behind the old one, binds no system call and starts no
worker. -/
def Env.generous : Env where
  allocates _ _ := true
  hostMemorySnapshot _ := none
  place vm := vm.stringBlock + 1
  floats := .whole
  invokeHandler _ _ _ _ := ⟨.invalid, .void, 0⟩
  startsThread _ := false
  startsScheduler _ := false
  workerTaken _ _ := false
  loader := ⟨fun _ _ => true, fun _ _ => true, fun _ _ => true, fun _ _ => true⟩

/-- The same host, short of memory: 256 MiB of 8 GiB are left, which no growth may touch. -/
def Env.scarce : Env := { Env.generous with hostMemorySnapshot := fun _ => some (8589934592, 268435456) }

end Aivm
