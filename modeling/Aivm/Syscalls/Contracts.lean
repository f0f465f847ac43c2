import Aivm.Machine.Text

/-!
# System call contracts

`aivm_syscall_contracts.c` and the capability masks of `aivm_syscall.c`. A policy is the mask of the capabilities it
allows.
-/

namespace Aivm

/-! ## Types of values -/

inductive ValueType where
  | void | int | number | bool | null | string | bytes | node | pair | unknown | nodeBuilder | mapBuilder | map | task
  | workerRef | workerTasks
deriving DecidableEq, Repr

def Value.type : Value → ValueType
  | .void => .void
  | .int _ => .int
  | .number _ => .number
  | .bool _ => .bool
  | .null => .null
  | .string _ => .string
  | .bytes _ _ => .bytes
  | .node _ => .node
  | .pair _ => .pair
  | .unknown => .unknown
  | .nodeBuilder _ => .nodeBuilder
  | .mapBuilder _ => .mapBuilder
  | .map _ => .map
  | .task _ => .task
  | .workerRef _ => .workerRef
  | .workerTasks _ => .workerTasks

/-- `aivm_vm_value_type_name`. -/
def ValueType.name : ValueType → String
  | .void => "void"
  | .int => "int"
  | .number => "number"
  | .bool => "bool"
  | .null => "null"
  | .string => "string"
  | .bytes => "bytes"
  | .node => "node"
  | .pair => "pair"
  | .unknown => "unknown"
  | .nodeBuilder => "nodeBuilder"
  | .mapBuilder => "mapBuilder"
  | .map => "map"
  | .task => "task"
  | .workerRef => "workerRef"
  | .workerTasks => "workerTasks"

/-! ## Capabilities -/

inductive SyscallCapability where
  | none | core | console | process | platform | time | filesystem | crypto | network | ui | worker | remote | host
  | image | storage | debug
deriving DecidableEq, Repr

namespace SyscallCapability

/-- `aivm_syscall_capability_mask`. -/
def mask (capability : SyscallCapability) : UInt64 :=
  if capability = .none then 0 else (1 : UInt64) <<< UInt64.ofNat capability.ctorIdx

/-- `aivm_syscall_capability_name`. -/
def name : SyscallCapability → String
  | .none => "none"
  | .core => "core"
  | .console => "console"
  | .process => "process"
  | .platform => "platform"
  | .time => "time"
  | .filesystem => "filesystem"
  | .crypto => "crypto"
  | .network => "network"
  | .ui => "ui"
  | .worker => "worker"
  | .remote => "remote"
  | .host => "host"
  | .image => "image"
  | .storage => "storage"
  | .debug => "debug"

end SyscallCapability

/-- `aivm_syscall_policy_allow_none`. -/
def policyAllowNone : UInt64 := 0

/-- `aivm_syscall_policy_allow_all`. -/
def policyAllowAll : UInt64 :=
  [SyscallCapability.core, .console, .process, .platform, .time, .filesystem, .crypto, .network, .ui, .worker, .remote,
    .host, .image, .storage, .debug].foldl (fun policy capability => policy ||| capability.mask) 0

/-- `aivm_syscall_policy_allow_production_default`. -/
def policyAllowProductionDefault : UInt64 := policyAllowAll &&& ~~~SyscallCapability.debug.mask

/-- `aivm_syscall_policy_allows`. -/
def policyAllows (policy : UInt64) (capability : SyscallCapability) : Bool :=
  capability.mask ≠ 0 ∧ policy &&& capability.mask ≠ 0

/-! ## Contracts -/

structure SyscallContract where
  id : Nat
  target : List Byte
  argTypes : List ValueType
  returnType : ValueType
  capability : SyscallCapability
deriving DecidableEq, Repr

inductive ContractStatus where
  | ok
  | unknownTarget
  | argCount
  | argType
  | unknownId
deriving DecidableEq, Repr

def syscallContracts : List SyscallContract :=
  [⟨5, ascii "sys.net.tcp.close", [.int], .void, .network⟩,
   ⟨6, ascii "sys.console.write", [.string], .void, .console⟩,
   ⟨7, ascii "sys.console.writeLine", [.string], .void, .console⟩,
   ⟨8, ascii "sys.console.readLine", [], .string, .console⟩,
   ⟨9, ascii "sys.console.readAllStdin", [], .string, .console⟩,
   ⟨10, ascii "sys.console.writeErrLine", [.string], .void, .console⟩,
   ⟨16, ascii "sys.stdout.writeLine", [.string], .void, .console⟩,
   ⟨11, ascii "sys.process.cwd", [], .string, .process⟩,
   ⟨12, ascii "sys.process.env.get", [.string], .string, .process⟩,
   ⟨18, ascii "sys.process.args", [], .node, .process⟩,
   ⟨105, ascii "sys.process.spawn", [.string, .node, .string, .node], .int, .process⟩,
   ⟨106, ascii "sys.process.wait", [.int], .int, .process⟩,
   ⟨107, ascii "sys.process.kill", [.int], .bool, .process⟩,
   ⟨108, ascii "sys.process.stdout.read", [.int], .bytes, .process⟩,
   ⟨109, ascii "sys.process.stderr.read", [.int], .bytes, .process⟩,
   ⟨110, ascii "sys.process.poll", [.int], .int, .process⟩,
   ⟨117, ascii "sys.remote.call", [.string, .string, .int], .int, .remote⟩,
   ⟨120, ascii "sys.host.openDefault", [.string], .bool, .host⟩,
   ⟨121, ascii "sys.image.decodeToRgbaBase64", [.bytes, .string], .string, .image⟩,
   ⟨28, ascii "sys.platform", [], .string, .platform⟩,
   ⟨29, ascii "sys.arch", [], .string, .platform⟩,
   ⟨30, ascii "sys.os.version", [], .string, .platform⟩,
   ⟨31, ascii "sys.runtime", [], .string, .platform⟩,
   ⟨13, ascii "sys.time.nowUnixMs", [], .int, .time⟩,
   ⟨14, ascii "sys.time.monotonicMs", [], .int, .time⟩,
   ⟨15, ascii "sys.time.sleepMs", [.int], .void, .time⟩,
   ⟨122, ascii "sys.time.timeZoneId", [], .string, .time⟩,
   ⟨123, ascii "sys.time.timeZoneOffsetMinutesAt", [.int], .int, .time⟩,
   ⟨17, ascii "sys.process.exit", [.int], .void, .process⟩,
   ⟨19, ascii "sys.fs.file.read", [.string], .bytes, .filesystem⟩,
   ⟨20, ascii "sys.fs.file.exists", [.string], .bool, .filesystem⟩,
   ⟨21, ascii "sys.fs.dir.list", [.string], .node, .filesystem⟩,
   ⟨22, ascii "sys.fs.path.stat", [.string], .node, .filesystem⟩,
   ⟨23, ascii "sys.fs.path.exists", [.string], .bool, .filesystem⟩,
   ⟨24, ascii "sys.fs.file.write", [.string, .bytes], .void, .filesystem⟩,
   ⟨25, ascii "sys.fs.dir.create", [.string], .void, .filesystem⟩,
   ⟨103, ascii "sys.fs.file.delete", [.string], .bool, .filesystem⟩,
   ⟨104, ascii "sys.fs.dir.delete", [.string, .bool], .bool, .filesystem⟩,
   ⟨124, ascii "sys.fs.file.openRead", [.string], .int, .filesystem⟩,
   ⟨125, ascii "sys.fs.file.readChunk", [.int, .int], .bytes, .filesystem⟩,
   ⟨126, ascii "sys.fs.file.close", [.int], .bool, .filesystem⟩,
   ⟨127, ascii "sys.fs.file.openWrite", [.string], .int, .filesystem⟩,
   ⟨128, ascii "sys.fs.file.writeChunk", [.int, .bytes], .int, .filesystem⟩,
   ⟨42, ascii "sys.crypto.randomBytes", [.int], .bytes, .crypto⟩,
   ⟨27, ascii "sys.net.tcp.connect", [.string, .int], .int, .network⟩,
   ⟨32, ascii "sys.net.tcp.listen", [.string, .int], .int, .network⟩,
   ⟨33, ascii "sys.net.tcp.listenTls", [.string, .int, .string, .string], .int, .network⟩,
   ⟨34, ascii "sys.net.tcp.accept", [.int], .int, .network⟩,
   ⟨35, ascii "sys.net.tcp.read", [.int, .int], .bytes, .network⟩,
   ⟨36, ascii "sys.net.tcp.write", [.int, .bytes], .int, .network⟩,
   ⟨61, ascii "sys.net.tcp.connectTls", [.string, .int], .int, .network⟩,
   ⟨62, ascii "sys.net.tcp.connectStart", [.string, .int], .int, .network⟩,
   ⟨63, ascii "sys.net.tcp.connectTlsStart", [.string, .int], .int, .network⟩,
   ⟨64, ascii "sys.net.tcp.readStart", [.int, .int], .int, .network⟩,
   ⟨65, ascii "sys.net.tcp.writeStart", [.int, .bytes], .int, .network⟩,
   ⟨66, ascii "sys.net.async.poll", [.int], .int, .network⟩,
   ⟨67, ascii "sys.net.async.await", [.int], .int, .network⟩,
   ⟨68, ascii "sys.net.async.cancel", [.int], .bool, .network⟩,
   ⟨69, ascii "sys.net.async.resultInt", [.int], .int, .network⟩,
   ⟨70, ascii "sys.net.async.resultBytes", [.int], .bytes, .network⟩,
   ⟨71, ascii "sys.net.async.error", [.int], .string, .network⟩,
   ⟨43, ascii "sys.net.udp.bind", [.string, .int], .int, .network⟩,
   ⟨44, ascii "sys.net.udp.recv", [.int, .int], .node, .network⟩,
   ⟨45, ascii "sys.net.udp.send", [.int, .string, .int, .bytes], .int, .network⟩,
   ⟨46, ascii "sys.ui.createWindow", [.string, .int, .int], .int, .ui⟩,
   ⟨47, ascii "sys.ui.beginFrame", [.int], .void, .ui⟩,
   ⟨48, ascii "sys.ui.drawRect", [.int, .int, .int, .int, .int, .string], .void, .ui⟩,
   ⟨49, ascii "sys.ui.drawText", [.int, .int, .int, .string, .string, .int], .void, .ui⟩,
   ⟨50, ascii "sys.ui.endFrame", [.int], .void, .ui⟩,
   ⟨51, ascii "sys.ui.pollEvent", [.int], .node, .ui⟩,
   ⟨52, ascii "sys.ui.present", [.int], .void, .ui⟩,
   ⟨53, ascii "sys.ui.closeWindow", [.int], .void, .ui⟩,
   ⟨54, ascii "sys.ui.drawLine", [.int, .int, .int, .int, .int, .string, .int], .void, .ui⟩,
   ⟨55, ascii "sys.ui.drawEllipse", [.int, .int, .int, .int, .int, .string], .void, .ui⟩,
   ⟨56, ascii "sys.ui.drawPath", [.int, .string, .string, .string, .int], .void, .ui⟩,
   ⟨57, ascii "sys.ui.drawImage", [.int, .int, .int, .int, .int, .string], .void, .ui⟩,
   ⟨58, ascii "sys.ui.getWindowSize", [.int], .node, .ui⟩,
   ⟨130, ascii "sys.runtime.platform", [], .string, .platform⟩,
   ⟨131, ascii "sys.runtime.target", [], .string, .platform⟩,
   ⟨132, ascii "sys.storage.local.available", [], .bool, .storage⟩,
   ⟨133, ascii "sys.storage.local.get", [.string, .string], .string, .storage⟩,
   ⟨134, ascii "sys.storage.local.set", [.string, .string, .string], .bool, .storage⟩,
   ⟨135, ascii "sys.storage.local.delete", [.string, .string], .bool, .storage⟩,
   ⟨136, ascii "sys.storage.local.exists", [.string, .string], .bool, .storage⟩,
   ⟨137, ascii "sys.storage.secure.available", [], .bool, .storage⟩,
   ⟨138, ascii "sys.storage.secure.get", [.string, .string], .string, .storage⟩,
   ⟨139, ascii "sys.storage.secure.set", [.string, .string, .string], .bool, .storage⟩,
   ⟨140, ascii "sys.storage.secure.delete", [.string, .string], .bool, .storage⟩,
   ⟨141, ascii "sys.storage.secure.exists", [.string, .string], .bool, .storage⟩,
   ⟨142, ascii "sys.ui.pushClipPath", [.int, .string], .void, .ui⟩,
   ⟨143, ascii "sys.ui.popClipPath", [.int], .void, .ui⟩,
   ⟨129, ascii "sys.ui.measureText", [.int, .string, .int], .int, .ui⟩,
   ⟨72, ascii "sys.ui.waitFrame", [.int], .void, .ui⟩,
   ⟨78, ascii "sys.debug.emit", [.string, .string], .void, .debug⟩,
   ⟨79, ascii "sys.debug.mode", [], .string, .debug⟩,
   ⟨80, ascii "sys.debug.captureFrameBegin", [.int, .int, .int], .void, .debug⟩,
   ⟨81, ascii "sys.debug.captureFrameEnd", [.int], .void, .debug⟩,
   ⟨82, ascii "sys.debug.captureDraw", [.string, .string], .void, .debug⟩,
   ⟨83, ascii "sys.debug.captureInput", [.string], .void, .debug⟩,
   ⟨84, ascii "sys.debug.captureState", [.string, .string], .void, .debug⟩,
   ⟨85, ascii "sys.debug.replayLoad", [.string], .int, .debug⟩,
   ⟨86, ascii "sys.debug.replayNext", [.int], .string, .debug⟩,
   ⟨87, ascii "sys.debug.assert", [.bool, .string, .string], .void, .debug⟩,
   ⟨88, ascii "sys.debug.artifactWrite", [.string, .string], .bool, .debug⟩,
   ⟨89, ascii "sys.debug.traceAsync", [.int, .string, .string], .void, .debug⟩,
   ⟨115, ascii "sys.debug.taskReclaimStats", [], .node, .debug⟩]

/-- `aivm_syscall_contract_find_by_target`. -/
def contractFindByTarget (target : List Byte) : Option SyscallContract :=
  syscallContracts.find? fun c => c.target = target

/-- `aivm_syscall_contract_capability`. -/
def contractCapability (target : List Byte) : SyscallCapability :=
  match contractFindByTarget target with
  | none => .none
  | some c => c.capability

/-- `aivm_syscall_contract_validate`: the status, and the return type if the arguments are right. -/
def contractValidate (target : List Byte) (args : List Value) : Except ContractStatus ValueType :=
  match contractFindByTarget target with
  | none => .error .unknownTarget
  | some c =>
      if c.argTypes.length ≠ args.length then .error .argCount
      else if c.argTypes ≠ args.map Value.type then .error .argType
      else .ok c.returnType

end Aivm
