import Aivm.Lib.Unfold
import Aivm.Lib.Worklist
import Aivm.Lib.Sliding
import Aivm.Lib.Slots
import Aivm.Lib.CStrings
import Aivm.Lib.MapAccum
import Aivm.Lib.Runs
import Aivm.Model.Types
import Aivm.Model.Meaning
import Aivm.Model.Vm
import Aivm.Syscalls.Contracts
import Aivm.Model.Lifecycle
import Aivm.Model.Env
import Aivm.Model.Roots
import Aivm.Strings.Intern
import Aivm.Gc.Mark
import Aivm.Gc.NodeCompaction
import Aivm.Gc.StringCompaction
import Aivm.Gc.Lemmas.Mark
import Aivm.Gc.Lemmas.NodeCompaction
import Aivm.Gc.Lemmas.StringCompaction
import Aivm.Gc.Theorems
import Aivm.Strings.Arena
import Aivm.Nodes.Create
import Aivm.Nodes.Lemmas.Create
import Aivm.Nodes.Theorems
import Aivm.Gc.BytesCompaction
import Aivm.Gc.Lemmas.BytesCompaction
import Aivm.Gc.SafePoint
import Aivm.Lib.ByteReader
import Aivm.Machine.Stack
import Aivm.Machine.Text
import Aivm.Model.Rules
import Aivm.Nodes.Lemmas.InPlace
import Aivm.Program.Format
import Aivm.Program.Lemmas.Bounds
import Aivm.Program.Lemmas.Failure
import Aivm.Program.Theorems
import Aivm.Workers.BoundaryCopy
import Aivm.Workers.Lemmas.BoundaryCopy
import Aivm.Workers.Lemmas.Settled
import Aivm.Workers.Lemmas.Stores
import Aivm.Workers.Theorems
import Aivm.Compiler.BytecodeAos
import Aivm.Compiler.Compile
import Aivm.Compiler.Graph
import Aivm.Compiler.Layout
import Aivm.Compiler.Lemmas.Basics
import Aivm.Compiler.Lemmas.Control
import Aivm.Compiler.Lemmas.Function
import Aivm.Compiler.Lemmas.Layout
import Aivm.Program.Lemmas.Write
import Aivm.Scheduler.Table
import Aivm.Scheduler.Safety
import Aivm.Scheduler.Lemmas.Table
import Aivm.Scheduler.Lemmas.Steps
import Aivm.Scheduler.Lemmas.Runs
import Aivm.Scheduler.Theorems
import Aivm.Storage.Arenas
import Aivm.Storage.Covered
import Aivm.Storage.Theorems
import Aivm.Machine.Routine
import Aivm.Machine.Scalars
import Aivm.Machine.Strings
import Aivm.Machine.Bytes
import Aivm.Machine.Nodes
import Aivm.Machine.Builders
import Aivm.Machine.Control
import Aivm.Machine.Reset
import Aivm.Machine.Workers
import Aivm.Machine.Tasks
import Aivm.Machine.Par
import Aivm.Machine.Syscalls
import Aivm.Machine.Step
import Aivm.Remote.Channel
import Aivm.Remote.Layout
import Aivm.Remote.Session
import Aivm.Remote.Lemmas.Channel
import Aivm.Remote.Lemmas.Encode
import Aivm.Remote.Lemmas.Session
import Aivm.Remote.Theorems
import Aivm.Lib.Segments
import Aivm.Strings.Lemmas.Runes
import Aivm.Strings.Lemmas.Utf8
import Aivm.Strings.Lemmas.Find
import Aivm.Model.Ends
import Aivm.Machine.Lemmas.Text
import Aivm.Machine.Lemmas.Closed
import Aivm.Machine.Lemmas.ClosedSteps
import Aivm.Machine.Lemmas.Remembered
import Aivm.Strings.Theorems
import Aivm.Debugger.Debugger
import Aivm.Debugger.Lemmas.Commands
import Aivm.Debugger.Theorems
import Aivm.Lib.Blocks
import Aivm.ModuleCache.Objects
import Aivm.ModuleCache.Cache
import Aivm.ModuleCache.Lemmas.Objects
import Aivm.ModuleCache.Lemmas.Copy
import Aivm.ModuleCache.Lemmas.Runs
import Aivm.ModuleCache.Lemmas.Load
import Aivm.ModuleCache.Theorems
import Aivm.Lib.Rounding
import Aivm.Scalars.Doubles
import Aivm.Scalars.Theorems
import Aivm.Lib.Probing
import Aivm.Strings.Lemmas.Index
import Aivm.Strings.Interning
import Aivm.Maps.History
import Aivm.Maps.Lemmas.Table
import Aivm.Maps.Lemmas.Operations
import Aivm.Maps.Theorems
import Aivm.Strings.CodePoints
import Aivm.Bytes.Lemmas.Views
import Aivm.Bytes.Assembly
import Aivm.Bytes.Theorems
import Aivm.Lib.ByteWriter
import Aivm.Machine.Rendering
import Aivm.Machine.Base64
import Aivm.Strings.Rendering
import Aivm.Bytes.Base64
import Aivm.Syscalls.Targets
import Aivm.Debugger.Names
import Aivm.Lib.CommonPrefix
import Aivm.Parity.Theorems
import Aivm.Remote.WsTheorems
import Aivm.Workers.Batches
import Aivm.Storage.Blobs
import Aivm.Storage.BlobTheorems
import Aivm.Compiler.Entries
import Aivm.Compiler.Expansion
import Aivm.Compiler.Imports
import Aivm.Compiler.Lemmas.Answers
import Aivm.Compiler.LayoutTheorems
import Aivm.Compiler.WriteTheorems
import Aivm.Compiler.NodeTheorems
import Aivm.Compiler.BytecodeTheorems
import Aivm.Builders.Theorems
import Aivm.Packages.Commands
import Aivm.Packages.LockTheorems
import Aivm.Packages.ManifestTheorems
import Aivm.Packages.NamespaceTheorems
import Aivm.Packages.RecordTheorems
import Aivm.Packages.RestoreTheorems
import Aivm.Storage.LocalTheorems
import Aivm.Compiler.CacheTheorems
import Aivm.Machine.Lemmas.Outside
import Aivm.Machine.Lemmas.Ordinary
import Aivm.Machine.Lemmas.Awaits
import Aivm.Machine.Lemmas.Admits
import Aivm.Machine.Lemmas.TaskBook
import Aivm.Machine.Lemmas.Instructions
import Aivm.Machine.Lemmas.Runs
import Aivm.Machine.WellFormed
import Aivm.Machine.Confinement
import Aivm.Machine.TaskTable
import Aivm.Machine.InstructionPointer
import Aivm.Machine.Consumption
import Aivm.Machine.Calls
import Aivm.Workers.Workloads
import Aivm.Workers.Results
