import Aivm.Debugger.Lemmas.Commands
import Aivm.Machine.Reset

/-!
# Named breakpoints

Names are kept in buffers of 128 bytes and compared with whole names: a breakpoint at a name is set where the name was
registered last if and only if every registered name fits into its buffer.
-/

namespace Aivm

/-- What names are registered for. -/
inductive MappingKind where
  | function
  | node
deriving DecidableEq, Repr

/-- A name that has been registered. -/
structure Registration where
  kind : MappingKind
  name : List Byte
  pc : Nat
deriving DecidableEq, Repr

namespace Debugger

variable {d d' : Debugger} {kind : MappingKind} {name other : List Byte} {pc : Nat} {program : Program}
  {registrations : List Registration}

/-! ## Registrations -/

def mappings (d : Debugger) : MappingKind → DebuggerMappings
  | .function => d.functionMappings
  | .node => d.nodeMappings

def register (d : Debugger) : MappingKind → List Byte → Nat → Debugger × DebuggerReply
  | .function => d.registerFunction
  | .node => d.registerNode

def breakName (d : Debugger) : MappingKind → List Byte → Debugger × DebuggerReply
  | .function => d.breakFunction
  | .node => d.breakNode

/-- A debugger in which these names have been registered with success, in between anything else. -/
inductive Registered (program : Program) : List Registration → Debugger → Prop where
  | start {d : Debugger} : d.vm.program = program → (∀ kind, (d.mappings kind).1 = []) → Registered program [] d
  | registered {registrations : List Registration} {d : Debugger} {kind : MappingKind} {name : List Byte} {pc : Nat} :
      Registered program registrations d → (d.register kind name pc).2.status = .ok →
      Registered program (registrations ++ [⟨kind, name, pc⟩]) (d.register kind name pc).1
  | elsewhere {registrations : List Registration} {d d' : Debugger} : Registered program registrations d →
      d'.vm.program = d.vm.program → (∀ kind, d'.mappings kind = d.mappings kind) → Registered program registrations d'

/-- Where a name has been registered last. -/
def lastPc (kind : MappingKind) (name : List Byte) (registrations : List Registration) : Option Nat :=
  (registrations.reverse.find? fun r => r.kind = kind ∧ r.name = name).map (·.pc)

/-- Breakpoints at names are set where the names were registered last, other names are refused, and to register a name
again takes no further entry. -/
structure NamesResolve (registrations : List Registration) (d : Debugger) : Prop where
  latest : ∀ kind name pc, lastPc kind name registrations = some pc →
    d.breakName kind name = d.breakPc pc ∧ pc < instructionCount d.vm
  unknown : ∀ kind name, lastPc kind name registrations = none →
    d.breakName kind name = (d, DebuggerStatus.invalid.reply)
  reused : ∀ kind name pc, lastPc kind name registrations ≠ none → (d.register kind name pc).2.status = .ok →
    ((d.register kind name pc).1.mappings kind).1.length = (d.mappings kind).1.length

/-! ## Tables -/

theorem find?_modify {l : List DebuggerSourceMapping} {i : Nat} (h : l.findIdx? (·.name = name) = some i) :
    (l.modify i fun m => { m with pc }).find? (·.name = other) =
      if other = name then some ⟨name, pc⟩ else l.find? (·.name = other) := by
  induction l generalizing i with
  | nil => simp at h
  | cons m l ih =>
      rw [List.findIdx?_cons] at h
      by_cases hm : m.name = name
      · simp only [hm, decide_true, if_true, Option.some.injEq] at h
        subst h
        by_cases hother : other = name
        · subst hother
          simp [hm]
        · have hne : ¬ name = other := fun heq => hother heq.symm
          simp [hm, hother, hne]
      · simp only [hm, decide_false, Bool.false_eq_true, if_false, Option.map_eq_some_iff] at h
        obtain ⟨j, hj, rfl⟩ := h
        by_cases hmother : m.name = other
        · have hne : ¬ other = name := fun heq => hm (hmother.trans heq)
          simp [hmother, hne]
        · simp [hmother, ih hj]

theorem breakName_eq (d : Debugger) (kind : MappingKind) (name : List Byte) :
    d.breakName kind name = d.breakMapping (d.mappings kind) name := by
  cases kind <;> rfl

theorem register_mappings (d : Debugger) (kind other : MappingKind) (name : List Byte) (pc : Nat) :
    (d.register kind name pc).1.mappings other =
      if other = kind then (d.registerMapping (d.mappings kind) name pc).1 else d.mappings other := by
  cases kind <;> cases other <;> rfl

theorem register_status (d : Debugger) (kind : MappingKind) (name : List Byte) (pc : Nat) :
    (d.register kind name pc).2.status = (d.registerMapping (d.mappings kind) name pc).2 := by
  cases kind <;> rfl

theorem register_vm (d : Debugger) (kind : MappingKind) (name : List Byte) (pc : Nat) :
    (d.register kind name pc).1.vm = d.vm := by
  cases kind <;> rfl

/-- A name is registered in the entry that has it, or in a new one. -/
theorem registerMapping_ok {mappings : DebuggerMappings} (h : (d.registerMapping mappings name pc).2 = .ok) :
    pc < instructionCount d.vm ∧
      ((∃ i, mappings.1.findIdx? (·.name = name) = some i ∧
        (d.registerMapping mappings name pc).1.1 = mappings.1.modify i fun m => { m with pc }) ∨
      mappings.1.findIdx? (·.name = name) = none ∧
        (d.registerMapping mappings name pc).1.1 = mappings.1 ++ [⟨mappingName name, pc⟩]) := by
  unfold registerMapping at h ⊢
  by_cases hrange : name = [] ∨ instructionCount d.vm ≤ pc
  · simp [hrange] at h
  rw [not_or] at hrange
  refine ⟨by omega, ?_⟩
  simp only [hrange, or_self, if_false] at h ⊢
  cases hfind : mappings.1.findIdx? (·.name = name) with
  | some i => exact .inl ⟨i, rfl, rfl⟩
  | none =>
      simp only [hfind] at h
      by_cases hfull : debuggerMaxSourceMappings ≤ mappings.1.length
      · simp [hfull] at h
      · exact .inr ⟨rfl, by simp [hfull]⟩

/-- A short name is found where it has been registered, and other names where they were. -/
theorem findMapping_register {mappings : DebuggerMappings} (hshort : name.length < debuggerSourceNameLength)
    (h : (d.registerMapping mappings name pc).2 = .ok) (other : List Byte) :
    findMapping (d.registerMapping mappings name pc).1 other =
      if other = name then some pc else findMapping mappings other := by
  have hname : mappingName name = name := List.take_of_length_le (by simpa [debuggerSourceNameLength] using Nat.le_of_lt_succ hshort)
  unfold findMapping
  obtain ⟨-, ⟨i, hi, heq⟩ | ⟨hnone, heq⟩⟩ := registerMapping_ok h
  · rw [heq, find?_modify hi]
    split
    · rfl
    · rfl
  · rw [heq, hname, List.find?_append]
    by_cases hother : other = name
    · subst hother
      have hmissing : mappings.1.find? (·.name = other) = none := by
        simpa using hnone
      simp [hmissing]
    · have hne : ¬ name = other := fun heq => hother heq.symm
      simp [hother, hne]

/-- Registering a name that is there takes no further entry. -/
theorem length_register {mappings : DebuggerMappings} (h : (d.registerMapping mappings name pc).2 = .ok)
    (hthere : findMapping mappings name ≠ none) : (d.registerMapping mappings name pc).1.1.length = mappings.1.length := by
  obtain ⟨-, ⟨i, -, heq⟩ | ⟨hnone, -⟩⟩ := registerMapping_ok h
  · simp [heq]
  · have hmissing : mappings.1.find? (·.name = name) = none := by
      simpa using hnone
    simp [findMapping, hmissing] at hthere

/-! ## Runs -/

theorem lastPc_append (kind : MappingKind) (name : List Byte) (registrations : List Registration) (r : Registration) :
    lastPc kind name (registrations ++ [r]) =
      if r.kind = kind ∧ r.name = name then some r.pc else lastPc kind name registrations := by
  by_cases h : r.kind = kind ∧ r.name = name
  · simp [lastPc, h]
  · simp only [lastPc, List.reverse_append, List.reverse_singleton, List.singleton_append, List.find?_cons, h, decide_false,
      if_false]

/-- Every registered name lies in the program. -/
theorem Registered.inside (h : Registered program registrations d) :
    d.vm.program = program ∧ ∀ r ∈ registrations, r.pc < program.instructions.length := by
  induction h with
  | start hprogram _ => exact ⟨hprogram, by simp⟩
  | registered _ hok ih =>
      rw [register_status] at hok
      obtain ⟨hpc, -⟩ := registerMapping_ok hok
      refine ⟨by rw [register_vm]; exact ih.1, fun r hr => ?_⟩
      rw [List.mem_append, List.mem_singleton] at hr
      obtain hr | rfl := hr
      · exact ih.2 r hr
      · rwa [instructionCount, ih.1] at hpc
  | elsewhere _ hprogram _ ih => exact ⟨hprogram.trans ih.1, ih.2⟩

/-- Short names are found where they were registered last. -/
theorem Registered.findMapping (h : Registered program registrations d)
    (hshort : ∀ r ∈ registrations, r.name.length < debuggerSourceNameLength) (kind : MappingKind) (name : List Byte) :
    Debugger.findMapping (d.mappings kind) name = lastPc kind name registrations := by
  induction h with
  | start _ hempty => simp [Debugger.findMapping, hempty, lastPc]
  | @registered registrations d kind' name' pc' _ hok ih =>
      simp only [List.mem_append, List.mem_singleton] at hshort
      rw [register_status] at hok
      rw [lastPc_append, register_mappings]
      by_cases hkind : kind = kind'
      · subst hkind
        rw [if_pos rfl, findMapping_register (hshort _ (.inr rfl)) hok, ih fun r hr => hshort r (.inl hr)]
        simp [eq_comm]
      · have hne : ¬ kind' = kind := fun heq => hkind heq.symm
        rw [if_neg hkind, ih fun r hr => hshort r (.inl hr)]
        simp [hne]
  | elsewhere _ _ hsame ih => rw [hsame, ih hshort]

theorem names_modify (l : List DebuggerSourceMapping) (i pc : Nat) :
    (l.modify i fun m => { m with pc }).map (·.name) = l.map (·.name) := by
  induction l generalizing i with
  | nil => simp
  | cons m l ih =>
      cases i with
      | zero => simp
      | succ i => simp [ih]

/-- Names in a table are cut to their buffers. -/
theorem Registered.names_short (h : Registered program registrations d) (kind : MappingKind) :
    ∀ stored ∈ (d.mappings kind).1.map (·.name), stored.length < debuggerSourceNameLength := by
  induction h with
  | start _ hempty => simp [hempty]
  | @registered _ d kind' name' pc' _ hok ih =>
      rw [register_status] at hok
      rw [register_mappings]
      split
      · rename_i hkind
        subst hkind
        obtain ⟨-, ⟨i, -, heq⟩ | ⟨-, heq⟩⟩ := registerMapping_ok hok
        · rw [heq, names_modify]
          exact ih
        · rw [heq, List.map_append]
          intro stored hstored
          rw [List.mem_append] at hstored
          obtain hstored | hstored := hstored
          · exact ih stored hstored
          · rw [List.map_singleton, List.mem_singleton] at hstored
            subst hstored
            simp [mappingName, debuggerSourceNameLength]
      · exact ih
  | elsewhere _ _ hsame ih =>
      rw [hsame]
      exact ih

theorem lastPc_some (h : lastPc kind name registrations = some pc) : ⟨kind, name, pc⟩ ∈ registrations := by
  simp only [lastPc, Option.map_eq_some_iff] at h
  obtain ⟨r, hr, rfl⟩ := h
  have hmem := List.mem_of_find?_eq_some hr
  have hsame := List.find?_some hr
  simp only [decide_eq_true_eq] at hsame
  obtain ⟨rfl, rfl⟩ := hsame
  exact List.mem_reverse.1 hmem

theorem lastPc_isSome {r : Registration} (h : r ∈ registrations) : ∃ pc, lastPc r.kind r.name registrations = some pc := by
  cases hlast : lastPc r.kind r.name registrations with
  | some pc => exact ⟨pc, rfl⟩
  | none =>
      simp only [lastPc, Option.map_eq_none_iff, List.find?_eq_none, List.mem_reverse] at hlast
      have hmissing := hlast r h
      simp at hmissing

theorem breakPc_valid (hpc : pc < instructionCount d.vm) : (d.breakPc pc).2.status ≠ .invalid := by
  unfold breakPc
  rw [if_neg (by omega)]
  split
  · simp [DebuggerStatus.reply]
  · split
    · simp [DebuggerStatus.reply]
    · simp [DebuggerStatus.reply]

/-- A registered name that does not fit into its buffer is not found. -/
theorem Registered.findMapping_long (h : Registered program registrations d)
    (hlong : debuggerSourceNameLength ≤ name.length) (kind : MappingKind) :
    Debugger.findMapping (d.mappings kind) name = none := by
  simp only [Debugger.findMapping, Option.map_eq_none_iff, List.find?_eq_none]
  intro m hm hname
  have hshort := h.names_short kind m.name (List.mem_map_of_mem hm)
  simp only [decide_eq_true_eq] at hname
  rw [hname] at hshort
  omega

/-- Names resolve if and only if all of them fit into their buffers. -/
theorem namesResolve_iff (h : Registered program registrations d) :
    NamesResolve registrations d ↔ ∀ r ∈ registrations, r.name.length < debuggerSourceNameLength := by
  obtain ⟨hprogram, hinside⟩ := h.inside
  constructor
  · intro hresolve r hr
    by_contra hlong
    obtain ⟨pc, hpc⟩ := lastPc_isSome hr
    obtain ⟨hbreak, hrange⟩ := hresolve.latest _ _ _ hpc
    have hmissing := h.findMapping_long (Nat.le_of_not_lt hlong) r.kind
    rw [breakName_eq, breakMapping, hmissing] at hbreak
    exact breakPc_valid hrange (by rw [← hbreak]; rfl)
  · intro hshort
    have hfind := h.findMapping hshort
    refine ⟨fun kind name pc hlast => ⟨?_, ?_⟩, fun kind name hlast => ?_, fun kind name pc hlast hok => ?_⟩
    · rw [breakName_eq, breakMapping, hfind, hlast]
    · rw [instructionCount, hprogram]
      exact hinside _ (lastPc_some hlast)
    · rw [breakName_eq, breakMapping, hfind, hlast]
    · rw [register_status] at hok
      rw [register_mappings, if_pos rfl]
      exact length_register hok (by rwa [hfind])

/-- A program that a name can be registered for. -/
def namedProgram : Program := ⟨[⟨.halt, 0⟩], [], []⟩

theorem syncState_mappings (d : Debugger) (kind : MappingKind) : d.syncState.mappings kind = d.mappings kind := by
  unfold syncState
  split
  · rfl
  · rfl
  · rfl

/-- A debugger in which a function has been registered. -/
theorem exists_registered (hname : name ≠ []) : ∃ d, Registered namedProgram [⟨.function, name, 0⟩] d := by
  have hinit : (aivmInit .generous namedProgram 0).any (fun vm => decide (vm.program = namedProgram)) = true := by
    decide +kernel
  obtain ⟨vm, -, hprogram⟩ := Option.any_eq_true _ _ |>.1 hinit
  rw [decide_eq_true_eq] at hprogram
  have hvm : (init vm).vm = vm := (Same.syncState _).vm
  have hempty : ∀ kind, ((init vm).mappings kind).1 = [] := by
    intro kind
    rw [init, syncState_mappings]
    cases kind with
    | function => rfl
    | node => rfl
  have hok : ((init vm).register .function name 0).2.status = .ok := by
    have hfunctions := hempty .function
    rw [mappings] at hfunctions
    simp [register, registerFunction, registerMapping, hname, instructionCount, hvm, hprogram, namedProgram, hfunctions,
      debuggerMaxSourceMappings, DebuggerStatus.reply]
  exact ⟨_, .registered (.start (by rw [hvm, hprogram]) hempty) hok⟩

theorem short_name_resolves : ∃ d, Registered namedProgram [⟨.function, [97], 0⟩] d ∧
    NamesResolve [⟨.function, [97], 0⟩] d := by
  obtain ⟨d, h⟩ := @exists_registered [97] (by simp)
  exact ⟨d, h, (namesResolve_iff h).2 (by simp [debuggerSourceNameLength])⟩

/-- A function whose name has 128 letters is registered, and not found. -/
theorem long_name_lost : ∃ d, Registered namedProgram [⟨.function, List.replicate 128 97, 0⟩] d ∧
    d.breakFunction (List.replicate 128 97) = (d, DebuggerStatus.invalid.reply) ∧
    ¬ NamesResolve [⟨.function, List.replicate 128 97, 0⟩] d := by
  obtain ⟨d, h⟩ := @exists_registered (List.replicate 128 97) (by simp)
  have hmissing : findMapping d.functionMappings (List.replicate 128 97) = none :=
    h.findMapping_long (by simp [debuggerSourceNameLength]) .function
  have hbreak : d.breakFunction (List.replicate 128 97) = (d, DebuggerStatus.invalid.reply) := by
    rw [breakFunction, breakMapping, hmissing]
  refine ⟨d, h, hbreak, fun hresolve => ?_⟩
  obtain ⟨hset, hrange⟩ := hresolve.latest .function (List.replicate 128 97) 0 (by simp [lastPc])
  rw [breakName, hbreak] at hset
  exact breakPc_valid hrange (by rw [← hset]; rfl)

end Debugger

end Aivm
