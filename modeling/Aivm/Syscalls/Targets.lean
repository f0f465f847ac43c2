import Aivm.Compiler.Text
import Aivm.Strings.CodePoints

/-!
# Targets of system calls

What becomes of the operands of a call follows from what they say and not from where their strings lie, except where the
target is taken from the end of the only argument: if this lies in the arena the target is read as empty.
-/

namespace Aivm

open VmM

variable {env : Env} {vm vm' : Vm} {below : List Value}

/-! ## Targets at the end of a text -/

/-- From a position on a text is a target, and from no later one. -/
structure LastTarget (text : List Byte) (i : Nat) : Prop where
  target : isWholeTarget (text.drop i) = true
  last : ∀ j, i < j → isWholeTarget (text.drop j) = false

theorem find_last {p : Nat → Bool} : ∀ {n i},
    (List.range n).reverse.find? p = some i ↔ i < n ∧ p i = true ∧ ∀ j, i < j → j < n → p j = false := by
  intro n
  induction n with
  | zero => simp
  | succ n ih =>
      intro i
      rw [List.range_succ, List.reverse_append, List.reverse_singleton, List.singleton_append, List.find?_cons]
      cases hn : p n with
      | true =>
          simp only [Option.some.injEq]
          constructor
          · rintro rfl
            exact ⟨Nat.lt_succ_self _, hn, fun j hj hj' => by omega⟩
          · rintro ⟨hi, -, hlast⟩
            by_contra hne
            have hbehind := hlast n (by omega) (Nat.lt_succ_self n)
            simp [hn] at hbehind
      | false =>
          simp only [ih]
          constructor
          · rintro ⟨hi, hp, hlast⟩
            refine ⟨by omega, hp, fun j hj hj' => ?_⟩
            by_cases hjn : j = n
            · rw [hjn, hn]
            · exact hlast j hj (by omega)
          · rintro ⟨hi, hp, hlast⟩
            have hne : i ≠ n := by
              rintro rfl
              simp [hn] at hp
            exact ⟨by omega, hp, fun j hj hj' => hlast j hj (by omega)⟩

theorem isWholeTarget_nil : isWholeTarget [] = false := by decide

/-- The search finds the last target. -/
theorem findSyscallSuffixTarget_eq_some {text : List Byte} {i : Nat} :
    findSyscallSuffixTarget text = some i ↔ LastTarget text i := by
  rw [findSyscallSuffixTarget, find_last]
  constructor
  · rintro ⟨-, htarget, hlast⟩
    refine ⟨htarget, fun j hj => ?_⟩
    by_cases hlength : j < text.length
    · exact hlast j hj hlength
    · rw [List.drop_of_length_le (by omega), isWholeTarget_nil]
  · intro h
    refine ⟨?_, h.target, fun j hj _ => h.last j hj⟩
    by_contra hlength
    have htarget := h.target
    simp [List.drop_of_length_le (Nat.le_of_not_lt hlength), isWholeTarget_nil] at htarget

/-! ## Operands -/

/-- What an operand says: the text of a string, or a value that is no string. -/
inductive Shown where
  | text (text : CText)
  | plain (v : Value)

/-- A value says this, wherever the machine keeps its text. -/
def Vm.Shows (vm : Vm) (v : Value) : Shown → Prop
  | .text text => ∃ p, v = .string p ∧ vm.cstr p = some text.1
  | .plain w => v = w ∧ w.stringPtr = none

/-- The operands of a call are on the stack, the target below its arguments. -/
def Vm.HasOperands (vm : Vm) (target : Shown) (args : List Shown) : Prop :=
  ∃ below v vs, vm.stack = below ++ [v] ++ vs ∧ vm.Shows v target ∧ List.Forall₂ vm.Shows vs args

/-- What becomes of the operands of a call. -/
inductive CallOutcome where
  | dispatched (target : List Byte) (args : List Shown)
  | raised (f : Fault)

/-- An operation failed for want of memory: it reports that, or nothing. -/
def Vm.RanShort (vm vm' : Vm) : Prop := vm'.error = .memoryPressure ∨ vm'.status = vm.status ∧ vm'.error = vm.error

/-- An operation on the operands comes out like this, if there is memory for it. -/
def CallOutcome.Describes (vm : Vm) (r : Outcome Syscall) : CallOutcome → Prop
  | .dispatched target args =>
      (∃ s vm', r = .ok s vm' ∧ s.target = target ∧ List.Forall₂ vm'.Shows s.args args) ∨
        ∃ vm', r = .fail vm' ∧ vm.RanShort vm'
  | .raised f => ∃ vm', r = .fail (setVmError f vm')

/-- The target is no target and is taken from the end of the only argument. -/
def TakenFromArgument (target : Shown) (args : List Shown) (raw text : CText) (i : Nat) : Prop :=
  target = .text raw ∧ args = [.text text] ∧ isSyscallTargetString raw.1 = false ∧ ascii "sys" <+: raw.1 ∧
    LastTarget text.1 i

/-- The outcome is the same wherever the strings lie. If the target is taken from the end of an argument, it is all of
that end, and the argument is what was the target followed by the rest. -/
def StorageFree (target : Shown) (args : List Shown) : Prop :=
  ∀ ip, ∃ outcome : CallOutcome,
    (∀ env vm, Midway env vm → vm.instructionPointer = ip → vm.HasOperands target args →
      outcome.Describes vm ((popSyscall env args.length).run vm)) ∧
    ∀ raw text i, TakenFromArgument target args raw text i → ∃ merged : CText, merged.1 = raw.1 ++ text.1.take i ∧
      outcome = .dispatched (text.1.drop i) [.text merged]

/-! ## Popping -/

theorem Vm.Shows.pop {v : Value} {shown : Shown} (h : vm.Shows v shown) (stack : List Value) :
    Vm.Shows { vm with stack := stack } v shown := by
  cases shown with
  | text text => exact h
  | plain w => exact h

theorem popArgs_run {vs : List Value} : ∀ {vm : Vm} {args}, vm.stack = below ++ vs →
    (popArgs env vs.length args).run vm = .ok (vs ++ args) { vm with stack := below } := by
  induction vs using List.reverseRecOn with
  | nil =>
      intro vm args hstack
      cases vm
      simp only [List.append_nil] at hstack
      simp [popArgs, hstack]
  | append_singleton vs v ih =>
      intro vm args hstack
      have hpop : stackPop vm = .ok v { vm with stack := below ++ vs } := stackPop_run (by simp [hstack])
      have hrest := @ih { vm with stack := below ++ vs } (v :: args) rfl
      simp only [List.length_append, List.length_singleton, popArgs, Routine.bind_run, Routine.pop, bind_run, hpop, hrest]
      simp

/-- The fault of a target that is no string. -/
def plainTarget (v : Value) (ip : Nat) : Fault :=
  ⟨.typeMismatch, s!"CALL_SYS target must be string. got={v.typeName} " ++ s!"ip={ip}"⟩

theorem popSyscall_plain {v : Value} {vs : List Value} (hcount : vs.length ≤ maxSyscallArgs)
    (hstack : vm.stack = below ++ [v] ++ vs) (hv : v.stringPtr = none) :
    (popSyscall env vs.length).run vm =
      .fail (setVmError (plainTarget v vm.instructionPointer) { vm with stack := below }) := by
  have hargs := @popArgs_run env (below ++ [v]) vs vm [] hstack
  have hpop : stackPop { vm with stack := below ++ [v] } = .ok v { vm with stack := below } := stackPop_run rfl
  rw [popSyscall, if_neg (by omega)]
  simp only [Routine.bind_run, bind_run, hargs, Routine.pop, hpop, Routine.look, VmM.look, hv, Routine.throw, throw_run]
  rfl

theorem popSyscall_text {vs : List Value} {p : StrPtr} {raw : List Byte}
    (hcount : vs.length ≤ maxSyscallArgs) (hstack : vm.stack = below ++ [.string p] ++ vs) (hp : vm.cstr p = some raw) :
    (popSyscall env vs.length).run vm =
      if isSyscallTargetString raw then .ok ⟨raw, vs⟩ { vm with stack := below }
      else (recoverTarget env p raw vs).run { vm with stack := below } := by
  have hargs := @popArgs_run env (below ++ [.string p]) vs vm [] hstack
  have hpop : stackPop { vm with stack := below ++ [.string p] } = .ok (.string p) { vm with stack := below } :=
    stackPop_run rfl
  have hp' : Heap.cstr { vm with stack := below }.toHeap p = some raw := hp
  rw [popSyscall, if_neg (by omega)]
  simp only [Routine.bind_run, bind_run, hargs, Routine.pop, hpop, Routine.look, VmM.look, stringPtr_of_cstr hp,
    readText_run hp', List.append_nil]
  split
  · rfl
  · rfl

/-! ## Outcomes -/

theorem throwSyscall_run {α : Type} (text : String) :
    (throwSyscall env text : Routine env α).run vm = .fail (setVmError (syscallFault text) vm) := rfl

/-- Where nothing can be taken from an argument, the target is not found. -/
theorem recoverTarget_notFound {vs : List Value} {args : List Shown} {p : StrPtr} {raw : CText}
    (hargs : List.Forall₂ vm.Shows vs args) (hraw : isSyscallTargetString raw.1 = false)
    (hnone : ¬ ∃ raw' text i, TakenFromArgument (.text raw) args raw' text i) :
    (recoverTarget env p raw.1 vs).run vm =
      .fail (setVmError (syscallFault (targetNotFound raw.1 args.length)) vm) := by
  cases hargs with
  | nil => rfl
  | @cons v shown vs args hv hrest =>
      cases hrest with
      | cons _ hmore =>
          rw [recoverTarget]
          · simp [throwSyscall_run, hmore.length_eq]
          · simp
      | nil =>
          cases shown with
          | plain w =>
              obtain ⟨rfl, hplain⟩ := hv
              simp only [recoverTarget, hplain]
              rfl
          | text text =>
              obtain ⟨q, rfl, hq⟩ := hv
              simp only [recoverTarget, stringPtr_of_cstr hq, Routine.bind_run, bind_run, readText_run hq]
              cases hsys : (ascii "sys").isPrefixOf raw.1 with
              | false => simp [throwSyscall_run]
              | true =>
                  cases hfind : findSyscallSuffixTarget text.1 with
                  | none => simp [throwSyscall_run]
                  | some i =>
                      exfalso
                      apply hnone
                      exact ⟨raw, text, i, rfl, rfl, hraw, List.isPrefixOf_iff_prefix.1 hsys,
                        findSyscallSuffixTarget_eq_some.1 hfind⟩

/-- What becomes of the operands where the target is not taken from an argument. -/
def plainOutcome (ip : Nat) (target : Shown) (args : List Shown) : CallOutcome :=
  if maxSyscallArgs < args.length then .raised ⟨.invalidProgram, "Invalid call argument count."⟩
  else
    match target with
    | .plain v => .raised (plainTarget v ip)
    | .text raw =>
        if isSyscallTargetString raw.1 then .dispatched raw.1 args
        else .raised (syscallFault (targetNotFound raw.1 args.length))

theorem plainOutcome_describes {target : Shown} {args : List Shown}
    (hnone : ¬ ∃ raw text i, TakenFromArgument target args raw text i) (h : vm.HasOperands target args) :
    (plainOutcome vm.instructionPointer target args).Describes vm ((popSyscall env args.length).run vm) := by
  obtain ⟨below, v, vs, hstack, hv, hvs⟩ := h
  unfold plainOutcome
  rw [← hvs.length_eq]
  by_cases hcount : maxSyscallArgs < vs.length
  · rw [if_pos hcount, popSyscall, if_pos hcount]
    exact ⟨vm, rfl⟩
  · have hfits : vs.length ≤ maxSyscallArgs := by omega
    have hbelow : List.Forall₂ (Vm.Shows { vm with stack := below }) vs args := hvs.imp fun _ _ hw => hw.pop below
    rw [if_neg hcount]
    cases target with
    | plain w =>
        obtain ⟨rfl, hplain⟩ := hv
        rw [popSyscall_plain hfits hstack hplain]
        exact ⟨_, rfl⟩
    | text raw =>
        obtain ⟨p, rfl, hp⟩ := hv
        rw [popSyscall_text hfits hstack hp]
        cases hraw : isSyscallTargetString raw.1 with
        | true =>
            simp only [hraw, if_true]
            exact Or.inl ⟨_, _, rfl, rfl, hbelow⟩
        | false =>
            simp only [hraw, Bool.false_eq_true, if_false]
            rw [recoverTarget_notFound hbelow hraw hnone, hvs.length_eq]
            exact ⟨_, rfl⟩

/-! ## An argument in the arena -/

theorem cstr_shown (text : CText) : vm.cstr (.lit text.1) = some text.1 := by
  simp only [Heap.cstr, Option.some.injEq, List.takeWhile_eq_self_iff]
  intro b hb
  simpa using fun h0 : b = 0 => text.2 (h0 ▸ hb)

/-- A text can be in the arena, with room left. -/
theorem exists_stored (ip : Nat) (text : CText) (room : Nat) : ∃ vm q, Midway .generous vm ∧
    vm.instructionPointer = ip ∧ vm.Stored text.1 q ∧ vm.stringArena.length + room ≤ vm.stringArenaLimit := by
  obtain ⟨vm, hm, -, harena, -⟩ := exists_midway [] (text.1.length + 1)
  have hread : vm.cstr (.lit text.1) = some text.1 := cstr_shown text
  obtain ⟨q, vm₁, hcopy, -, -⟩ := copyStringToArena_room .generous hread harena
  have hstored := (copyStringToArena_copied hm.textsIndexed.sound hread hcopy).1
  have hm₁ : Midway .generous vm₁ := .done (Routine.copyString (.lit text.1)) hm hcopy
  exact ⟨{ vm₁ with instructionPointer := ip, stringArenaLimit := vm₁.stringArena.length + room }, q,
    .elsewhere hm₁ ⟨rfl, rfl, rfl, rfl, rfl⟩, rfl, hstored, Nat.le_refl _⟩

theorem snapshot_run (hallowed : env.allocates vm "string snapshot" = true) (p : StrPtr) :
    (snapshot env p).run vm = .ok () vm := by
  simp only [snapshot, Routine.look, VmM.look, Routine.bind_run, bind_run]
  split
  · simp [Routine.claim, claim, hallowed]
  · rfl

/-- An argument in the arena gives an empty target. -/
theorem recoverTarget_stored {raw text : List Byte} {i : Nat} {p q : StrPtr} (hm : Midway .generous vm)
    (hq : vm.Stored text q) (hsys : ascii "sys" <+: raw) (hlast : LastTarget text i)
    (hroom : vm.stringArena.length + ((raw ++ text.take i).length + 1) + 1 ≤ vm.stringArenaLimit) :
    ∃ s vm', (recoverTarget .generous p raw [.string q]).run vm = .ok s vm' ∧ s.target = [] := by
  have hsnapshot : ∀ r, (snapshot .generous r).run vm = .ok () vm := snapshot_run rfl
  have halloc := stringArenaAlloc_room .generous (Nat.le_of_succ_le hroom)
  have hwritten := Midway.done (Routine.allocString (raw ++ text.take i)) hm halloc
  have hroom' : (writeString (raw ++ text.take i) vm).stringArena.length + (0 + 1) ≤ vm.stringArenaLimit := by
    simp only [writeString, List.length_append, List.length_singleton] at hroom ⊢
    omega
  obtain ⟨r, vm', hcopy, -, -⟩ := @copyStringToArena_room (writeString (raw ++ text.take i) vm) (.lit []) [] .generous rfl
    hroom'
  have hempty := copyStringToArena_reads hwritten.textsIndexed.sound rfl hcopy
  have hrest : (if vm.seen.pointerInStringArena q then [] else text.drop i) = [] := if_pos hq.1
  refine ⟨⟨[], [.string (.arena vm.stringBlock vm.stringArena.length)]⟩, vm', ?_, rfl⟩
  simp only [recoverTarget, stringPtr_of_cstr hq.2, Routine.bind_run, bind_run, readText_run hq.2,
    List.isPrefixOf_iff_prefix.2 hsys, if_true, findSyscallSuffixTarget_eq_some.2 hlast, hsnapshot, Routine.look, VmM.look,
    hrest, Routine.allocString, halloc, Routine.copyString, hcopy, readText_run hempty]
  rfl

/-! ## All operands -/

theorem not_storageFree {target : Shown} {args : List Shown} {raw text : CText} {i : Nat}
    (h : TakenFromArgument target args raw text i) : ¬ StorageFree target args := by
  intro hfree
  obtain ⟨outcome, hdescribes, hwhole⟩ := hfree 0
  obtain ⟨merged, -, rfl⟩ := hwhole raw text i h
  obtain ⟨rfl, rfl, hraw, hsys, hlast⟩ := h
  obtain ⟨vm, q, hm, hip, hq, hroom⟩ := exists_stored 0 text ((raw.1 ++ text.1.take i).length + 1 + 1)
  have hm' : Midway .generous { vm with stack := [.string (.lit raw.1), .string q] } :=
    .elsewhere hm ⟨rfl, rfl, rfl, rfl, rfl⟩
  have hpopped : Midway .generous { vm with stack := [] } := .elsewhere hm ⟨rfl, rfl, rfl, rfl, rfl⟩
  have hoperands : Vm.HasOperands { vm with stack := [.string (.lit raw.1), .string q] } (.text raw) [.text text] :=
    ⟨[], .string (.lit raw.1), [.string q], rfl, ⟨_, rfl, cstr_shown raw⟩, .cons ⟨q, rfl, hq.2⟩ .nil⟩
  have hmade := hdescribes .generous _ hm' hip hoperands
  have hrun := @popSyscall_text .generous { vm with stack := [.string (.lit raw.1), .string q] } [] [.string q] (.lit raw.1)
    raw.1 (by simp [maxSyscallArgs]) rfl (cstr_shown raw)
  simp only [hraw, Bool.false_eq_true, if_false, List.length_singleton] at hrun
  obtain ⟨s, vm', htaken, hempty⟩ := @recoverTarget_stored { vm with stack := [] } raw.1 text.1 i (.lit raw.1) q hpopped hq
    hsys hlast hroom
  rw [List.length_singleton, hrun, htaken] at hmade
  obtain ⟨s', _, hsame, htarget, -⟩ | ⟨_, hfail, -⟩ := hmade
  · cases hsame
    have hnil : isWholeTarget [] = true := by
      rw [← hempty, htarget]
      exact hlast.target
    simp [isWholeTarget_nil] at hnil
  · cases hfail

/-- What becomes of the operands of a call does not depend on where strings lie if and only if the target is not taken
from the end of the only argument. -/
theorem storageFree_iff (target : Shown) (args : List Shown) :
    StorageFree target args ↔ ¬ ∃ raw text i, TakenFromArgument target args raw text i := by
  constructor
  · rintro hfree ⟨raw, text, i, h⟩
    exact not_storageFree h hfree
  · intro hnone ip
    refine ⟨plainOutcome ip target args, ?_, fun raw text i h => absurd ⟨raw, text, i, h⟩ hnone⟩
    intro env vm _ hip hoperands
    rw [← hip]
    exact plainOutcome_describes hnone hoperands

/-- Calls a target at the end of a constant. -/
def constantTarget : Program :=
  ⟨[⟨.const, 0⟩, ⟨.const, 1⟩, ⟨.callSys, 1⟩], [.string (litPtr "sys"), .string (litPtr "ab sys.none")], []⟩

/-- Calls the same target at the end of a string that it has built. -/
def builtTarget : Program :=
  ⟨[⟨.const, 0⟩, ⟨.const, 1⟩, ⟨.const, 2⟩, ⟨.strConcat, 0⟩, ⟨.callSys, 1⟩],
    [.string (litPtr "sys"), .string (litPtr "ab "), .string (litPtr "sys.none")], []⟩

/-- A built string loses the target at its end. -/
theorem built_target_lost :
    ¬ StorageFree (.text ⟨ascii "sys", by decide⟩) [.text ⟨ascii "ab sys.none", by decide⟩] ∧
    ((aivmInit .generous constantTarget 0).bind (Trails.iterate (step .generous 0) 3)).map Vm.errorDetail =
      some "AIVMS004/AIVMC001: Syscall target was not found. target=sys.none" ∧
    ((aivmInit .generous builtTarget 0).bind (Trails.iterate (step .generous 0) 5)).map Vm.errorDetail =
      some "AIVMS004/AIVMC001: Syscall target was not found. target=" := by
  have hlast : LastTarget (ascii "ab sys.none") 3 := findSyscallSuffixTarget_eq_some.1 (by decide)
  exact ⟨not_storageFree ⟨rfl, rfl, by decide, by decide, hlast⟩, by decide +kernel, by decide +kernel⟩

end Aivm
