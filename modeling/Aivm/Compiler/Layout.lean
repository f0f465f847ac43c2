import Aivm.Compiler.Graph
import Aivm.Compiler.Translate

/-!
# Closed programs

The compiled program of a graph: a short prologue, and behind it the functions that the entry function calls, each one
once. A closed program has every jump, every call and every constant in place.
-/

namespace Aivm

open StructuredCode

/-- The code of a function, and where it starts. -/
structure FnCode where
  index : Nat
  entry : Nat
  code : SourceCode

def FnCode.stop (F : FnCode) : Nat := F.entry + F.code.size

/-- The slots of a function at its place. -/
def FnCode.slots (F : FnCode) : List (Slot BasicOp) := F.code.flatten (F.entry, F.stop) F.entry

/-- The functions stand one behind the other from `lo` to `hi`. -/
def Chain : Nat → List FnCode → Nat → Prop
  | lo, [], hi => lo = hi
  | lo, F :: Fs, hi => F.entry = lo ∧ Chain F.stop Fs hi

section Functions

variable (strtod : Text → Option UInt64) (fns : List FnDef)

/-- Function `f` of the table stands for the code `c`. -/
def Translates (f : Nat) (c : SourceCode) : Prop :=
  ∃ fn locals, fns[f]? = some fn ∧ genFn (fns.map FnDef.sig) strtod fn.paramsRaw fn.body [] = some (c, (), locals)

/-- The functions that are called from `start` on. -/
inductive Reached (start : Nat) : Nat → Prop
  | start : Reached start start
  | call {f g c} (hf : Reached start f) (hc : Translates strtod fns f c) (hg : .call g ∈ c.basics) : Reached start g

/-- A number literal that is compiled. -/
def NumberReached (start : Nat) (bits : UInt64) : Prop :=
  ∃ f c, Reached strtod fns start f ∧ Translates strtod fns f c ∧ .const (.number bits) ∈ c.basics

end Functions

/-- What stands in a closed program for a symbolic instruction: a call leads to the function, a constant is the one that
the source denotes. -/
def InPlace (program : Draft) (L : List FnCode) (i : Nat) : Slot BasicOp → Prop
  | .basic (.op opcode operand) => program.instructions[i]? = some ⟨opcode, operand⟩
  | .basic (.const c) =>
      ∃ k, program.instructions[i]? = some ⟨.const, Operand.ofNat k⟩ ∧ program.constants[k]? = some c.literal
  | .basic (.call f) => ∃ F ∈ L, F.index = f ∧ program.instructions[i]? = some ⟨.call, Operand.ofNat F.entry⟩
  | .jump t => program.instructions[i]? = some ⟨.jump, Operand.ofNat t⟩
  | .skipUnless t => program.instructions[i]? = some ⟨.jumpIfFalse, Operand.ofNat t⟩

/-- The prologue of a program: an entry function with parameters gets the arguments of the process. -/
def prologue (fns : List FnDef) (start : Nat) : List (Slot BasicOp) :=
  let call := [.basic (.call start), .basic (.op .halt (.ofNat 0))]
  if (fns[start]?.bind fun fn => paramCount fn.paramsRaw) = some 0 then call
  else .basic (.const (.string (.ofBuffer (ascii "sys.process.args")))) :: .basic (.op .callSys (.ofNat 0)) :: call

/-- A compiled program in which nothing is left open. -/
structure CodeClosed (strtod : Text → Option UInt64) (fns : List FnDef) (start : Nat) (program : Draft) (L : List FnCode) :
    Prop where
  prologue : Stands (InPlace program L) 0 (prologue fns start)
  covered : Chain (Aivm.prologue fns start).length L program.instructions.length
  disjoint : L.Pairwise fun F G => F.stop ≤ G.entry
  once : (L.map FnCode.index).Nodup
  translated : ∀ F ∈ L, Translates strtod fns F.index F.code
  start : start ∈ L.map FnCode.index
  called : ∀ F ∈ L, ∀ f, .call f ∈ F.code.basics → f ∈ L.map FnCode.index
  inPlace : ∀ F ∈ L, Stands (InPlace program L) F.entry F.slots
  jumps : ∀ F ∈ L, ∀ (i : Nat) opcode x, F.entry ≤ i → i < F.stop → program.instructions[i]? = some ⟨opcode, x⟩ →
    opcode = .jump ∨ opcode = .jumpIfFalse → (F.entry : Int) ≤ x ∧ x ≤ F.stop

end Aivm
