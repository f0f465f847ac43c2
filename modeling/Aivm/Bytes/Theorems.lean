import Aivm.Bytes.Assembly
import Aivm.Model.Ends

/-!
# Bytes as lists of bytes

The bytes instructions compute the operations on lists, and what they encode the loader reads back.
-/

namespace Aivm

open ByteReader VmM

variable {env : Env}

/-- What could be read of a view before is read afterwards, also after a failure. -/
theorem PushesBytes.kept {vm vm' : Vm} {below data} {o : Outcome Unit} (h : PushesBytes vm below data o)
    (ho : o.state? = some vm') {d n b} (hb : vm.bytesAt d n = some b) : vm'.bytesAt d n = some b := by
  cases o with
  | ok u vm₁ =>
      cases ho
      exact h.1.bytesAt hb
  | fail vm₁ =>
      cases ho
      exact Heap.Extends.bytesAt h hb
  | undefined => cases ho

/-- The instructions on views, as operations on the lists behind them. -/
structure BytesAsLists (env : Env) : Prop where
  slice : ∀ (vm : Vm) below d (n : UInt64) data (start length : Int64), vm.bytesAt d n.toNat = some data →
    vm.stack = below ++ [.bytes d n.toNat, .int start.toInt, .int length.toInt] →
    PushesBytes vm below ((data.drop start.toInt.toNat).take length.toInt.toNat) ((bytesSlice env).run vm)
  concat : ∀ (vm : Vm) below d e (n m : UInt64) a b, vm.bytesAt d n.toNat = some a → vm.bytesAt e m.toNat = some b →
    vm.stack = below ++ [.bytes d n.toNat, .bytes e m.toNat] → PushesBytes vm below (a ++ b) ((bytesConcat env).run vm)
  concatSlices : ∀ (vm vm₁ vm₂ : Vm) below below₂ d e (n m : UInt64) a b v (lengthA lengthB : Int64),
    vm.bytesAt d n.toNat = some a → vm.bytesAt e m.toNat = some b →
    vm.stack = below ++ [.bytes d n.toNat, .bytes e m.toNat] → (bytesConcat env).run vm = .ok () vm₁ →
    vm₁.stack = below ++ [v] → vm₁.Extends vm₂.toHeap → lengthA.toInt = a.length → lengthB.toInt = b.length →
    (vm₂.stack = below₂ ++ [v, .int 0, .int lengthA.toInt] → PushesBytes vm₂ below₂ a ((bytesSlice env).run vm₂)) ∧
      (vm₂.stack = below₂ ++ [v, .int lengthA.toInt, .int lengthB.toInt] →
        PushesBytes vm₂ below₂ b ((bytesSlice env).run vm₂))
  index : ∀ (vm : Vm) below d (n : UInt64) data (i : Int64), vm.bytesAt d n.toNat = some data →
    vm.stack = below ++ [.bytes d n.toNat, .int i.toInt] →
    (bytesAtOp env).run vm = stackPush (.int (byteOrMinusOne data i.toInt)) { vm with stack := below }
  kept : ∀ (vm vm' : Vm) below data o, PushesBytes vm below data o → o.state? = some vm' →
    ∀ d n b, vm.bytesAt d n = some b → vm'.bytesAt d n = some b

/-- The numbers that are encoded, and what the loader makes of them. -/
structure FeedsLoader (env : Env) : Prop where
  pushes : ∀ (vm : Vm) below (x : IntField), vm.stack = below ++ [.int x.operand] →
    PushesBytes vm below x.bytes ((x.encode env).run vm)
  refuses : ∀ (vm : Vm) below i, vm.stack = below ++ [.int i] → i < 0 ∨ 0xFFFFFFFF < i →
    ∃ vm', (bytesU32Le env).run vm = .fail vm' ∧ vm'.status = .error
  standsAt : ∀ (x : IntField) before after, x.StandsAt (before ++ x.bytes ++ after) before.length
  fields : ∀ bytes offset, (readU32Le bytes offset : Parse LoadFailure Nat) = readLe bytes 4 offset ∧
    (readI64Le bytes offset : Parse LoadFailure Int) = do return toI64 (← readLe bytes 8 offset)
  loads : ∀ (vm vm' : Vm) below d n (host : LoadHost) outProgram flags (code : List (Opcode × Int64)) (table : List Int64),
    vm.bytesAt d n = some [] → vm.stack = below ++ [.bytes d n] →
    assemble env (imageFields flags code table) vm = .ok () vm' → host.Grants →
    4 + code.length * 12 < 2 ^ 32 → 4 + table.length * 9 < 2 ^ 32 →
    ∃ image p, vm'.topBytes = some image ∧ loadProgram host image outProgram = .ok p ∧
      p.formatFlags = flags.toNat ∧ p.instructions = code.map (fun i => ⟨i.1, i.2.toInt⟩) ∧
      p.constants = table.map fun i => .int i.toInt

theorem concat_slices {vm vm₁ vm₂ : Vm} {below below₂ d e} {n m : Nat} {a b v} {lengthA lengthB : Int}
    (hd : vm.bytesAt d n = some a) (he : vm.bytesAt e m = some b) (hstack : vm.stack = below ++ [.bytes d n, .bytes e m])
    (h : (bytesConcat env).run vm = .ok () vm₁) (hstack₁ : vm₁.stack = below ++ [v]) (hext : vm₁.Extends vm₂.toHeap)
    (ha : lengthA = a.length) (hb : lengthB = b.length) (hA : IsI64 lengthA) (hB : IsI64 lengthB) :
    (vm₂.stack = below₂ ++ [v, .int 0, .int lengthA] → PushesBytes vm₂ below₂ a ((bytesSlice env).run vm₂)) ∧
      (vm₂.stack = below₂ ++ [v, .int lengthA, .int lengthB] → PushesBytes vm₂ below₂ b ((bytesSlice env).run vm₂)) := by
  obtain ⟨-, f, hstack', hf⟩ := (bytesConcat_pushes hd he hstack).ok h
  have hfits := bytesConcat_fits hstack h
  rw [← bytesAt_length hd, ← bytesAt_length he, ← List.length_append] at hfits
  rw [hstack₁] at hstack'
  obtain rfl : v = .bytes f (a ++ b).length := by simpa using hstack'
  have hf₂ := hext.bytesAt hf
  constructor
  · intro hstack₂
    have hslice := bytesSlice_pushes env hf₂ hfits (by decide) hA hstack₂
    simpa [ha] using hslice
  · intro hstack₂
    have hslice := bytesSlice_pushes env hf₂ hfits hA hB hstack₂
    simpa [ha, hb] using hslice

theorem bytesAsLists (env : Env) : BytesAsLists env where
  slice _ _ _ n _ start length hd hstack :=
    bytesSlice_pushes env hd n.toNat_lt ⟨start.le_toInt, start.toInt_lt⟩ ⟨length.le_toInt, length.toInt_lt⟩ hstack
  concat _ _ _ _ _ _ _ _ hd he hstack := bytesConcat_pushes hd he hstack
  concatSlices _ _ _ _ _ _ _ _ _ _ _ _ lengthA lengthB hd he hstack h hstack₁ hext ha hb :=
    concat_slices hd he hstack h hstack₁ hext ha hb ⟨lengthA.le_toInt, lengthA.toInt_lt⟩ ⟨lengthB.le_toInt, lengthB.toInt_lt⟩
  index _ _ _ _ _ _ hd hstack := bytesAtOp_run hd hstack
  kept _ _ _ _ _ h ho _ _ _ hb := h.kept ho hb

theorem feedsLoader (env : Env) : FeedsLoader env where
  pushes _ _ x hstack := x.encode_pushes hstack
  refuses vm below i hstack hi := by
    simp only [bytesU32Le, Routine.bind_run, Routine.pop, bind_run, stackPop_run hstack, if_pos hi]
    exact ⟨_, rfl, rfl⟩
  standsAt x before after := x.standsAt before after
  fields _ offset := ⟨readU32Le_eq offset, readI64Le_eq offset⟩
  loads vm vm' below d n host outProgram flags code table hd hstack h hgrants hcode htable := by
    obtain ⟨-, htop⟩ := assemble_ok hd hstack h
    obtain ⟨p, hload, hflags, hinstructions, hconstants⟩ := loadProgram_assembled hgrants outProgram hcode htable
    exact ⟨_, p, htop, hload, hflags, hinstructions, hconstants⟩

end Aivm
