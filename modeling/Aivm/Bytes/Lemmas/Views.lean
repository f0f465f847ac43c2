import Aivm.Machine.Lemmas.Text
import Aivm.Workers.Lemmas.Settled

/-!
# What the bytes instructions compute

A bytes instruction pushes a view of the bytes that the lists behind its operands give, or it fails; what any view read
before, it reads afterwards.
-/

namespace Aivm

open ByteReader VmM

variable {env : Env} {vm vm' : Vm} {d e : BytesPtr} {n m : Nat} {data : List Byte} {below : List Value}

/-! ## Allocation -/

/-- The stores and the stack are those of the other machine. -/
def Vm.SameStore (vm vm' : Vm) : Prop := vm'.toHeap = vm.toHeap ∧ vm'.stack = vm.stack

theorem Vm.SameStore.trans {a b c : Vm} (h : a.SameStore b) (h' : b.SameStore c) : a.SameStore c :=
  ⟨h'.1.trans h.1, h'.2.trans h.2⟩

/-- The host grants memory or refuses it. -/
theorem admitHostMemoryGrowth_cases (env : Env) (growth : Nat) (vm : Vm) : ∃ vm', vm.SameStore vm' ∧
    (admitHostMemoryGrowth env growth vm = .ok () vm' ∨ admitHostMemoryGrowth env growth vm = .fail vm') := by
  have hsame : vm.SameStore (askHostMemory env growth vm).2 := by
    rw [askHostMemory_grown]
    exact ⟨rfl, rfl⟩
  unfold admitHostMemoryGrowth
  split
  · split
    · rename_i vm₁ h
      rw [h] at hsame
      exact ⟨vm₁, hsame, .inl rfl⟩
    · rename_i vm₁ h
      rw [h] at hsame
      refine ⟨_, ?_, .inr rfl⟩
      exact hsame
  · exact ⟨vm, ⟨rfl, rfl⟩, .inl rfl⟩

theorem growBytesArenaLimit_cases (env : Env) (needed fuel : Nat) : ∀ vm, ∃ vm', vm.SameStore vm' ∧
    (growBytesArenaLimit env needed fuel vm = .ok () vm' ∨ growBytesArenaLimit env needed fuel vm = .fail vm') := by
  induction fuel with
  | zero =>
      intro vm
      exact ⟨vm, ⟨rfl, rfl⟩, .inl rfl⟩
  | succ fuel ih =>
      intro vm
      simp only [growBytesArenaLimit, bind_run, get_run]
      split
      · obtain ⟨vm₁, hsame, h | h⟩ := admitHostMemoryGrowth_cases env
          (arenaGrowLimit vm.bytesArenaLimit bytesArenaGrowthStep vm.bytesArenaCapacity - vm.bytesArenaLimit) vm
        · simp only [bind_run, h, modify_run]
          generalize arenaGrowLimit vm.bytesArenaLimit bytesArenaGrowthStep vm.bytesArenaCapacity = next
          obtain ⟨vm₂, hsame₂, h₂⟩ := ih { vm₁ with bytesArenaLimit := next }
          exact ⟨vm₂, hsame.trans hsame₂, h₂⟩
        · simp only [bind_run, h]
          exact ⟨vm₁, hsame, .inr rfl⟩
      · exact ⟨vm, ⟨rfl, rfl⟩, .inl rfl⟩

/-- An allocation extends the arena, or it fails and leaves the stores as they are. -/
theorem bytesArenaAlloc_cases (env : Env) (data : List Byte) (vm : Vm) :
    (∃ d vm', bytesArenaAlloc env data vm = .ok d vm' ∧ vm.Extends vm'.toHeap ∧ vm'.stack = vm.stack ∧
      vm'.bytesAt d data.length = some data) ∨
      ∃ vm', bytesArenaAlloc env data vm = .fail vm' ∧ vm.SameStore vm' := by
  have hcases : (∃ d vm', bytesArenaAlloc env data vm = .ok d vm' ∧ vm'.stack = vm.stack) ∨
      ∃ vm', bytesArenaAlloc env data vm = .fail vm' ∧ vm.SameStore vm' := by
    obtain ⟨vm₁, hsame, h | h⟩ := growBytesArenaLimit_cases env (vm.bytesArena.length + data.length)
      (vm.bytesArenaCapacity - vm.bytesArenaLimit) vm
    · simp only [bytesArenaAlloc, bind_run, get_run, VmM.onFail, h]
      split
      · exact .inr ⟨_, rfl, hsame⟩
      · exact .inl ⟨_, _, rfl, hsame.2⟩
    · simp only [bytesArenaAlloc, bind_run, get_run, VmM.onFail, h]
      exact .inr ⟨_, rfl, hsame⟩
  rcases hcases with ⟨d, vm', h, hstack⟩ | hfail
  · obtain ⟨hgrown, hbytes, -, -⟩ := bytesArenaAlloc_ok h
    exact .inl ⟨d, vm', h, hgrown.heap, hstack, hbytes⟩
  · exact .inr hfail

/-! ## Results -/

/-- The outcome pushes a view of `data`, or it is a failure. What could be read before is there afterwards. -/
def PushesBytes (vm : Vm) (below : List Value) (data : List Byte) : Outcome Unit → Prop
  | .ok _ vm' => vm.Extends vm'.toHeap ∧
      ∃ d, vm'.stack = below ++ [.bytes d data.length] ∧ vm'.bytesAt d data.length = some data
  | .fail vm' => vm.Extends vm'.toHeap
  | .undefined => False

theorem PushesBytes.ok {o : Outcome Unit} (h : PushesBytes vm below data o) (ho : o = .ok () vm') :
    vm.Extends vm'.toHeap ∧ ∃ d, vm'.stack = below ++ [.bytes d data.length] ∧
      vm'.bytesAt d data.length = some data := by
  rw [ho] at h
  exact h

theorem stackPush_cases (v : Value) (vm : Vm) :
    (∃ vm', stackPush v vm = .ok () vm' ∧ vm'.stack = vm.stack ++ [v] ∧ vm'.toHeap = vm.toHeap) ∨
      ∃ vm', stackPush v vm = .fail vm' ∧ vm'.toHeap = vm.toHeap := by
  unfold stackPush
  simp only
  split
  · exact .inl ⟨_, rfl, rfl, rfl⟩
  · exact .inr ⟨_, rfl, rfl⟩

theorem pushBytesCopy_pushes (env : Env) (data : List Byte) (vm : Vm) :
    PushesBytes vm vm.stack data ((pushBytesCopy env data).run vm) := by
  simp only [pushBytesCopy, Routine.bind_run, Routine.allocBytes, Routine.push, bind_run]
  rcases bytesArenaAlloc_cases env data vm with ⟨d, vm₁, h, hextends, hstack, hbytes⟩ | ⟨vm₁, h, hsame⟩
  · rw [h]
    rcases stackPush_cases (.bytes d data.length) vm₁ with ⟨vm₂, h₂, hstack₂, hheap⟩ | ⟨vm₂, h₂, hheap⟩
    · simp only [h₂]
      refine ⟨by rwa [hheap], d, by rw [hstack₂, hstack], ?_⟩
      rw [hheap]
      exact hbytes
    · simp only [h₂]
      show vm.Extends vm₂.toHeap
      rwa [hheap]
  · rw [h]
    show vm.Extends vm₁.toHeap
    rw [hsame.1]
    exact .refl _

theorem readBytesView_run (h : vm.bytesAt d n = some data) : (readBytesView env d n).run vm = .ok data vm := by
  have hseen : vm.seen.bytesAt d n = some data := h
  simp [readBytesView, Routine.look, VmM.look, Routine.deref, VmM.deref, bind_run, hseen]

theorem bytesAt_null (h : vm.bytesAt d n = some data) (hd : d = .null) : data = [] := by
  subst hd
  unfold Heap.bytesAt at h
  split at h <;> simp_all

/-! ## Parts of a view -/

/-- The sum of start and length does not wrap around to a place inside of the view. -/
theorem sliceBounds_eq {start length : Int} (hn : n < 2 ^ 64) (hs : IsI64 start) (hl : IsI64 length) :
    sliceBounds n start length = (min start.toNat n, min (min start.toNat n + length.toNat) n) := by
  unfold IsI64 at hs hl
  have hfirst : (if start ≤ 0 then 0 else if n ≤ start.toNat then n else start.toNat) = min start.toNat n := by
    split_ifs <;> omega
  have hcount : (if length ≤ 0 then 0 else length.toNat) = length.toNat := by
    split_ifs <;> omega
  have hle : min start.toNat n ≤ n := Nat.min_le_right _ _
  simp only [sliceBounds, hfirst, hcount, Prod.mk.injEq, true_and]
  generalize min start.toNat n = first at hle
  by_cases hwrap : first + length.toNat < 2 ^ 64
  · rw [Nat.mod_eq_of_lt hwrap]
    split_ifs <;> omega
  · have hrest : (first + length.toNat) % 2 ^ 64 = first + length.toNat - 2 ^ 64 := by omega
    rw [hrest, if_pos (by omega)]
    omega

theorem slice_bounds (data : List Byte) (start length : Nat) :
    slice data (min start data.length) (min (min start data.length + length) data.length - min start data.length) =
      (data.drop start).take length := by
  unfold slice
  rcases Nat.le_total start data.length with h | h
  · rw [Nat.min_eq_left h, List.take_eq_take_iff, List.length_drop]
    omega
  · rw [Nat.min_eq_right h, List.drop_of_length_le (Nat.le_refl _), List.drop_of_length_le h, List.take_nil, List.take_nil]

theorem bytesSlice_pushes (env : Env) {start length : Int} (hd : vm.bytesAt d n = some data) (hn : n < 2 ^ 64) (hs : IsI64 start)
    (hl : IsI64 length) (hstack : vm.stack = below ++ [.bytes d n, .int start, .int length]) :
    PushesBytes vm below ((data.drop start.toNat).take length.toNat) ((bytesSlice env).run vm) := by
  obtain ⟨h₁, h₂, h₃⟩ := pop_three hstack
  have hlength : data.length = n := bytesAt_length hd
  have hd' : Heap.bytesAt { vm with stack := below }.toHeap d n = some data := hd
  simp only [bytesSlice, Routine.bind_run, Routine.pop, bind_run, h₁, h₂, h₃, sliceBounds_eq hn hs hl]
  rw [← slice_bounds, hlength]
  split
  · rename_i hnone
    have hnil : slice data (min start.toNat n) (min (min start.toNat n + length.toNat) n - min start.toNat n) = [] := by
      rcases hnone with hle | hnull
      · rw [Nat.sub_eq_zero_of_le hle, slice, List.take_zero]
      · rw [bytesAt_null hd hnull, slice, List.drop_nil, List.take_nil]
    rw [hnil]
    exact pushBytesCopy_pushes env [] { vm with stack := below }
  · simp only [Routine.bind_run, bind_run, readBytesView_run hd']
    exact pushBytesCopy_pushes env _ { vm with stack := below }

/-! ## Two views in a row -/

theorem bytesConcat_pushes {data' : List Byte} (hd : vm.bytesAt d n = some data) (he : vm.bytesAt e m = some data')
    (hstack : vm.stack = below ++ [.bytes d n, .bytes e m]) :
    PushesBytes vm below (data ++ data') ((bytesConcat env).run vm) := by
  obtain ⟨h₁, h₂⟩ := pop_two hstack
  have hd' : Heap.bytesAt { vm with stack := below }.toHeap d n = some data := hd
  have he' : Heap.bytesAt { vm with stack := below }.toHeap e m = some data' := he
  have hn : ¬ (0 < n ∧ d = .null) := by
    rintro ⟨hpos, hnull⟩
    rw [← bytesAt_length hd, bytesAt_null hd hnull] at hpos
    simp at hpos
  have hm : ¬ (0 < m ∧ e = .null) := by
    rintro ⟨hpos, hnull⟩
    rw [← bytesAt_length he, bytesAt_null he hnull] at hpos
    simp at hpos
  simp only [bytesConcat, Routine.bind_run, Routine.pop, bind_run, h₁, h₂, if_neg hn, if_neg hm]
  split
  · exact .refl vm.toHeap
  · simp only [Routine.bind_run, bind_run, readBytesView_run hd', readBytesView_run he']
    exact pushBytesCopy_pushes env _ { vm with stack := below }

/-- A length that does not fit `size_t` is refused. -/
theorem bytesConcat_fits {u} (hstack : vm.stack = below ++ [.bytes d n, .bytes e m])
    (h : (bytesConcat env).run vm = .ok u vm') : n + m < 2 ^ 64 := by
  obtain ⟨h₁, h₂⟩ := pop_two hstack
  simp only [bytesConcat, Routine.bind_run, Routine.pop, bind_run, h₁, h₂] at h
  split at h
  · cases h
  · omega

/-! ## Single bytes -/

/-- The byte at an index, or -1 outside. -/
def byteOrMinusOne (data : List Byte) (i : Int) : Int :=
  if i < 0 then -1 else (data[i.toNat]?.map fun b => (b.toNat : Int)).getD (-1)

theorem bytesAtOp_run {i : Int} (hd : vm.bytesAt d n = some data) (hstack : vm.stack = below ++ [.bytes d n, .int i]) :
    (bytesAtOp env).run vm = stackPush (.int (byteOrMinusOne data i)) { vm with stack := below } := by
  obtain ⟨h₁, h₂⟩ := pop_two hstack
  have hlength : data.length = n := bytesAt_length hd
  have hd' : Heap.bytesAt { vm with stack := below }.toHeap d n = some data := hd
  simp only [bytesAtOp, Routine.bind_run, Routine.pop, bind_run, h₁, h₂]
  split
  · rename_i houtside
    have hnone : byteOrMinusOne data i = -1 := by
      unfold byteOrMinusOne
      rcases houtside with hneg | hlarge | hnull
      · rw [if_pos hneg]
      · simp [List.getElem?_eq_none (hlength ▸ hlarge)]
      · simp [bytesAt_null hd hnull]
    rw [hnone]
    rfl
  · rename_i hinside
    simp only [not_or, Int.not_lt, Nat.not_le] at hinside
    obtain ⟨hpos, hlt, -⟩ := hinside
    have hget : data[i.toNat]? = some data[i.toNat] := List.getElem?_eq_getElem (hlength.symm ▸ hlt)
    have hbyte : byteOrMinusOne data i = data[i.toNat].toNat := by
      simp [byteOrMinusOne, hget, Int.not_lt.2 hpos]
    simp only [Routine.bind_run, bind_run, readBytesView_run hd', Routine.deref, VmM.deref, hget, hbyte]
    rfl

/-! ## Numbers -/

theorem bytesFromByte_pushes (env : Env) {i : Int} (hi : 0 ≤ i ∧ i ≤ 255) (hstack : vm.stack = below ++ [.int i]) :
    PushesBytes vm below [UInt8.ofNat i.toNat] ((bytesFromByte env).run vm) := by
  simp only [bytesFromByte, Routine.bind_run, Routine.pop, bind_run, stackPop_run hstack]
  rw [if_neg (by omega)]
  exact pushBytesCopy_pushes env _ { vm with stack := below }

theorem bytesU32Le_pushes {i : Int} (hi : 0 ≤ i ∧ i ≤ 0xFFFFFFFF) (hstack : vm.stack = below ++ [.int i]) :
    PushesBytes vm below (le 4 i.toNat) ((bytesU32Le env).run vm) := by
  simp only [bytesU32Le, Routine.bind_run, Routine.pop, bind_run, stackPop_run hstack]
  rw [if_neg (by omega)]
  exact pushBytesCopy_pushes env _ { vm with stack := below }

theorem bytesI64Le_pushes {i : Int} (hstack : vm.stack = below ++ [.int i]) :
    PushesBytes vm below (le 8 (ofI64 i)) ((bytesI64Le env).run vm) := by
  simp only [bytesI64Le, Routine.bind_run, Routine.pop, bind_run, stackPop_run hstack]
  exact pushBytesCopy_pushes env _ { vm with stack := below }

end Aivm
