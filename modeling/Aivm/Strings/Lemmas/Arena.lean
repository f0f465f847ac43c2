import Aivm.Model.Extends
import Aivm.Strings.Arena
import Aivm.Strings.Lemmas.Intern
import Aivm.Gc.Lemmas.StringCompaction

/-!
# Room in the string arena

Making room changes limits only, unless the strings have to be compacted. A copy into an arena that has room appends
at most the string and returns a pointer that reads it.
-/

namespace Aivm

open CStrings

variable {env : Env} {vm vm' : Vm}

/-! ## Growth -/

/-- Only the limit of the string arena and the host's last answer may differ. -/
def Vm.StringLimitGrown (vm vm' : Vm) : Prop :=
  vm' = { vm with
    stringArenaLimit := vm'.stringArenaLimit
    hostMemoryGrowthSuspended := vm'.hostMemoryGrowthSuspended }

theorem Vm.StringLimitGrown.refl (vm : Vm) : vm.StringLimitGrown vm := by
  cases vm
  rfl

theorem Vm.StringLimitGrown.trans {a b c : Vm} (h : a.StringLimitGrown b) (h' : b.StringLimitGrown c) :
    a.StringLimitGrown c := by
  unfold Vm.StringLimitGrown at *
  rw [h', h]

theorem askHostMemory_grown (env : Env) (growth : Nat) (vm : Vm) :
    (askHostMemory env growth vm).2 =
      { vm with hostMemoryGrowthSuspended := (askHostMemory env growth vm).2.hostMemoryGrowthSuspended } := by
  unfold askHostMemory
  split
  · cases vm
    rfl
  · rfl

theorem growStringArenaLimit_grown {needed fuel} : ∀ {vm : Vm},
    vm.StringLimitGrown (growStringArenaLimit env needed fuel vm) := by
  induction fuel with
  | zero =>
      intro vm
      exact .refl vm
  | succ fuel ih =>
      intro vm
      simp only [growStringArenaLimit]
      split
      · split
        · rename_i ht
          have hask := askHostMemory_grown env
            (arenaGrowLimit vm.stringArenaLimit stringArenaGrowthStep vm.stringArenaCapacity - vm.stringArenaLimit) vm
          simp only [hostMemoryGrowthAvailable, if_pos ht]
          split
          · rename_i vm₁ he
            rw [he] at hask
            refine Vm.StringLimitGrown.trans ?_ ih
            simp only at hask
            rw [hask]
            rfl
          · rename_i vm₁ he
            rw [he] at hask
            simp only at hask
            rw [hask]
            rfl
        · refine Vm.StringLimitGrown.trans ?_ ih
          rfl
      · exact .refl vm

theorem ensureStringArenaCapacity_grown (env : Env) (needed : Nat) (vm : Vm) :
    vm.StringLimitGrown (ensureStringArenaCapacity env needed vm) := growStringArenaLimit_grown

theorem ensureStringArenaCapacity_at_capacity (env : Env) (needed : Nat)
    (h : vm.stringArenaCapacity ≤ vm.stringArenaLimit) : ensureStringArenaCapacity env needed vm = vm := by
  unfold ensureStringArenaCapacity
  rw [Nat.sub_eq_zero_of_le h]
  rfl

/-- A reservation either finds room or compacts the strings. -/
theorem stringArenaReserve_ok {additional u} (h : stringArenaReserve env additional vm = .ok u vm') :
    vm'.stringArena.length + additional ≤ vm'.stringArenaLimit ∧
    ((reserveFits env additional vm ∧ vm.StringLimitGrown vm') ∨
      (¬ reserveFits env additional vm ∧ ∃ vm₁ vm₂, vm.StringLimitGrown vm₁ ∧
        compactStringArena env vm₁ = .ok () vm₂ ∧ vm₂.StringLimitGrown vm')) := by
  simp only [stringArenaReserve, VmM.bind_ok, VmM.modify_run, VmM.get_run, Outcome.ok.injEq] at h
  obtain ⟨_, _, ⟨_, rfl⟩, _, _, ⟨rfl, rfl⟩, h⟩ := h
  have hgrown := ensureStringArenaCapacity_grown env (vm.stringArena.length + additional) vm
  have harena : (ensureStringArenaCapacity env (vm.stringArena.length + additional) vm).stringArena = vm.stringArena := by
    rw [hgrown]
  split at h
  · rename_i hfits
    cases h
    refine ⟨hfits, .inl ⟨?_, hgrown⟩⟩
    rw [harena] at hfits
    exact hfits
  · rename_i hfull
    rw [harena] at hfull
    simp only [VmM.bind_ok, VmM.onFail_ok, VmM.modify_run, VmM.get_run, Outcome.ok.injEq] at h
    obtain ⟨_, vm₂, hc, _, _, ⟨_, rfl⟩, _, _, ⟨rfl, rfl⟩, h⟩ := h
    split at h
    · rename_i hfits
      cases h
      exact ⟨hfits, .inr ⟨hfull, _, vm₂, hgrown, hc, ensureStringArenaCapacity_grown ..⟩⟩
    · cases VmM.onFail_ok.1 h

theorem stringArenaReserve_of_fits {additional} (h : reserveFits env additional vm) :
    stringArenaReserve env additional vm =
      .ok () (ensureStringArenaCapacity env (vm.stringArena.length + additional) vm) := by
  have harena : (ensureStringArenaCapacity env (vm.stringArena.length + additional) vm).stringArena = vm.stringArena := by
    rw [ensureStringArenaCapacity_grown env (vm.stringArena.length + additional) vm]
  unfold reserveFits at h
  rw [← harena] at h
  simp only [stringArenaReserve, VmM.bind_run, VmM.modify_run, VmM.get_run]
  rw [harena] at h ⊢
  rw [if_pos h]
  rfl

theorem stringArenaReserve_of_room {additional} (h : vm.stringArena.length + additional ≤ vm.stringArenaLimit) :
    stringArenaReserve env additional vm = .ok () vm := by
  have hstay : ensureStringArenaCapacity env (vm.stringArena.length + additional) vm = vm := by
    unfold ensureStringArenaCapacity
    cases vm.stringArenaCapacity - vm.stringArenaLimit with
    | zero => rfl
    | succ fuel =>
        simp only [growStringArenaLimit]
        rw [if_neg (by omega)]
  simp only [stringArenaReserve, VmM.bind_run, VmM.modify_run, VmM.get_run, hstay, if_pos h, VmM.pure_run]

/-! ## Sound arenas -/

/-- The last string is terminated and the index tells the truth. -/
structure Vm.StringsSound (vm : Vm) : Prop where
  terminated : Terminated 0 vm.stringArena
  intern : vm.stringIntern.Sound vm.stringArena

theorem Vm.StringLimitGrown.sound (h : vm.StringLimitGrown vm') (hs : vm.StringsSound) : vm'.StringsSound := by
  rw [h]
  exact ⟨hs.terminated, hs.intern⟩

theorem StringCompacted.sound {live livePairs} (c : StringCompacted env vm vm' live livePairs) : vm'.StringsSound := by
  obtain ⟨ss, _, _, ha⟩ := c.moved.arena
  obtain ⟨vm₁, harena, -, hintern⟩ := c.intern
  refine ⟨ha ▸ terminated_encode ss, ?_⟩
  rw [hintern, ← harena]
  exact rebuildStringInternIndex_sound env vm₁

theorem compactStringArena_sound {u} (hs : vm.StringsSound) (h : compactStringArena env vm = .ok u vm') :
    vm'.StringsSound := by
  rcases compactStringArena_ok h with ⟨_, rfl⟩ | ⟨_, _, c⟩
  · exact hs
  · exact c.sound

theorem stringArenaReserve_sound {additional u} (hs : vm.StringsSound)
    (h : stringArenaReserve env additional vm = .ok u vm') : vm'.StringsSound := by
  rcases (stringArenaReserve_ok h).2 with ⟨_, hg⟩ | ⟨_, vm₁, vm₂, hg, hc, hg'⟩
  · exact hg.sound hs
  · exact hg'.sound (compactStringArena_sound (hg.sound hs) hc)

theorem lookupStringOffset_sound {text offset} (hs : vm.StringsSound) (h : lookupStringOffset vm text = some offset) :
    read 0 (vm.stringArena.drop offset) = some text := by
  unfold lookupStringOffset at h
  split at h
  · rename_i o ho
    cases h
    exact lookupStringInIndex_sound hs.intern ho
  · split at h
    · cases h
    · have hfind : find 0 text vm.stringArena.length (vm.stringArena.drop 0) 0 = some offset := h
      exact (find_terminated hs.terminated hfind).1

/-! ## Copies -/

/-- The arena may have grown by strings; nothing else that a value reads has changed. -/
structure Vm.StringsGrown (vm vm' : Vm) : Prop where
  frame : vm' = { vm with
    stringArena := vm'.stringArena
    stringIntern := vm'.stringIntern
    counters := { vm.counters with stringArenaHighWater := vm'.counters.stringArenaHighWater } }
  arena : vm.stringArena <+: vm'.stringArena
  sound : vm'.StringsSound

theorem Vm.StringsGrown.refl (hs : vm.StringsSound) : vm.StringsGrown vm :=
  ⟨by cases vm; rfl, List.prefix_rfl, hs⟩

theorem Vm.StringsGrown.trans {a b c : Vm} (h : a.StringsGrown b) (h' : b.StringsGrown c) : a.StringsGrown c := by
  refine ⟨?_, h.arena.trans h'.arena, h'.sound⟩
  rw [h'.frame, h.frame]

theorem Vm.StringsGrown.extends (h : vm.StringsGrown vm') : vm.Extends vm'.toHeap := by
  have hf := congrArg Vm.toHeap h.frame
  simp only at hf
  rw [hf]
  exact ⟨h.arena, rfl, List.prefix_rfl, rfl, List.prefix_rfl, List.prefix_rfl, List.prefix_rfl, List.prefix_rfl⟩

theorem Vm.StringsGrown.sameRoots (h : vm.StringsGrown vm') : vm.SameRoots vm' := by
  rw [h.frame]
  exact ⟨rfl, rfl, rfl, rfl, rfl, rfl, rfl, rfl⟩

theorem read_written (arena text : List Byte) (ht : (0 : Byte) ∉ text) :
    read 0 ((arena ++ text ++ [0]).drop arena.length) = some text := by
  rw [List.append_assoc, List.drop_left]
  exact read_eq_some.2 ⟨ht, [], rfl⟩

theorem rememberString_grown {text} (ht : (0 : Byte) ∉ text) (hs : vm.StringsSound) :
    vm.StringsGrown (rememberString env text (writeString text vm)) := by
  refine ⟨rfl, ⟨text ++ [0], (List.append_assoc ..).symm⟩, ?_, ?_⟩
  · exact .inr ⟨vm.stringArena ++ text, rfl⟩
  · have hlen : (writeString text vm).stringArena.length - (text.length + 1) = vm.stringArena.length := by
      simp only [writeString, List.length_append, List.length_singleton]
      omega
    simp only [rememberString, hlen]
    refine rememberStringInIndex_sound (fun hc e he h0 => ?_) (read_written vm.stringArena text ht)
    simp only [writeString, List.append_assoc]
    exact (hs.intern hc e he h0).append _

/-- A pointer into the arena that reads `text`. -/
def Vm.Stored (vm : Vm) (text : List Byte) (p : StrPtr) : Prop :=
  vm.pointerInStringArena p = true ∧ vm.cstr p = some text

theorem stored_of_read {text offset} (h : read 0 (vm.stringArena.drop offset) = some text) :
    vm.Stored text (.arena vm.stringBlock offset) := by
  have hlt : offset < vm.stringArena.length := by
    by_contra hge
    rw [List.drop_eq_nil_of_le (by omega)] at h
    simp [CStrings.read] at h
  exact ⟨by simp [Heap.pointerInStringArena, hlt], by simp [Heap.cstr, h]⟩

theorem Vm.Stored.grown {text p} (h : vm.Stored text p) (g : vm.StringsGrown vm') : vm'.Stored text p := by
  refine ⟨?_, g.extends.cstr h.2⟩
  have hin := h.1
  cases p with
  | null => simp [Heap.pointerInStringArena] at hin
  | lit t => simp [Heap.pointerInStringArena] at hin
  | arena b o =>
      have hlen := g.arena.length_le
      have hblock := g.extends.stringBlock
      simp only [Heap.pointerInStringArena, decide_eq_true_eq] at hin ⊢
      exact ⟨by rw [hblock]; exact hin.1, by omega⟩

theorem storeString_ok {text p} (ht : (0 : Byte) ∉ text) (hs : vm.StringsSound)
    (h : storeString env text vm = .ok p vm') :
    ∃ vm₁, stringArenaReserve env (text.length + 1) vm = .ok () vm₁ ∧ vm₁.StringsGrown vm' ∧ vm'.Stored text p ∧
      vm'.stringArena.length = vm₁.stringArena.length + (text.length + 1) := by
  simp only [storeString, stringArenaAlloc, VmM.bind_ok, VmM.get_run, VmM.modify_run, VmM.pure_run,
    Outcome.ok.injEq] at h
  obtain ⟨_, _, ⟨_, vm₁, hr, _, _, ⟨rfl, rfl⟩, _, _, ⟨_, rfl⟩, rfl, rfl⟩, _, _, ⟨_, rfl⟩, rfl, rfl⟩ := h
  refine ⟨vm₁, hr, rememberString_grown ht (stringArenaReserve_sound hs hr), ?_, ?_⟩
  · have hread : read 0 ((rememberString env text (writeString text vm₁)).stringArena.drop vm₁.stringArena.length) =
        some text := read_written vm₁.stringArena text ht
    exact stored_of_read hread
  · simp only [rememberString, writeString, List.length_append, List.length_singleton]
    omega

/-- A copy finds the string in the arena, or makes room for it and writes it there. -/
theorem copyStringRangeToArena_ok {text p} (ht : (0 : Byte) ∉ text) (hs : vm.StringsSound)
    (h : copyStringRangeToArena env text vm = .ok p vm') :
    ∃ vm₁, (vm₁ = vm ∨ stringArenaReserve env (text.length + 1) vm = .ok () vm₁) ∧ vm₁.StringsGrown vm' ∧
      vm'.Stored text p ∧ vm'.stringArena.length ≤ vm₁.stringArena.length + (text.length + 1) := by
  simp only [copyStringRangeToArena, VmM.bind_ok, VmM.get_run, Outcome.ok.injEq] at h
  obtain ⟨_, _, ⟨rfl, rfl⟩, h⟩ := h
  cases ho : lookupStringOffset vm text with
  | some offset =>
      rw [ho] at h
      cases h
      exact ⟨vm, .inl rfl, .refl hs, stored_of_read (lookupStringOffset_sound hs ho), by omega⟩
  | none =>
      rw [ho] at h
      obtain ⟨vm₁, hr, hg, hp, hl⟩ := storeString_ok ht hs h
      exact ⟨vm₁, .inr hr, hg, hp, by omega⟩

/-- A copy returns a pointer into the arena as it is, and copies the text of any other. -/
theorem copyStringToArena_cases {input p} (h : copyStringToArena env input vm = .ok p vm') :
    input ≠ .null ∧ ((vm.pointerInStringArena input = true ∧ p = input ∧ vm' = vm) ∨
      (vm.pointerInStringArena input = false ∧ ∃ text, vm.cstr input = some text ∧
        copyStringRangeToArena env text vm = .ok p vm')) := by
  simp only [copyStringToArena, VmM.bind_ok, VmM.get_run, Outcome.ok.injEq] at h
  obtain ⟨_, _, ⟨rfl, rfl⟩, h⟩ := h
  split at h
  · cases h
  rename_i hnull
  refine ⟨hnull, ?_⟩
  split at h
  · rename_i hin
    cases h
    exact .inl ⟨hin, rfl, rfl⟩
  · rename_i hout
    simp only [VmM.bind_ok, VmM.deref_ok] at h
    obtain ⟨text, _, ⟨htext, hv⟩, h⟩ := h
    rw [hv] at h
    exact .inr ⟨by simpa using hout, text, htext, h⟩

end Aivm
