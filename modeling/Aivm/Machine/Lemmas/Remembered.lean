import Aivm.Machine.Lemmas.ClosedSteps

/-!
# The remembered position

The position that `utf8_byte_offset_for_rune` remembers is one of the string at its address, as long as no new arena is
placed at the address of a string that is gone. A string that is still there keeps its text, for strings are only added
behind it.
-/

namespace Aivm

open CStrings VmM

variable {env : Env} {vm vm' : Vm}

/-! ## The invariant -/

/-- What is remembered is a position of the string there, unless the arena of that string is gone. -/
def Vm.Remembers (vm : Vm) : Prop :=
  vm.utf8OffsetCache.text = .null ∨
    (∃ text, vm.cstr vm.utf8OffsetCache.text = some text ∧ vm.utf8OffsetCache.IsPosition text) ∨
    ∃ block offset, vm.utf8OffsetCache.text = .arena block offset ∧ block ≠ vm.stringBlock

/-- The strings are sound and what is remembered of them is right. -/
structure Vm.TextsRight (vm : Vm) : Prop where
  sound : vm.StringsSound
  remembers : vm.Remembers

/-- The host places no new string arena at the address of the string whose position is remembered. -/
def Env.SparesRemembered (env : Env) : Prop :=
  ∀ vm block offset, vm.utf8OffsetCache.text = .arena block offset → freshBlock env vm ≠ block

/-- Any string of the machine can be searched. -/
theorem Vm.TextsRight.ready (h : vm.TextsRight) {p : StrPtr} {text : List Byte} (hp : vm.cstr p = some text) :
    vm.TextReady p text := by
  refine ⟨h.sound, hp, ?_⟩
  rintro rfl text' htext
  obtain hnull | ⟨t, ht, hpos⟩ | ⟨block, offset, hcache, hblock⟩ := h.remembers
  · simp [hnull, Heap.cstr] at htext
  · rw [ht, Option.some.injEq] at htext
    exact htext ▸ hpos
  · simp [hcache, Heap.cstr, hblock] at htext

/-! ## Strings are added -/

/-- Behind the arena another string is written. -/
theorem Vm.Remembers.grown (h : vm.Remembers) (harena : vm.stringArena <+: vm'.stringArena)
    (hblock : vm'.stringBlock = vm.stringBlock) (hcache : vm'.utf8OffsetCache = vm.utf8OffsetCache) : vm'.Remembers := by
  unfold Vm.Remembers
  rw [hcache, hblock]
  obtain hnull | ⟨text, htext, hpos⟩ | hgone := h
  · exact .inl hnull
  · refine .inr (.inl ⟨text, ?_, hpos⟩)
    obtain ⟨more, hmore⟩ := harena
    cases hp : vm.utf8OffsetCache.text with
    | null => simp [hp, Heap.cstr] at htext
    | lit t => simpa [hp, Heap.cstr] using htext
    | arena block offset =>
        simp only [hp, Heap.cstr, hblock] at htext ⊢
        split at htext
        · rename_i hb
          rw [if_pos hb, ← hmore]
          have hle : offset ≤ vm.stringArena.length := by
            by_contra hgt
            rw [List.drop_eq_nil_of_le (by omega)] at htext
            simp [CStrings.read] at htext
          rw [List.drop_append_of_le_length hle]
          exact read_append htext more
        · cases htext
  · exact .inr (.inr hgone)

theorem writeString_right (text : List Byte) (h : vm.TextsRight) : (writeString text vm).TextsRight := by
  refine ⟨⟨.inr ⟨vm.stringArena ++ text, rfl⟩, fun hcomplete e he h0 => ?_⟩, ?_⟩
  · simp only [writeString, List.append_assoc]
    exact (h.sound.intern hcomplete e he h0).append _
  · exact h.remembers.grown ⟨text ++ [0], (List.append_assoc ..).symm⟩ rfl rfl

theorem rememberString_right {text : List Byte} (ht : (0 : Byte) ∉ text) (h : vm.TextsRight) :
    (rememberString env text (writeString text vm)).TextsRight := by
  have hgrown : vm.StringsGrown (rememberString env text (writeString text vm)) := rememberString_grown ht h.sound
  exact ⟨hgrown.sound, h.remembers.grown hgrown.arena rfl rfl⟩

/-! ## Strings are moved and searched -/

/-- A compaction leaves the remembered string behind. -/
theorem compactStringArena_right (spare : env.SparesRemembered) {u} (hc : compactStringArena env vm = .ok u vm')
    (h : vm.TextsRight) : vm'.TextsRight := by
  refine ⟨compactStringArena_sound h.sound hc, ?_⟩
  rcases compactStringArena_ok hc with ⟨_, rfl⟩ | ⟨_, _, c⟩
  · exact h.remembers
  · have hcache : vm'.utf8OffsetCache = vm.utf8OffsetCache := by rw [c.moved.frame]
    have hblock : vm'.stringBlock = freshBlock env vm := by rw [c.moved.frame]
    unfold Vm.Remembers
    rw [hcache, hblock]
    cases hp : vm.utf8OffsetCache.text with
    | null => exact .inl rfl
    | lit t =>
        obtain hnull | ⟨text, htext, hpos⟩ | ⟨_, _, hgone, _⟩ := h.remembers
        · simp [hp] at hnull
        · exact .inr (.inl ⟨text, by simpa [hp, Heap.cstr] using htext, hpos⟩)
        · simp [hp] at hgone
    | arena block offset => exact .inr (.inr ⟨block, offset, rfl, (spare vm block offset hp).symm⟩)

/-- Where no string is, none is further on either. -/
theorem cstr_advance_none (hs : vm.StringsSound) {p : StrPtr} (h : vm.cstr p = none) (n : Nat) :
    vm.cstr (p.advance n) = none := by
  cases p with
  | null => rfl
  | lit t => simp [Heap.cstr] at h
  | arena block offset =>
      simp only [Heap.cstr, StrPtr.advance] at h ⊢
      split
      · rename_i hb
        rw [if_pos hb] at h
        have hle : vm.stringArena.length ≤ offset := by
          by_contra hlt
          rw [hs.terminated.read (by omega)] at h
          cases h
        rw [List.drop_eq_nil_of_le (by omega)]
        rfl
      · rfl

/-- Only a string is searched, and what is remembered of it is right. -/
theorem byteOffset_right {p : StrPtr} {rune n : Nat} (hrun : utf8ByteOffsetForRune p rune vm = .ok n vm')
    (h : vm.TextsRight) : vm'.TextsRight := by
  cases hp : vm.cstr p with
  | none =>
      simp [utf8ByteOffsetForRune, bind_run, deref, cstr_advance_none h.sound hp] at hrun
  | some text =>
      have hright := utf8ByteOffsetForRune_run hp (h.ready hp).cache rune
      rw [hright, Outcome.ok.injEq] at hrun
      obtain ⟨-, rfl⟩ := hrun
      exact ⟨⟨h.sound.terminated, h.sound.intern⟩,
        .inr (.inl ⟨text, hp, Nat.min_le_right .., (utf8ByteOffset_min text rune).symm⟩)⟩

theorem byteOffset_ends (p : StrPtr) (rune : Nat) : Ends (Keeping Vm.TextsRight) (utf8ByteOffsetForRune p rune) vm := by
  refine .of_cases (fun n vm' h => byteOffset_right h) fun vm' h => ?_
  simp only [utf8ByteOffsetForRune, bind_fail, get_run, modify_run, pure_run, reduceCtorEq, false_or, and_false,
    exists_false, or_false] at h
  obtain ⟨_, _, _, h⟩ := h
  unfold deref at h
  split at h <;> cases h

/-! ## Everything that is done -/

/-- What lies outside the string arena does not matter. -/
theorem Vm.TextsRight.frame (h : vm.TextsRight) (harena : vm'.stringArena = vm.stringArena)
    (hblock : vm'.stringBlock = vm.stringBlock) (hintern : vm'.stringIntern = vm.stringIntern)
    (hcache : vm'.utf8OffsetCache = vm.utf8OffsetCache) : vm'.TextsRight := by
  refine ⟨⟨by rw [harena]; exact h.sound.terminated, ?_⟩, h.remembers.grown (by rw [harena]) hblock hcache⟩
  rw [harena, hintern]
  exact h.sound.intern

/-- Nothing that the machine does makes the texts wrong. -/
theorem Env.SparesRemembered.closed (spare : env.SparesRemembered) : Closed env (Keeping Vm.TextsRight) where
  chains := Keeping.chains _
  same hsame h := h.frame hsame.1 hsame.2.1 hsame.2.2.1 hsame.2.2.2.1
  compact hc h := compactStringArena_right spare hc h
  write text _ h := writeString_right text h
  store _ ht h := rememberString_right ht h
  byteOffset p rune _ := byteOffset_ends p rune
  install _ h := h.frame rfl rfl rfl rfl
  append _ _ _ _ _ h := h.frame rfl rfl rfl rfl

/-! ## Machines in use -/

theorem resetFields_right (vm : Vm) : (resetFields vm).TextsRight := by
  refine ⟨⟨.inl rfl, fun _ e he h0 => ?_⟩, .inl rfl⟩
  obtain ⟨_, _, rfl⟩ := List.mem_map.1 he
  exact absurd rfl h0

theorem zeroedVm_right (program : Program) : (zeroedVm program).TextsRight :=
  ⟨⟨.inl rfl, fun _ e he _ => by cases he⟩, .inl rfl⟩

/-- In every state of every machine, the strings are sound and what is remembered of them is right. -/
theorem Arises.textsRight (spare : env.SparesRemembered) (h : Arises env vm) : vm.TextsRight :=
  spare.closed.arises zeroedVm_right (fun _ => resetFields_right _) h

end Aivm
