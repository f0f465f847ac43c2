import Aivm.Lib.Runs
import Aivm.Machine.Lemmas.ClosedSteps
import Aivm.Strings.Lemmas.Index

/-!
# Copies into the string arena

A copy that succeeds is a string of the arena with the contents asked for, and whatever is reachable reads as before.
The index names strings of the arena in every state of every machine, also between the operations of an instruction.
-/

namespace Aivm

open CStrings VmM

variable {env : Env} {vm vm' : Vm} {p q : StrPtr} {text : List Byte}

/-! ## Reachable strings -/

/-- Every reachable string is still there, and reads the same. -/
def Vm.KeepsStrings (vm vm' : Vm) : Prop :=
  ∀ slot p text, vm.PointsAt slot p → vm.cstr p = some text → ∃ p', vm'.PointsAt slot p' ∧ vm'.cstr p' = some text

theorem Vm.KeepsStrings.refl (vm : Vm) : vm.KeepsStrings vm := fun _ p _ hp htext => ⟨p, hp, htext⟩

theorem Vm.KeepsStrings.trans {a b c : Vm} (h : a.KeepsStrings b) (h' : b.KeepsStrings c) : a.KeepsStrings c := by
  intro slot p text hp htext
  obtain ⟨p₁, hp₁, htext₁⟩ := h slot p text hp htext
  exact h' slot p₁ text hp₁ htext₁

theorem NodeReachable.mono {heap heap' : Heap} {root root' : Nat → Prop} {h : Nat} (hn : heap'.nodes = heap.nodes)
    (hc : heap'.nodeChildren = heap.nodeChildren) (hroot : ∀ k, root k → root' k) (hr : NodeReachable heap root h) :
    NodeReachable heap' root' h := by
  induction hr with
  | root hk => exact .root (hroot _ hk)
  | @child k n c _ hnode hchild ih =>
      have hnode' : heap'.lookupNode k = some n := by simpa [Heap.lookupNode, hn] using hnode
      have hchild' : c ∈ heap'.childrenOf n := by simpa [Heap.childrenOf, hc] using hchild
      exact ih.child hnode' hchild'

/-- Where only strings are added, every place points where it did. -/
theorem Vm.PointsAt.extends {slot : StrSlot} (s : vm.SameRoots vm') (e : vm.Extends vm'.toHeap)
    (hn : vm'.nodes = vm.nodes) (ha : vm'.nodeAttrs = vm.nodeAttrs) (hc : vm'.nodeChildren = vm.nodeChildren)
    (h : vm.PointsAt slot p) : vm'.PointsAt slot p := by
  have hreach : ∀ {k}, vm.NodeReachable [] k → vm'.NodeReachable [] k := by
    intro k hk
    refine hk.mono hn hc ?_
    rintro j (⟨r, hr⟩ | hj)
    · exact .inl ⟨r, hr.extends s e⟩
    · exact .inr hj
  have hattrs : ∀ n, vm'.attrsOf n = vm.attrsOf n := fun n => by simp [Heap.attrsOf, ha]
  cases slot with
  | root r => exact Vm.Holds.extends s e h
  | kind k =>
      obtain ⟨hk, n, hnode, rfl⟩ := h
      exact ⟨hreach hk, n, e.lookupNode hnode, rfl⟩
  | id k =>
      obtain ⟨hk, n, hnode, rfl⟩ := h
      exact ⟨hreach hk, n, e.lookupNode hnode, rfl⟩
  | key k i =>
      obtain ⟨hk, n, a, hnode, hattr, rfl⟩ := h
      exact ⟨hreach hk, n, a, e.lookupNode hnode, by rwa [hattrs], rfl⟩
  | text k i =>
      obtain ⟨hk, n, a, hnode, hattr, hv⟩ := h
      exact ⟨hreach hk, n, a, e.lookupNode hnode, by rwa [hattrs], hv⟩

theorem Vm.StringsGrown.keepsStrings (h : vm.StringsGrown vm') : vm.KeepsStrings vm' := by
  intro slot p text hp htext
  exact ⟨p, hp.extends h.sameRoots h.extends (by rw [h.frame]) (by rw [h.frame]) (by rw [h.frame]), h.extends.cstr htext⟩

theorem Vm.StringLimitGrown.keepsStrings (h : vm.StringLimitGrown vm') : vm.KeepsStrings vm' := by
  intro slot p text hp htext
  rw [h]
  refine ⟨p, ?_, htext⟩
  exact hp.extends ⟨rfl, rfl, rfl, rfl, rfl, rfl, rfl, rfl⟩ (.refl _) rfl rfl rfl

theorem compactStringArena_keepsStrings {u} (h : compactStringArena env vm = .ok u vm') : vm.KeepsStrings vm' := by
  rcases compactStringArena_ok h with ⟨-, rfl⟩ | ⟨_, _, c⟩
  · exact .refl _
  · intro slot p text hp htext
    have hblock : vm'.stringBlock = freshBlock env vm := by rw [c.heap]
    obtain ⟨p', hp', hmoved⟩ := c.pointsAt_forward hp
    exact ⟨p', hp', hmoved.cstr hblock rfl htext⟩

/-- Making room keeps every reachable string, even where the strings are moved. -/
theorem stringArenaReserve_keepsStrings {additional : Nat} {u} (h : stringArenaReserve env additional vm = .ok u vm') :
    vm.KeepsStrings vm' := by
  rcases (stringArenaReserve_ok h).2 with ⟨-, hgrown⟩ | ⟨-, vm₁, vm₂, hgrown, hc, hgrown'⟩
  · exact hgrown.keepsStrings
  · exact (hgrown.keepsStrings.trans (compactStringArena_keepsStrings hc)).trans hgrown'.keepsStrings

/-! ## Copies -/

/-- A copy of `text`: a pointer into the arena that reads it, with everything reachable as before. -/
def Vm.Copied (vm vm' : Vm) (text : List Byte) (q : StrPtr) : Prop := vm'.Stored text q ∧ vm.KeepsStrings vm'

theorem storeString_copied (ht : (0 : Byte) ∉ text) (hs : vm.StringsSound) (h : storeString env text vm = .ok q vm') :
    vm.Copied vm' text q := by
  obtain ⟨vm₁, hr, hgrown, hstored, -⟩ := storeString_ok ht hs h
  exact ⟨hstored, (stringArenaReserve_keepsStrings hr).trans hgrown.keepsStrings⟩

theorem copyStringRangeToArena_copied (ht : (0 : Byte) ∉ text) (hs : vm.StringsSound)
    (h : copyStringRangeToArena env text vm = .ok q vm') : vm.Copied vm' text q := by
  obtain ⟨vm₁, hr, hgrown, hstored, -⟩ := copyStringRangeToArena_ok ht hs h
  refine ⟨hstored, ?_⟩
  rcases hr with rfl | hr
  · exact hgrown.keepsStrings
  · exact (stringArenaReserve_keepsStrings hr).trans hgrown.keepsStrings

theorem copyStringToArena_copied (hs : vm.StringsSound) (hp : vm.cstr p = some text)
    (h : copyStringToArena env p vm = .ok q vm') : vm.Copied vm' text q := by
  obtain ⟨-, ⟨hin, rfl, rfl⟩ | ⟨-, text', htext, h⟩⟩ := copyStringToArena_cases h
  · exact ⟨⟨hin, hp⟩, .refl _⟩
  · rw [hp, Option.some.injEq] at htext
    subst htext
    exact copyStringRangeToArena_copied (zero_notMem_of_cstr hp) hs h

theorem copyRange_copied {n : Nat} (hs : vm.StringsSound) (hp : vm.cstr p = some text)
    (h : copyRange env p n vm = .ok q vm') : vm.Copied vm' (text.take n) q := by
  have ht : (0 : Byte) ∉ text.take n := fun hm => zero_notMem_of_cstr hp (List.mem_of_mem_take hm)
  exact copyStringRangeToArena_copied ht hs (copyRange_ok hp h)

theorem copySplice_copied {first second : List Byte} {m n : Nat} {r : StrPtr} (hs : vm.StringsSound)
    (hp : vm.cstr p = some first) (hq : vm.cstr q = some second) (h : copySplice env p m q n vm = .ok r vm') :
    vm.Copied vm' (first.take m ++ second.take n) r := by
  have hsplice := copySplice_ok hp hq h
  simp only [copyStringSpliceToArena, bind_ok, get_run, Outcome.ok.injEq] at hsplice
  obtain ⟨_, _, ⟨rfl, rfl⟩, hsplice⟩ := hsplice
  cases hfind : find 0 (first.take m ++ second.take n) vm.stringArena.length vm.stringArena 0 with
  | some offset =>
      rw [hfind] at hsplice
      cases hsplice
      have hread : find 0 _ vm.stringArena.length (vm.stringArena.drop 0) 0 = some offset := hfind
      exact ⟨stored_of_read (find_terminated hs.terminated hread).1, .refl _⟩
  | none =>
      rw [hfind] at hsplice
      exact storeString_copied (splice_clean hp hq) hs hsplice

/-! ## The index -/

theorem zeroedVm_indexed (program : Program) : (zeroedVm program).TextsIndexed :=
  ⟨.inl rfl, ⟨fun _ he _ => absurd he List.not_mem_nil, rfl, .inl rfl, .inl rfl⟩⟩

theorem resetFields_indexed (h : vm.TextsIndexed) : (resetFields vm).TextsIndexed :=
  ⟨.inl rfl, resetStringInternIndex_keeps h.intern.size⟩

/-- What lies outside the string arena does not matter. -/
theorem Vm.TextsIndexed.frame (h : vm.TextsIndexed) (hsame : vm.SameTexts vm') : vm'.TextsIndexed :=
  ⟨by rw [hsame.1]; exact h.terminated, by rw [hsame.1, hsame.2.2.1]; exact h.intern⟩

theorem byteOffset_frame {rune n : Nat} (h : utf8ByteOffsetForRune p rune vm = .ok n vm') :
    vm'.stringArena = vm.stringArena ∧ vm'.stringIntern = vm.stringIntern := by
  simp only [utf8ByteOffsetForRune, bind_ok, get_run, deref_ok, modify_run, pure_run, Outcome.ok.injEq] at h
  obtain ⟨_, _, ⟨rfl, rfl⟩, _, _, ⟨_, rfl⟩, _, _, ⟨_, rfl⟩, _, rfl⟩ := h
  exact ⟨rfl, rfl⟩

theorem byteOffset_indexed (p : StrPtr) (rune : Nat) :
    Ends (Keeping Vm.TextsIndexed) (utf8ByteOffsetForRune p rune) vm := by
  refine .of_cases (fun n vm' h hi => ?_) fun vm' h => ?_
  · obtain ⟨harena, hintern⟩ := byteOffset_frame h
    exact ⟨by rw [harena]; exact hi.terminated, by rw [harena, hintern]; exact hi.intern⟩
  · simp only [utf8ByteOffsetForRune, bind_fail, get_run, modify_run, pure_run, reduceCtorEq, false_or, and_false,
      exists_false, or_false] at h
    obtain ⟨_, _, _, h⟩ := h
    unfold deref at h
    split at h <;> cases h

/-- Nothing that the machine does puts the index out of step. -/
theorem indexed_closed (env : Env) : Closed env (Keeping Vm.TextsIndexed) where
  chains := Keeping.chains _
  same hsame h := h.frame hsame
  compact hc h := compactStringArena_indexed hc h
  write text _ h := writeString_indexed text h
  store _ ht h := rememberString_indexed ht h
  byteOffset p rune _ := byteOffset_indexed p rune
  install _ h := ⟨h.terminated, h.intern⟩
  append _ _ _ _ _ h := ⟨h.terminated, h.intern⟩

theorem Arises.textsIndexed (h : Arises env vm) : vm.TextsIndexed :=
  (indexed_closed env).arises zeroedVm_indexed resetFields_indexed h

/-! ## Searches end -/

/-- Once an empty row has been reached, the number of probes left does not matter. -/
theorem lookupStringProbe_stops (hn : TableSize vm.stringIntern.entries.length) {hash : UInt64} : ∀ {probes slot},
    slot < vm.stringIntern.entries.length →
      (∃ i < probes, ∃ row : StringInternEntry,
        vm.stringIntern.entries[(slot + i) % vm.stringIntern.entries.length]? = some row ∧ row.hash = 0) →
      ∀ more, lookupStringProbe vm hash text (probes + more) slot = lookupStringProbe vm hash text probes slot := by
  intro probes
  induction probes with
  | zero =>
      rintro slot - ⟨i, hi, -⟩
      omega
  | succ probes ih =>
      rintro slot hslot ⟨i, hi, row, hrow, h0⟩ more
      rw [Nat.add_right_comm]
      simp only [lookupStringProbe, List.getElem?_eq_getElem hslot, next_row hn]
      split
      · rfl
      split
      · rfl
      · rename_i hused _
        apply ih (Nat.mod_lt _ (by omega))
        cases i with
        | zero =>
            rw [Nat.add_zero, Nat.mod_eq_of_lt hslot, List.getElem?_eq_getElem hslot, Option.some.injEq] at hrow
            exact absurd (hrow ▸ h0) hused
        | succ i =>
            refine ⟨i, by omega, row, ?_, h0⟩
            rwa [Nat.mod_add_mod, Nat.add_assoc, Nat.add_comm 1 i]

/-- The index of a machine: rows in use name strings of the arena, and every search meets an empty row. -/
structure Vm.IndexRight (vm : Vm) : Prop where
  names : ∀ e ∈ vm.stringIntern.entries, e.hash ≠ 0 → e.Names vm.stringArena
  notFull : vm.stringIntern.entries ≠ [] → rowsUsed vm.stringIntern.entries < vm.stringIntern.entries.length
  inserts : vm.stringIntern.entries ≠ [] → ∀ e, (stringInternInsert vm.stringIntern.entries e).isSome
  lookups : ∀ hash text more, lookupStringProbe vm hash text (vm.stringIntern.entries.length + more)
      (stringInternSlot hash vm.stringIntern.entries.length) =
    lookupStringProbe vm hash text vm.stringIntern.entries.length
      (stringInternSlot hash vm.stringIntern.entries.length)

theorem Vm.TextsIndexed.indexRight (h : vm.TextsIndexed) : vm.IndexRight := by
  rcases h.intern.size with hnil | hsize
  · refine ⟨h.intern.names, by simp [hnil], by simp [hnil], fun hash text more => ?_⟩
    cases more with
    | zero => rfl
    | succ more => simp [hnil, lookupStringProbe]
  · have hpos : 0 < vm.stringIntern.entries.length := by
      obtain ⟨k, -, hk⟩ := hsize
      rw [hk]
      exact Nat.two_pow_pos k
    have hload : rowsUsed vm.stringIntern.entries < vm.stringIntern.entries.length := by
      rcases h.intern.load with hnil | hload
      · simp [hnil] at hpos
      · rw [h.intern.count]
        omega
    obtain ⟨slot, row, hrow, h0⟩ := exists_empty_row hload
    have hreach : ∀ home, ∃ i < vm.stringIntern.entries.length, ∃ row : StringInternEntry,
        vm.stringIntern.entries[(home + i) % vm.stringIntern.entries.length]? = some row ∧ row.hash = 0 := by
      intro home
      obtain ⟨i, hi, hsteps⟩ := Probing.exists_steps home (List.getElem?_eq_some_iff.1 hrow).1
      exact ⟨i, hi, row, by rwa [hsteps], h0⟩
    refine ⟨h.intern.names, fun _ => hload, fun _ e => ?_, fun hash text more => ?_⟩
    · obtain ⟨j, old, hprobe, -, -⟩ := stringInternProbe_some (e := e) hsize (stringInternSlot_lt hpos) (hreach _)
      rw [stringInternInsert, hprobe]
      rfl
    · exact lookupStringProbe_stops hsize (stringInternSlot_lt hpos) (hreach _) more

/-! ## Any moment of a run -/

/-- A state of a machine in use, also within an instruction: after some of its operations, whether they succeeded or
failed, and after any change outside texts and nodes. -/
inductive Midway (env : Env) : Vm → Prop where
  | arises {vm : Vm} : Arises env vm → Midway env vm
  | done {α : Type} {vm vm' : Vm} {a : α} (x : Routine env α) : Midway env vm → x.run vm = .ok a vm' → Midway env vm'
  | failed {α : Type} {vm vm' : Vm} (x : Routine env α) : Midway env vm → x.run vm = .fail vm' → Midway env vm'
  | elsewhere {vm vm' : Vm} : Midway env vm → vm.SameTexts vm' → Midway env vm'

theorem Midway.textsIndexed (h : Midway env vm) : vm.TextsIndexed := by
  induction h with
  | arises h => exact h.textsIndexed
  | done x _ hr ih => exact ((indexed_closed env).routine x).ok hr ih
  | failed x _ hr ih => exact ((indexed_closed env).routine x).fail hr ih
  | elsewhere _ hsame ih => exact ih.frame hsame

/-- Copies are right: what they return is in the arena and has the contents asked for, as they were before the copy. -/
structure CopiesRight (env : Env) (vm : Vm) : Prop where
  string : ∀ p text q vm', vm.cstr p = some text → copyStringToArena env p vm = .ok q vm' → vm.Copied vm' text q
  range : ∀ p text n q vm', vm.cstr p = some text → copyRange env p n vm = .ok q vm' → vm.Copied vm' (text.take n) q
  outside : ∀ text q vm', (0 : Byte) ∉ text → copyStringRangeToArena env text vm = .ok q vm' → vm.Copied vm' text q
  splice : ∀ p first m q second n r vm', vm.cstr p = some first → vm.cstr q = some second →
    copySplice env p m q n vm = .ok r vm' → vm.Copied vm' (first.take m ++ second.take n) r

/-- At any moment of a run, copies into the string arena and its index are right. -/
theorem interning_right (h : Midway env vm) : CopiesRight env vm ∧ vm.IndexRight := by
  have hs : vm.StringsSound := h.textsIndexed.sound
  refine ⟨⟨fun p text q vm' hp hc => ?_, fun p text n q vm' hp hc => ?_, fun text q vm' ht hc => ?_, ?_⟩, ?_⟩
  · exact copyStringToArena_copied hs hp hc
  · exact copyRange_copied hs hp hc
  · exact copyStringRangeToArena_copied ht hs hc
  · intro p first m q second n r vm' hp hq hc
    exact copySplice_copied hs hp hq hc
  · exact h.textsIndexed.indexRight

theorem Arises.iterate {fuel : Nat} : ∀ {n : Nat} {vm vm' : Vm}, Arises env vm →
    Trails.iterate (step env fuel) n vm = some vm' → Arises env vm' := by
  intro n
  induction n with
  | zero =>
      intro vm vm' ha h
      cases h
      exact ha
  | succ n ih =>
      intro vm vm' ha h
      obtain ⟨vm₁, hs, h⟩ := Option.bind_eq_some_iff.1 h
      exact ih (.stepped ha hs) h

/-- Copies the same text twice. -/
def twiceProgram : Program := ⟨[⟨.const, 0⟩, ⟨.toString, 0⟩, ⟨.const, 0⟩, ⟨.toString, 0⟩], [.string (litPtr "text")], []⟩

/-- The second copy is the first one, and the index has a row for it besides the two of the argument node. -/
theorem interned_once : ∃ vm, (aivmInit .generous twiceProgram 0).bind (Trails.iterate (step .generous 0) 4) = some vm ∧
    (vm.stack.length = 2 ∧ vm.stack[0]? = vm.stack[1]? ∧ rowsUsed vm.stringIntern.entries = 3) ∧
    CopiesRight .generous vm ∧ vm.IndexRight := by
  have hrun : ((aivmInit .generous twiceProgram 0).bind (Trails.iterate (step .generous 0) 4)).map (fun vm =>
      (vm.stack.length, decide (vm.stack[0]? = vm.stack[1]?), rowsUsed vm.stringIntern.entries)) =
      some (2, true, 3) := by
    decide +kernel
  obtain ⟨vm, hvm, h⟩ := Option.map_eq_some_iff.1 hrun
  simp only [Prod.mk.injEq, decide_eq_true_eq] at h
  obtain ⟨vm₀, hinit, hsteps⟩ := Option.bind_eq_some_iff.1 hvm
  exact ⟨vm, hvm, h, interning_right (.arises ((Arises.made hinit).iterate hsteps))⟩

end Aivm
