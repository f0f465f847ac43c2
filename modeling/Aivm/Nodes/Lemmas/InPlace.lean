import Aivm.Nodes.Lemmas.Create

/-!
# Allocations that find room

An allocation that finds room in the string arena and in the node arenas moves nothing: the stores are extended, and
every handle and pointer held outside the roots stays good.
-/

namespace Aivm

open Unfold CStrings

variable {env : Env} {vm vm' : Vm}

/-- The stores have been extended and nothing else has changed that a value is read from. -/
structure Vm.Grown (vm vm' : Vm) : Prop where
  frame : vm.SameFrame vm'
  roots : vm.SameRoots vm'
  heap : vm.Extends vm'.toHeap

theorem Vm.Grown.refl (vm : Vm) : vm.Grown vm := ⟨.refl vm, .refl vm, .refl vm.toHeap⟩

theorem Vm.Grown.trans {a b c : Vm} (h : a.Grown b) (h' : b.Grown c) : a.Grown c :=
  ⟨h.frame.trans h'.frame, h.roots.trans h'.roots, h.heap.trans h'.heap⟩

theorem Vm.Grown.moves (h : vm.Grown vm') : Moves Eq vm vm' := .of_extends h.frame h.roots h.heap

theorem Vm.Grown.denotes (h : vm.Grown vm') {v t} (ht : vm.Denotes v t) : vm'.Denotes v t := h.heap.denotes ht

theorem Vm.StringLimitGrown.grown (h : vm.StringLimitGrown vm') : vm.Grown vm' := by
  rw [h]
  exact ⟨rfl, ⟨rfl, rfl, rfl, rfl, rfl, rfl, rfl, rfl⟩, .refl _⟩

theorem Vm.StringsGrown.grown (h : vm.StringsGrown vm') : vm.Grown vm' := by
  refine ⟨?_, h.sameRoots, h.extends⟩
  rw [h.frame]
  rfl

theorem appendNode_grown (kind id : StrPtr) (attrs : List NodeAttr) (children : List Nat) (vm : Vm) :
    vm.Grown (appendNode kind id attrs children vm) :=
  ⟨rfl, ⟨rfl, rfl, rfl, rfl, rfl, rfl, rfl, rfl⟩, appendNode_extends ..⟩

theorem growProactively_same (env : Env) (a c : Nat) (vm : Vm) :
    vm.Grown (growProactively env a c vm).2 ∧ vm.SameStrings (growProactively env a c vm).2 ∧
      (growProactively env a c vm).2.toHeap = vm.toHeap := by
  unfold growProactively
  split
  · obtain ⟨hf, hr, hh, hs⟩ := tryGrowNodeArenas_same env (vm.nodes.length + 1) (vm.nodeAttrs.length + a)
      (vm.nodeChildren.length + c) vm
    exact ⟨⟨hf, hr, by rw [hh]; exact .refl _⟩, hs, hh⟩
  · exact ⟨.refl vm, .refl vm, rfl⟩

theorem collectProactively_inPlace {a c src} (h : (growProactively env a c vm).1 = true) :
    collectProactively env a c src vm = .ok src (growProactively env a c vm).2 := by
  unfold growProactively at h ⊢
  simp only [collectProactively, VmM.bind_run, VmM.get_run]
  split
  · rename_i hattempt
    rw [if_pos hattempt] at h
    simp only [VmM.bind_run, VmM.modify_run, h, if_true]
    rfl
  · rfl

theorem nodeTexts_eq_some {h : Heap} {kind id attrs k i ms} (hk : h.cstr kind = some k) (hi : h.cstr id = some i)
    (hms : List.Forall₂ (fun a m => h.attrMeaning a.orEmpty = some m) attrs ms) :
    nodeTexts h kind id attrs = some (k, i, ms) := by
  simp [nodeTexts, hk, hi, mapM_eq_some.2 hms]

/-- The record that has been written, read back. -/
theorem NodeWritten.expand {k i ms cs handle} (h : NodeWritten k i ms (.array cs) vm vm' handle) :
    vm'.expand (.node handle) = some (.node k i ms, cs.map .node) ∧ vm'.StringsSound ∧
      handle = vm.nodes.length + 1 ∧ vm'.nodes.length = vm.nodes.length + 1 ∧ vm.Grown vm' := by
  obtain ⟨vm₁, kind, id, attrs, hg, hk, hi, ha, rfl, rfl⟩ := h
  have hnodes : vm₁.nodes = vm.nodes := by rw [hg.frame]
  refine ⟨appendNode_expand hk.2 hi.2 ha, ⟨hg.sound.terminated, hg.sound.intern⟩, by rw [hnodes], ?_, ?_⟩
  · simp [appendNode, ChildSource.read, hnodes]
  · exact hg.grown.trans (appendNode_grown ..)

/-- An allocation in place extends the stores by the requested node. -/
theorem createNodeRecord_inPlace {kind id attrs cs handle} (hs : vm.StringsSound)
    (h : createNodeRecord env kind id attrs (.array cs) vm = .ok handle vm')
    (hfit : createsInPlace env kind id attrs cs.length vm) :
    ∃ k i ms, nodeTexts vm.toHeap kind id attrs = some (k, i, ms) ∧ vm.Grown vm' ∧ vm'.StringsSound ∧
      handle = vm.nodes.length + 1 ∧ vm'.nodes.length = vm.nodes.length + 1 ∧
      vm'.expand (.node handle) = some (.node k i ms, cs.map .node) := by
  obtain ⟨k, i, ms, vm₁, vm₂, vm₃, src₁, src₂, hk, hi, hms, hr, hp, hf, hw⟩ := createNodeRecord_ok hs h
  have htexts := nodeTexts_eq_some hk hi hms
  obtain ⟨hfits, hgrow, hroom⟩ := hfit _ htexts
  simp only at hfits hgrow hroom
  rw [stringArenaReserve_of_fits hfits] at hr
  cases hr
  rw [ChildSource.read, collectProactively_inPlace hgrow] at hp
  cases hp
  rw [ChildSource.read, collectIfFull_idle hroom] at hf
  cases hf
  have hg₁ := (ensureStringArenaCapacity_grown env (vm.stringArena.length + nodeStringBytes k i ms) vm).grown
  obtain ⟨hg₂, _, hheap⟩ := growProactively_same env ms.length cs.length
    (ensureStringArenaCapacity env (vm.stringArena.length + nodeStringBytes k i ms) vm)
  have hnodes : (growProactively env ms.length cs.length
      (ensureStringArenaCapacity env (vm.stringArena.length + nodeStringBytes k i ms) vm)).2.nodes = vm.nodes := by
    rw [hheap, ensureStringArenaCapacity_grown env (vm.stringArena.length + nodeStringBytes k i ms) vm]
  obtain ⟨hexp, hsound, rfl, hlen, hg₃⟩ := hw.expand
  rw [hnodes] at hlen hexp ⊢
  exact ⟨k, i, ms, htexts, (hg₁.trans hg₂).trans hg₃, hsound, rfl, hlen, hexp⟩

theorem Vm.Stored.ne_null {text p} (h : vm.Stored text p) : p ≠ .null := by
  rintro rfl
  simp [Heap.cstr, Vm.Stored] at h

/-- A copy keeps what is rooted, and the pointer reads the text. -/
theorem copyStringToArena_ok {input p} (hs : vm.StringsSound) (h : copyStringToArena env input vm = .ok p vm') :
    Carries vm vm' [] [] ∧ vm'.StringsSound ∧ p ≠ .null ∧ ∀ text, vm.cstr input = some text → vm'.cstr p = some text := by
  obtain ⟨hnull, ⟨_, rfl, rfl⟩ | ⟨_, text, htext, h⟩⟩ := copyStringToArena_cases h
  · exact ⟨.of_moves_eq (.refl _), hs, hnull, fun _ ht => ht⟩
  · obtain ⟨vm₁, hr, hg, hp, _⟩ := copyStringRangeToArena_ok (cstr_clean htext) hs h
    have hcarry : Carries vm vm₁ [] [] := by
      rcases hr with rfl | hr
      · exact .of_moves_eq (.refl _)
      · exact stringArenaReserve_carries hr (.inr (by simp))
    refine ⟨hcarry.trans (.of_moves_eq hg.grown.moves), hg.sound, hp.ne_null, fun t ht => ?_⟩
    rw [htext] at ht
    cases ht
    exact hp.2

/-- A copy in place extends the string arena at most. -/
theorem copyStringToArena_inPlace {input p} (hs : vm.StringsSound) (h : copyStringToArena env input vm = .ok p vm')
    (hfit : copiesInPlace env input vm) : vm.Grown vm' := by
  obtain ⟨hnull, ⟨_, rfl, rfl⟩ | ⟨hout, text, htext, h⟩⟩ := copyStringToArena_cases h
  · exact .refl _
  · have hfit' : lookupStringOffset vm text ≠ none ∨ reserveFits env (text.length + 1) vm := by
      rcases hfit with hin | hfit
      · rw [hout] at hin
        cases hin
      · exact hfit text htext
    simp only [copyStringRangeToArena, VmM.bind_ok, VmM.get_run, Outcome.ok.injEq] at h
    obtain ⟨_, _, ⟨rfl, rfl⟩, h⟩ := h
    cases ho : lookupStringOffset vm text with
    | some offset =>
        rw [ho] at h
        cases h
        exact .refl vm
    | none =>
        rw [ho] at h
        obtain ⟨vm₁, hr, hg, _⟩ := storeString_ok (cstr_clean htext) hs h
        have hfits : reserveFits env (text.length + 1) vm := by
          rcases hfit' with hne | hfits
          · exact absurd ho hne
          · exact hfits
        rw [stringArenaReserve_of_fits hfits] at hr
        cases hr
        exact (ensureStringArenaCapacity_grown ..).grown.trans hg.grown

end Aivm
