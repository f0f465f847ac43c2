import Aivm.Model.Roots

/-!
# Growing stores

An allocation appends to the stores and leaves what is there in place. Every value keeps its meaning then.
-/

namespace Aivm

open Unfold

/-- Every store of `h` is an initial part of the same store of `h'`. -/
structure Heap.Extends (h h' : Heap) : Prop where
  strings : h.stringArena <+: h'.stringArena
  stringBlock : h'.stringBlock = h.stringBlock
  bytes : h.bytesArena <+: h'.bytesArena
  bytesBlock : h'.bytesBlock = h.bytesBlock
  nodes : h.nodes <+: h'.nodes
  attrs : h.nodeAttrs <+: h'.nodeAttrs
  children : h.nodeChildren <+: h'.nodeChildren
  pairs : h.scratchPairs <+: h'.scratchPairs

theorem prefix_getElem? {α : Type} {l l' : List α} (h : l <+: l') {i : Nat} {a : α} (hi : l[i]? = some a) :
    l'[i]? = some a := by
  obtain ⟨r, rfl⟩ := h
  rw [List.getElem?_append_left (List.getElem?_eq_some_iff.1 hi).1, hi]

theorem slice_of_prefix {α : Type} {l l' : List α} (h : l <+: l') {start count : Nat}
    (hr : start + count ≤ l.length) : slice l' start count = slice l start count := by
  obtain ⟨r, rfl⟩ := h
  unfold slice
  rw [List.drop_append_of_le_length (by omega), List.take_append_of_le_length]
  rw [List.length_drop]
  omega

namespace Heap.Extends

variable {h h' h'' : Heap}

theorem refl (h : Heap) : h.Extends h :=
  ⟨List.prefix_rfl, rfl, List.prefix_rfl, rfl, List.prefix_rfl, List.prefix_rfl, List.prefix_rfl, List.prefix_rfl⟩

theorem trans (a : h.Extends h') (b : h'.Extends h'') : h.Extends h'' :=
  ⟨a.strings.trans b.strings, b.stringBlock.trans a.stringBlock, a.bytes.trans b.bytes,
    b.bytesBlock.trans a.bytesBlock, a.nodes.trans b.nodes, a.attrs.trans b.attrs, a.children.trans b.children,
    a.pairs.trans b.pairs⟩

theorem lookupNode (e : h.Extends h') {k n} (hn : h.lookupNode k = some n) : h'.lookupNode k = some n := by
  rw [Heap.lookupNode_eq_some] at hn ⊢
  exact ⟨hn.1, prefix_getElem? e.nodes hn.2⟩

theorem lookupScratchPair (e : h.Extends h') {k p} (hp : h.lookupScratchPair k = some p) :
    h'.lookupScratchPair k = some p := by
  rw [Heap.lookupScratchPair_eq_some] at hp ⊢
  exact ⟨hp.1, prefix_getElem? e.pairs hp.2⟩

theorem cstr (e : h.Extends h') {p s} (hs : h.cstr p = some s) : h'.cstr p = some s := by
  cases p with
  | null => exact hs
  | lit t => exact hs
  | arena b o =>
      simp only [Heap.cstr, e.stringBlock] at hs ⊢
      split at hs
      · rename_i hb
        rw [if_pos hb]
        obtain ⟨r, hr⟩ := e.strings
        rw [← hr]
        by_cases ho : o ≤ h.stringArena.length
        · rw [List.drop_append_of_le_length ho]
          exact CStrings.read_append hs r
        · rw [List.drop_eq_nil_of_le (by omega)] at hs
          simp [CStrings.read] at hs
      · cases hs

theorem bytesAt (e : h.Extends h') {d n b} (hb : h.bytesAt d n = some b) : h'.bytesAt d n = some b := by
  unfold Heap.bytesAt at hb ⊢
  split at hb
  · rename_i h0
    rw [if_pos h0]
    exact hb
  · rename_i h0
    rw [if_neg h0]
    cases d with
    | null => exact hb
    | ext t => exact hb
    | arena block o =>
        simp only [e.bytesBlock] at hb ⊢
        split at hb
        · rename_i hr
          obtain ⟨r, hr'⟩ := e.bytes
          have hlen : o + n ≤ h'.bytesArena.length := by
            rw [← hr', List.length_append]
            omega
          rw [if_pos ⟨hr.1, hlen⟩]
          have hslice := slice_of_prefix e.bytes hr.2
          unfold slice at hslice
          rw [hslice]
          exact hb
        · cases hb

theorem slicesInRange (e : h.Extends h') {n} (hs : h.SlicesInRange n) : h'.SlicesInRange n := by
  have ha := e.attrs.length_le
  have hc := e.children.length_le
  unfold Heap.SlicesInRange at hs ⊢
  omega

theorem attrsOf (e : h.Extends h') {n} (hs : h.SlicesInRange n) : h'.attrsOf n = h.attrsOf n :=
  slice_of_prefix e.attrs hs.1

theorem childrenOf (e : h.Extends h') {n} (hs : h.SlicesInRange n) : h'.childrenOf n = h.childrenOf n :=
  slice_of_prefix e.children hs.2

theorem attrMeaning (e : h.Extends h') {a m} (hm : h.attrMeaning a = some m) : h'.attrMeaning a = some m := by
  obtain ⟨key, value⟩ := a
  simp only [Heap.attrMeaning, Option.bind_eq_bind, Option.bind_eq_some_iff] at hm ⊢
  obtain ⟨k, hk, hm⟩ := hm
  refine ⟨k, e.cstr hk, ?_⟩
  cases value with
  | identifier p =>
      obtain ⟨t, ht, hm⟩ := Option.bind_eq_some_iff.1 hm
      exact Option.bind_eq_some_iff.2 ⟨t, e.cstr ht, hm⟩
  | string p =>
      obtain ⟨t, ht, hm⟩ := Option.bind_eq_some_iff.1 hm
      exact Option.bind_eq_some_iff.2 ⟨t, e.cstr ht, hm⟩
  | int i => exact hm
  | bool b => exact hm

theorem nodeLabel (e : h.Extends h') {n l} (hs : h.SlicesInRange n) (hl : h.nodeLabel n = some l) :
    h'.nodeLabel n = some l := by
  simp only [Heap.nodeLabel, Option.bind_eq_bind, Option.bind_eq_some_iff, e.attrsOf hs] at hl ⊢
  obtain ⟨k, hk, i, hi, as, ha, hl⟩ := hl
  refine ⟨k, e.cstr hk, i, e.cstr hi, as, ?_, hl⟩
  rw [mapM_eq_some] at ha ⊢
  exact ha.imp fun _ _ hm => e.attrMeaning hm

theorem expand (e : h.Extends h') {v l vs} (hv : h.expand v = some (l, vs)) : h'.expand v = some (l, vs) := by
  cases v with
  | node k =>
      obtain ⟨n, hn, hs, hl, rfl⟩ := (Heap.expand_node _).1 hv
      exact (Heap.expand_node _).2 ⟨n, e.lookupNode hn, e.slicesInRange hs, e.nodeLabel hs hl, by rw [e.childrenOf hs]⟩
  | pair k =>
      obtain ⟨p, hp, rfl, rfl⟩ := (Heap.expand_pair _).1 hv
      exact (Heap.expand_pair _).2 ⟨p, e.lookupScratchPair hp, rfl, rfl⟩
  | string p =>
      cases p with
      | null => exact hv
      | _ =>
          simp only [Heap.expand, Option.map_eq_some_iff, Prod.mk.injEq] at hv ⊢
          obtain ⟨t, ht, hv⟩ := hv
          exact ⟨t, e.cstr ht, hv⟩
  | bytes d n =>
      simp only [Heap.expand, Option.map_eq_some_iff, Prod.mk.injEq] at hv ⊢
      obtain ⟨t, ht, hv⟩ := hv
      exact ⟨t, e.bytesAt ht, hv⟩
  | _ => exact hv

theorem denotes (e : h.Extends h') {v t} (ht : h.Denotes v t) : h'.Denotes v t :=
  Unfold.Denotes.extend (fun _ _ hv => e.expand hv) ht

end Heap.Extends

/-- The fields that hold roots are the same. -/
structure Vm.SameRoots (vm vm' : Vm) : Prop where
  stack : vm'.stack = vm.stack
  locals : vm'.locals = vm.locals
  tasks : vm'.completedTasks = vm.completedTasks
  pars : vm'.parValues = vm.parValues
  builders : vm'.nodeBuilders = vm.nodeBuilders
  processArgv : vm'.processArgvNodeHandle = vm.processArgvNodeHandle
  uiDefaultWindowSize : vm'.uiDefaultWindowSizeNodeHandle = vm.uiDefaultWindowSizeNodeHandle
  uiEmptyEvent : vm'.uiEmptyEventNodeHandle = vm.uiEmptyEventNodeHandle

theorem Vm.SameRoots.refl (vm : Vm) : vm.SameRoots vm := ⟨rfl, rfl, rfl, rfl, rfl, rfl, rfl, rfl⟩

theorem Vm.SameRoots.trans {a b c : Vm} (h : a.SameRoots b) (h' : b.SameRoots c) : a.SameRoots c :=
  ⟨h'.stack.trans h.stack, h'.locals.trans h.locals, h'.tasks.trans h.tasks, h'.pars.trans h.pars,
    h'.builders.trans h.builders, h'.processArgv.trans h.processArgv,
    h'.uiDefaultWindowSize.trans h.uiDefaultWindowSize, h'.uiEmptyEvent.trans h.uiEmptyEvent⟩

theorem Vm.SameRoots.rootValues {vm vm' : Vm} (s : vm.SameRoots vm') : vm'.rootValues = vm.rootValues := by
  simp [Vm.rootValues, s.stack, s.locals, s.tasks, s.pars]

theorem PairReachable.extends {h h' : Heap} {roots k} (e : h.Extends h') (hk : PairReachable h roots k) :
    PairReachable h' roots k := by
  induction hk with
  | root hm => exact .root hm
  | first _ hp hj ih => exact ih.first (e.lookupScratchPair hp) hj
  | second _ hp hj ih => exact ih.second (e.lookupScratchPair hp) hj

/-- Roots that are not touched hold the same values while the stores grow. -/
theorem Vm.Holds.extends {vm vm' : Vm} (s : vm.SameRoots vm') (e : vm.Extends vm'.toHeap) {r v} (hv : vm.Holds r v) :
    vm'.Holds r v := by
  have hpair : ∀ {k}, vm.PairReachable k → vm'.PairReachable k := by
    intro k hk
    unfold Vm.PairReachable
    rw [s.rootValues]
    exact hk.extends e
  cases r with
  | processArgv => simpa [Vm.Holds, s.processArgv] using hv
  | uiDefaultWindowSize => simpa [Vm.Holds, s.uiDefaultWindowSize] using hv
  | uiEmptyEvent => simpa [Vm.Holds, s.uiEmptyEvent] using hv
  | stack i => simpa [Vm.Holds, s.stack] using hv
  | «local» i => simpa [Vm.Holds, s.locals] using hv
  | task i => simpa [Vm.Holds, s.tasks] using hv
  | par i => simpa [Vm.Holds, s.pars] using hv
  | pairFirst k =>
      obtain ⟨hk, p, hp, rfl⟩ := hv
      exact ⟨hpair hk, p, e.lookupScratchPair hp, rfl⟩
  | pairSecond k =>
      obtain ⟨hk, p, hp, rfl⟩ := hv
      exact ⟨hpair hk, p, e.lookupScratchPair hp, rfl⟩
  | builderChild b i => simpa [Vm.Holds, s.builders] using hv

theorem Vm.Kept.of_extends {vm vm' : Vm} (s : vm.SameRoots vm') (e : vm.Extends vm'.toHeap) : vm.Kept vm' :=
  fun _ v hv => ⟨v, hv.extends s e, fun _ ht => e.denotes ht⟩

end Aivm
