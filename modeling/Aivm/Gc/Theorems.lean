import Aivm.Lib.Slots
import Aivm.Model.Lifecycle
import Aivm.Gc.Lemmas.NodeCompaction
import Aivm.Gc.Lemmas.Total
import Aivm.Gc.Lemmas.PairCompaction

/-!
# The collectors keep what is live

A node compaction keeps every tree that a root or an extra handle denotes, and nothing else. A string compaction
keeps every reachable string and always fits. A compaction of the pairs keeps exactly the reachable ones.
-/

namespace Aivm

open Unfold Sliding Intervals CStrings Worklist

theorem Vm.Holds.unique {vm : Vm} {r v w} (hv : vm.Holds r v) (hw : vm.Holds r w) : v = w := by
  cases r <;> simp only [Vm.Holds] at hv hw <;> grind

/-- The node, attribute and child arenas are well formed: the handles held by the roots and the extra handles are in
range, and so are the slices of every node, which do not overlap, and the child handles in them. -/
structure Vm.NodesWellFormed (vm : Vm) (extra : List Nat) : Prop where
  rootNode : ∀ r h, vm.Holds r (.node h) → 0 < h ∧ h ≤ vm.nodes.length
  rootPair : ∀ r k, vm.Holds r (.pair k) → 0 < k ∧ k ≤ vm.scratchPairs.length
  extra : ∀ h ∈ extra, 0 < h ∧ h ≤ vm.nodes.length
  child : ∀ n ∈ vm.nodes, ∀ c ∈ vm.childrenOf n, 0 < c ∧ c ≤ vm.nodes.length
  slices : ∀ n ∈ vm.nodes, vm.SlicesInRange n
  attrsDisjoint : vm.nodes.Pairwise fun m n =>
    Disjoint (cover NodeRecord.attrStart NodeRecord.attrCount m) (cover NodeRecord.attrStart NodeRecord.attrCount n)
  childrenDisjoint : vm.nodes.Pairwise fun m n =>
    Disjoint (cover NodeRecord.childStart NodeRecord.childCount m) (cover NodeRecord.childStart NodeRecord.childCount n)

theorem Vm.NodesWellFormed.reachable_range {vm : Vm} {extra} (wf : vm.NodesWellFormed extra) {h}
    (hr : vm.NodeReachable extra h) : 0 < h ∧ h ≤ vm.nodes.length := by
  cases hr with
  | root hroot =>
      rcases hroot with ⟨r, hr⟩ | hx
      · exact wf.rootNode r h hr
      · exact wf.extra h hx
  | child _ hn hc => exact wf.child _ (List.mem_of_getElem? ((Heap.lookupNode_eq_some _).1 hn).2) _ hc

theorem Moved.inj_iff {order livePairs v w v' w'} (hv : Moved order livePairs v v') (hw : Moved order livePairs w w') :
    v' = w' ↔ v = w := by
  cases hv with
  | node hj =>
      cases hw with
      | node hk =>
          rw [Value.node.injEq, Value.node.injEq]
          exact ⟨place_inj hj, congrArg _⟩
      | pair _ => simp
      | other hn _ => exact ⟨fun h => absurd h.symm (hn _), fun h => absurd h.symm (hn _)⟩
  | pair _ =>
      cases hw with
      | node _ => simp
      | pair _ => rfl
      | other _ _ => rfl
  | other hn _ =>
      cases hw with
      | node _ => exact ⟨fun h => absurd h (hn _), fun h => absurd h (hn _)⟩
      | pair _ => rfl
      | other _ _ => rfl

namespace NodeCompacted

variable {env : Env} {extra : List Nat} {vm vm' : Vm} {live livePairs : List Nat} {arenas : NodeArenas}

theorem mem_order (c : NodeCompacted env extra vm vm' live livePairs arenas) (wf : vm.NodesWellFormed extra) {h} :
    h ∈ liveOrder vm live ↔ vm.NodeReachable extra h := by
  obtain ⟨_, _, _, hlive, _⟩ := markLiveNodeHandles_spec c.marked
  rw [mem_liveOrder, hlive]
  refine ⟨fun h => h.1.1, fun h => ?_⟩
  have hr := wf.reachable_range h
  exact ⟨⟨h, hr⟩, hr⟩

theorem counts_le (c : NodeCompacted env extra vm vm' live livePairs arenas) (wf : vm.NodesWellFormed extra) :
    vm'.nodes.length = (liveOrder vm live).length ∧ vm'.nodes.length ≤ vm.nodes.length ∧
      vm'.nodeAttrs.length ≤ vm.nodeAttrs.length ∧ vm'.nodeChildren.length ≤ vm.nodeChildren.length := by
  obtain ⟨hn, ha, hc⟩ := compactNodes_counts c.rebuilt
  have hsub := liveNodes_sublist vm live
  have hattr := sum_count_le (n := vm.nodeAttrs.length) (fun n hn => (wf.slices n (hsub.subset hn)).1)
    (wf.attrsDisjoint.sublist hsub)
  have hchild := sum_count_le (n := vm.nodeChildren.length) (fun n hn => (wf.slices n (hsub.subset hn)).2)
    (wf.childrenDisjoint.sublist hsub)
  have hlen : (liveOrder vm live).length ≤ vm.nodes.length := by
    have := List.length_filter_le (fun h => decide (h ∈ live)) (List.range' 1 vm.nodes.length)
    rwa [List.length_range'] at this
  rw [c.heap]
  simp only [List.length_nil, Nat.zero_add] at hn ha hc ⊢
  omega

/-- In well-formed arenas a moved value denotes the tree it denoted before. -/
theorem denotes_iff (c : NodeCompacted env extra vm vm' live livePairs arenas) (wf : vm.NodesWellFormed extra) {v w}
    (hvw : Moved (liveOrder vm live) livePairs v w) (t : Unfold.Tree Label) : vm.Denotes v t ↔ vm'.Denotes w t :=
  c.simulates.denotes_iff (fun _ _ hR hv => c.expand_none wf.slices hR hv) hvw

end NodeCompacted

/-- Node compaction keeps every live tree: each root and each extra handle denotes the same tree before and after,
handles stay equal or different, the handle map is injective and increasing on what is reachable, no arena grows,
and the nodes that remain are exactly the reachable ones. -/
theorem compactNodeArenas_preserves_live_trees (env : Env) {vm vm' : Vm} {extra : List Nat} {map : Nat → Nat}
    (wf : vm.NodesWellFormed extra) (h : compactNodeArenasWithMap env extra vm = .ok map vm') :
    (∀ r v, vm.Holds r v → ∃ w, vm'.Holds r w ∧ ∀ t, vm.Denotes v t ↔ vm'.Denotes w t) ∧
    (∀ r s v w v' w', vm.Holds r v → vm.Holds s w → vm'.Holds r v' → vm'.Holds s w' → (v' = w' ↔ v = w)) ∧
    (∀ j k, vm.NodeReachable extra j → vm.NodeReachable extra k →
      (map j = map k → j = k) ∧ (j < k → map j < map k)) ∧
    (∀ k ∈ extra, ∀ t, vm.Denotes (.node k) t ↔ vm'.Denotes (.node (map k)) t) ∧
    (vm'.nodes.length ≤ vm.nodes.length ∧ vm'.nodeAttrs.length ≤ vm.nodeAttrs.length ∧
      vm'.nodeChildren.length ≤ vm.nodeChildren.length) ∧
    (∀ k, vm.NodeReachable extra k → 0 < map k ∧ map k ≤ vm'.nodes.length ∧
      ∀ t, vm.Denotes (.node k) t ↔ vm'.Denotes (.node (map k)) t) ∧
    ∀ m, 0 < m → m ≤ vm'.nodes.length → ∃ k, vm.NodeReachable extra k ∧ map k = m := by
  rcases compactNodeArenasWithMap_ok h with ⟨hn, rfl, rfl⟩ | ⟨live, livePairs, arenas, c, rfl⟩
  · -- without nodes there is nothing to move, and no handle is in range
    have hno : ∀ k, ¬ vm.NodeReachable extra k := by
      intro k hk
      have := wf.reachable_range hk
      omega
    refine ⟨fun r v hv => ⟨v, hv, fun t => Iff.rfl⟩, ?_, fun j k hj => absurd hj (hno j), ?_,
      ⟨Nat.le_refl _, Nat.le_refl _, Nat.le_refl _⟩, fun k hk => absurd hk (hno k), ?_⟩
    · intro r s v w v' w' hv hw hv' hw'
      have hv'' : vm.Holds r v' := hv'
      have hw'' : vm.Holds s w' := hw'
      rw [hv.unique hv'', hw.unique hw'']
    · exact fun k hk => absurd (.root (.inr hk)) (hno k)
    · intro m h0 h1
      have h1' : m ≤ vm.nodes.length := h1
      omega
  · have wf' : (countNodeGcAttempt vm).NodesWellFormed extra :=
      ⟨wf.rootNode, wf.rootPair, wf.extra, wf.child, wf.slices, wf.attrsDisjoint, wf.childrenDisjoint⟩
    have hmem : ∀ {k}, vm.NodeReachable extra k → k ∈ liveOrder (countNodeGcAttempt vm) live :=
      fun hk => (c.mem_order wf').2 hk
    have hsorted := liveOrder_sorted (countNodeGcAttempt vm) live
    obtain ⟨hlen, hcounts⟩ := c.counts_le wf'
    refine ⟨fun r v hv => ?_, ?_, fun j k hj hk => ?_, fun k hk t => ?_, hcounts, fun k hk => ⟨?_, ?_, fun t => ?_⟩, ?_⟩
    · obtain ⟨w, hw, hvw⟩ := c.holds_forward hv
      exact ⟨w, hw, c.denotes_iff wf' hvw⟩
    · intro r s v w v' w' hv hw hv' hw'
      obtain ⟨v₁, hv₁, hvv⟩ := c.holds_forward hv
      obtain ⟨w₁, hw₁, hww⟩ := c.holds_forward hw
      rw [hv'.unique hv₁, hw'.unique hw₁]
      exact hvv.inj_iff hww
    · exact ⟨place_inj (hmem hj), (place_lt hsorted (hmem hj) (hmem hk)).2⟩
    · exact c.denotes_iff wf' (.node (hmem (.root (.inr hk)))) t
    · exact place_pos.2 (hmem hk)
    · exact hlen ▸ place_le
    · exact c.denotes_iff wf' (.node (hmem hk)) t
    · intro m h0 h1
      obtain ⟨k, hk, hkm⟩ := exists_place (hsorted.imp fun h => Nat.ne_of_lt h) h0 (hlen ▸ h1)
      exact ⟨k, (c.mem_order wf').1 hk, hkm⟩

/-- Three nodes: an unreachable one, a leaf, and its parent, which is on the stack. -/
def threeNodes : Vm :=
  { freshVm .production ⟨[], [], []⟩ with
    nodes := [⟨.lit [65], .lit [1], 0, 0, 0, 0⟩, ⟨.lit [66], .lit [2], 0, 1, 0, 0⟩, ⟨.lit [67], .lit [3], 1, 0, 0, 1⟩]
    nodeAttrs := [⟨.lit [7], .int 5⟩]
    nodeChildren := [2]
    stack := [.int 1, .node 3] }

theorem threeNodes_wellFormed : threeNodes.NodesWellFormed [2] := by
  refine ⟨?_, ?_, by decide, by decide, by decide, by decide, by decide⟩
  · intro r h hr
    have hmem : ∀ v ∈ threeNodes.heldValues, v.nodeHandle ≤ 3 ∧ v ≠ .node 0 := by decide
    have := hmem _ hr.mem_heldValues
    simp only [Value.nodeHandle, ne_eq, Value.node.injEq] at this
    exact ⟨by omega, this.1⟩
  · intro r k hr
    have hmem : threeNodes.heldValues = [.int 1, .node 3] := by decide
    have := hr.mem_heldValues
    rw [hmem] at this
    simp at this

theorem compactNodeArenas_threeNodes :
    ∃ map vm', compactNodeArenasWithMap Env.generous [2] threeNodes = .ok map vm' ∧ vm'.nodes.length = 2 ∧
      ∀ t, threeNodes.Denotes (.node 2) t ↔ vm'.Denotes (.node (map 2)) t :=
  ⟨_, _, rfl, rfl, (compactNodeArenas_preserves_live_trees .generous threeNodes_wellFormed rfl).2.2.2.1 2 (by decide)⟩

/-! ## String compaction -/

theorem Vm.PointsAt.unique {vm : Vm} {slot p q} (hp : vm.PointsAt slot p) (hq : vm.PointsAt slot q) : p = q := by
  cases slot with
  | root r => exact Value.string.inj (Vm.Holds.unique hp hq)
  | kind h => simp only [Vm.PointsAt] at hp hq; grind
  | id h => simp only [Vm.PointsAt] at hp hq; grind
  | key h i => simp only [Vm.PointsAt] at hp hq; grind
  | text h i => simp only [Vm.PointsAt] at hp hq; grind

/-- A pointer into a well-formed arena reads a string. -/
theorem Vm.StringsWellFormed.cstr {vm : Vm} {ss slot p} (hs : vm.StringsWellFormed ss) (hp : vm.PointsAt slot p)
    (hin : vm.pointerInStringArena p = true) : vm.cstr p = some (vm.arenaText p) := by
  rcases hs.pointers slot p hp with hout | ⟨i, hi, rfl⟩
  · rw [hout] at hin
    cases hin
  · have hread := read_start hs.clean (List.getElem?_eq_getElem hi)
    obtain ⟨hclean, rest, hrest⟩ := read_eq_some.1 hread
    simp only [Heap.cstr, ↓reduceIte, Heap.arenaText, hs.arena, hread]
    rw [hrest, takeWhile_terminated hclean]

/-- String compaction succeeds and keeps every reachable string: a pointer into the arena reads the same bytes
afterwards, another pointer is untouched, equal contents share one copy, and the new arena is a concatenation of
distinct strings that is no longer than the old one. -/
theorem compactStringArena_preserves_strings {env : Env} {vm : Vm} {ss : List (List Byte)} (ha : env.Allocates)
    (wf : vm.StoresWellFormed) (hs : vm.StringsWellFormed ss) :
    ∃ vm', compactStringArena env vm = .ok () vm' ∧
      (∀ slot p, vm.PointsAt slot p → ∃ p', vm'.PointsAt slot p' ∧
        (vm.pointerInStringArena p = true → ∃ s, vm.cstr p = some s ∧ vm'.cstr p' = some s) ∧
        (vm.pointerInStringArena p = false → p' = p ∧ ∀ s, vm.cstr p = some s → vm'.cstr p = some s)) ∧
      (∀ slot slot' p q p' q', vm.PointsAt slot p → vm.PointsAt slot' q → vm'.PointsAt slot p' →
        vm'.PointsAt slot' q' → vm.pointerInStringArena p = true → vm.pointerInStringArena q = true →
        vm.cstr p = vm.cstr q → p' = q') ∧
      vm'.stringArena.length ≤ vm.stringArena.length ∧
      ∃ ts, Clean 0 ts ∧ ts.Nodup ∧ vm'.stringArena = encode 0 ts := by
  obtain ⟨vm', h, hf⟩ := compactStringArena_total ha wf hs
  have hle : vm'.stringArena.length ≤ vm.stringArena.length := by
    rw [hs.arena]
    exact hf.length_le
  obtain ⟨ts, hc, hnd, _, he⟩ := hf
  refine ⟨vm', h, ?_, ?_, hle, ts, hc, hnd, he⟩
  · intro slot p hp
    rcases compactStringArena_ok h with ⟨_, rfl⟩ | ⟨live, livePairs, c⟩
    · exact ⟨p, hp, fun hin => ⟨_, hs.cstr hp hin, hs.cstr hp hin⟩, fun _ => ⟨rfl, fun _ h => h⟩⟩
    · obtain ⟨p', hp', hm⟩ := c.pointsAt_forward hp
      have hblock : vm'.stringBlock = freshBlock env vm := by rw [c.heap]
      refine ⟨p', hp', fun hin => ⟨_, hs.cstr hp hin, hm.cstr hblock rfl (hs.cstr hp hin)⟩, fun hout => ?_⟩
      rcases hm with ⟨_, rfl⟩ | ⟨hin, _⟩
      · exact ⟨rfl, fun s hs => PtrMoved.cstr (.inl ⟨hout, rfl⟩) hblock rfl hs⟩
      · rw [hin] at hout
        cases hout
  · intro slot slot' p q p' q' hp hq hp' hq' hpin hqin hpq
    rcases compactStringArena_ok h with ⟨h0, rfl⟩ | ⟨live, livePairs, c⟩
    · -- an empty arena has no pointers into it
      cases p <;> simp [Heap.pointerInStringArena, h0] at hpin
    · obtain ⟨p₁, hp₁, hpm⟩ := c.pointsAt_forward hp
      obtain ⟨q₁, hq₁, hqm⟩ := c.pointsAt_forward hq
      rw [hp'.unique hp₁, hq'.unique hq₁]
      rw [hs.cstr hp hpin, hs.cstr hq hqin, Option.some.injEq] at hpq
      rcases hpm with ⟨hout, _⟩ | ⟨_, j, rfl, hj⟩
      · rw [hpin] at hout
        cases hout
      rcases hqm with ⟨hout, _⟩ | ⟨_, k, rfl, hk⟩
      · rw [hqin] at hout
        cases hout
      rw [← hpq] at hk
      rw [hj.unique c.moved.arena hk]

/-- An arena with a repeated string and one that nothing refers to. -/
def threeStrings : Vm :=
  { freshVm .production ⟨[], [], []⟩ with
    stringArena := encode 0 [[65], [66, 66], [65]]
    nodes := [⟨.arena 0 0, .lit [1], 0, 0, 0, 0⟩]
    stack := [.string (.arena 0 5), .node 1, .string (.lit [7])] }

theorem threeStrings_stores : threeStrings.StoresWellFormed := by
  refine ⟨fun k hk => ?_, by decide, by decide, by decide, fun h n _ hn => ?_⟩
  · have hroots : threeStrings.rootValues = [.string (.arena 0 5), .node 1, .string (.lit [7])] := rfl
    have hnone : threeStrings.scratchPairs = [] := rfl
    have hpairs : ∀ k, threeStrings.lookupScratchPair k = none := fun k => by simp [Heap.lookupScratchPair, hnone]
    cases hk with
    | root hm => simp [hroots] at hm
    | first _ hp _ =>
        rw [hpairs] at hp
        cases hp
    | second _ hp _ =>
        rw [hpairs] at hp
        cases hp
  · have hall : ∀ n ∈ threeStrings.nodes, threeStrings.SlicesInRange n := by decide
    exact hall n (List.mem_of_getElem? ((Heap.lookupNode_eq_some _).1 hn).2)

theorem threeStrings_strings : threeStrings.StringsWellFormed [[65], [66, 66], [65]] := by
  refine ⟨by simp [Clean], rfl, by decide, fun slot p hp => ?_⟩
  have hall : ∀ p ∈ threeStrings.stringPointers, threeStrings.pointerInStringArena p = false ∨
      p = .arena 0 0 ∨ p = .arena 0 5 := by decide
  rcases hall p hp.mem_stringPointers with hout | rfl | rfl
  · exact .inl hout
  · exact .inr ⟨0, by decide, rfl⟩
  · exact .inr ⟨2, by decide, rfl⟩

theorem compactStringArena_threeStrings :
    ∃ vm', compactStringArena Env.generous threeStrings = .ok () vm' ∧ vm'.stringArena = [65, 0] ∧
      threeStrings.stringArena.length = 7 ∧ ∃ p', vm'.PointsAt (.root (.stack 0)) p' ∧ vm'.cstr p' = some [65] := by
  obtain ⟨vm', h, hpoints, _⟩ := compactStringArena_preserves_strings (fun _ _ => rfl : Env.generous.Allocates)
    threeStrings_stores threeStrings_strings
  obtain ⟨p', hp', hin, _⟩ := hpoints (.root (.stack 0)) (.arena 0 5) rfl
  obtain ⟨s, hs, hs'⟩ := hin (by decide)
  have hread : threeStrings.cstr (.arena 0 5) = some [65] := by decide
  rw [hread] at hs
  cases hs
  refine ⟨vm', h, ?_, by decide, p', hp', hs'⟩
  cases h
  decide

/-! ## Scratch pairs -/

/-- A state of the marking of pairs: what has been marked and waits, and the values found but not visited yet. -/
abbrev Vm.PairMarking (vm : Vm) : Marks Nat → List Value → Prop :=
  Runs (pairPolicy vm) (pairToMark vm) (pairFields vm) vm.rootValues

theorem Vm.PairMarking.bounded {vm : Vm} {s items} (h : vm.PairMarking s items) :
    Bounded (List.range' 1 vm.scratchPairs.length) s := by
  refine Runs.bounded (fun v k hk => ?_) h
  obtain ⟨_, h0, h1⟩ := pairToMark_eq_some.1 hk
  rw [List.mem_range'_1]
  omega

theorem markLiveScratchPairHandles_marking {env : Env} {vm : Vm} {live}
    (h : markLiveScratchPairHandles env vm = .ok live) (hne : vm.scratchPairs.length ≠ 0) :
    vm.PairMarking ⟨live, []⟩ [] := by
  unfold markLiveScratchPairHandles at h
  rw [if_neg hne] at h
  split at h
  · obtain ⟨s, hs, hd⟩ := Results.bind_ok.1 h
    apply Runs.drain _ hd
    apply Runs.visitItems _ hs
    rw [List.append_nil]
    exact .start
  · cases h

namespace PairsSlid

variable {vm vm' : Vm} {order : List Nat}

theorem denotes_iff (c : PairsSlid order vm vm') {v w} (hvw : PairSlid order v w) (t : Unfold.Tree Label) :
    vm.Denotes v t ↔ vm'.Denotes w t := by
  refine c.simulates.denotes_iff (fun v w hvw hv => ?_) hvw
  cases hvw with
  | pair hk =>
      obtain ⟨p, _, hp, _⟩ := c.lookupScratchPair hk
      simp [Heap.expand, hp] at hv
  | other hne => rw [c.expand_eq hne, hv]

/-- Without pairs nothing slides. -/
theorem of_unpaired (hnone : vm.scratchPairs = []) (hroots : ∀ k, .pair k ∉ vm.rootValues) : PairsSlid [] vm vm := by
  have hslid : ∀ v ∈ vm.rootValues, PairSlid [] v v := fun v hv => .other fun k hk => hroots k (hk ▸ hv)
  simp only [Vm.rootValues, List.mem_append, List.mem_map] at hslid
  refine ⟨by cases vm; rfl, by rw [hnone]; exact .nil, ?_, ?_, ?_, ?_⟩
  · exact List.forall₂_same.2 fun v hv => hslid v (.inl (.inl (.inl hv)))
  · exact List.forall₂_same.2 fun v hv => hslid v (.inl (.inl (.inr hv)))
  · exact List.forall₂_same.2 fun t ht => ⟨rfl, hslid t.result (.inl (.inr ⟨t, ht, rfl⟩))⟩
  · exact List.forall₂_same.2 fun v hv => hslid v (.inr hv)

end PairsSlid

/-- The compaction of a VM whose reachable pairs exist succeeds and slides exactly the reachable pairs. -/
theorem compactScratchPairs_slides {env : Env} {vm : Vm} (ha : env.Allocates)
    (hr : ∀ k, vm.PairReachable k → 0 < k ∧ k ≤ vm.scratchPairs.length) :
    ∃ vm' order, compactScratchPairs env vm = .ok () vm' ∧ order.Pairwise (· < ·) ∧
      (∀ k, k ∈ order ↔ vm.PairReachable k) ∧ PairsSlid order vm vm' := by
  by_cases hne : vm.scratchPairs.length = 0
  · have hnone : ∀ k, ¬ vm.PairReachable k := fun k hk => by
      have := hr k hk
      omega
    refine ⟨vm, [], ?_, .nil, fun k => by simpa using hnone k, ?_⟩
    · simp only [compactScratchPairs, VmM.bind_run, VmM.get_run, hne, ↓reduceIte, VmM.pure_run]
    · exact .of_unpaired (List.length_eq_zero_iff.1 hne) fun k hk => hnone k (.root hk)
  · obtain ⟨live, hlive⟩ := markLiveScratchPairHandles_total ha hr
    have horder : ∀ k, k ∈ livePairOrder vm live ↔ vm.PairReachable k := by
      intro k
      rw [mem_livePairOrder hlive]
      exact ⟨fun h => h.1, fun h => ⟨h, lookupScratchPair_of_range (hr k h).1 (hr k h).2⟩⟩
    obtain ⟨vm', hslide⟩ : ∃ vm', slideScratchPairs (livePairOrder vm live) vm = some vm' := by
      refine slideScratchPairs_total (fun k hk => (horder k).2 (.root hk))
        (fun k hk => ((mem_livePairOrder hlive).1 hk).2) fun k p j hk hp hj => ?_
      rw [horder] at hk ⊢
      rcases hj with hj | hj
      · exact hk.first hp hj
      · exact hk.second hp hj
    refine ⟨vm', livePairOrder vm live, ?_, livePairOrder_sorted vm live, horder, slideScratchPairs_ok hslide⟩
    simp only [compactScratchPairs, VmM.bind_run, VmM.get_run, if_neg hne, Env.allocate, ha _ _, ↓reduceIte,
      VmM.lift, hlive, VmM.updateOr, hslide]

/-- The collection of the pairs is exact. Marking succeeds, its worklist never holds more than the number of pairs,
and it marks the reachable pairs. The compaction then succeeds and keeps these in their order; the roots and the
components of the kept pairs differ in pair handles only, equal handles stay equal and different ones different, and
every value denotes what it denoted. -/
theorem compactScratchPairs_keeps_reachable (env : Env) {vm : Vm} (ha : env.Allocates)
    (hr : ∀ k, vm.PairReachable k → 0 < k ∧ k ≤ vm.scratchPairs.length) :
    (∀ s items, vm.PairMarking s items → s.pending.length ≤ vm.scratchPairs.length) ∧
    (∃ live, markLiveScratchPairHandles env vm = .ok live ∧ (∀ k, k ∈ live ↔ vm.PairReachable k) ∧
      (vm.scratchPairs.length ≠ 0 → live.Nodup ∧ vm.PairMarking ⟨live, []⟩ [])) ∧
    ∃ vm' order, compactScratchPairs env vm = .ok () vm' ∧ order.Pairwise (· < ·) ∧
      (∀ k, k ∈ order ↔ vm.PairReachable k) ∧ PairsSlid order vm vm' ∧
      (∀ v w v' w', PairSlid order v w → PairSlid order v' w' → (v = v' ↔ w = w')) ∧
      ∀ v w, PairSlid order v w → ∀ t, vm.Denotes v t ↔ vm'.Denotes w t := by
  refine ⟨fun s items h => ?_, ?_, ?_⟩
  · have hb := h.bounded
    have hle := hb.length_le
    rw [List.length_range'] at hle
    exact Nat.le_trans hb.le hle
  · obtain ⟨live, hlive⟩ := markLiveScratchPairHandles_total ha hr
    refine ⟨live, hlive, fun k => ?_, fun hne => ?_⟩
    · rw [mem_livePairs hlive]
      exact ⟨fun h => h.1, fun h => ⟨h, lookupScratchPair_of_range (hr k h).1 (hr k h).2⟩⟩
    · have hm := markLiveScratchPairHandles_marking hlive hne
      exact ⟨hm.bounded.nodup, hm⟩
  · obtain ⟨vm', order, h, hsorted, hmem, c⟩ := compactScratchPairs_slides ha hr
    refine ⟨vm', order, h, hsorted, hmem, c, fun v w v' w' hvw hvw' => ?_, fun v w hvw => c.denotes_iff hvw⟩
    cases hvw with
    | pair hk =>
        cases hvw' with
        | pair hk' => exact ⟨fun he => by rw [Value.pair.inj he], fun he => by rw [place_inj hk (Value.pair.inj he)]⟩
        | other hne => exact ⟨fun he => absurd he.symm (hne _), fun he => absurd he.symm (hne _)⟩
    | other hne =>
        cases hvw' with
        | pair _ => exact ⟨fun he => absurd he (hne _), fun he => absurd he (hne _)⟩
        | other _ => rfl

/-- A dead pair, and a pair shared by the stack and a local. -/
def sharedPair : Vm :=
  { freshVm .production ⟨[], [], []⟩ with
    scratchPairs := [⟨.int 7, .null⟩, ⟨.int 1, .int 2⟩, ⟨.pair 2, .pair 2⟩]
    stack := [.pair 3]
    locals := [.pair 2] }

theorem sharedPair_range (k : Nat) (h : sharedPair.PairReachable k) : 0 < k ∧ k ≤ sharedPair.scratchPairs.length := by
  have hroots : ∀ v ∈ sharedPair.rootValues, sharedPair.InRange v := by
    intro v hv
    have hv' : v = .pair 3 ∨ v = .pair 2 := by simpa [sharedPair, Vm.rootValues, freshVm, resetFields] using hv
    rcases hv' with rfl | rfl <;> exact ⟨by decide, by decide⟩
  have hpairs : ∀ p ∈ sharedPair.scratchPairs, ∀ j, p.first = .pair j ∨ p.second = .pair j → j = 2 := by
    intro p hp j hj
    have hp' : p = ⟨.int 7, .null⟩ ∨ p = ⟨.int 1, .int 2⟩ ∨ p = ⟨.pair 2, .pair 2⟩ := by simpa [sharedPair] using hp
    rcases hp' with rfl | rfl | rfl <;> simp_all
  have hmem : ∀ {i p}, sharedPair.lookupScratchPair i = some p → p ∈ sharedPair.scratchPairs :=
    fun hp => List.mem_of_getElem? ((Heap.lookupScratchPair_eq_some _).1 hp).2
  cases h with
  | root hm => exact hroots _ hm
  | first _ hp hj =>
      rw [hpairs _ (hmem hp) _ (.inl hj)]
      decide
  | second _ hp hj =>
      rw [hpairs _ (hmem hp) _ (.inr hj)]
      decide

theorem compactScratchPairs_sharedPair :
    ∃ vm', compactScratchPairs Env.generous sharedPair = .ok () vm' ∧
      vm'.scratchPairs = [⟨.int 1, .int 2⟩, ⟨.pair 1, .pair 1⟩] ∧ vm'.stack = [.pair 2] ∧ vm'.locals = [.pair 1] ∧
      ∃ order : List Nat, ∀ k, k ∈ order ↔ sharedPair.PairReachable k := by
  obtain ⟨_, _, vm', order, h, _, hmem, _⟩ :=
    compactScratchPairs_keeps_reachable Env.generous (fun _ _ => rfl) sharedPair_range
  refine ⟨vm', h, ?_, ?_, ?_, order, hmem⟩ <;> cases h <;> decide

end Aivm
