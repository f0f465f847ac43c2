import Aivm.Gc.Mark
import Aivm.Lib.Results

/-!
# A successful mark finds exactly what is reachable
-/

namespace Aivm

open Worklist

variable {env : Env} {vm : Vm}

/-! ## Scratch pairs -/

theorem pairToMark_eq_some {v k} : pairToMark vm v = .ok (some k) ↔ v = .pair k ∧ 0 < k ∧ k ≤ vm.scratchPairs.length := by
  cases v with
  | pair j =>
      simp only [pairToMark]
      split
      · simp only [Except.ok.injEq, Option.some.injEq, Value.pair.injEq]
        constructor
        · rintro rfl
          exact ⟨rfl, by assumption⟩
        · exact fun h => h.1
      · rename_i hj
        simp only [reduceCtorEq, Value.pair.injEq, false_iff, not_and]
        rintro rfl h0
        exact fun h1 => hj ⟨h0, h1⟩
  | _ => simp [pairToMark]

theorem pairToMark_ok {v r k} (h : pairToMark vm v = .ok r) (hv : v = .pair k) :
    r = some k ∧ 0 < k ∧ k ≤ vm.scratchPairs.length := by
  subst hv
  simp only [pairToMark] at h
  split at h
  · cases h
    exact ⟨rfl, by assumption⟩
  · cases h

theorem lookupScratchPair_of_range {k} (h0 : 0 < k) (h1 : k ≤ vm.scratchPairs.length) :
    ∃ p, vm.lookupScratchPair k = some p :=
  ⟨vm.scratchPairs[k - 1], by simp [Heap.lookupScratchPair, h0]⟩

theorem lookupScratchPair_range {k p} (h : vm.lookupScratchPair k = some p) :
    0 < k ∧ k ≤ vm.scratchPairs.length := by
  obtain ⟨h0, h1⟩ := (Heap.lookupScratchPair_eq_some _).1 h
  have := (List.getElem?_eq_some_iff.1 h1).1
  omega

/-- A pair mark that succeeds marks the pairs reachable from the root values. -/
theorem markLiveScratchPairHandles_reach {live} (h : markLiveScratchPairHandles env vm = .ok live)
    (hne : vm.scratchPairs.length ≠ 0) :
    (∀ v ∈ vm.rootValues, ∀ k, v = .pair k → k ∈ live ∧ ∃ p, vm.lookupScratchPair k = some p) ∧
      (∀ k ∈ live, vm.PairReachable k) ∧ ∀ k ∈ live, Closed (pairToMark vm) (pairFields vm) live k := by
  unfold markLiveScratchPairHandles at h
  rw [if_neg hne] at h
  split at h
  · obtain ⟨s, hs, hd⟩ := Results.bind_ok.1 h
    have hv := visitItems_visited hs
    have hinv : Inv (pairToMark vm) (pairFields vm) (· ∈ s.marked) s := by
      refine ⟨fun _ h => h, fun a ha => .base ha, ?_, ?_⟩
      · intro a ha
        exact (hv.pending a ha).elim (fun hn => by simp at hn) id
      · intro a ha hn
        exact absurd (hv.waits a ha (by simp)) hn
    obtain ⟨hreach, hclosed⟩ := (drain_inv hinv hd).result
    refine ⟨?_, ?_, hclosed⟩
    · intro v hmem k hk
      obtain ⟨r, hr, hin⟩ := hv.resolved v hmem
      obtain ⟨hr', h0, h1⟩ := pairToMark_ok hr hk
      exact ⟨(hreach k).2 (.base (hin k hr')), lookupScratchPair_of_range h0 h1⟩
    · intro k hk
      have hr := (hreach k).1 hk
      clear hk
      induction hr with
      | base hm =>
          rcases hv.source _ hm with hn | ⟨v, hmem, hv⟩
          · simp at hn
          · exact .root ((pairToMark_eq_some.1 hv).1 ▸ hmem)
      | step _ he hb hc ih =>
          have hb' := (pairToMark_eq_some.1 hc).1
          unfold pairFields at he
          split at he
          · rename_i p hp
            simp only [Except.ok.injEq] at he
            subst he
            simp only [List.mem_cons, List.not_mem_nil, or_false] at hb
            rcases hb with hb | hb
            · exact ih.first hp (hb ▸ hb')
            · exact ih.second hp (hb ▸ hb')
          · simp only [Except.ok.injEq] at he
            subst he
            simp at hb
  · cases h

/-- In a VM with pairs a pair mark succeeds only if every reachable pair exists, and marks it. -/
theorem PairReachable.mem_live {live} (h : markLiveScratchPairHandles env vm = .ok live)
    (hne : vm.scratchPairs.length ≠ 0) {k} (hk : vm.PairReachable k) :
    k ∈ live ∧ ∃ p, vm.lookupScratchPair k = some p := by
  obtain ⟨hroots, -, hclosed⟩ := markLiveScratchPairHandles_reach h hne
  have hfield : ∀ {k p v j}, k ∈ live → vm.lookupScratchPair k = some p → v ∈ [p.first, p.second] → v = .pair j →
      j ∈ live ∧ ∃ q, vm.lookupScratchPair j = some q := by
    intro k p v j hk hp hv hj
    obtain ⟨items, he, hitems⟩ := hclosed k hk
    simp only [pairFields, hp, Except.ok.injEq] at he
    subst he
    obtain ⟨r, hr, hin⟩ := hitems v hv
    obtain ⟨hr', h0, h1⟩ := pairToMark_ok hr hj
    exact ⟨hin j hr', lookupScratchPair_of_range h0 h1⟩
  induction hk with
  | root hm => exact hroots _ hm _ rfl
  | first _ hp hj ih => exact hfield ih.1 hp (List.mem_cons_self ..) hj
  | second _ hp hj ih => exact hfield ih.1 hp (List.mem_cons_of_mem _ (List.mem_cons_self ..)) hj

/-- The pairs marked are the reachable ones that exist. -/
theorem mem_livePairs {live} (h : markLiveScratchPairHandles env vm = .ok live) {k} :
    k ∈ live ↔ vm.PairReachable k ∧ ∃ p, vm.lookupScratchPair k = some p := by
  by_cases hne : vm.scratchPairs.length = 0
  · have hlive : live = [] := by
      simp only [markLiveScratchPairHandles, hne, ↓reduceIte, Except.ok.injEq] at h
      exact h.symm
    subst hlive
    simp only [List.not_mem_nil, false_iff, not_and, not_exists]
    intro _ p hp
    have := lookupScratchPair_range hp
    omega
  · refine ⟨fun hk => ?_, fun hk => (hk.1.mem_live h hne).1⟩
    have hr := (markLiveScratchPairHandles_reach h hne).2.1 k hk
    exact ⟨hr, (hr.mem_live h hne).2⟩

theorem mem_livePairValues {live : List Nat} {v} :
    v ∈ livePairValues vm live ↔
      ∃ k ∈ live, ∃ p, vm.lookupScratchPair k = some p ∧ (v = p.first ∨ v = p.second) := by
  simp only [livePairValues, List.mem_flatMap, Prod.exists, List.mem_zipIdx_iff_getElem?]
  constructor
  · rintro ⟨p, i, hp, hv⟩
    split at hv
    · rename_i hi
      refine ⟨i + 1, hi, p, by simp [Heap.lookupScratchPair, hp], ?_⟩
      simpa using hv
    · simp at hv
  · rintro ⟨k, hk, p, hp, hv⟩
    obtain ⟨h0, h1⟩ := (Heap.lookupScratchPair_eq_some _).1 hp
    refine ⟨p, k - 1, h1, ?_⟩
    rw [if_pos (by rwa [Nat.sub_add_cancel h0])]
    simpa using hv

/-! ## Nodes -/

theorem nodeToMark_eq_some {h k} : nodeToMark vm h = .ok (some k) ↔ h = k ∧ 0 < k ∧ k ≤ vm.nodes.length := by
  unfold nodeToMark
  split
  · simp only [Except.ok.injEq, Option.some.injEq]
    constructor
    · rintro rfl
      exact ⟨rfl, by assumption⟩
    · exact fun h => h.1
  · rename_i hn
    simp only [Except.ok.injEq, reduceCtorEq, false_iff]
    rintro ⟨rfl, hk⟩
    exact hn hk

theorem extraToMark_ok {h r} (he : extraToMark vm h = .ok r) :
    (h = 0 ∧ r = none) ∨ (0 < h ∧ h ≤ vm.nodes.length ∧ r = some h) := by
  unfold extraToMark at he
  split at he
  · cases he
    exact .inl ⟨by assumption, rfl⟩
  · split at he
    · cases he
    · cases he
      exact .inr ⟨by omega, by omega, rfl⟩

theorem lookupNode_range {h n} (hn : vm.lookupNode h = some n) : 0 < h ∧ h ≤ vm.nodes.length := by
  obtain ⟨h0, h1⟩ := (Heap.lookupNode_eq_some _).1 hn
  have := (List.getElem?_eq_some_iff.1 h1).1
  omega

theorem lookupNode_of_range {h} (h0 : 0 < h) (h1 : h ≤ vm.nodes.length) : ∃ n, vm.lookupNode h = some n :=
  ⟨vm.nodes[h - 1], by simp [Heap.lookupNode, h0]⟩

theorem childHandles_ok {h cs} (hc : childHandles vm h = .ok cs) :
    ∃ n, vm.lookupNode h = some n ∧ cs = vm.childrenOf n := by
  unfold childHandles at hc
  split at hc
  · cases hc
  · rename_i n hn
    split at hc
    · cases hc
      exact ⟨n, hn, rfl⟩
    · cases hc

theorem Value.nodeHandle_eq {v : Value} {k} (hk : 0 < k) : v.nodeHandle = k ↔ v = .node k := by
  cases v <;> simp [Value.nodeHandle] <;> omega

theorem mem_rootValues {v} :
    v ∈ vm.rootValues ↔ (∃ i, vm.Holds (.stack i) v) ∨ (∃ i, vm.Holds (.local i) v) ∨
      (∃ i, vm.Holds (.task i) v) ∨ ∃ i, vm.Holds (.par i) v := by
  simp only [Vm.rootValues, List.mem_append, List.mem_map, or_assoc]
  simp only [Vm.Holds, List.mem_iff_getElem?]
  refine or_congr_right (or_congr_right (or_congr_left ⟨?_, ?_⟩))
  · rintro ⟨t, ⟨i, hi⟩, rfl⟩
    exact ⟨i, t, hi, rfl⟩
  · rintro ⟨i, t, hi, rfl⟩
    exact ⟨t, ⟨i, hi⟩, rfl⟩

theorem mem_builderChildren {k} : k ∈ builderChildren vm ↔ ∃ b i, vm.Holds (.builderChild b i) (.node k) := by
  simp only [builderChildren, List.mem_flatMap]
  constructor
  · rintro ⟨r, hb, hk⟩
    cases r with
    | none => simp at hk
    | some r =>
        obtain ⟨b, hb⟩ := List.mem_iff_getElem?.1 hb
        obtain ⟨i, hi⟩ := List.mem_iff_getElem?.1 hk
        exact ⟨b, i, r, k, hb, hi, rfl⟩
  · rintro ⟨b, i, r, k', hb, hi, hk⟩
    cases hk
    exact ⟨some r, List.mem_of_getElem? hb, List.mem_of_getElem? hi⟩

/-- The handles enqueued as roots are those of the node values at the roots. -/
theorem mem_nodeRoots {livePairs} (h : markLiveScratchPairHandles env vm = .ok livePairs) {k} (hk : 0 < k) :
    k ∈ nodeRoots vm livePairs ↔ ∃ r, vm.Holds r (.node k) := by
  simp only [nodeRoots, List.mem_append, List.mem_map, Value.nodeHandle_eq hk, exists_eq_right, mem_rootValues,
    mem_builderChildren, mem_livePairValues, mem_livePairs h, List.mem_cons, List.not_mem_nil, or_false]
  constructor
  · rintro (((hk' | hk') | ⟨j, ⟨hj, -⟩, p, hp, hv⟩) | ⟨b, i, hb⟩)
    · rcases hk' with rfl | rfl | rfl
      · exact ⟨.processArgv, hk, rfl⟩
      · exact ⟨.uiDefaultWindowSize, hk, rfl⟩
      · exact ⟨.uiEmptyEvent, hk, rfl⟩
    · rcases hk' with ⟨i, hi⟩ | ⟨i, hi⟩ | ⟨i, hi⟩ | ⟨i, hi⟩
      · exact ⟨.stack i, hi⟩
      · exact ⟨.local i, hi⟩
      · exact ⟨.task i, hi⟩
      · exact ⟨.par i, hi⟩
    · rcases hv with hv | hv
      · exact ⟨.pairFirst j, hj, p, hp, hv⟩
      · exact ⟨.pairSecond j, hj, p, hp, hv⟩
    · exact ⟨.builderChild b i, hb⟩
  · rintro ⟨r, hr⟩
    cases r with
    | processArgv => exact .inl (.inl (.inl (.inl (Value.node.inj hr.2))))
    | uiDefaultWindowSize => exact .inl (.inl (.inl (.inr (.inl (Value.node.inj hr.2)))))
    | uiEmptyEvent => exact .inl (.inl (.inl (.inr (.inr (Value.node.inj hr.2)))))
    | stack i => exact .inl (.inl (.inr (.inl ⟨i, hr⟩)))
    | «local» i => exact .inl (.inl (.inr (.inr (.inl ⟨i, hr⟩))))
    | task i => exact .inl (.inl (.inr (.inr (.inr (.inl ⟨i, hr⟩)))))
    | par i => exact .inl (.inl (.inr (.inr (.inr (.inr ⟨i, hr⟩)))))
    | pairFirst j =>
        obtain ⟨hj, p, hp, hv⟩ := hr
        exact .inl (.inr ⟨j, ⟨hj, p, hp⟩, p, hp, .inl hv⟩)
    | pairSecond j =>
        obtain ⟨hj, p, hp, hv⟩ := hr
        exact .inl (.inr ⟨j, ⟨hj, p, hp⟩, p, hp, .inr hv⟩)
    | builderChild b i => exact .inr ⟨b, i, hr⟩

/-- A node mark that succeeds marks exactly the reachable handles in range. -/
theorem markLiveNodeHandles_spec {extra live} (h : markLiveNodeHandles env vm extra = .ok live) :
    ∃ livePairs, markLiveScratchPairHandles env vm = .ok livePairs ∧
      (∀ k ∈ extra, k ≤ vm.nodes.length) ∧
      (∀ k, k ∈ live ↔ vm.NodeReachable extra k ∧ 0 < k ∧ k ≤ vm.nodes.length) ∧
      ∀ k ∈ live, ∃ n, vm.lookupNode k = some n := by
  unfold markLiveNodeHandles at h
  split at h
  · obtain ⟨livePairs, hp, h⟩ := Results.bind_ok.1 h
    obtain ⟨s, hs, h⟩ := Results.bind_ok.1 h
    obtain ⟨s', hs', h⟩ := Results.bind_ok.1 h
    have hv := visitItems_visited hs
    have hv' := visitItems_visited hs'
    have hinv : Inv (nodeToMark vm) (childHandles vm) (· ∈ s'.marked) s' := by
      refine ⟨fun _ h => h, fun a ha => .base ha, ?_, ?_⟩
      · intro a ha
        rcases hv'.pending a ha with ha | ha
        · exact hv'.mono a ((hv.pending a ha).elim (fun hn => by simp at hn) id)
        · exact ha
      · intro a ha hn
        by_cases hm : a ∈ s.marked
        · exact absurd (hv'.keeps a (hv.waits a hm (by simp))) hn
        · exact absurd (hv'.waits a ha hm) hn
    obtain ⟨hreach, hclosed⟩ := (drain_inv hinv h).result
    refine ⟨livePairs, hp, ?_, fun k => ⟨fun hk => ?_, fun hk => ?_⟩, fun k hk => ?_⟩
    · intro k hk
      obtain ⟨r, hr, _⟩ := hv'.resolved k hk
      rcases extraToMark_ok hr with ⟨rfl, _⟩ | ⟨_, hle, _⟩
      · exact Nat.zero_le _
      · exact hle
    · have hr := (hreach k).1 hk
      clear hk
      induction hr with
      | base hm =>
          rcases hv'.source _ hm with hm | ⟨x, hx, hr⟩
          · rcases hv.source _ hm with hm | ⟨x, hx, hr⟩
            · simp at hm
            · obtain ⟨rfl, h0, h1⟩ := nodeToMark_eq_some.1 hr
              obtain ⟨r, hr⟩ := (mem_nodeRoots hp h0).1 hx
              exact ⟨.root (.inl ⟨r, hr⟩), h0, h1⟩
          · rcases extraToMark_ok hr with ⟨_, hn⟩ | ⟨h0, h1, hx'⟩
            · cases hn
            · cases hx'
              exact ⟨.root (.inr hx), h0, h1⟩
      | step _ he hb hc ih =>
          obtain ⟨n, hn, rfl⟩ := childHandles_ok he
          obtain ⟨rfl, h0, h1⟩ := nodeToMark_eq_some.1 hc
          exact ⟨.child ih.1 hn hb, h0, h1⟩
    · obtain ⟨hr, h0, h1⟩ := hk
      induction hr with
      | root hr =>
          rcases hr with hr | hx
          · obtain ⟨r, hr', hin⟩ := hv.resolved _ ((mem_nodeRoots hp h0).2 hr)
            rw [nodeToMark_eq_some.2 ⟨rfl, h0, h1⟩] at hr'
            cases hr'
            exact (hreach _).2 (.base (hv'.mono _ (hin _ rfl)))
          · obtain ⟨r, hr, hin⟩ := hv'.resolved _ hx
            rcases extraToMark_ok hr with ⟨rfl, _⟩ | ⟨_, _, rfl⟩
            · omega
            · exact (hreach _).2 (.base (hin _ rfl))
      | child _ hn hc ih =>
          have hk := ih (lookupNode_range hn).1 (lookupNode_range hn).2
          obtain ⟨items, he, hitems⟩ := hclosed _ hk
          obtain ⟨n', hn', rfl⟩ := childHandles_ok he
          rw [hn] at hn'
          cases hn'
          obtain ⟨r, hr, hin⟩ := hitems _ hc
          rw [nodeToMark_eq_some.2 ⟨rfl, h0, h1⟩] at hr
          cases hr
          exact hin _ rfl
    · obtain ⟨items, he, _⟩ := hclosed k hk
      obtain ⟨n, hn, _⟩ := childHandles_ok he
      exact ⟨n, hn⟩
  · cases h

end Aivm
