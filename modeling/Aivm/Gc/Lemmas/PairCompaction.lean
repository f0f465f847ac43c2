import Aivm.Gc.NodeCompaction
import Aivm.Gc.Lemmas.NodeCompaction

/-!
# What a compaction of the pairs does

Pair handles change, everything else stays, and a pair reads as it did before.
-/

namespace Aivm

open Unfold Sliding

variable {env : Env} {vm vm' : Vm} {order : List Nat}

/-- The relation between a live value before the pairs slide and the same value after it. -/
inductive PairSlid (order : List Nat) : Value → Value → Prop where
  | pair {k} : k ∈ order → PairSlid order (.pair k) (.pair (place order k))
  | other {v} : (∀ k, v ≠ .pair k) → PairSlid order v v

theorem PairSlid.node (h : Nat) : PairSlid order (.node h) (.node h) := .other (by simp)

theorem PairSlid.of_remap {count v w} (h : remapValueScratchPairHandle count (place order) v = some w) :
    PairSlid order v w := by
  cases v with
  | pair k =>
      simp only [remapValueScratchPairHandle, Option.map_eq_some_iff] at h
      obtain ⟨k', hk, rfl⟩ := h
      obtain ⟨_, _, hpos, rfl⟩ := remapHandle_eq_some.1 hk
      exact .pair (place_pos.1 hpos)
  | _ =>
      cases h
      exact .other (by simp)

/-- What sliding the pairs does to the state. -/
structure PairsSlid (order : List Nat) (vm vm' : Vm) : Prop where
  frame : vm' = { vm with
    scratchPairs := vm'.scratchPairs, stack := vm'.stack, locals := vm'.locals
    completedTasks := vm'.completedTasks, parValues := vm'.parValues }
  pairs : List.Forall₂ (fun k p' => ∃ p, vm.lookupScratchPair k = some p ∧ PairSlid order p.first p'.first ∧
    PairSlid order p.second p'.second) order vm'.scratchPairs
  stack : List.Forall₂ (PairSlid order) vm.stack vm'.stack
  locals : List.Forall₂ (PairSlid order) vm.locals vm'.locals
  tasks : List.Forall₂ (TaskMoved (PairSlid order)) vm.completedTasks vm'.completedTasks
  pars : List.Forall₂ (PairSlid order) vm.parValues vm'.parValues

theorem slideScratchPairs_ok (h : slideScratchPairs order vm = some vm') : PairsSlid order vm vm' := by
  simp only [slideScratchPairs, Option.bind_eq_bind, Option.bind_eq_some_iff, Option.pure_def,
    Option.some.injEq] at h
  obtain ⟨pairs, hp, stack, hs, locals, hl, tasks, ht, pars, hv, rfl⟩ := h
  refine ⟨rfl, (mapM_eq_some.1 hp).imp fun k p' hk => ?_, (mapM_eq_some.1 hs).imp fun _ _ h => .of_remap h,
    (mapM_eq_some.1 hl).imp fun _ _ h => .of_remap h, (mapM_eq_some.1 ht).imp fun t t' h => ?_,
    (mapM_eq_some.1 hv).imp fun _ _ h => .of_remap h⟩
  · obtain ⟨p, hlook, hremap⟩ := Option.bind_eq_some_iff.1 hk
    simp only [remapPairHandles, Option.bind_eq_bind, Option.bind_eq_some_iff, Option.pure_def,
      Option.some.injEq] at hremap
    obtain ⟨a, ha, b, hb, rfl⟩ := hremap
    exact ⟨p, hlook, .of_remap ha, .of_remap hb⟩
  · obtain ⟨r, hr, rfl⟩ := Option.map_eq_some_iff.1 h
    exact ⟨rfl, .of_remap hr⟩

namespace PairsSlid

theorem heap (c : PairsSlid order vm vm') : vm'.toHeap = { vm.toHeap with scratchPairs := vm'.scratchPairs } :=
  congrArg Vm.toHeap c.frame

/-- A value that is no pair reads as before. -/
theorem expand_eq (c : PairsSlid order vm vm') {v} (hv : ∀ k, v ≠ .pair k) : vm'.expand v = vm.expand v := by
  rw [c.heap]
  cases v with
  | pair k => exact absurd rfl (hv k)
  | string p => cases p <;> rfl
  | _ => rfl

theorem lookupScratchPair (c : PairsSlid order vm vm') {k} (hk : k ∈ order) :
    ∃ p p', vm.lookupScratchPair k = some p ∧ vm'.lookupScratchPair (place order k) = some p' ∧
      PairSlid order p.first p'.first ∧ PairSlid order p.second p'.second := by
  obtain ⟨p', hp', p, hp, h₁, h₂⟩ := forall₂_getElem? c.pairs (getElem?_place hk)
  exact ⟨p, p', hp, (Heap.lookupScratchPair_eq_some _).2 ⟨place_pos.2 hk, hp'⟩, h₁, h₂⟩

theorem simulates (c : PairsSlid order vm vm') : Simulates vm.expand vm'.expand (PairSlid order) := by
  intro v w hvw l vs hexp
  cases hvw with
  | pair hk =>
      obtain ⟨p, hp, rfl, rfl⟩ := (Heap.expand_pair _).1 hexp
      obtain ⟨q, p', hq, hp', h₁, h₂⟩ := c.lookupScratchPair hk
      rw [hp] at hq
      cases hq
      exact ⟨[p'.first, p'.second], (Heap.expand_pair _).2 ⟨p', hp', rfl, rfl⟩, .cons h₁ (.cons h₂ .nil)⟩
  | other hv =>
      refine ⟨vs, by rw [c.expand_eq hv, hexp], List.forall₂_same.2 fun u hu => ?_⟩
      by_cases hn : ∃ k, v = .node k
      · obtain ⟨k, rfl⟩ := hn
        obtain ⟨n, _, _, _, rfl⟩ := (Heap.expand_node _).1 hexp
        obtain ⟨c, _, rfl⟩ := List.mem_map.1 hu
        exact .node c
      · obtain rfl := Heap.expand_leaf _ (fun k hk => hn ⟨k, hk⟩) hv hexp
        cases hu

theorem moves (c : PairsSlid order vm vm') : Moves (PairSlid order) vm vm' where
  frame := by
    unfold Vm.SameFrame
    rw [c.frame]
  simulates := c.simulates
  like := by
    rintro v w hvw
    cases hvw with
    | pair _ => trivial
    | other _ => exact .refl _
  oneToOne := by
    rintro v v' w w' hvw hvw' hv hv'
    cases hvw with
    | pair hk =>
        cases hvw' with
        | pair hk' => exact ⟨fun he => by rw [Value.pair.inj he], fun he => by rw [place_inj hk (Value.pair.inj he)]⟩
        | other hp => cases v' <;> simp_all [Value.IsHandle]
    | other hp =>
        cases hvw' with
        | pair _ => cases v <;> simp_all [Value.IsHandle]
        | other _ => rfl
  inRange := by
    rintro v w hvw hv
    cases hvw with
    | pair hk => exact ⟨place_pos.2 hk, c.pairs.length_eq ▸ place_le⟩
    | other hp =>
        cases v with
        | pair k => exact absurd rfl (hp k)
        | node k =>
            rw [c.heap]
            exact hv
        | _ => trivial
  stack := c.stack
  locals := c.locals
  tasks := c.tasks
  pars := c.pars
  builders := by
    rw [c.frame]
    refine List.forall₂_same.2 fun b _ => ?_
    cases b with
    | none => exact .none
    | some b => exact .some (List.forall₂_same.2 fun h _ => .node h)
  processArgv := fun h => ⟨by rw [c.frame]; exact h, by rw [c.frame]; exact .node _⟩
  uiDefaultWindowSize := fun h => ⟨by rw [c.frame]; exact h, by rw [c.frame]; exact .node _⟩
  uiEmptyEvent := fun h => ⟨by rw [c.frame]; exact h, by rw [c.frame]; exact .node _⟩

end PairsSlid

theorem compactScratchPairs_ok {u} (h : compactScratchPairs env vm = .ok u vm') :
    (vm.scratchPairs.length = 0 ∧ vm' = vm) ∨
      ∃ livePairs, markLiveScratchPairHandles env vm = .ok livePairs ∧
        PairsSlid (livePairOrder vm livePairs) vm vm' := by
  simp only [compactScratchPairs, VmM.bind_ok, VmM.get_run, Outcome.ok.injEq] at h
  obtain ⟨_, _, ⟨rfl, rfl⟩, h⟩ := h
  split at h
  · rename_i hn
    cases h
    exact .inl ⟨hn, rfl⟩
  · simp only [VmM.bind_ok, VmM.lift_ok, VmM.updateOr_ok] at h
    obtain ⟨_, _, ha, livePairs, _, ⟨hl, rfl⟩, h⟩ := h
    obtain rfl := Env.allocate_ok ha
    exact .inr ⟨livePairs, hl, slideScratchPairs_ok h⟩

theorem compactScratchPairs_moves {u} (h : compactScratchPairs env vm = .ok u vm') : ∃ R, Moves R vm vm' := by
  rcases compactScratchPairs_ok h with ⟨_, rfl⟩ | ⟨livePairs, _, c⟩
  · exact ⟨_, .refl vm'⟩
  · exact ⟨_, c.moves⟩

/-! ## Which pairs stay -/

theorem livePairOrder_sorted (vm : Vm) (livePairs : List Nat) : (livePairOrder vm livePairs).Pairwise (· < ·) :=
  (List.pairwise_lt_range' (s := 1) (n := vm.scratchPairs.length)).filter _

theorem mem_livePairOrder {livePairs} (h : markLiveScratchPairHandles env vm = .ok livePairs) {k} :
    k ∈ livePairOrder vm livePairs ↔ vm.PairReachable k ∧ ∃ p, vm.lookupScratchPair k = some p := by
  simp only [livePairOrder, List.mem_filter, List.mem_range'_1, decide_eq_true_eq, mem_livePairs h]
  refine ⟨fun h => h.2, fun h => ⟨?_, h⟩⟩
  obtain ⟨_, p, hp⟩ := h
  have := lookupScratchPair_range hp
  omega

theorem remapValueScratchPairHandle_total {count v} (hv : ∀ k, v = .pair k → 0 < k ∧ k ≤ count ∧ k ∈ order) :
    ∃ w, remapValueScratchPairHandle count (place order) v = some w := by
  cases v with
  | pair k =>
      obtain ⟨h0, h1, hk⟩ := hv k rfl
      exact ⟨.pair (place order k), by simp [remapValueScratchPairHandle, remapHandle, h0, h1, place_pos.2 hk]⟩
  | _ => exact ⟨_, rfl⟩

theorem mapM_total {α β : Type} {f : α → Option β} {l : List α} (h : ∀ a ∈ l, ∃ b, f a = some b) :
    ∃ bs, l.mapM f = some bs := by
  obtain ⟨bs, hbs⟩ := exists_forall₂ h
  exact ⟨bs, mapM_eq_some.2 hbs⟩

/-- Sliding succeeds if the order is closed under the pairs read from it. -/
theorem slideScratchPairs_total (hroots : ∀ k, .pair k ∈ vm.rootValues → k ∈ order)
    (hpairs : ∀ k ∈ order, ∃ p, vm.lookupScratchPair k = some p)
    (hclosed : ∀ k p j, k ∈ order → vm.lookupScratchPair k = some p → p.first = .pair j ∨ p.second = .pair j →
      j ∈ order) : ∃ vm', slideScratchPairs order vm = some vm' := by
  have hrange : ∀ k ∈ order, 0 < k ∧ k ≤ vm.scratchPairs.length := by
    intro k hk
    obtain ⟨p, hp⟩ := hpairs k hk
    exact lookupScratchPair_range hp
  have hvalue : ∀ v, (∀ k, v = .pair k → k ∈ order) →
      ∃ w, remapValueScratchPairHandle vm.scratchPairs.length (place order) v = some w :=
    fun v hv => remapValueScratchPairHandle_total fun k hk =>
      ⟨(hrange k (hv k hk)).1, (hrange k (hv k hk)).2, hv k hk⟩
  have hroot : ∀ v ∈ vm.rootValues,
      ∃ w, remapValueScratchPairHandle vm.scratchPairs.length (place order) v = some w :=
    fun v hv => hvalue v fun k hk => hroots k (hk ▸ hv)
  simp only [Vm.rootValues, List.mem_append, List.mem_map] at hroot
  obtain ⟨pairs, hp⟩ := mapM_total (l := order) (f := fun k => do
      let p ← vm.lookupScratchPair k
      remapPairHandles vm.scratchPairs.length (place order) p) fun k hk => by
    obtain ⟨p, hp⟩ := hpairs k hk
    obtain ⟨a, ha⟩ := hvalue p.first fun j hj => hclosed k p j hk hp (.inl hj)
    obtain ⟨b, hb⟩ := hvalue p.second fun j hj => hclosed k p j hk hp (.inr hj)
    exact ⟨⟨a, b⟩, by simp [hp, remapPairHandles, ha, hb]⟩
  obtain ⟨stack, hs⟩ := mapM_total fun v hv => hroot v (.inl (.inl (.inl hv)))
  obtain ⟨locals, hl⟩ := mapM_total fun v hv => hroot v (.inl (.inl (.inr hv)))
  obtain ⟨tasks, ht⟩ := mapM_total (l := vm.completedTasks) (f := fun t =>
      (remapValueScratchPairHandle vm.scratchPairs.length (place order) t.result).map fun r =>
        { t with result := r }) fun t ht => by
    obtain ⟨w, hw⟩ := hroot t.result (.inl (.inr ⟨t, ht, rfl⟩))
    exact ⟨{ t with result := w }, by simp [hw]⟩
  obtain ⟨pars, hv⟩ := mapM_total fun v hv => hroot v (.inr hv)
  refine ⟨{ vm with
    scratchPairs := pairs, stack := stack, locals := locals, completedTasks := tasks, parValues := pars }, ?_⟩
  simp only [slideScratchPairs, Option.bind_eq_bind, Option.bind_eq_some_iff, Option.pure_def, Option.some.injEq]
  exact ⟨pairs, hp, stack, hs, locals, hl, tasks, ht, pars, hv, rfl⟩

end Aivm
