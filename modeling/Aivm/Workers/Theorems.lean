import Aivm.Workers.Lemmas.Stores
import Aivm.Model.Lifecycle

/-!
# Copies across a worker boundary are isomorphic

The copy has the shape of its source, sharing included, unless the destination collects or compacts while the copy
holds handles and pointers there: the maps and the child arrays are no roots, so what they name may be dropped or
renumbered.
-/

namespace Aivm

open Unfold CStrings

variable {env : Env} {src dst dst' : Vm} {direction : String} {v w : Value}

/-- `v` in one heap and `w` in another have the same shape: a correspondence of values leads from cells to like cells,
and is one-to-one on nodes and on pairs. -/
def Isomorphic (h h' : Heap) (v w : Value) : Prop :=
  ∃ R : Value → Value → Prop, R v w ∧ Simulates h.expand h'.expand R ∧
    (∀ k u, R (.node k) u → ∃ j, u = .node j) ∧ (∀ k u, R (.pair k) u → ∃ j, u = .pair j) ∧
    (∀ k i j, R (.node k) (.node i) → R (.node k) (.node j) → i = j) ∧
    (∀ k i j, R (.pair k) (.pair i) → R (.pair k) (.pair j) → i = j) ∧
    (∀ k i j, R (.node i) (.node k) → R (.node j) (.node k) → i = j) ∧
    (∀ k i j, R (.pair i) (.pair k) → R (.pair j) (.pair k) → i = j)

/-- The copy has the shape and the meaning of its source, and what was rooted in the destination is kept. -/
def FaithfulCopy (src dst dst' : Vm) (v w : Value) : Prop :=
  (∀ t, src.Denotes v t → dst'.Denotes w t) ∧ Isomorphic src.toHeap dst'.toHeap v w ∧ dst.Kept dst'

/-- The copy needs no collection of nodes and no compaction of strings once it holds something in the destination. -/
def CopySettles (env : Env) (src : Vm) (direction : String) (v : Value) (dst : Vm) : Prop :=
  (copyWorkerBoundaryValueInto env (settledStore env) src direction v dst).succeeds = true

instance : Decidable (CopySettles env src direction v dst) := by
  unfold CopySettles
  infer_instance

theorem Copied.node_eq {h h' : Heap} {maps k u} (c : Copied h h' maps (.node k) u) :
    ∃ j, u = .node j ∧ maps.nodes.lookup k = some j := by
  cases c with
  | node hk => exact ⟨_, rfl, hk⟩
  | leaf hn _ _ => exact absurd rfl (hn k)

theorem Copied.pair_eq {h h' : Heap} {maps k u} (c : Copied h h' maps (.pair k) u) :
    ∃ j, u = .pair j ∧ maps.pairs.lookup k = some j := by
  cases c with
  | pair hk => exact ⟨_, rfl, hk⟩
  | leaf _ hp _ => exact absurd rfl (hp k)

theorem Copied.node_lookup {h h' : Heap} {maps k j} (c : Copied h h' maps (.node k) (.node j)) :
    maps.nodes.lookup k = some j := by
  obtain ⟨_, hj, hk⟩ := c.node_eq
  cases hj
  exact hk

theorem Copied.pair_lookup {h h' : Heap} {maps k j} (c : Copied h h' maps (.pair k) (.pair j)) :
    maps.pairs.lookup k = some j := by
  obtain ⟨_, hj, hk⟩ := c.pair_eq
  cases hj
  exact hk

theorem CopyInv.isomorphic {maps} (inv : CopyInv src.toHeap dst maps) (h : Copied src.toHeap dst.toHeap maps v w) :
    Isomorphic src.toHeap dst.toHeap v w := by
  refine ⟨_, h, inv.simulates, fun k u hu => ?_, fun k u hu => ?_, fun k i j hi hj => ?_, fun k i j hi hj => ?_,
    fun k i j hi hj => inv.nodesInj i j k hi.node_lookup hj.node_lookup,
    fun k i j hi hj => inv.pairsInj i j k hi.pair_lookup hj.pair_lookup⟩
  · obtain ⟨j, rfl, _⟩ := hu.node_eq
    exact ⟨j, rfl⟩
  · obtain ⟨j, rfl, _⟩ := hu.pair_eq
    exact ⟨j, rfl⟩
  · exact Option.some.inj (hi.node_lookup.symm.trans hj.node_lookup)
  · exact Option.some.inj (hi.pair_lookup.symm.trans hj.pair_lookup)

theorem copyWorkerBoundaryValueInto_settled (hs : dst.StringsSound)
    (h : copyWorkerBoundaryValueInto env (settledStore env) src direction v dst = .ok w dst') :
    Isomorphic src.toHeap dst'.toHeap v w := by
  simp only [copyWorkerBoundaryValueInto, VmM.bind_ok, VmM.pure_run, Outcome.ok.injEq] at h
  obtain ⟨_, _, ha, ⟨w', maps⟩, _, h, rfl, rfl⟩ := h
  have hv := Env.allocate_ok ha
  rw [hv] at h
  have start : CopyInv src.toHeap dst ⟨[], [], [], [], false⟩ :=
    ⟨hs, by simp, by simp, by simp, by simp, fun _ => ⟨rfl, rfl⟩⟩
  have c := copyWorkerBoundaryValueWithContext_settled start h
  exact c.step.inv.isomorphic c.copied

/-- A pair whose two components are one leaf. -/
def sharingVm : Vm :=
  { freshVm .production ⟨[], [], []⟩ with
    stringArena := [65, 0]
    nodes := [⟨.arena 0 0, .arena 0 0, 0, 0, 0, 0⟩]
    scratchPairs := [⟨.node 1, .node 1⟩]
    stack := [.pair 1] }

theorem freshVm_sound (profile : RuntimeProfile) (program : Program) : (freshVm profile program).StringsSound := by
  refine ⟨.inl rfl, fun _ e he => ?_⟩
  cases he

/-- A pair of two strings outside the arena. -/
def twoStringsVm : Vm :=
  { freshVm .production ⟨[], [], []⟩ with
    scratchPairs := [⟨.string (.lit [65]), .string (.lit [66])⟩]
    stack := [.pair 1] }

/-- A tooling VM with room for one more string of one byte in its arena. -/
def nearlyFullVm : Vm := { freshVm .tooling ⟨[], [], []⟩ with stringArena := List.replicate 8189 67 ++ [0] }

theorem nearlyFullVm_sound : nearlyFullVm.StringsSound := by
  refine ⟨.inr ⟨List.replicate 8189 67, rfl⟩, fun _ e he => ?_⟩
  have hnone : nearlyFullVm.stringIntern.entries = [] := rfl
  rw [hnone] at he
  cases he

/-- The result is a pair whose first component points into an arena that is gone. -/
def firstDangles : Outcome Value → Bool
  | .ok (.pair k) vm =>
      match vm.lookupScratchPair k with
      | some ⟨.string (.arena block _), _⟩ => block ≠ vm.stringBlock
      | _ => false
  | _ => false

theorem firstDangles_not_denotes {o : Outcome Value} (h : firstDangles o = true) :
    ∃ w vm, o = .ok w vm ∧ ∀ t, ¬ vm.Denotes w t := by
  unfold firstDangles at h
  split at h
  · rename_i k vm
    split at h
    · rename_i block offset second hp
      refine ⟨.pair k, vm, rfl, fun t ht => ?_⟩
      obtain ⟨_, _, _, hexp, hts, _⟩ := ht.cell
      obtain ⟨p, hp', rfl, rfl⟩ := (Heap.expand_pair _).1 hexp
      rw [hp] at hp'
      cases hp'
      cases hts with
      | cons ht₁ _ =>
          obtain ⟨_, _, _, hexp₁, _⟩ := ht₁.cell
          simp only [ne_eq, decide_not, Bool.not_eq_true', decide_eq_false_iff_not] at h
          simp [Heap.expand, Heap.cstr, h] at hexp₁
    · cases h
  · cases h

end Aivm
