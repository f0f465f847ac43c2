import Aivm.Nodes.Lemmas.Create
import Aivm.Gc.Lemmas.Total
import Aivm.Model.Lifecycle

/-!
# Node allocation builds the requested tree

The tree is the requested one, and everything rooted stays as it was, unless the strings had to be compacted while a
child was not rooted: the compaction is not told about the children, and the strings below such a child are lost.
-/

namespace Aivm

open Unfold CStrings

variable {env : Env} {vm vm' : Vm}

/-- The handle denotes the label over the trees that the children denoted before, and what is rooted is kept. -/
def BuildsNode (vm vm' : Vm) (handle : Nat) (l : Label) (children : List Nat) : Prop :=
  (∀ ts, List.Forall₂ (fun c t => vm.Denotes (.node c) t) children ts → vm'.Denotes (.node handle) (.node l ts)) ∧
    vm.Kept vm'

theorem NodeWritten.builds {k i ms cs handle} (h : NodeWritten k i ms (.array cs) vm vm' handle) :
    BuildsNode vm vm' handle (.node k i ms) cs := by
  obtain ⟨vm₁, kind, id, attrs, hg, hk, hi, ha, rfl, rfl⟩ := h
  have hext := hg.extends.trans (appendNode_extends kind id attrs cs vm₁)
  refine ⟨fun ts hts => ?_, ?_⟩
  · exact appendNode_denotes hk.2 hi.2 ha (hts.imp fun _ _ ht => hg.extends.denotes ht)
  · exact .of_extends (hg.sameRoots.trans ⟨rfl, rfl, rfl, rfl, rfl, rfl, rfl, rfl⟩) hext

/-- Children that are carried to where the record is written are its children. -/
theorem BuildsNode.of_carries {vm₁ handle l cs cs'} (h : Carries vm vm₁ cs cs') (hb : BuildsNode vm₁ vm' handle l cs') :
    BuildsNode vm vm' handle l cs :=
  ⟨fun ts hts => hb.1 ts (h.denotes hts), h.kept.trans hb.2⟩

/-- A node written over a dangling child denotes nothing. -/
theorem NodeWritten.not_builds {k i ms cs handle l ts c} (h : NodeWritten k i ms (.array cs) vm vm' handle)
    (hc : c ∈ cs) (hd : vm.Dangles c) : ¬ vm'.Denotes (.node handle) (.node l ts) := by
  obtain ⟨vm₁, kind, id, attrs, hg, hk, hi, ha, rfl, rfl⟩ := h
  intro ht
  obtain ⟨l', vs, us, hexp, hus, _⟩ := ht.cell
  rw [appendNode_expand hk.2 hi.2 ha] at hexp
  cases hexp
  rw [List.forall₂_map_left_iff] at hus
  obtain ⟨j, hj⟩ := List.mem_iff_getElem?.1 hc
  obtain ⟨u, _, hu⟩ := forall₂_getElem? hus hj
  exact ((hd.extends hg.extends).extends (appendNode_extends kind id attrs cs vm₁)).not_denotes hu

/-- Compacting the strings leaves a node dangling if no root leads to it. -/
theorem StringCompacted.dangles {live livePairs} (c : StringCompacted env vm vm' live livePairs) {h n}
    (hn : vm.lookupNode h = some n) (hkind : vm.pointerInStringArena n.kind = true) (hr : ¬ vm.NodeReachable [] h) :
    vm'.Dangles h := by
  obtain ⟨_, _, _, hlive, _⟩ := markLiveNodeHandles_spec c.marked
  obtain ⟨n', hn', hm⟩ := c.lookupNode hn
  have hdead : n' = n := by
    refine hm.dead fun hl => ?_
    rw [Nat.sub_add_cancel (lookupNode_range hn).1] at hl
    exact hr ((hlive h).1 hl).1
  subst hdead
  cases hk : n'.kind with
  | null => simp [hk, Heap.pointerInStringArena] at hkind
  | lit t => simp [hk, Heap.pointerInStringArena] at hkind
  | arena block offset =>
      simp only [hk, Heap.pointerInStringArena, decide_eq_true_eq] at hkind
      refine ⟨n', block, offset, hn', hk, ?_⟩
      rw [hkind.1, c.heap]
      exact (freshBlock_ne env vm).symm

theorem Vm.StringLimitGrown.dangles (h : vm.StringLimitGrown vm') {c} (hd : vm.Dangles c) : vm'.Dangles c := by
  rw [h]
  exact hd

/-- A reservation that compacts leaves every child dangling that is not rooted. -/
theorem stringArenaReserve_dangles {size u c n} (h : stringArenaReserve env size vm = .ok u vm')
    (hfull : ¬ reserveFits env size vm) (hn : vm.lookupNode c = some n)
    (hkind : vm.pointerInStringArena n.kind = true) (hr : ¬ vm.NodeReachable [] c) : vm'.Dangles c := by
  rcases (stringArenaReserve_ok h).2 with ⟨hfits, _⟩ | ⟨_, vm₁, vm₂, hg, hc, hg'⟩
  · exact absurd hfits hfull
  · have hn₁ : vm₁.lookupNode c = some n := by
      rw [hg]
      exact hn
    have hkind₁ : vm₁.pointerInStringArena n.kind = true := by
      rw [hg]
      exact hkind
    have hr₁ : ¬ vm₁.NodeReachable [] c := by
      rw [hg]
      exact hr
    refine hg'.dangles ?_
    rcases compactStringArena_ok hc with ⟨h0, rfl⟩ | ⟨live, livePairs, hcomp⟩
    · cases hk : n.kind <;> simp [hk, Heap.pointerInStringArena, h0] at hkind₁
    · exact hcomp.dangles hn₁ hkind₁ hr₁

section Array

variable {kind id : StrPtr} {attrs : List NodeAttr} {children : List Nat} {handle : Nat}

/-- A child that dangles after the reservation spoils the node. -/
theorem NodeWritten.not_denotes {k i ms vm₁ vm₂ cs c l ts} (hcol : Collects vm₁ vm₂ children cs)
    (hw : NodeWritten k i ms (.array cs) vm₂ vm' handle) (hc : c ∈ children) (hd : vm₁.Dangles c) :
    ¬ vm'.Denotes (.node handle) (.node l ts) := by
  obtain ⟨j, hj⟩ := List.mem_iff_getElem?.1 hc
  obtain ⟨c', hj', hd'⟩ := forall₂_getElem? hcol.2 hj
  exact hw.not_builds (List.mem_of_getElem? hj') (hd' hd)

end Array

/-- A leaf on the stack, in an arena with room. -/
def leafVm : Vm :=
  { freshVm .production ⟨[], [], []⟩ with
    stringArena := [65, 0]
    nodes := [⟨.arena 0 0, .arena 0 0, 0, 0, 0, 0⟩]
    stack := [.node 1] }

theorem leafVm_sound : leafVm.StringsSound := by
  refine ⟨.inr ⟨[65], rfl⟩, fun _ e he => ?_⟩
  have hnone : leafVm.stringIntern.entries = [] := rfl
  rw [hnone] at he
  cases he

/-- A leaf that only its creator refers to, in a string arena that is full of garbage. -/
def crowdedVm (garbage : List Byte) : Vm :=
  { freshVm .production ⟨[], [], []⟩ with
    stringArena := [65, 0] ++ garbage ++ [0]
    stringArenaLimit := 2097152
    nodes := [⟨.arena 0 0, .arena 0 0, 0, 0, 0, 0⟩] }

/-- The same after a string compaction. -/
def clearedVm : Vm :=
  { freshVm .production ⟨[], [], []⟩ with
    stringBlock := 1
    stringArenaLimit := 2097152
    nodes := [⟨.arena 0 0, .arena 0 0, 0, 0, 0, 0⟩] }

theorem crowdedVm_length {garbage : List Byte} (hg : garbage.length = 2097149) :
    (crowdedVm garbage).stringArena.length = 2097152 := by
  simp [crowdedVm, hg]

theorem crowdedVm_full {garbage : List Byte} (hg : garbage.length = 2097149) :
    ¬ reserveFits Env.generous 4 (crowdedVm garbage) := by
  unfold reserveFits
  rw [ensureStringArenaCapacity_at_capacity _ _ (Nat.le_refl _), crowdedVm_length hg]
  have hlimit : (crowdedVm garbage).stringArenaLimit = 2097152 := rfl
  rw [hlimit]
  omega

theorem crowdedVm_compact {garbage : List Byte} (hg : garbage.length = 2097149) :
    compactStringArena Env.generous (crowdedVm garbage) = .ok () clearedVm := by
  have hne : ¬ (crowdedVm garbage).stringArena.length = 0 := by
    rw [crowdedVm_length hg]
    omega
  simp only [compactStringArena, VmM.bind_run, VmM.get_run]
  rw [if_neg hne]
  rfl

theorem crowdedVm_reserve {garbage : List Byte} (hg : garbage.length = 2097149) :
    stringArenaReserve Env.generous 4 (crowdedVm garbage) = .ok () clearedVm := by
  have hfull : ¬ (crowdedVm garbage).stringArena.length + 4 ≤ (crowdedVm garbage).stringArenaLimit := by
    have hlimit : (crowdedVm garbage).stringArenaLimit = 2097152 := rfl
    rw [crowdedVm_length hg, hlimit]
    omega
  have hroom : clearedVm.stringArena.length + 4 ≤ clearedVm.stringArenaLimit := by decide
  simp only [stringArenaReserve, VmM.bind_run, VmM.modify_run, VmM.get_run]
  rw [ensureStringArenaCapacity_at_capacity _ _ (Nat.le_refl _), if_neg hfull]
  simp only [VmM.bind_run, VmM.modify_run, VmM.get_run, VmM.onFail, crowdedVm_compact hg]
  rw [ensureStringArenaCapacity_at_capacity _ _ (Nat.le_refl _), if_pos hroom]
  rfl

theorem crowdedVm_sound (garbage : List Byte) : (crowdedVm garbage).StringsSound := by
  refine ⟨.inr ⟨[65, 0] ++ garbage, rfl⟩, fun _ e he => ?_⟩
  have hnone : (crowdedVm garbage).stringIntern.entries = [] := rfl
  rw [hnone] at he
  cases he

theorem crowdedVm_leaf (garbage : List Byte) :
    (crowdedVm garbage).Denotes (.node 1) (.node (.node [65] [65] []) []) := by
  have hread : (crowdedVm garbage).cstr (.arena 0 0) = some [65] := by
    have hbytes : read 0 ((crowdedVm garbage).stringArena.drop 0) = some [65] :=
      read_eq_some.2 ⟨by decide, garbage ++ [0], rfl⟩
    exact hbytes
  have hexp : (crowdedVm garbage).expand (.node 1) = some (.node [65] [65] [], []) := by
    refine (Heap.expand_node _).2 ⟨⟨.arena 0 0, .arena 0 0, 0, 0, 0, 0⟩, rfl, ?_, ?_, rfl⟩
    · exact ⟨Nat.zero_le _, Nat.zero_le _⟩
    · simp only [Heap.nodeLabel, hread]
      rfl
  exact denotes_node hexp .nil

theorem crowdedVm_unrooted (garbage : List Byte) (h : Nat) : ¬ (crowdedVm garbage).NodeReachable [] h := by
  intro hr
  induction hr with
  | root hroot =>
      rcases hroot with ⟨r, hr⟩ | hx
      · have hnone : (crowdedVm garbage).heldValues = [] := rfl
        have hmem := hr.mem_heldValues
        rw [hnone] at hmem
        cases hmem
      · cases hx
  | child _ _ _ ih => exact ih

end Aivm
