import Aivm.Workers.BoundaryCopy
import Aivm.Nodes.Lemmas.InPlace

/-!
# Copies across a worker boundary, step by step

What a copy creates in the destination reads as its source does, as long as the destination does not move while the
copy holds handles that no root knows.
-/

namespace Aivm

open Unfold CStrings

variable {env : Env} {src vm vm' : Vm}

/-! ## Bytes and pairs -/

/-- Only limits and the host's last answer may differ. -/
theorem admitHostMemoryGrowth_ok {growth u} (h : admitHostMemoryGrowth env growth vm = .ok u vm') :
    vm' = { vm with hostMemoryGrowthSuspended := vm'.hostMemoryGrowthSuspended } := by
  unfold admitHostMemoryGrowth at h
  have hask := askHostMemory_grown env growth vm
  split at h
  · split at h
    · rename_i vm₁ he
      cases h
      rw [he] at hask
      exact hask
    · cases h
  · cases h
    cases vm
    rfl

theorem growBytesArenaLimit_ok {needed fuel} : ∀ {vm u}, growBytesArenaLimit env needed fuel vm = .ok u vm' →
    vm' = { vm with
      bytesArenaLimit := vm'.bytesArenaLimit
      hostMemoryGrowthSuspended := vm'.hostMemoryGrowthSuspended } := by
  induction fuel with
  | zero =>
      intro vm u h
      cases h
      cases vm'
      rfl
  | succ fuel ih =>
      intro vm u h
      simp only [growBytesArenaLimit, VmM.bind_ok, VmM.get_run, Outcome.ok.injEq] at h
      obtain ⟨_, _, ⟨rfl, rfl⟩, h⟩ := h
      split at h
      · simp only [VmM.bind_ok, VmM.modify_run, Outcome.ok.injEq] at h
        obtain ⟨_, vm₁, ha, _, _, ⟨_, rfl⟩, h⟩ := h
        have h₁ := admitHostMemoryGrowth_ok ha
        have h₂ := ih h
        rw [h₂, h₁]
      · cases h
        cases vm'
        rfl

/-- An allocation in the bytes arena extends it. -/
theorem bytesArenaAlloc_ok {data p} (h : bytesArenaAlloc env data vm = .ok p vm') :
    vm.Grown vm' ∧ vm'.bytesAt p data.length = some data ∧ vm.SameStrings vm' ∧ p ≠ .null := by
  simp only [bytesArenaAlloc, VmM.bind_ok, VmM.get_run, VmM.onFail_ok, Outcome.ok.injEq] at h
  obtain ⟨_, _, ⟨rfl, rfl⟩, _, vm₁, hg, _, _, ⟨rfl, rfl⟩, h⟩ := h
  split at h
  · simp only [VmM.bind_ok, VmM.onFail_ok, VmM.throw_run, reduceCtorEq, false_and, exists_false] at h
  · simp only [VmM.bind_ok, VmM.modify_run, Outcome.ok.injEq, VmM.pure_run] at h
    obtain ⟨_, _, ⟨_, rfl⟩, rfl, rfl⟩ := h
    have hgrow := growBytesArenaLimit_ok hg
    rw [hgrow]
    refine ⟨⟨rfl, ⟨rfl, rfl, rfl, rfl, rfl, rfl, rfl, rfl⟩, ?_⟩, ?_, ⟨rfl, rfl, rfl, rfl⟩, by simp⟩
    · exact ⟨List.prefix_rfl, rfl, List.prefix_append .., rfl, List.prefix_rfl, List.prefix_rfl, List.prefix_rfl,
        List.prefix_rfl⟩
    · unfold Heap.bytesAt
      split
      · rename_i h0
        rw [List.length_eq_zero_iff] at h0
        rw [h0]
      · simp [writeBytes]

theorem createScratchPair_ok {a b k} (h : createScratchPair a b vm = .ok k vm') :
    vm.Grown vm' ∧ vm.SameStrings vm' ∧ k = vm.scratchPairs.length + 1 ∧
      vm'.scratchPairs = vm.scratchPairs ++ [⟨a, b⟩] ∧ vm'.nodes = vm.nodes := by
  simp only [createScratchPair, VmM.bind_ok, VmM.get_run, Outcome.ok.injEq] at h
  obtain ⟨_, _, ⟨rfl, rfl⟩, h⟩ := h
  split at h
  · simp only [VmM.bind_ok, VmM.throw_run, reduceCtorEq, false_and, exists_false] at h
  · simp only [VmM.bind_ok, VmM.modify_run, VmM.pure_run, Outcome.ok.injEq] at h
    obtain ⟨_, _, ⟨_, rfl⟩, rfl, rfl⟩ := h
    refine ⟨⟨rfl, ⟨rfl, rfl, rfl, rfl, rfl, rfl, rfl, rfl⟩, ?_⟩, ⟨rfl, rfl, rfl, rfl⟩, rfl, rfl, rfl⟩
    exact ⟨List.prefix_rfl, rfl, List.prefix_rfl, rfl, List.prefix_rfl, List.prefix_rfl, List.prefix_rfl,
      List.prefix_append ..⟩

/-! ## One call -/

section Calls

variable {store : CopyStore} {fuel h k : Nat} {maps maps' : BoundaryMaps}

/-- A node is found in the map, or its children are copied and it is created. -/
theorem copyWorkerBoundaryNode_ok (hc : copyWorkerBoundaryNode env store src (fuel + 1) h maps vm = .ok (k, maps') vm') :
    ∃ n, src.lookupNode h = some n ∧
      ((maps.nodes.lookup h = some k ∧ maps' = maps ∧ vm' = vm) ∨
        (maps.nodes.lookup h = none ∧ h ∉ maps.nodesBusy ∧ env.allocates vm
            "AIVMM005: worker node copy scratch allocation failed." = true ∧
          ¬ (n.attrCount ≠ 0 ∧ src.nodeAttrs.length < n.attrStart + n.attrCount) ∧
          ∃ children maps₁ vm₁ kind id attrs,
            copyWorkerBoundaryChildren src (copyWorkerBoundaryNode env store src fuel)
              (List.range' n.childStart n.childCount) { maps with nodesBusy := h :: maps.nodesBusy } vm =
                .ok (children, maps₁) vm₁ ∧
            foreignString src.toHeap n.kind = some kind ∧ foreignString src.toHeap n.id = some id ∧
            (src.attrsOf n).mapM (foreignAttr src.toHeap) = some attrs ∧
            store.node maps₁.holds kind id attrs children vm₁ = .ok k vm' ∧
            maps' = { maps₁ with nodes := (h, k) :: maps₁.nodes, holds := true })) := by
  simp only [copyWorkerBoundaryNode] at hc
  cases hn : src.lookupNode h with
  | none =>
      rw [hn] at hc
      cases hc
  | some n =>
      refine ⟨n, rfl, ?_⟩
      simp only [hn] at hc
      cases hm : maps.nodes.lookup h with
      | some j =>
          simp only [hm] at hc
          cases hc
          exact .inl ⟨rfl, rfl, rfl⟩
      | none =>
          simp only [hm] at hc
          split at hc
          · cases hc
          · rename_i hbusy
            simp only [VmM.bind_ok] at hc
            obtain ⟨_, _, ha, hc⟩ := hc
            have halloc : env.allocates vm "AIVMM005: worker node copy scratch allocation failed." = true := by
              unfold Env.allocate at ha
              split at ha
              · assumption
              · cases ha
            obtain rfl := Env.allocate_ok ha
            split at hc
            · simp only [VmM.bind_ok, VmM.throw_run, reduceCtorEq, false_and, exists_false] at hc
            · rename_i hattrs
              simp only [VmM.bind_ok, VmM.deref_ok, VmM.pure_run, Outcome.ok.injEq, Prod.mk.injEq] at hc
              obtain ⟨⟨children, maps₁⟩, vm₁, hchildren, kind, _, ⟨hkind, rfl⟩, id, _, ⟨hid, rfl⟩, attrs, _,
                ⟨hat, rfl⟩, _, _, hcreate, ⟨rfl, rfl⟩, rfl⟩ := hc
              exact .inr ⟨rfl, hbusy, halloc, hattrs, children, maps₁, _, kind, id, attrs, hchildren, hkind, hid, hat,
                hcreate, rfl⟩

theorem copyWorkerBoundaryChildren_nil {copy ks}
    (hc : copyWorkerBoundaryChildren src copy [] maps vm = .ok (ks, maps') vm') : ks = [] ∧ maps' = maps ∧ vm' = vm := by
  cases hc
  exact ⟨rfl, rfl, rfl⟩

theorem copyWorkerBoundaryChildren_cons {copy slot slots ks} :
    copyWorkerBoundaryChildren src copy (slot :: slots) maps vm = .ok (ks, maps') vm' ↔
    ∃ c k ks' maps₁ vm₁, src.nodeChildren[slot]? = some c ∧ copy c maps vm = .ok (k, maps₁) vm₁ ∧
      copyWorkerBoundaryChildren src copy slots maps₁ vm₁ = .ok (ks', maps') vm' ∧ ks = k :: ks' := by
  simp only [copyWorkerBoundaryChildren]
  cases hs : src.nodeChildren[slot]? with
  | none => simp
  | some c =>
      simp only [VmM.bind_ok, VmM.pure_run, Outcome.ok.injEq, Prod.mk.injEq]
      constructor
      · rintro ⟨⟨k, maps₁⟩, vm₁, hk, ⟨ks', maps₂⟩, vm₂, hks, ⟨rfl, rfl⟩, rfl⟩
        exact ⟨c, k, ks', maps₁, vm₁, rfl, hk, hks, rfl⟩
      · rintro ⟨_, k, ks', maps₁, vm₁, hc, hk, hks, rfl⟩
        cases hc
        exact ⟨(k, maps₁), vm₁, hk, (ks', maps'), vm', hks, ⟨rfl, rfl⟩, rfl⟩

/-- A pair is found in the map, or its two components are copied and it is created. -/
theorem copyWorkerBoundaryPair_ok {copy} (hc : copyWorkerBoundaryPair src copy h maps vm = .ok (k, maps') vm') :
    ∃ p, src.lookupScratchPair h = some p ∧
      ((maps.pairs.lookup h = some k ∧ maps' = maps ∧ vm' = vm) ∨
        (maps.pairs.lookup h = none ∧ h ∉ maps.pairsBusy ∧ ∃ first second maps₁ maps₂ vm₁ vm₂,
          copy p.first { maps with pairsBusy := h :: maps.pairsBusy } vm = .ok (first, maps₁) vm₁ ∧
          copy p.second maps₁ vm₁ = .ok (second, maps₂) vm₂ ∧ createScratchPair first second vm₂ = .ok k vm' ∧
          maps' = { maps₂ with pairs := (h, k) :: maps₂.pairs, holds := true })) := by
  simp only [copyWorkerBoundaryPair] at hc
  cases hp : src.lookupScratchPair h with
  | none =>
      rw [hp] at hc
      cases hc
  | some p =>
      refine ⟨p, rfl, ?_⟩
      simp only [hp] at hc
      cases hm : maps.pairs.lookup h with
      | some j =>
          simp only [hm] at hc
          cases hc
          exact .inl ⟨rfl, rfl, rfl⟩
      | none =>
          simp only [hm] at hc
          split at hc
          · cases hc
          · rename_i hbusy
            simp only [VmM.bind_ok, VmM.pure_run, Outcome.ok.injEq, Prod.mk.injEq] at hc
            obtain ⟨⟨first, maps₁⟩, vm₁, h₁, ⟨second, maps₂⟩, vm₂, h₂, _, _, hcreate, ⟨rfl, rfl⟩, rfl⟩ := hc
            exact .inr ⟨rfl, hbusy, first, second, maps₁, maps₂, vm₁, vm₂, h₁, h₂, hcreate, rfl⟩

end Calls

/-! ## What has been copied -/

/-- The maps have only grown. -/
structure BoundaryMaps.Le (m m' : BoundaryMaps) : Prop where
  nodes : ∀ h k, m.nodes.lookup h = some k → m'.nodes.lookup h = some k
  pairs : ∀ h k, m.pairs.lookup h = some k → m'.pairs.lookup h = some k
  holds : m.holds = true → m'.holds = true

/-- Handles being copied stay so, and are entered by no one else. -/
structure BoundaryMaps.BusyKept (m m' : BoundaryMaps) : Prop where
  nodes : ∀ b ∈ m.nodesBusy, b ∈ m'.nodesBusy ∧ (m.nodes.lookup b = none → m'.nodes.lookup b = none)
  pairs : ∀ b ∈ m.pairsBusy, b ∈ m'.pairsBusy ∧ (m.pairs.lookup b = none → m'.pairs.lookup b = none)

/-- A value and its copy: handles correspond by the maps, other values read the same. -/
inductive Copied (src dst : Heap) (maps : BoundaryMaps) : Value → Value → Prop where
  | node {h k} : maps.nodes.lookup h = some k → Copied src dst maps (.node h) (.node k)
  | pair {h k} : maps.pairs.lookup h = some k → Copied src dst maps (.pair h) (.pair k)
  | leaf {v w} : (∀ k, v ≠ .node k) → (∀ k, v ≠ .pair k) →
      (∀ l, src.expand v = some (l, []) → dst.expand w = some (l, [])) → Copied src dst maps v w

/-- The cell of a copied handle is a copy of the source's cell. -/
def CopiedCell (src dst : Heap) (maps : BoundaryMaps) (v w : Value) : Prop :=
  ∀ l vs, src.expand v = some (l, vs) → ∃ ws, dst.expand w = some (l, ws) ∧ List.Forall₂ (Copied src dst maps) vs ws

/-- All that the maps say is true of the destination. -/
structure CopyInv (src : Heap) (dst : Vm) (maps : BoundaryMaps) : Prop where
  sound : dst.StringsSound
  nodes : ∀ h k, maps.nodes.lookup h = some k →
    k ≤ dst.nodes.length ∧ CopiedCell src dst.toHeap maps (.node h) (.node k)
  pairs : ∀ h k, maps.pairs.lookup h = some k →
    k ≤ dst.scratchPairs.length ∧ CopiedCell src dst.toHeap maps (.pair h) (.pair k)
  nodesInj : ∀ h h' k, maps.nodes.lookup h = some k → maps.nodes.lookup h' = some k → h = h'
  pairsInj : ∀ h h' k, maps.pairs.lookup h = some k → maps.pairs.lookup h' = some k → h = h'
  empty : maps.holds = false → maps.nodes = [] ∧ maps.pairs = []

/-- One part of a copy: the invariant holds again, and what was held before is still good. -/
structure CopyStep (src : Heap) (dst : Vm) (maps : BoundaryMaps) (dst' : Vm) (maps' : BoundaryMaps) : Prop where
  inv : CopyInv src dst' maps'
  le : maps.Le maps'
  busy : maps.BusyKept maps'
  grown : maps.holds = true → dst.Grown dst'

theorem BoundaryMaps.Le.refl (m : BoundaryMaps) : m.Le m := ⟨fun _ _ h => h, fun _ _ h => h, fun h => h⟩

theorem BoundaryMaps.Le.trans {a b c : BoundaryMaps} (h : a.Le b) (h' : b.Le c) : a.Le c :=
  ⟨fun x k hx => h'.nodes x k (h.nodes x k hx), fun x k hx => h'.pairs x k (h.pairs x k hx),
    fun ha => h'.holds (h.holds ha)⟩

theorem BoundaryMaps.BusyKept.refl (m : BoundaryMaps) : m.BusyKept m :=
  ⟨fun _ hb => ⟨hb, fun h => h⟩, fun _ hb => ⟨hb, fun h => h⟩⟩

theorem BoundaryMaps.BusyKept.trans {a b c : BoundaryMaps} (h : a.BusyKept b) (h' : b.BusyKept c) : a.BusyKept c :=
  ⟨fun x hx => ⟨(h'.nodes x (h.nodes x hx).1).1, fun ha => (h'.nodes x (h.nodes x hx).1).2 ((h.nodes x hx).2 ha)⟩,
    fun x hx => ⟨(h'.pairs x (h.pairs x hx).1).1, fun ha => (h'.pairs x (h.pairs x hx).1).2 ((h.pairs x hx).2 ha)⟩⟩

theorem CopyStep.refl {src : Heap} {dst maps} (inv : CopyInv src dst maps) : CopyStep src dst maps dst maps :=
  ⟨inv, .refl _, .refl _, fun _ => .refl _⟩

theorem CopyStep.trans {src : Heap} {a b c : Vm} {m m' m''} (h : CopyStep src a m b m')
    (h' : CopyStep src b m' c m'') : CopyStep src a m c m'' :=
  ⟨h'.inv, h.le.trans h'.le, h.busy.trans h'.busy, fun hm => (h.grown hm).trans (h'.grown (h.le.holds hm))⟩

theorem Copied.mono {src dst dst' : Heap} {m m' : BoundaryMaps} (he : dst.Extends dst') (hle : m.Le m') {v w}
    (h : Copied src dst m v w) : Copied src dst' m' v w := by
  cases h with
  | node hk => exact .node (hle.nodes _ _ hk)
  | pair hk => exact .pair (hle.pairs _ _ hk)
  | leaf hn hp hl => exact .leaf hn hp fun l h => he.expand (hl l h)

theorem CopiedCell.mono {src dst dst' : Heap} {m m' : BoundaryMaps} (he : dst.Extends dst') (hle : m.Le m') {v w}
    (h : CopiedCell src dst m v w) : CopiedCell src dst' m' v w := by
  intro l vs hexp
  obtain ⟨ws, hw, hall⟩ := h l vs hexp
  exact ⟨ws, he.expand hw, hall.imp fun _ _ hc => hc.mono he hle⟩

/-- Copies lead from cells to like cells. -/
theorem CopyInv.simulates {src : Heap} {dst maps} (inv : CopyInv src dst maps) :
    Simulates src.expand dst.expand (Copied src dst.toHeap maps) := by
  intro v w hvw l vs hexp
  cases hvw with
  | node hk => exact (inv.nodes _ _ hk).2 l vs hexp
  | pair hk => exact (inv.pairs _ _ hk).2 l vs hexp
  | leaf hn hp hl =>
      obtain rfl := Heap.expand_leaf _ hn hp hexp
      exact ⟨[], hl l hexp, .nil⟩

/-- A destination that has only grown keeps the invariant. -/
theorem CopyInv.grown {src : Heap} {dst dst' : Vm} {maps} (inv : CopyInv src dst maps) (hg : dst.Grown dst')
    (hs : dst'.StringsSound) : CopyInv src dst' maps where
  sound := hs
  nodes h k hk := ⟨Nat.le_trans (inv.nodes h k hk).1 hg.heap.nodes.length_le,
    (inv.nodes h k hk).2.mono hg.heap (.refl _)⟩
  pairs h k hk := ⟨Nat.le_trans (inv.pairs h k hk).1 hg.heap.pairs.length_le,
    (inv.pairs h k hk).2.mono hg.heap (.refl _)⟩
  nodesInj := inv.nodesInj
  pairsInj := inv.pairsInj
  empty := inv.empty

/-- The invariant does not look at the handles being copied. -/
theorem CopyInv.same {src : Heap} {dst maps maps'} (inv : CopyInv src dst maps) (hn : maps'.nodes = maps.nodes)
    (hp : maps'.pairs = maps.pairs) (hh : maps'.holds = maps.holds) : CopyInv src dst maps' := by
  have hle : maps.Le maps' := ⟨by rw [hn]; exact fun _ _ h => h, by rw [hp]; exact fun _ _ h => h, by rw [hh]; exact id⟩
  refine ⟨inv.sound, fun x k hx => ?_, fun x k hx => ?_, ?_, ?_, ?_⟩
  · rw [hn] at hx
    exact ⟨(inv.nodes x k hx).1, (inv.nodes x k hx).2.mono (.refl _) hle⟩
  · rw [hp] at hx
    exact ⟨(inv.pairs x k hx).1, (inv.pairs x k hx).2.mono (.refl _) hle⟩
  · rw [hn]
    exact inv.nodesInj
  · rw [hp]
    exact inv.pairsInj
  · rw [hn, hp, hh]
    exact inv.empty

/-- Marking a handle as being copied. -/
theorem CopyInv.busyNode {src : Heap} {dst maps} (inv : CopyInv src dst maps) (h : Nat) :
    CopyStep src dst maps dst { maps with nodesBusy := h :: maps.nodesBusy } where
  inv := inv.same rfl rfl rfl
  le := ⟨fun _ _ h => h, fun _ _ h => h, fun h => h⟩
  busy := ⟨fun _ hb => ⟨List.mem_cons_of_mem _ hb, fun h => h⟩, fun _ hb => ⟨hb, fun h => h⟩⟩
  grown := fun _ => .refl _

theorem CopyInv.busyPair {src : Heap} {dst maps} (inv : CopyInv src dst maps) (h : Nat) :
    CopyStep src dst maps dst { maps with pairsBusy := h :: maps.pairsBusy } where
  inv := inv.same rfl rfl rfl
  le := ⟨fun _ _ h => h, fun _ _ h => h, fun h => h⟩
  busy := ⟨fun _ hb => ⟨hb, fun h => h⟩, fun _ hb => ⟨List.mem_cons_of_mem _ hb, fun h => h⟩⟩
  grown := fun _ => .refl _

/-! ## Entering a handle -/

theorem lookup_cons_of_ne {h h' k : Nat} {l : List (Nat × Nat)} (hne : h' ≠ h) :
    List.lookup h' ((h, k) :: l) = l.lookup h' := by
  simp [List.lookup_cons, beq_eq_false_iff_ne.2 hne]

theorem lookup_cons_self {h k : Nat} {l : List (Nat × Nat)} : List.lookup h ((h, k) :: l) = some k := by
  simp

theorem BoundaryMaps.Le.enterNode {m : BoundaryMaps} {h k} (hnone : m.nodes.lookup h = none) :
    m.Le { m with nodes := (h, k) :: m.nodes, holds := true } where
  nodes x j hx := by
    have hne : x ≠ h := by
      rintro rfl
      rw [hnone] at hx
      cases hx
    rw [lookup_cons_of_ne hne, hx]
  pairs _ _ h := h
  holds _ := rfl

theorem BoundaryMaps.Le.enterPair {m : BoundaryMaps} {h k} (hnone : m.pairs.lookup h = none) :
    m.Le { m with pairs := (h, k) :: m.pairs, holds := true } where
  nodes _ _ h := h
  pairs x j hx := by
    have hne : x ≠ h := by
      rintro rfl
      rw [hnone] at hx
      cases hx
    rw [lookup_cons_of_ne hne, hx]
  holds _ := rfl

/-- A new entry to a map that is injective, with a number larger than all entries. -/
theorem lookup_inj_cons {l : List (Nat × Nat)} {h k n : Nat} (hbound : ∀ x j, l.lookup x = some j → j ≤ n) (hk : n < k)
    (hinj : ∀ x y j, l.lookup x = some j → l.lookup y = some j → x = y) (x y j : Nat)
    (hx : List.lookup x ((h, k) :: l) = some j) (hy : List.lookup y ((h, k) :: l) = some j) : x = y := by
  by_cases hxh : x = h
  · by_cases hyh : y = h
    · rw [hxh, hyh]
    · rw [lookup_cons_of_ne hyh] at hy
      rw [hxh, lookup_cons_self] at hx
      cases hx
      exact absurd (hbound y k hy) (by omega)
  · rw [lookup_cons_of_ne hxh] at hx
    by_cases hyh : y = h
    · rw [hyh, lookup_cons_self] at hy
      cases hy
      exact absurd (hbound x k hx) (by omega)
    · rw [lookup_cons_of_ne hyh] at hy
      exact hinj x y j hx hy

/-- A node that has just been created with copied children is entered. -/
theorem CopyInv.enterNode {src : Heap} {dst dst' : Vm} {maps h k} (inv : CopyInv src dst maps)
    (hnone : maps.nodes.lookup h = none) (hg : maps.holds = true → dst.Grown dst') (hs : dst'.StringsSound)
    (hk : maps.holds = true → dst.nodes.length < k) (hk' : k ≤ dst'.nodes.length)
    (hcell : ∀ l vs, src.expand (.node h) = some (l, vs) → ∃ ws, dst'.expand (.node k) = some (l, ws) ∧
      List.Forall₂ (Copied src dst'.toHeap { maps with nodes := (h, k) :: maps.nodes, holds := true }) vs ws) :
    CopyInv src dst' { maps with nodes := (h, k) :: maps.nodes, holds := true } := by
  have hle := BoundaryMaps.Le.enterNode (k := k) hnone
  cases hh : maps.holds with
  | false =>
      obtain ⟨he, hp⟩ := inv.empty hh
      have honly : ∀ x j, List.lookup x ((h, k) :: maps.nodes) = some j → x = h ∧ j = k := by
        intro x j hx
        by_cases hxh : x = h
        · rw [hxh, lookup_cons_self] at hx
          cases hx
          exact ⟨hxh, rfl⟩
        · rw [lookup_cons_of_ne hxh, he] at hx
          cases hx
      refine ⟨hs, fun x j hx => ?_, fun x j hx => ?_, fun x y j hx hy => ?_, fun x y j hx _ => ?_, by simp⟩
      · obtain ⟨rfl, rfl⟩ := honly x j hx
        exact ⟨hk', hcell⟩
      · rw [hp] at hx
        cases hx
      · rw [(honly x j hx).1, (honly y j hy).1]
      · rw [hp] at hx
        cases hx
  | true =>
      have hgrown := hg hh
      refine ⟨hs, fun x j hx => ?_, fun x j hx => ?_, ?_, inv.pairsInj, by simp⟩
      · by_cases hxh : x = h
        · subst hxh
          rw [lookup_cons_self] at hx
          cases hx
          exact ⟨hk', hcell⟩
        · rw [lookup_cons_of_ne hxh] at hx
          exact ⟨Nat.le_trans (inv.nodes x j hx).1 hgrown.heap.nodes.length_le,
            (inv.nodes x j hx).2.mono hgrown.heap hle⟩
      · exact ⟨Nat.le_trans (inv.pairs x j hx).1 hgrown.heap.pairs.length_le,
          (inv.pairs x j hx).2.mono hgrown.heap hle⟩
      · exact lookup_inj_cons (fun x j hx => (inv.nodes x j hx).1) (hk hh) inv.nodesInj

/-- A pair that has just been created with copied components is entered. -/
theorem CopyInv.enterPair {src : Heap} {dst dst' : Vm} {maps h k} (inv : CopyInv src dst maps)
    (hnone : maps.pairs.lookup h = none) (hg : dst.Grown dst') (hs : dst'.StringsSound)
    (hk : dst.scratchPairs.length < k) (hk' : k ≤ dst'.scratchPairs.length)
    (hcell : CopiedCell src dst'.toHeap { maps with pairs := (h, k) :: maps.pairs, holds := true } (.pair h) (.pair k)) :
    CopyInv src dst' { maps with pairs := (h, k) :: maps.pairs, holds := true } := by
  have hle := BoundaryMaps.Le.enterPair (k := k) hnone
  refine ⟨hs, fun x j hx => ?_, fun x j hx => ?_, inv.nodesInj, ?_, by simp⟩
  · exact ⟨Nat.le_trans (inv.nodes x j hx).1 hg.heap.nodes.length_le, (inv.nodes x j hx).2.mono hg.heap hle⟩
  · by_cases hxh : x = h
    · subst hxh
      rw [lookup_cons_self] at hx
      cases hx
      exact ⟨hk', hcell⟩
    · rw [lookup_cons_of_ne hxh] at hx
      exact ⟨Nat.le_trans (inv.pairs x j hx).1 hg.heap.pairs.length_le, (inv.pairs x j hx).2.mono hg.heap hle⟩
  · exact lookup_inj_cons (fun x j hx => (inv.pairs x j hx).1) hk inv.pairsInj

end Aivm
