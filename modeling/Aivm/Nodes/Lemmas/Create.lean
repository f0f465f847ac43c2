import Aivm.Nodes.Create
import Aivm.Strings.Lemmas.Arena
import Aivm.Gc.Lemmas.NodeCompaction
import Aivm.Gc.Lemmas.Total

/-!
# What a node allocation does

The inputs are read, room is made, the nodes may be collected, and then the strings and the record are appended. Once
the strings have been reserved, copying them never compacts the arena.
-/

namespace Aivm

open Unfold CStrings Sliding

variable {env : Env} {vm vm' : Vm}

theorem VmM.mapM_cons_ok {α β : Type} {f : α → VmM β} {a as vm bs vm'} :
    (a :: as).mapM f vm = .ok bs vm' ↔
      ∃ b vm₁ bs', f a vm = .ok b vm₁ ∧ as.mapM f vm₁ = .ok bs' vm' ∧ bs = b :: bs' := by
  simp only [List.mapM_cons, VmM.bind_ok, VmM.pure_run, Outcome.ok.injEq]
  constructor
  · rintro ⟨b, vm₁, hb, bs', vm₂, hbs, rfl, rfl⟩
    exact ⟨b, vm₁, bs', hb, hbs, rfl⟩
  · rintro ⟨b, vm₁, bs', hb, hbs, rfl⟩
    exact ⟨b, vm₁, hb, bs', vm', hbs, rfl, rfl⟩

/-! ## Inputs -/

theorem cstr_clean {h : Heap} {p s} (hs : h.cstr p = some s) : (0 : Byte) ∉ s := by
  cases p with
  | null => simp [Heap.cstr] at hs
  | lit t =>
      cases hs
      intro hz
      simpa using List.mem_takeWhile_imp hz
  | arena b o =>
      simp only [Heap.cstr] at hs
      split at hs
      · exact (read_eq_some.1 hs).1
      · cases hs

theorem snapshotNodeInputString_ok {p t} (h : snapshotNodeInputString env p vm = .ok t vm') :
    vm' = vm ∧ vm.cstr p = some t := by
  simp only [snapshotNodeInputString, VmM.bind_ok, VmM.get_run, VmM.deref_ok, VmM.pure_run, Outcome.ok.injEq] at h
  obtain ⟨_, _, ⟨rfl, rfl⟩, _, _, ⟨ht, rfl⟩, _, _, ha, rfl, rfl⟩ := h
  exact ⟨Env.allocateIf_ok ha, ht⟩

theorem snapshotNodeAttr_ok {a m} (h : snapshotNodeAttr env a vm = .ok m vm') :
    vm' = vm ∧ vm.attrMeaning a.orEmpty = some m := by
  obtain ⟨key, value⟩ := a
  rw [snapshotNodeAttr, VmM.bind_ok] at h
  obtain ⟨k, _, hk, h⟩ := h
  obtain ⟨rfl, hkey⟩ := snapshotNodeInputString_ok hk
  simp only at hkey
  cases value with
  | identifier p =>
      simp only [VmM.bind_ok] at h
      obtain ⟨t, _, ht, h⟩ := h
      obtain ⟨rfl, htext⟩ := snapshotNodeInputString_ok ht
      cases h
      exact ⟨rfl, by simp [Heap.attrMeaning, NodeAttr.orEmpty, hkey, htext]⟩
  | string p =>
      simp only [VmM.bind_ok] at h
      obtain ⟨t, _, ht, h⟩ := h
      obtain ⟨rfl, htext⟩ := snapshotNodeInputString_ok ht
      cases h
      exact ⟨rfl, by simp [Heap.attrMeaning, NodeAttr.orEmpty, hkey, htext]⟩
  | int i =>
      cases h
      exact ⟨rfl, by simp [Heap.attrMeaning, NodeAttr.orEmpty, hkey]⟩
  | bool b =>
      cases h
      exact ⟨rfl, by simp [Heap.attrMeaning, NodeAttr.orEmpty, hkey]⟩

theorem snapshotNodeAttrs_ok {as} : ∀ {ms}, as.mapM (snapshotNodeAttr env) vm = .ok ms vm' →
    vm' = vm ∧ List.Forall₂ (fun a m => vm.attrMeaning a.orEmpty = some m) as ms := by
  induction as with
  | nil =>
      intro ms h
      cases h
      exact ⟨rfl, .nil⟩
  | cons a as ih =>
      intro ms h
      obtain ⟨m, vm₁, ms', hm, hms, rfl⟩ := VmM.mapM_cons_ok.1 h
      obtain ⟨rfl, ha⟩ := snapshotNodeAttr_ok hm
      obtain ⟨rfl, has⟩ := ih hms
      exact ⟨rfl, .cons ha has⟩

/-- The texts of an attribute have no terminator inside. -/
def CleanAttr : List Byte × AttrMeaning → Prop
  | (key, .identifier t) => (0 : Byte) ∉ key ∧ (0 : Byte) ∉ t
  | (key, .string t) => (0 : Byte) ∉ key ∧ (0 : Byte) ∉ t
  | (key, _) => (0 : Byte) ∉ key

theorem attrMeaning_clean {h : Heap} {a m} (hm : h.attrMeaning a = some m) : CleanAttr m := by
  obtain ⟨key, value⟩ := a
  simp only [Heap.attrMeaning, Option.bind_eq_bind, Option.bind_eq_some_iff] at hm
  obtain ⟨k, hk, hm⟩ := hm
  cases value with
  | identifier p =>
      obtain ⟨t, ht, hm⟩ := Option.bind_eq_some_iff.1 hm
      cases hm
      exact ⟨cstr_clean hk, cstr_clean ht⟩
  | string p =>
      obtain ⟨t, ht, hm⟩ := Option.bind_eq_some_iff.1 hm
      cases hm
      exact ⟨cstr_clean hk, cstr_clean ht⟩
  | int i =>
      cases hm
      exact cstr_clean hk
  | bool b =>
      cases hm
      exact cstr_clean hk

/-! ## Copies into reserved space -/

theorem copyStringRangeToArena_room (env : Env) {text} (hroom : vm.stringArena.length + (text.length + 1) ≤ vm.stringArenaLimit)
    (ht : (0 : Byte) ∉ text) (hs : vm.StringsSound) :
    ∃ p vm', copyStringRangeToArena env text vm = .ok p vm' ∧ vm.StringsGrown vm' ∧ vm'.Stored text p ∧
      vm'.stringArena.length ≤ vm.stringArena.length + (text.length + 1) := by
  have hrun : ∃ p vm', copyStringRangeToArena env text vm = .ok p vm' := by
    unfold copyStringRangeToArena
    simp only [VmM.bind_run, VmM.get_run]
    cases lookupStringOffset vm text with
    | some offset => exact ⟨_, _, rfl⟩
    | none =>
        simp only [storeString, stringArenaAlloc, VmM.bind_run, stringArenaReserve_of_room hroom, VmM.get_run,
          VmM.modify_run, VmM.pure_run]
        exact ⟨_, _, rfl⟩
  obtain ⟨p, vm', h⟩ := hrun
  obtain ⟨vm₁, hv, hg, hp, hl⟩ := copyStringRangeToArena_ok ht hs h
  have hsame : vm₁ = vm := by
    rcases hv with rfl | hr
    · rfl
    · rw [stringArenaReserve_of_room hroom] at hr
      cases hr
      rfl
  subst hsame
  exact ⟨p, vm', h, hg, hp, hl⟩

theorem Vm.StringsGrown.limit (h : vm.StringsGrown vm') : vm'.stringArenaLimit = vm.stringArenaLimit := by
  rw [h.frame]

theorem copyNodeAttr_room (env : Env) {m} (hroom : vm.stringArena.length + attrStringBytes m ≤ vm.stringArenaLimit)
    (hc : CleanAttr m) (hs : vm.StringsSound) :
    ∃ a vm', copyNodeAttr env m vm = .ok a vm' ∧ vm.StringsGrown vm' ∧ vm'.attrMeaning a = some m ∧
      vm'.stringArena.length ≤ vm.stringArena.length + attrStringBytes m := by
  obtain ⟨key, value⟩ := m
  have hkey : (0 : Byte) ∉ key := by
    cases value with
    | identifier t => exact hc.1
    | string t => exact hc.1
    | int i => exact hc
    | bool b => exact hc
  have hfirst : vm.stringArena.length + (key.length + 1) ≤ vm.stringArenaLimit := by
    cases value <;> simp only [attrStringBytes] at hroom <;> omega
  obtain ⟨k, vm₁, hk, g₁, p₁, l₁⟩ := copyStringRangeToArena_room env hfirst hkey hs
  have hlimit := g₁.limit
  have hsecond : ∀ t : List Byte, (0 : Byte) ∉ t →
      vm.stringArena.length + (key.length + 1 + (t.length + 1)) ≤ vm.stringArenaLimit →
      ∃ p vm₂, copyStringRangeToArena env t vm₁ = .ok p vm₂ ∧ vm₁.StringsGrown vm₂ ∧ vm₂.Stored t p ∧
        vm₂.stringArena.length ≤ vm.stringArena.length + (key.length + 1 + (t.length + 1)) := by
    intro t ht hr
    obtain ⟨p, vm₂, h₂, g₂, p₂, l₂⟩ := copyStringRangeToArena_room env (by omega) ht g₁.sound
    exact ⟨p, vm₂, h₂, g₂, p₂, by omega⟩
  cases value with
  | identifier t =>
      obtain ⟨p, vm₂, h₂, g₂, p₂, l₂⟩ := hsecond t hc.2 hroom
      refine ⟨⟨k, .identifier p⟩, vm₂, ?_, g₁.trans g₂, ?_, l₂⟩
      · simp only [copyNodeAttr, VmM.bind_run, hk, h₂, VmM.pure_run]
      · simp [Heap.attrMeaning, (p₁.grown g₂).2, p₂.2]
  | string t =>
      obtain ⟨p, vm₂, h₂, g₂, p₂, l₂⟩ := hsecond t hc.2 hroom
      refine ⟨⟨k, .string p⟩, vm₂, ?_, g₁.trans g₂, ?_, l₂⟩
      · simp only [copyNodeAttr, VmM.bind_run, hk, h₂, VmM.pure_run]
      · simp [Heap.attrMeaning, (p₁.grown g₂).2, p₂.2]
  | int i =>
      refine ⟨⟨k, .int i⟩, vm₁, ?_, g₁, ?_, l₁⟩
      · simp only [copyNodeAttr, VmM.bind_run, hk, VmM.pure_run]
      · simp [Heap.attrMeaning, p₁.2]
  | bool b =>
      refine ⟨⟨k, .bool b⟩, vm₁, ?_, g₁, ?_, l₁⟩
      · simp only [copyNodeAttr, VmM.bind_run, hk, VmM.pure_run]
      · simp [Heap.attrMeaning, p₁.2]

theorem copyNodeAttrs_room (env : Env) {ms} : ∀ {vm : Vm},
    vm.stringArena.length + (ms.map attrStringBytes).sum ≤ vm.stringArenaLimit → (∀ m ∈ ms, CleanAttr m) →
    vm.StringsSound → ∃ as vm', ms.mapM (copyNodeAttr env) vm = .ok as vm' ∧ vm.StringsGrown vm' ∧
      List.Forall₂ (fun a m => vm'.attrMeaning a = some m) as ms := by
  induction ms with
  | nil =>
      intro vm _ _ hs
      exact ⟨[], vm, rfl, .refl hs, .nil⟩
  | cons m ms ih =>
      intro vm hroom hc hs
      rw [List.map_cons, List.sum_cons] at hroom
      obtain ⟨a, vm₁, h₁, g₁, m₁, l₁⟩ :=
        copyNodeAttr_room env (by omega) (hc m (List.mem_cons_self ..)) hs
      have hlimit := g₁.limit
      obtain ⟨as, vm₂, h₂, g₂, m₂⟩ := ih (by omega) (fun x hx => hc x (List.mem_cons_of_mem _ hx)) g₁.sound
      refine ⟨a :: as, vm₂, VmM.mapM_cons_ok.2 ⟨a, vm₁, as, h₁, h₂, rfl⟩, g₁.trans g₂, ?_⟩
      exact .cons (g₂.extends.attrMeaning m₁) m₂

/-! ## Collections -/

/-- The store has moved, and the child handles with it. -/
def Carries (vm vm' : Vm) (cs cs' : List Nat) : Prop :=
  ∃ R, Moves R vm vm' ∧ (∀ k w, R (.pair k) w → w = .pair k) ∧
    List.Forall₂ (fun c c' => R (.node c) (.node c')) cs cs'

theorem Carries.of_moves_eq {cs} (h : Moves Eq vm vm') : Carries vm vm' cs cs :=
  ⟨Eq, h, fun _ _ h => h.symm, List.forall₂_refl _⟩

theorem Carries.trans {a b c : Vm} {cs ds es} (h : Carries a b cs ds) (h' : Carries b c ds es) : Carries a c cs es := by
  obtain ⟨R, hm, hp, hc⟩ := h
  obtain ⟨S, hm', hp', hc'⟩ := h'
  refine ⟨_, hm.trans hm', ?_, forall₂_comp (fun hr hs => ⟨_, hr, hs⟩) hc hc'⟩
  rintro k w ⟨v, hr, hs⟩
  obtain rfl := hp k v hr
  exact hp' k w hs

theorem Carries.kept {cs cs'} (h : Carries vm vm' cs cs') : vm.Kept vm' := by
  obtain ⟨R, hm, hp, _⟩ := h
  exact hm.kept fun hr => hp _ _ hr

theorem Carries.denotes {cs cs' ts} (h : Carries vm vm' cs cs')
    (ht : List.Forall₂ (fun c t => vm.Denotes (.node c) t) cs ts) :
    List.Forall₂ (fun c t => vm'.Denotes (.node c) t) cs' ts := by
  obtain ⟨R, hm, _, hc⟩ := h
  have hback := hc.flip
  refine forall₂_comp (fun {c' c t} hr ht => ?_) hback ht
  exact hm.denotes hr ht

/-- A node whose kind points into an arena that has been replaced. -/
def Vm.Dangles (vm : Vm) (c : Nat) : Prop :=
  ∃ n block offset, vm.lookupNode c = some n ∧ n.kind = .arena block offset ∧ block ≠ vm.stringBlock

theorem Vm.Dangles.not_denotes {c t} (h : vm.Dangles c) : ¬ vm.Denotes (.node c) t := by
  intro ht
  obtain ⟨n, block, offset, hn, hkind, hblock⟩ := h
  obtain ⟨l, vs, _, hexp, _⟩ := ht.cell
  obtain ⟨n', hn', _, hl, _⟩ := (Heap.expand_node _).1 hexp
  rw [hn] at hn'
  cases hn'
  simp [Heap.nodeLabel, Heap.cstr, hkind, hblock] at hl

theorem Vm.Dangles.extends {c} (h : vm.Dangles c) (e : vm.Extends vm'.toHeap) : vm'.Dangles c := by
  obtain ⟨n, block, offset, hn, hkind, hblock⟩ := h
  exact ⟨n, block, offset, e.lookupNode hn, hkind, by rw [e.stringBlock]; exact hblock⟩

/-- A collection of nodes carries the children over, and repairs no dangling one. -/
def Collects (vm vm' : Vm) (cs cs' : List Nat) : Prop :=
  Carries vm vm' cs cs' ∧ List.Forall₂ (fun c c' => vm.Dangles c → vm'.Dangles c') cs cs'

theorem Collects.trans {a b c : Vm} {cs ds es} (h : Collects a b cs ds) (h' : Collects b c ds es) : Collects a c cs es :=
  ⟨h.1.trans h'.1, forall₂_comp (fun hr hs hd => hs (hr hd)) h.2 h'.2⟩

/-- The string arena, its index and its limit are the same. -/
def Vm.SameStrings (vm vm' : Vm) : Prop :=
  vm'.stringArena = vm.stringArena ∧ vm'.stringBlock = vm.stringBlock ∧ vm'.stringIntern = vm.stringIntern ∧
    vm'.stringArenaLimit = vm.stringArenaLimit

theorem Vm.SameStrings.refl (vm : Vm) : vm.SameStrings vm := ⟨rfl, rfl, rfl, rfl⟩

theorem Vm.SameStrings.trans {a b c : Vm} (h : a.SameStrings b) (h' : b.SameStrings c) : a.SameStrings c :=
  ⟨h'.1.trans h.1, h'.2.1.trans h.2.1, h'.2.2.1.trans h.2.2.1, h'.2.2.2.trans h.2.2.2⟩

theorem Vm.SameStrings.sound (h : vm.SameStrings vm') (hs : vm.StringsSound) : vm'.StringsSound := by
  refine ⟨h.1 ▸ hs.terminated, ?_⟩
  rw [h.1, h.2.2.1]
  exact hs.intern

/-- A change of fields that no value is read from. -/
theorem Moves.of_same (hf : vm.SameFrame vm') (hr : vm.SameRoots vm') (hh : vm'.toHeap = vm.toHeap) : Moves Eq vm vm' :=
  .of_extends hf hr (by rw [hh]; exact .refl _)

theorem Collects.of_same {cs} (hf : vm.SameFrame vm') (hr : vm.SameRoots vm') (hh : vm'.toHeap = vm.toHeap) :
    Collects vm vm' cs cs := by
  refine ⟨.of_moves_eq (.of_same hf hr hh), List.forall₂_same.2 fun c _ hd => hd.extends ?_⟩
  rw [hh]
  exact .refl _

theorem countNodeGcAttempt_collects (vm : Vm) (cs : List Nat) : Collects vm (countNodeGcAttempt vm) cs cs :=
  .of_same rfl ⟨rfl, rfl, rfl, rfl, rfl, rfl, rfl, rfl⟩ rfl

theorem compactNodeArenasWithMap_collects {cs cs' map} (h : compactNodeArenasWithMap env cs vm = .ok map vm')
    (hr : remapChildHandlesForCompaction vm'.nodeCapacity map cs = some cs') : Collects vm vm' cs cs' := by
  have hcs := mapM_eq_some.1 hr
  rcases compactNodeArenasWithMap_ok h with ⟨_, rfl, rfl⟩ | ⟨live, livePairs, arenas, c, rfl⟩
  · cases hcs with
    | nil => exact countNodeGcAttempt_collects vm []
    | cons hx _ => simp [remapHandle] at hx
  · refine (countNodeGcAttempt_collects vm cs).trans ⟨⟨_, c.moves, fun k w hm => hm.pair_iff.1 rfl, ?_⟩, ?_⟩
    · exact hcs.imp fun x y hxy => .of_remapHandle hxy
    · refine hcs.imp fun x y hxy hd => ?_
      obtain ⟨_, _, hpos, rfl⟩ := remapHandle_eq_some.1 hxy
      obtain ⟨n, n', hn, hn', hmoved⟩ := c.lookupNode (place_pos.1 hpos)
      obtain ⟨m, block, offset, hm, hkind, hblock⟩ := hd
      rw [hn] at hm
      cases hm
      refine ⟨n', block, offset, hn', hmoved.kind.trans hkind, ?_⟩
      rw [c.heap]
      exact hblock

theorem compactNodeArenasWithMap_sameStrings {extra map} (h : compactNodeArenasWithMap env extra vm = .ok map vm') :
    vm.SameStrings vm' := by
  rcases compactNodeArenasWithMap_ok h with ⟨_, rfl, _⟩ | ⟨live, livePairs, arenas, c, _⟩
  · exact ⟨rfl, rfl, rfl, rfl⟩
  · unfold Vm.SameStrings
    rw [c.roots.frame]
    exact ⟨rfl, rfl, rfl, rfl⟩

theorem collectNodesFor_ok {detail src src'} (h : collectNodesFor env detail src vm = .ok src' vm') :
    ∃ map vm₁ cs, compactNodeArenasWithMap env (src.read vm) vm = .ok map vm₁ ∧
      remapChildHandlesForCompaction vm₁.nodeCapacity map (src.read vm₁) = some cs ∧ src' = .array cs ∧
      vm' = { vm₁ with nodeAllocationsSinceGc := 0 } := by
  simp only [collectNodesFor, VmM.bind_ok, VmM.get_run, Outcome.ok.injEq] at h
  obtain ⟨_, _, ha, _, _, ⟨rfl, rfl⟩, map, vm₁, hc, _, _, ⟨rfl, rfl⟩, h⟩ := h
  obtain rfl := Env.allocate_ok ha
  refine ⟨map, vm₁, ?_⟩
  cases hr : remapChildHandlesForCompaction vm₁.nodeCapacity map (src.read vm₁) with
  | none =>
      rw [hr] at h
      cases h
  | some cs =>
      rw [hr] at h
      cases h
      exact ⟨cs, hc, rfl, rfl, rfl⟩

theorem collectNodesFor_array {detail cs src'} (h : collectNodesFor env detail (.array cs) vm = .ok src' vm') :
    ∃ cs', src' = .array cs' ∧ Collects vm vm' cs cs' := by
  obtain ⟨map, vm₁, cs', hc, hr, rfl, rfl⟩ := collectNodesFor_ok h
  have hreset : Collects vm₁ { vm₁ with nodeAllocationsSinceGc := 0 } cs' cs' :=
    .of_same rfl ⟨rfl, rfl, rfl, rfl, rfl, rfl, rfl, rfl⟩ rfl
  exact ⟨cs', rfl, (compactNodeArenasWithMap_collects hc hr).trans hreset⟩

theorem collectNodesFor_sameStrings {detail src src'} (h : collectNodesFor env detail src vm = .ok src' vm') :
    vm.SameStrings vm' := by
  obtain ⟨map, vm₁, cs', hc, hr, rfl, rfl⟩ := collectNodesFor_ok h
  obtain ⟨h₁, h₂, h₃, h₄⟩ := compactNodeArenasWithMap_sameStrings hc
  exact ⟨h₁, h₂, h₃, h₄⟩

/-- Growing the node arenas changes capacities only. -/
theorem tryGrowNodeArenas_grown (env : Env) (n a c : Nat) (vm : Vm) :
    ∃ nodes attrs children suspended, (tryGrowNodeArenas env n a c vm).2 = { vm with
      nodeCapacity := nodes
      nodeAttrCapacity := attrs
      nodeChildCapacity := children
      hostMemoryGrowthSuspended := suspended } := by
  have hself : ∃ nodes attrs children suspended, vm = { vm with
      nodeCapacity := nodes
      nodeAttrCapacity := attrs
      nodeChildCapacity := children
      hostMemoryGrowthSuspended := suspended } := by
    cases vm
    exact ⟨_, _, _, _, rfl⟩
  unfold tryGrowNodeArenas
  split
  · exact hself
  · rename_i ht
    simp only [ne_eq, not_not] at ht
    simp only
    split
    · exact hself
    · simp only [hostMemoryGrowthAvailable, if_pos ht]
      have hask := askHostMemory_grown env
        ((grownCapacity vm.nodeCapacity n - vm.nodeCapacity) * nodeRecordSize +
          (grownCapacity vm.nodeAttrCapacity a - vm.nodeAttrCapacity) * nodeAttrSize +
          (grownCapacity vm.nodeChildCapacity c - vm.nodeChildCapacity) * nodeChildSize) vm
      split
      · rename_i vm₁ he
        rw [he] at hask
        simp only at hask ⊢
        rw [hask]
        exact ⟨_, _, _, _, rfl⟩
      · rename_i vm₁ he
        rw [he] at hask
        simp only at hask ⊢
        rw [hask]
        split
        · exact ⟨_, _, _, _, rfl⟩
        · split
          · exact ⟨_, _, _, _, rfl⟩
          · split
            · exact ⟨_, _, _, _, rfl⟩
            · exact ⟨_, _, _, _, rfl⟩

theorem tryGrowNodeArenas_same (env : Env) (n a c : Nat) (vm : Vm) :
    vm.SameFrame (tryGrowNodeArenas env n a c vm).2 ∧ vm.SameRoots (tryGrowNodeArenas env n a c vm).2 ∧
      (tryGrowNodeArenas env n a c vm).2.toHeap = vm.toHeap ∧ vm.SameStrings (tryGrowNodeArenas env n a c vm).2 := by
  obtain ⟨_, _, _, _, h⟩ := tryGrowNodeArenas_grown env n a c vm
  rw [h]
  exact ⟨rfl, ⟨rfl, rfl, rfl, rfl, rfl, rfl, rfl, rfl⟩, rfl, rfl, rfl, rfl, rfl⟩

/-- The proactive stage grows the arenas, collects, or does nothing. -/
theorem collectProactively_ok {a c src src'} (h : collectProactively env a c src vm = .ok src' vm') :
    ∃ vm₁, vm.SameFrame vm₁ ∧ vm.SameRoots vm₁ ∧ vm₁.toHeap = vm.toHeap ∧ vm.SameStrings vm₁ ∧
      ((src' = src ∧ vm' = vm₁) ∨ ∃ detail, collectNodesFor env detail src vm₁ = .ok src' vm') := by
  simp only [collectProactively, VmM.bind_ok, VmM.get_run, Outcome.ok.injEq] at h
  obtain ⟨_, _, ⟨rfl, rfl⟩, h⟩ := h
  split at h
  · simp only [VmM.bind_ok, VmM.modify_run, Outcome.ok.injEq] at h
    obtain ⟨_, _, ⟨_, rfl⟩, h⟩ := h
    obtain ⟨hf, hr, hh, hs⟩ := tryGrowNodeArenas_same env (vm.nodes.length + 1) (vm.nodeAttrs.length + a)
      (vm.nodeChildren.length + c) vm
    refine ⟨_, hf, hr, hh, hs, ?_⟩
    split at h
    · cases h
      exact .inl ⟨rfl, rfl⟩
    · exact .inr ⟨_, h⟩
  · cases h
    exact ⟨vm, .refl vm, .refl vm, rfl, .refl vm, .inl ⟨rfl, rfl⟩⟩

theorem collectIfFull_ok {a c src src'} (h : collectIfFull env a c src vm = .ok src' vm') :
    (src' = src ∧ vm' = vm) ∨ ∃ detail, collectNodesFor env detail src vm = .ok src' vm' := by
  simp only [collectIfFull, VmM.bind_ok, VmM.get_run, Outcome.ok.injEq] at h
  obtain ⟨_, _, ⟨rfl, rfl⟩, h⟩ := h
  split at h
  · simp only [VmM.bind_ok, VmM.get_run, Outcome.ok.injEq] at h
    obtain ⟨src₁, vm₁, hc, _, _, ⟨rfl, rfl⟩, h⟩ := h
    split at h
    · cases VmM.onFail_ok.1 h
    · cases h
      exact .inr ⟨_, hc⟩
  · cases h
    exact .inl ⟨rfl, rfl⟩

theorem collectProactively_sameStrings {a c src src'} (h : collectProactively env a c src vm = .ok src' vm') :
    vm.SameStrings vm' := by
  obtain ⟨vm₁, _, _, _, hsame, ⟨_, rfl⟩ | ⟨_, hc⟩⟩ := collectProactively_ok h
  · exact hsame
  · exact hsame.trans (collectNodesFor_sameStrings hc)

theorem collectIfFull_sameStrings {a c src src'} (h : collectIfFull env a c src vm = .ok src' vm') :
    vm.SameStrings vm' := by
  obtain ⟨_, rfl⟩ | ⟨_, hc⟩ := collectIfFull_ok h
  · exact .refl _
  · exact collectNodesFor_sameStrings hc

theorem collectProactively_array {a c cs src'} (h : collectProactively env a c (.array cs) vm = .ok src' vm') :
    ∃ cs', src' = .array cs' ∧ Collects vm vm' cs cs' := by
  obtain ⟨vm₁, hf, hr, hh, _, ⟨rfl, rfl⟩ | ⟨_, hc⟩⟩ := collectProactively_ok h
  · exact ⟨cs, rfl, .of_same hf hr hh⟩
  · obtain ⟨cs', rfl, hcarry⟩ := collectNodesFor_array hc
    exact ⟨cs', rfl, (Collects.of_same hf hr hh).trans hcarry⟩

theorem collectIfFull_array {a c cs src'} (h : collectIfFull env a c (.array cs) vm = .ok src' vm') :
    ∃ cs', src' = .array cs' ∧ Collects vm vm' cs cs' := by
  obtain ⟨rfl, rfl⟩ | ⟨_, hc⟩ := collectIfFull_ok h
  · exact ⟨cs, rfl, .of_same (.refl _) (.refl _) rfl⟩
  · exact collectNodesFor_array hc

/-! ## Reserving the strings -/

theorem Vm.StringLimitGrown.moves (h : vm.StringLimitGrown vm') : Moves Eq vm vm' := by
  rw [h]
  exact .of_same rfl ⟨rfl, rfl, rfl, rfl, rfl, rfl, rfl, rfl⟩ rfl

theorem Vm.StringLimitGrown.nodeReachable (h : vm.StringLimitGrown vm') {c} (hr : vm.NodeReachable [] c) :
    vm'.NodeReachable [] c := by
  rw [h]
  exact hr

/-- A reservation carries the children over if it need not compact, or if they are rooted. -/
theorem stringArenaReserve_carries {n u cs} (h : stringArenaReserve env n vm = .ok u vm')
    (hcs : reserveFits env n vm ∨ ∀ c ∈ cs, vm.NodeReachable [] c) : Carries vm vm' cs cs := by
  rcases (stringArenaReserve_ok h).2 with ⟨_, hg⟩ | ⟨hfull, vm₁, vm₂, hg, hc, hg'⟩
  · exact .of_moves_eq hg.moves
  · have hrooted : ∀ c ∈ cs, vm₁.NodeReachable [] c := by
      rcases hcs with hfits | hcs
      · exact absurd hfits hfull
      · exact fun c hc => hg.nodeReachable (hcs c hc)
    have hmid : Carries vm₁ vm₂ cs cs := by
      rcases compactStringArena_ok hc with ⟨_, rfl⟩ | ⟨live, livePairs, c⟩
      · exact .of_moves_eq (.refl _)
      · exact ⟨_, c.moves, fun k w hr => StringCompacted.Restrung.pair hr,
          List.forall₂_same.2 fun x hx => .node (c.node_live (hrooted x hx))⟩
    exact ((Carries.of_moves_eq hg.moves).trans hmid).trans (.of_moves_eq hg'.moves)

theorem stringArenaReserve_kept {n u} (h : stringArenaReserve env n vm = .ok u vm') : vm.Kept vm' := by
  have hc : Carries vm vm' [] [] := stringArenaReserve_carries h (.inr (by simp))
  exact hc.kept

/-! ## The record -/

theorem appendNode_extends (kind id : StrPtr) (attrs : List NodeAttr) (children : List Nat) (vm : Vm) :
    vm.Extends (appendNode kind id attrs children vm).toHeap :=
  ⟨List.prefix_rfl, rfl, List.prefix_rfl, rfl, List.prefix_append .., List.prefix_append .., List.prefix_append ..,
    List.prefix_rfl⟩

theorem appendNode_moves (kind id : StrPtr) (attrs : List NodeAttr) (children : List Nat) (vm : Vm) :
    Moves Eq vm (appendNode kind id attrs children vm) :=
  .of_extends rfl ⟨rfl, rfl, rfl, rfl, rfl, rfl, rfl, rfl⟩ (appendNode_extends ..)

/-- The record just appended, read back. -/
theorem appendNode_expand {kind id attrs children k i ms} (hk : vm.cstr kind = some k) (hi : vm.cstr id = some i)
    (ha : List.Forall₂ (fun a m => vm.attrMeaning a = some m) attrs ms) :
    (appendNode kind id attrs children vm).expand (.node (vm.nodes.length + 1)) =
      some (.node k i ms, children.map .node) := by
  have he := appendNode_extends kind id attrs children vm
  have hattrs : slice (vm.nodeAttrs ++ attrs) vm.nodeAttrs.length attrs.length = attrs := by
    simp [slice]
  have hchildren : slice (vm.nodeChildren ++ children) vm.nodeChildren.length children.length = children := by
    simp [slice]
  refine (Heap.expand_node _).2
    ⟨⟨kind, id, vm.nodeAttrs.length, attrs.length, vm.nodeChildren.length, children.length⟩, ?_, ?_, ?_, ?_⟩
  · simp [Heap.lookupNode, appendNode]
  · simp [Heap.SlicesInRange, appendNode]
  · simp only [Heap.nodeLabel, Heap.attrsOf, he.cstr hk, he.cstr hi, Option.bind_eq_bind, Option.bind_some]
    have hm : (slice (appendNode kind id attrs children vm).nodeAttrs vm.nodeAttrs.length attrs.length).mapM
        (appendNode kind id attrs children vm).attrMeaning = some ms := by
      simp only [appendNode, hattrs]
      exact mapM_eq_some.2 (ha.imp fun _ _ h => he.attrMeaning h)
    simp only [hm, Option.bind_some, Option.pure_def]
  · simp only [Heap.childrenOf, appendNode, hchildren]

theorem appendNode_denotes {kind id attrs children k i ms ts} (hk : vm.cstr kind = some k) (hi : vm.cstr id = some i)
    (ha : List.Forall₂ (fun a m => vm.attrMeaning a = some m) attrs ms)
    (ht : List.Forall₂ (fun c t => vm.Denotes (.node c) t) children ts) :
    (appendNode kind id attrs children vm).Denotes (.node (vm.nodes.length + 1)) (.node (.node k i ms) ts) := by
  refine denotes_node (appendNode_expand hk hi ha) ?_
  rw [List.forall₂_map_left_iff]
  exact ht.imp fun _ _ h => (appendNode_extends kind id attrs children vm).denotes h

/-! ## The whole allocation -/

/-- The strings and the record have been appended. -/
def NodeWritten (k i : List Byte) (ms : List (List Byte × AttrMeaning)) (src : ChildSource) (vm vm' : Vm)
    (handle : Nat) : Prop :=
  ∃ vm₁ kind id attrs, vm.StringsGrown vm₁ ∧ vm₁.Stored k kind ∧ vm₁.Stored i id ∧
    List.Forall₂ (fun a m => vm₁.attrMeaning a = some m) attrs ms ∧
    vm' = appendNode kind id attrs (src.read vm₁) vm₁ ∧ handle = vm₁.nodes.length + 1

/-- With room for all strings, the last stage only appends. -/
theorem writeNode_room (env : Env) {k i ms} (src : ChildSource) (hroom : vm.stringArena.length + nodeStringBytes k i ms ≤ vm.stringArenaLimit)
    (hk : (0 : Byte) ∉ k) (hi : (0 : Byte) ∉ i) (hms : ∀ m ∈ ms, CleanAttr m) (hs : vm.StringsSound) :
    ∃ handle vm', writeNode env k i ms src vm = .ok handle vm' ∧ NodeWritten k i ms src vm vm' handle := by
  unfold nodeStringBytes at hroom
  obtain ⟨kind, vm₁, h₁, g₁, p₁, l₁⟩ := copyStringRangeToArena_room env (by omega) hk hs
  have e₁ := g₁.limit
  obtain ⟨id, vm₂, h₂, g₂, p₂, l₂⟩ := copyStringRangeToArena_room env (by omega) hi g₁.sound
  have e₂ := g₂.limit
  obtain ⟨attrs, vm₃, h₃, g₃, p₃⟩ := copyNodeAttrs_room env (by omega) hms g₂.sound
  refine ⟨vm₃.nodes.length + 1, appendNode kind id attrs (src.read vm₃) vm₃, ?_, vm₃, kind, id, attrs,
    (g₁.trans g₂).trans g₃, (p₁.grown g₂).grown g₃, p₂.grown g₃, p₃, rfl, rfl⟩
  simp only [writeNode, VmM.bind_run, h₁, h₂, h₃, VmM.get_run, VmM.modify_run, VmM.pure_run]

/-- The stages of a node allocation that succeeds: the inputs are read, the strings are reserved, the nodes may be
collected twice, and the record is written. -/
theorem createNodeRecord_ok {kind id attrs src handle} (hs : vm.StringsSound)
    (h : createNodeRecord env kind id attrs src vm = .ok handle vm') :
    ∃ k i ms vm₁ vm₂ vm₃ src₁ src₂, vm.cstr kind = some k ∧ vm.cstr id = some i ∧
      List.Forall₂ (fun a m => vm.attrMeaning a.orEmpty = some m) attrs ms ∧
      stringArenaReserve env (nodeStringBytes k i ms) vm = .ok () vm₁ ∧
      collectProactively env ms.length (src.read vm).length src vm₁ = .ok src₁ vm₂ ∧
      collectIfFull env ms.length (src.read vm).length src₁ vm₂ = .ok src₂ vm₃ ∧
      NodeWritten k i ms src₂ vm₃ vm' handle := by
  unfold createNodeRecord at h
  split at h
  · cases h
  simp only [VmM.bind_ok, VmM.get_run, Outcome.ok.injEq] at h
  obtain ⟨_, _, ha, _, _, ⟨rfl, rfl⟩, k, _, hk, i, _, hi, ms, _, hm, _, vm₁, hr, src₁, vm₂, hp, src₂, vm₃, hf, h⟩ := h
  obtain rfl := Env.allocateIf_ok ha
  obtain ⟨rfl, hkind⟩ := snapshotNodeInputString_ok hk
  obtain ⟨rfl, hid⟩ := snapshotNodeInputString_ok hi
  obtain ⟨rfl, hattrs⟩ := snapshotNodeAttrs_ok hm
  refine ⟨k, i, ms, vm₁, vm₂, vm₃, src₁, src₂, hkind, hid, hattrs, hr, hp, hf, ?_⟩
  have hsame := (collectProactively_sameStrings hp).trans (collectIfFull_sameStrings hf)
  have hroom : vm₃.stringArena.length + nodeStringBytes k i ms ≤ vm₃.stringArenaLimit := by
    rw [hsame.1, hsame.2.2.2]
    exact (stringArenaReserve_ok hr).1
  have hclean : ∀ m ∈ ms, CleanAttr m := by
    intro m hmem
    obtain ⟨j, hj⟩ := List.mem_iff_getElem?.1 hmem
    obtain ⟨a, _, ha⟩ := forall₂_getElem?' hattrs hj
    exact attrMeaning_clean ha
  obtain ⟨handle', vm₄, hw, hwritten⟩ := writeNode_room env src₂ hroom (cstr_clean hkind) (cstr_clean hid) hclean
    (hsame.sound (stringArenaReserve_sound hs hr))
  rw [h] at hw
  cases hw
  exact hwritten

/-- The texts an allocation works with, and how its children fare until the record is written. -/
theorem createNodeRecord_array {kind id attrs children handle} (hs : vm.StringsSound)
    (h : createNodeRecord env kind id attrs (.array children) vm = .ok handle vm') :
    ∃ k i ms vm₁ vm₂ cs, vm.cstr kind = some k ∧ vm.cstr id = some i ∧
      List.Forall₂ (fun a m => vm.attrMeaning a.orEmpty = some m) attrs ms ∧
      stringArenaReserve env (nodeStringBytes k i ms) vm = .ok () vm₁ ∧ Collects vm₁ vm₂ children cs ∧
      NodeWritten k i ms (.array cs) vm₂ vm' handle := by
  obtain ⟨k, i, ms, vm₁, vm₂, vm₃, src₁, src₂, hk, hi, hms, hr, hp, hf, hw⟩ := createNodeRecord_ok hs h
  obtain ⟨cs₁, rfl, hcol⟩ := collectProactively_array hp
  obtain ⟨cs₂, rfl, hcol'⟩ := collectIfFull_array hf
  exact ⟨k, i, ms, vm₁, vm₃, cs₂, hk, hi, hms, hr, hcol.trans hcol', hw⟩

/-! ## Allocations that succeed -/

theorem Env.Allocates.allocateIf (ha : env.Allocates) (needed : Bool) (detail : String) (vm : Vm) :
    env.allocateIf needed detail vm = .ok () vm := by
  cases needed with
  | false => rfl
  | true => exact if_pos (ha vm detail)

theorem snapshotNodeInputString_total (ha : env.Allocates) {p t} (ht : vm.cstr p = some t) :
    snapshotNodeInputString env p vm = .ok t vm := by
  simp only [snapshotNodeInputString, VmM.bind_run, VmM.get_run, VmM.deref, ht, ha.allocateIf, VmM.pure_run]

theorem collectProactively_idle {a c src} (h : ¬ shouldAttemptProactiveNodeGc vm a c) :
    collectProactively env a c src vm = .ok src vm := by
  simp only [collectProactively, VmM.bind_run, VmM.get_run]
  rw [if_neg h]
  rfl

theorem collectIfFull_idle {a c src} (h : ¬ nodeArenasFull vm a c) : collectIfFull env a c src vm = .ok src vm := by
  simp only [collectIfFull, VmM.bind_run, VmM.get_run]
  rw [if_neg h]
  rfl

/-- With room everywhere a node without attributes can be allocated. -/
theorem createNodeRecord_total (ha : env.Allocates) {kind id cs k i vm₁} (hnull : ¬ (kind = .null ∨ id = .null))
    (hk : vm.cstr kind = some k) (hi : vm.cstr id = some i) (hs : vm.StringsSound)
    (hr : stringArenaReserve env (nodeStringBytes k i []) vm = .ok () vm₁)
    (hp : ¬ shouldAttemptProactiveNodeGc vm₁ 0 cs.length) (hf : ¬ nodeArenasFull vm₁ 0 cs.length) :
    ∃ handle vm', createNodeRecord env kind id [] (.array cs) vm = .ok handle vm' := by
  obtain ⟨handle, vm', hw, _⟩ := writeNode_room env (.array cs) (stringArenaReserve_ok hr).1 (cstr_clean hk)
    (cstr_clean hi) (by simp) (stringArenaReserve_sound hs hr)
  refine ⟨handle, vm', ?_⟩
  simp only [createNodeRecord, if_neg hnull, VmM.bind_run, ha.allocateIf, VmM.get_run, ChildSource.read,
    snapshotNodeInputString_total ha hk, snapshotNodeInputString_total ha hi, List.mapM_nil, VmM.pure_run, hr,
    List.length_nil, collectProactively_idle hp, collectIfFull_idle hf, hw]

end Aivm
