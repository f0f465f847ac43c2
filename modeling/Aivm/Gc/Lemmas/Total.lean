import Aivm.Gc.Lemmas.StringCompaction

/-!
# Collections that cannot fail

Marking succeeds when what is reachable is in range and the counts keep to the capacities. A string compaction then
succeeds as well: every text it copies is one of the strings of the old arena and is copied once.
-/

namespace Aivm

open Unfold CStrings Worklist

variable {env : Env} {vm : Vm}

/-- A host that never refuses an allocation. -/
def Env.Allocates (env : Env) : Prop := ∀ vm what, env.allocates vm what = true

/-- The stores keep to their capacities, and what is reachable in them is in range. -/
structure Vm.StoresWellFormed (vm : Vm) : Prop where
  pairs : ∀ k, vm.PairReachable k → 0 < k ∧ k ≤ vm.scratchPairs.length
  nodeCount : vm.nodes.length ≤ vm.nodeCapacity
  attrCount : vm.nodeAttrs.length ≤ vm.nodeAttrCapacity
  childCount : vm.nodeChildren.length ≤ vm.nodeChildCapacity
  slices : ∀ h n, vm.NodeReachable [] h → vm.lookupNode h = some n → vm.SlicesInRange n

/-! ## Marking -/

open Classical in
/-- The handles up to `n` with a property. -/
noncomputable def handlesWith (n : Nat) (p : Nat → Prop) : List Nat := (List.range' 1 n).filter p

theorem mem_handlesWith {n p k} : k ∈ handlesWith n p ↔ (0 < k ∧ k ≤ n) ∧ p k := by
  simp only [handlesWith, List.mem_filter, List.mem_range'_1, decide_eq_true_eq]
  constructor
  · rintro ⟨h, hp⟩
    exact ⟨by omega, hp⟩
  · rintro ⟨h, hp⟩
    exact ⟨by omega, hp⟩

theorem length_handlesWith_le (n p) : (handlesWith n p).length ≤ n := by
  simpa [handlesWith] using List.length_filter_le _ (List.range' 1 n)

theorem bounded_nil {α : Type} (U : List α) : Bounded U ⟨[], []⟩ := ⟨List.nodup_nil, by simp, by simp, Nat.le_refl _⟩

theorem markLiveScratchPairHandles_total (ha : env.Allocates)
    (hr : ∀ k, vm.PairReachable k → 0 < k ∧ k ≤ vm.scratchPairs.length) :
    ∃ live, markLiveScratchPairHandles env vm = .ok live := by
  unfold markLiveScratchPairHandles
  split
  · exact ⟨[], rfl⟩
  rw [if_pos (ha _ _)]
  have hlen := length_handlesWith_le vm.scratchPairs.length vm.PairReachable
  have hroom : (pairPolicy vm).HasRoom (handlesWith vm.scratchPairs.length vm.PairReachable) := by
    intro m p hm hp
    simp only [pairPolicy, Policy.stack]
    rw [if_neg (by omega)]
  have hresolve : ∀ v, (∀ k, v = .pair k → vm.PairReachable k) → ∃ r, pairToMark vm v = .ok r ∧
      ∀ c, r = some c → c ∈ handlesWith vm.scratchPairs.length vm.PairReachable := by
    intro v hv
    cases v with
    | pair k =>
        refine ⟨some k, pairToMark_eq_some.2 ⟨rfl, hr k (hv k rfl)⟩, fun c hc => ?_⟩
        cases hc
        exact mem_handlesWith.2 ⟨hr k (hv k rfl), hv k rfl⟩
    | _ => exact ⟨none, rfl, by simp⟩
  obtain ⟨s, hs, hb, hl⟩ := visitItems_total hroom (bounded_nil _) fun v (hv : v ∈ vm.rootValues) =>
    hresolve v fun k hk => .root (hk ▸ hv)
  have hclosed : ∀ a ∈ handlesWith vm.scratchPairs.length vm.PairReachable,
      Closed (pairToMark vm) (pairFields vm) (handlesWith vm.scratchPairs.length vm.PairReachable) a := by
    intro a hmem
    obtain ⟨hrange, hreach⟩ := mem_handlesWith.1 hmem
    obtain ⟨p, hp⟩ := lookupScratchPair_of_range hrange.1 hrange.2
    refine ⟨[p.first, p.second], by simp [pairFields, hp], fun v hv => hresolve v fun k hk => ?_⟩
    rcases List.mem_pair.1 hv with rfl | rfl
    · exact hreach.first hp hk
    · exact hreach.second hp hk
  obtain ⟨m, hm⟩ : ∃ m, drain (pairPolicy vm) (pairToMark vm) (pairFields vm) pairWorklistFull vm.scratchPairs.length s
      = .ok m := by
    refine drain_total hroom hclosed hb ?_
    simp only [List.length_nil] at hl
    omega
  exact ⟨m, Results.bind_ok.2 ⟨s, hs, hm⟩⟩

theorem markLiveNodeHandles_total (ha : env.Allocates) (wf : vm.StoresWellFormed) :
    ∃ live, markLiveNodeHandles env vm [] = .ok live := by
  unfold markLiveNodeHandles
  rw [if_pos (ha _ _)]
  obtain ⟨livePairs, hp⟩ := markLiveScratchPairHandles_total ha wf.pairs
  have hlen := length_handlesWith_le vm.nodes.length (vm.NodeReachable [])
  have hroom : (nodePolicy vm).HasRoom (handlesWith vm.nodes.length (vm.NodeReachable [])) := by
    intro m p hm _
    have := wf.nodeCount
    simp only [nodePolicy, Policy.queue]
    rw [if_neg (by omega)]
  have hresolve : ∀ k, (0 < k → vm.NodeReachable [] k) → ∃ r, nodeToMark vm k = .ok r ∧
      ∀ c, r = some c → c ∈ handlesWith vm.nodes.length (vm.NodeReachable []) := by
    intro k hk
    refine ⟨_, rfl, fun c hc => ?_⟩
    split at hc
    · rename_i hrange
      cases hc
      exact mem_handlesWith.2 ⟨hrange, hk hrange.1⟩
    · cases hc
  obtain ⟨s, hs, hb, hl⟩ := visitItems_total hroom (bounded_nil _) fun k (hk : k ∈ nodeRoots vm livePairs) =>
    hresolve k fun h0 => .root (.inl ((mem_nodeRoots hp h0).1 hk))
  have hclosed : ∀ a ∈ handlesWith vm.nodes.length (vm.NodeReachable []),
      Closed (nodeToMark vm) (childHandles vm) (handlesWith vm.nodes.length (vm.NodeReachable [])) a := by
    intro a hmem
    obtain ⟨hrange, hreach⟩ := mem_handlesWith.1 hmem
    obtain ⟨n, hn⟩ := lookupNode_of_range hrange.1 hrange.2
    have hslice := (wf.slices a n hreach hn).2
    have := wf.childCount
    refine ⟨vm.childrenOf n, ?_, fun k hk => hresolve k fun _ => hreach.child hn hk⟩
    simp only [childHandles, hn]
    rw [if_pos (by omega)]
  obtain ⟨m, hm⟩ : ∃ m, drain (nodePolicy vm) (nodeToMark vm) (childHandles vm) nodeQueueFull vm.nodes.length s
      = .ok m := by
    refine drain_total hroom hclosed hb ?_
    simp only [List.length_nil] at hl
    omega
  exact ⟨m, Results.bind_ok.2 ⟨livePairs, hp, Results.bind_ok.2 ⟨s, hs, Results.bind_ok.2 ⟨s, rfl, hm⟩⟩⟩⟩

/-! ## Copying strings -/

/-- The new arena holds strings of `ss` only, each at most once. -/
def Fits (ss : List (List Byte)) (arena : List Byte) : Prop :=
  ∃ ts, Clean 0 ts ∧ ts.Nodup ∧ (∀ t ∈ ts, t ∈ ss) ∧ arena = encode 0 ts

theorem Fits.length_le {ss arena} (h : Fits ss arena) : arena.length ≤ (encode 0 ss).length := by
  obtain ⟨ts, _, hnd, hsub, rfl⟩ := h
  exact length_encode_le hnd hsub

theorem compactLookupOrCopyString_total {ss capacity text arena} (hcap : (encode 0 ss).length ≤ capacity)
    (ht : text ∈ ss) (hclean : (0 : Byte) ∉ text) (hf : Fits ss arena) :
    ∃ offset arena', compactLookupOrCopyString capacity text arena = some (offset, arena') ∧ Fits ss arena' := by
  unfold compactLookupOrCopyString
  obtain ⟨ts, hc, hnd, hsub, rfl⟩ := hf
  cases hfind : find 0 text (encode 0 ts).length (encode 0 ts) 0 with
  | some offset => exact ⟨offset, _, rfl, ts, hc, hnd, hsub, rfl⟩
  | none =>
      have hnew := find_encode_none hc (Nat.le_refl _) hfind
      have hfits : Fits ss (encode 0 (ts ++ [text])) := by
        refine ⟨ts ++ [text], hc.append (by simpa [Clean] using hclean), ?_, ?_, rfl⟩
        · exact List.Nodup.append hnd (List.nodup_singleton _) (by simpa using hnew)
        · simp only [List.mem_append, List.mem_singleton]
          rintro t (h | rfl)
          · exact hsub t h
          · exact ht
      have hle := hfits.length_le
      have henc : encode 0 (ts ++ [text]) = encode 0 ts ++ text ++ [0] := by simp [encode_append]
      rw [henc] at hle hfits
      refine ⟨_, _, if_pos ?_, hfits⟩
      simp only [List.length_append, List.length_singleton] at hle
      omega

section Relocate

variable {h : Heap} {ss : List (List Byte)} {block capacity : Nat}

/-- A pointer that is outside the arena or reads one of its strings. -/
def PtrFits (h : Heap) (ss : List (List Byte)) (p : StrPtr) : Prop :=
  h.pointerInStringArena p = true → h.arenaText p ∈ ss

def ValueFits (h : Heap) (ss : List (List Byte)) (v : Value) : Prop := ∀ p, v = .string p → PtrFits h ss p

structure AttrFits (h : Heap) (ss : List (List Byte)) (a : NodeAttr) : Prop where
  key : PtrFits h ss a.key
  identifier : ∀ p, a.value = .identifier p → PtrFits h ss p
  string : ∀ p, a.value = .string p → PtrFits h ss p

theorem compactRelocateStringPtr_total (hb : block ≠ h.stringBlock) (hcap : (encode 0 ss).length ≤ capacity) {p arena}
    (hp : PtrFits h ss p) (hf : Fits ss arena) :
    ∃ p' arena', compactRelocateStringPtr h block capacity p arena = .ok (p', arena') ∧ Fits ss arena' ∧
      PtrFits h ss p' := by
  unfold compactRelocateStringPtr
  split
  · rename_i hin
    obtain ⟨o, arena', he, hf'⟩ := compactLookupOrCopyString_total hcap (hp hin) (arenaText_clean h p) hf
    rw [he]
    refine ⟨_, _, rfl, hf', fun hin' => ?_⟩
    simp [Heap.pointerInStringArena, hb] at hin'
  · exact ⟨p, arena, rfl, hf, hp⟩

theorem compactRelocateValueString_total (hb : block ≠ h.stringBlock) (hcap : (encode 0 ss).length ≤ capacity)
    {v arena} (hv : ValueFits h ss v) (hf : Fits ss arena) :
    ∃ v' arena', compactRelocateValueString h block capacity v arena = .ok (v', arena') ∧ Fits ss arena' := by
  cases v with
  | string p =>
      obtain ⟨p', arena', he, hf', _⟩ := compactRelocateStringPtr_total hb hcap (hv p rfl) hf
      exact ⟨_, _, Results.bind_ok.2 ⟨_, he, rfl⟩, hf'⟩
  | _ => exact ⟨_, _, rfl, hf⟩

theorem relocateTask_total {W : Type} (hb : block ≠ h.stringBlock) (hcap : (encode 0 ss).length ≤ capacity)
    {t : CompletedTask W} {arena} (ht : ValueFits h ss t.result) (hf : Fits ss arena) :
    ∃ t' arena', relocateTask h block capacity t arena = .ok (t', arena') ∧ Fits ss arena' := by
  obtain ⟨v', arena', he, hf'⟩ := compactRelocateValueString_total hb hcap ht hf
  exact ⟨_, _, Results.bind_ok.2 ⟨_, he, rfl⟩, hf'⟩

theorem relocatePair_total (hb : block ≠ h.stringBlock) (hcap : (encode 0 ss).length ≤ capacity) {livePairs p arena}
    (hp : p.2 + 1 ∈ livePairs → ValueFits h ss p.1.first ∧ ValueFits h ss p.1.second) (hf : Fits ss arena) :
    ∃ p' arena', relocatePair h block capacity livePairs p arena = .ok (p', arena') ∧ Fits ss arena' := by
  unfold relocatePair
  split
  · rename_i hlive
    obtain ⟨_, a₁, he₁, hf₁⟩ := compactRelocateValueString_total hb hcap (hp hlive).1 hf
    obtain ⟨_, a₂, he₂, hf₂⟩ := compactRelocateValueString_total hb hcap (hp hlive).2 hf₁
    exact ⟨_, _, Results.bind_ok.2 ⟨_, he₁, Results.bind_ok.2 ⟨_, he₂, rfl⟩⟩, hf₂⟩
  · exact ⟨_, _, rfl, hf⟩

theorem relocateAttr_total (hb : block ≠ h.stringBlock) (hcap : (encode 0 ss).length ≤ capacity) {a arena}
    (ha : AttrFits h ss a) (hf : Fits ss arena) :
    ∃ a' arena', relocateAttr h block capacity a arena = .ok (a', arena') ∧ Fits ss arena' ∧ AttrFits h ss a' := by
  obtain ⟨key, value⟩ := a
  obtain ⟨k', a₁, he₁, hf₁, hk⟩ := compactRelocateStringPtr_total hb hcap ha.key hf
  cases value with
  | identifier p =>
      obtain ⟨p', a₂, he₂, hf₂, hp⟩ := compactRelocateStringPtr_total hb hcap (ha.identifier p rfl) hf₁
      refine ⟨_, _, Results.bind_ok.2 ⟨_, he₁, Results.bind_ok.2 ⟨_, he₂, rfl⟩⟩, hf₂, hk, ?_, by simp⟩
      rintro q ⟨⟩
      exact hp
  | string p =>
      obtain ⟨p', a₂, he₂, hf₂, hp⟩ := compactRelocateStringPtr_total hb hcap (ha.string p rfl) hf₁
      refine ⟨_, _, Results.bind_ok.2 ⟨_, he₁, Results.bind_ok.2 ⟨_, he₂, rfl⟩⟩, hf₂, hk, by simp, ?_⟩
      rintro q ⟨⟩
      exact hp
  | int i => exact ⟨_, _, Results.bind_ok.2 ⟨_, he₁, rfl⟩, hf₁, hk, by simp, by simp⟩
  | bool b => exact ⟨_, _, Results.bind_ok.2 ⟨_, he₁, rfl⟩, hf₁, hk, by simp, by simp⟩

/-- The attribute slots that live nodes use can still be rewritten. -/
def SlotsFit (h : Heap) (ss : List (List Byte)) (used : Nat → Prop) (s : List NodeAttr × List Byte) : Prop :=
  Fits ss s.2 ∧ ∀ slot a, used slot → s.1[slot]? = some a → AttrFits h ss a

theorem relocateAttrSlots_total (hb : block ≠ h.stringBlock) (hcap : (encode 0 ss).length ≤ capacity)
    {attrCapacity : Nat} {used : Nat → Prop} {slots} : ∀ {attrs arena}, SlotsFit h ss used (attrs, arena) →
    (∀ slot ∈ slots, used slot ∧ slot < attrCapacity) →
    ∃ s', relocateAttrSlots h block capacity attrCapacity slots attrs arena = .ok s' ∧ SlotsFit h ss used s' := by
  induction slots with
  | nil =>
      intro attrs arena hs _
      exact ⟨_, rfl, hs⟩
  | cons slot slots ih =>
      intro attrs arena hs hslots
      have htail : ∀ k ∈ slots, used k ∧ k < attrCapacity := fun k hk => hslots k (List.mem_cons_of_mem _ hk)
      obtain ⟨hused, hlt⟩ := hslots slot (List.mem_cons_self ..)
      simp only [relocateAttrSlots]
      rw [if_neg (by omega)]
      cases ha : attrs[slot]? with
      | none => exact ih hs htail
      | some a =>
          obtain ⟨a', arena', he, hf, hfa⟩ := relocateAttr_total hb hcap (hs.2 slot a hused ha) hs.1
          simp only [he]
          refine ih ⟨hf, fun k b hk hget => ?_⟩ htail
          simp only [List.getElem?_set] at hget
          split at hget
          · split at hget
            · cases hget
              exact hfa
            · cases hget
          · exact hs.2 k b hk hget

theorem relocateNode_total (hb : block ≠ h.stringBlock) (hcap : (encode 0 ss).length ≤ capacity) {attrCapacity live n s}
    {used : Nat → Prop} (hn : n.2 + 1 ∈ live → PtrFits h ss n.1.kind ∧ PtrFits h ss n.1.id ∧
      ∀ slot ∈ List.range' n.1.attrStart n.1.attrCount, used slot ∧ slot < attrCapacity)
    (hs : SlotsFit h ss used s) :
    ∃ n' s', relocateNode h block capacity attrCapacity live n s = .ok (n', s') ∧ SlotsFit h ss used s' := by
  unfold relocateNode
  split
  · rename_i hlive
    obtain ⟨hkind, hid, hslots⟩ := hn hlive
    obtain ⟨_, a₁, he₁, hf₁, _⟩ := compactRelocateStringPtr_total hb hcap hkind hs.1
    obtain ⟨_, a₂, he₂, hf₂, _⟩ := compactRelocateStringPtr_total hb hcap hid hf₁
    have hs₂ : SlotsFit h ss used (s.1, a₂) := ⟨hf₂, hs.2⟩
    obtain ⟨s', he₃, hs'⟩ := relocateAttrSlots_total hb hcap hs₂ hslots
    exact ⟨_, _, Results.bind_ok.2 ⟨_, he₁, Results.bind_ok.2 ⟨_, he₂, Results.bind_ok.2 ⟨_, he₃, rfl⟩⟩⟩, hs'⟩
  · exact ⟨_, _, rfl, hs⟩

end Relocate

/-! ## The whole string compaction -/

/-- The string arena is a concatenation of the strings `ss`, and a reachable pointer into it is at the start of one
of them. -/
structure Vm.StringsWellFormed (vm : Vm) (ss : List (List Byte)) : Prop where
  clean : Clean 0 ss
  arena : vm.stringArena = encode 0 ss
  used : vm.stringArena.length ≤ vm.stringArenaCapacity
  pointers : ∀ slot p, vm.PointsAt slot p → vm.pointerInStringArena p = false ∨
    ∃ i, i < ss.length ∧ p = .arena vm.stringBlock (start 0 ss i)

theorem Vm.StringsWellFormed.fits {ss} (wf : vm.StringsWellFormed ss) {slot p} (hp : vm.PointsAt slot p) :
    PtrFits vm.toHeap ss p := by
  intro hin
  rcases wf.pointers slot p hp with hout | ⟨i, hi, rfl⟩
  · rw [hout] at hin
    cases hin
  · obtain ⟨hclean, rest, hrest⟩ := read_eq_some.1 (read_start wf.clean (List.getElem?_eq_getElem hi))
    simp only [Heap.arenaText, wf.arena, hrest, takeWhile_terminated hclean]
    exact List.getElem_mem hi

/-- An attribute slot of a reachable node. -/
def Vm.UsedSlot (vm : Vm) (slot : Nat) : Prop :=
  ∃ h n, vm.NodeReachable [] h ∧ vm.lookupNode h = some n ∧ n.attrStart ≤ slot ∧ slot < n.attrStart + n.attrCount

theorem Vm.StringsWellFormed.attrFits {ss} (hs : vm.StringsWellFormed ss) {slot a} (hu : vm.UsedSlot slot)
    (ha : vm.nodeAttrs[slot]? = some a) : AttrFits vm.toHeap ss a := by
  obtain ⟨h, n, hr, hn, hle, hlt⟩ := hu
  have hget : (vm.attrsOf n)[slot - n.attrStart]? = some a := by
    rw [Heap.attrsOf, slice, List.getElem?_take_of_lt (by omega), List.getElem?_drop, Nat.add_sub_cancel' hle, ha]
  have hkey : vm.PointsAt (.key h (slot - n.attrStart)) a.key := ⟨hr, n, a, hn, hget, rfl⟩
  have htext : ∀ p, a.value = .identifier p ∨ a.value = .string p → vm.PointsAt (.text h (slot - n.attrStart)) p :=
    fun p hp => ⟨hr, n, a, hn, hget, hp⟩
  exact ⟨hs.fits hkey, fun p hp => hs.fits (htext p (.inl hp)), fun p hp => hs.fits (htext p (.inr hp))⟩

theorem relocateStrings_total {block ss live livePairs} (hb : block ≠ vm.stringBlock) (wf : vm.StoresWellFormed)
    (hs : vm.StringsWellFormed ss) (hm : markLiveNodeHandles env vm [] = .ok live)
    (hp : markLiveScratchPairHandles env vm = .ok livePairs) :
    ∃ vm', relocateStrings block live livePairs vm = .ok vm' ∧ Fits ss vm'.stringArena := by
  have hcap : (encode 0 ss).length ≤ vm.stringArenaCapacity := hs.arena ▸ hs.used
  obtain ⟨_, _, _, hlive, _⟩ := markLiveNodeHandles_spec hm
  have hroot : ∀ {r v}, vm.Holds r v → ValueFits vm.toHeap ss v := by
    intro r v hv p hvp
    have hslot : vm.PointsAt (.root r) p := by
      rw [hvp] at hv
      exact hv
    exact hs.fits hslot
  have hvalues : ∀ vs, (∀ v ∈ vs, ∃ r, vm.Holds r v) → ∀ {arena}, Fits ss arena → ∃ vs' arena',
      mapAccum (compactRelocateValueString vm.toHeap block vm.stringArenaCapacity) vs arena = .ok (vs', arena') ∧
        Fits ss arena' := by
    intro vs hvs arena hf
    refine MapAccum.total (fun v hv s hf => ?_) hf
    obtain ⟨r, hr⟩ := hvs v hv
    exact compactRelocateValueString_total hb hcap (hroot hr) hf
  have hnil : Fits ss [] := ⟨[], by simp [Clean], List.nodup_nil, by simp, rfl⟩
  obtain ⟨stack, a₁, e₁, f₁⟩ := hvalues vm.stack (fun v hv => by
    obtain ⟨i, hi⟩ := List.mem_iff_getElem?.1 hv
    exact ⟨.stack i, hi⟩) hnil
  obtain ⟨locals, a₂, e₂, f₂⟩ := hvalues vm.locals (fun v hv => by
    obtain ⟨i, hi⟩ := List.mem_iff_getElem?.1 hv
    exact ⟨.local i, hi⟩) f₁
  obtain ⟨tasks, a₃, e₃, f₃⟩ : ∃ tasks a₃, mapAccum (relocateTask vm.toHeap block vm.stringArenaCapacity)
      vm.completedTasks a₂ = .ok (tasks, a₃) ∧ Fits ss a₃ := by
    refine MapAccum.total (fun t ht s hf => ?_) f₂
    obtain ⟨i, hi⟩ := List.mem_iff_getElem?.1 ht
    have htask : vm.Holds (.task i) t.result := ⟨t, hi, rfl⟩
    exact relocateTask_total hb hcap (hroot htask) hf
  obtain ⟨pars, a₄, e₄, f₄⟩ := hvalues vm.parValues (fun v hv => by
    obtain ⟨i, hi⟩ := List.mem_iff_getElem?.1 hv
    exact ⟨.par i, hi⟩) f₃
  obtain ⟨pairs, a₅, e₅, f₅⟩ : ∃ pairs a₅, mapAccum (relocatePair vm.toHeap block vm.stringArenaCapacity livePairs)
      vm.scratchPairs.zipIdx a₄ = .ok (pairs, a₅) ∧ Fits ss a₅ := by
    refine MapAccum.total (fun p hmem s hf => relocatePair_total hb hcap (fun hl => ?_) hf) f₄
    obtain ⟨hr, q, hq⟩ := (mem_livePairs hp).1 hl
    have hget := List.mem_zipIdx_iff_getElem?.1 hmem
    have hqp : q = p.1 := by
      have := ((Heap.lookupScratchPair_eq_some _).1 hq).2
      rw [Nat.add_sub_cancel, hget] at this
      exact (Option.some.inj this).symm
    have hfirst : vm.Holds (.pairFirst (p.2 + 1)) p.1.first := ⟨hr, q, hq, by rw [hqp]⟩
    have hsecond : vm.Holds (.pairSecond (p.2 + 1)) p.1.second := ⟨hr, q, hq, by rw [hqp]⟩
    exact ⟨hroot hfirst, hroot hsecond⟩
  have hslots : SlotsFit vm.toHeap ss vm.UsedSlot (vm.nodeAttrs, a₅) := ⟨f₅, fun slot a hu ha => hs.attrFits hu ha⟩
  obtain ⟨nodes, s, e₆, f₆⟩ : ∃ nodes s, mapAccum
      (relocateNode vm.toHeap block vm.stringArenaCapacity vm.nodeAttrCapacity live) vm.nodes.zipIdx
      (vm.nodeAttrs, a₅) = .ok (nodes, s) ∧ SlotsFit vm.toHeap ss vm.UsedSlot s := by
    refine MapAccum.total (fun n hmem s hf => relocateNode_total hb hcap (fun hl => ?_) hf) hslots
    have hr := ((hlive _).1 hl).1
    have hn : vm.lookupNode (n.2 + 1) = some n.1 :=
      (Heap.lookupNode_eq_some _).2 ⟨Nat.succ_pos _, List.mem_zipIdx_iff_getElem?.1 hmem⟩
    have hkind : vm.PointsAt (.kind (n.2 + 1)) n.1.kind := ⟨hr, n.1, hn, rfl⟩
    have hid : vm.PointsAt (.id (n.2 + 1)) n.1.id := ⟨hr, n.1, hn, rfl⟩
    refine ⟨hs.fits hkind, hs.fits hid, fun slot hslot => ?_⟩
    obtain ⟨hle, hlt⟩ := List.mem_range'_1.1 hslot
    have hrange := (wf.slices _ _ hr hn).1
    have hcount := wf.attrCount
    exact ⟨⟨_, _, hr, hn, hle, hlt⟩, by omega⟩
  have hr : ∃ vm', relocateStrings block live livePairs vm = .ok vm' ∧ vm'.stringArena = s.2 := by
    simp only [relocateStrings, e₁, e₂, e₃, e₄, e₅, e₆, bind, Except.bind, pure, Except.pure]
    exact ⟨_, rfl, rfl⟩
  obtain ⟨vm', hr, hs⟩ := hr
  exact ⟨vm', hr, hs ▸ f₆.1⟩

theorem compactStringArena_total {ss} (ha : env.Allocates) (wf : vm.StoresWellFormed) (hs : vm.StringsWellFormed ss) :
    ∃ vm', compactStringArena env vm = .ok () vm' ∧ Fits ss vm'.stringArena := by
  by_cases h0 : vm.stringArena.length = 0
  · refine ⟨vm, ?_, [], by simp [Clean], List.nodup_nil, by simp, List.length_eq_zero_iff.1 h0⟩
    simp only [compactStringArena, VmM.bind_run, VmM.get_run, if_pos h0, VmM.pure_run]
  · obtain ⟨live, hm⟩ := markLiveNodeHandles_total ha wf
    obtain ⟨livePairs, hp⟩ := markLiveScratchPairHandles_total ha wf.pairs
    obtain ⟨vm', hr, hf⟩ := relocateStrings_total (freshBlock_ne env vm) wf hs hm hp
    refine ⟨{ vm' with stringIntern := rebuildStringInternIndex env vm' }, ?_, hf⟩
    simp only [compactStringArena, VmM.bind_run, VmM.get_run, if_neg h0, Env.allocate, if_pos (ha _ _), VmM.lift, hm, hp,
      hr, VmM.modify_run]

end Aivm
