import Aivm.Workers.Lemmas.BoundaryCopy

/-!
# Copies into a destination that stays put

A copy that needs no collection once it holds something in the destination produces an isomorphic structure there.
-/

namespace Aivm

open Unfold CStrings

variable {env : Env} {src vm vm' : Vm} {maps maps' : BoundaryMaps}

/-- The store of the VM, except that it gives up where the VM would have to collect while the copy holds
something. -/
def settledStore (env : Env) : CopyStore where
  node holds kind id attrs children vm :=
    if holds = true ∧ ¬ createsInPlace env kind id attrs children.length vm then .fail vm
    else createNodeRecord env kind id attrs (.array children) vm
  string holds p vm :=
    if holds = true ∧ ¬ copiesInPlace env p vm then .fail vm else copyStringToArena env p vm

theorem settledStore_node {holds kind id attrs children k}
    (h : (settledStore env).node holds kind id attrs children vm = .ok k vm') :
    createNodeRecord env kind id attrs (.array children) vm = .ok k vm' ∧
      (holds = true → createsInPlace env kind id attrs children.length vm) := by
  simp only [settledStore] at h
  split at h
  · cases h
  · rename_i hp
    exact ⟨h, fun hh => by_contra fun hn => hp ⟨hh, hn⟩⟩

theorem settledStore_string {holds p q} (h : (settledStore env).string holds p vm = .ok q vm') :
    copyStringToArena env p vm = .ok q vm' ∧ (holds = true → copiesInPlace env p vm) := by
  simp only [settledStore] at h
  split at h
  · cases h
  · rename_i hp
    exact ⟨h, fun hh => by_contra fun hn => hp ⟨hh, hn⟩⟩

/-! ## Foreign strings -/

theorem takeWhile_clean {text : List Byte} (h : (0 : Byte) ∉ text) : text.takeWhile (· ≠ 0) = text := by
  rw [List.takeWhile_eq_self_iff]
  intro x hx
  simp only [ne_eq, decide_not, Bool.not_eq_true', decide_eq_false_iff_not]
  rintro rfl
  exact h hx

/-- A string of the source reads the same in any destination. -/
theorem foreignString_cstr {s d : Heap} {p q t} (hf : foreignString s p = some q) (ht : s.cstr p = some t) :
    d.cstr q = some t ∧ q.orEmpty = q := by
  have hq : q = .lit t := by
    cases p with
    | null => simp [Heap.cstr] at ht
    | _ =>
        simp only [foreignString, ht, Option.map_some, Option.some.injEq] at hf
        exact hf.symm
  subst hq
  exact ⟨congrArg some (takeWhile_clean (cstr_clean ht)), rfl⟩

theorem foreignAttr_meaning {s d : Heap} {a b m} (hf : foreignAttr s a = some b) (hm : s.attrMeaning a = some m) :
    d.attrMeaning b.orEmpty = some m := by
  obtain ⟨key, value⟩ := a
  simp only [foreignAttr, Option.bind_eq_bind, Option.bind_eq_some_iff] at hf
  obtain ⟨key', hkey, hf⟩ := hf
  simp only [Heap.attrMeaning, Option.bind_eq_bind, Option.bind_eq_some_iff] at hm
  obtain ⟨kt, hkt, hm⟩ := hm
  obtain ⟨hk, hke⟩ := foreignString_cstr (d := d) hkey hkt
  cases value with
  | identifier p =>
      obtain ⟨p', hp', hf⟩ := Option.bind_eq_some_iff.1 hf
      obtain ⟨t, ht, hm⟩ := Option.bind_eq_some_iff.1 hm
      cases hf
      cases hm
      obtain ⟨hp, hpe⟩ := foreignString_cstr (d := d) hp' ht
      simp [Heap.attrMeaning, NodeAttr.orEmpty, hke, hpe, hk, hp]
  | string p =>
      obtain ⟨p', hp', hf⟩ := Option.bind_eq_some_iff.1 hf
      obtain ⟨t, ht, hm⟩ := Option.bind_eq_some_iff.1 hm
      cases hf
      cases hm
      obtain ⟨hp, hpe⟩ := foreignString_cstr (d := d) hp' ht
      simp [Heap.attrMeaning, NodeAttr.orEmpty, hke, hpe, hk, hp]
  | int i =>
      cases hf
      cases hm
      simp [Heap.attrMeaning, NodeAttr.orEmpty, hke, hk]
  | bool b =>
      cases hf
      cases hm
      simp [Heap.attrMeaning, NodeAttr.orEmpty, hke, hk]

/-- The texts that the destination reads are those of the source's label. -/
theorem foreign_nodeTexts {s d : Heap} {n : NodeRecord} {kind id attrs l}
    (hk : foreignString s n.kind = some kind) (hi : foreignString s n.id = some id)
    (ha : (s.attrsOf n).mapM (foreignAttr s) = some attrs) (hl : s.nodeLabel n = some l) :
    ∃ k i ms, l = .node k i ms ∧ nodeTexts d kind id attrs = some (k, i, ms) := by
  simp only [Heap.nodeLabel, Option.bind_eq_bind, Option.bind_eq_some_iff, Option.pure_def, Option.some.injEq] at hl
  obtain ⟨k, hk', i, hi', ms, hms, rfl⟩ := hl
  refine ⟨k, i, ms, rfl, nodeTexts_eq_some (foreignString_cstr hk hk').1 (foreignString_cstr hi hi').1 ?_⟩
  rw [mapM_eq_some] at ha hms
  exact forall₂_comp (R := fun b a => foreignAttr s a = some b) (S := fun a m => s.attrMeaning a = some m)
    (fun h h' => foreignAttr_meaning h h') ha.flip hms

/-! ## Nodes -/

/-- The children read slot by slot are those of the slice. -/
theorem forall₂_slice {α β : Type} {P : α → β → Prop} {l : List α} {ks : List β} {count : Nat} : ∀ {start},
    List.Forall₂ (fun slot k => ∃ c, l[slot]? = some c ∧ P c k) (List.range' start count) ks →
    List.Forall₂ P (slice l start count) ks := by
  induction count generalizing ks with
  | zero =>
      intro start h
      cases h
      simp [slice]
  | succ count ih =>
      intro start h
      rw [List.range'_succ] at h
      cases h with
      | cons hc hrest =>
          obtain ⟨c, hget, hP⟩ := hc
          obtain ⟨hlt, rfl⟩ := List.getElem?_eq_some_iff.1 hget
          have htail := ih hrest
          simp only [slice, List.drop_eq_getElem_cons hlt, List.take_succ_cons]
          exact .cons hP htail

theorem createNodeRecord_sound {kind id attrs cs handle} (hs : vm.StringsSound)
    (h : createNodeRecord env kind id attrs (.array cs) vm = .ok handle vm') : vm'.StringsSound := by
  obtain ⟨_, _, _, _, _, _, _, _, _, _, _, hw⟩ := createNodeRecord_array hs h
  exact hw.expand.2.1

/-- The loop over the children copies them all. -/
theorem copyWorkerBoundaryChildren_settled {copy : Nat → BoundaryMaps → VmM (Nat × BoundaryMaps)}
    (hcopy : ∀ {c maps vm k maps' vm'}, CopyInv src.toHeap vm maps → copy c maps vm = .ok (k, maps') vm' →
      CopyStep src.toHeap vm maps vm' maps' ∧ maps'.nodes.lookup c = some k) {slots} :
    ∀ {maps vm ks}, CopyInv src.toHeap vm maps →
      copyWorkerBoundaryChildren src copy slots maps vm = .ok (ks, maps') vm' →
      CopyStep src.toHeap vm maps vm' maps' ∧ List.Forall₂ (fun slot k => ∃ c, src.nodeChildren[slot]? = some c ∧
        maps'.nodes.lookup c = some k) slots ks := by
  induction slots with
  | nil =>
      intro maps vm ks inv h
      obtain ⟨rfl, rfl, rfl⟩ := copyWorkerBoundaryChildren_nil h
      exact ⟨.refl inv, .nil⟩
  | cons slot slots ih =>
      intro maps vm ks inv h
      obtain ⟨c, k, ks', maps₁, vm₁, hc, hk, hks, rfl⟩ := copyWorkerBoundaryChildren_cons.1 h
      obtain ⟨step, hlook⟩ := hcopy inv hk
      obtain ⟨step', hall⟩ := ih step.inv hks
      exact ⟨step.trans step', .cons ⟨c, hc, step'.le.nodes _ _ hlook⟩ hall⟩

/-- Creating a node over copied children makes a copied cell of it. -/
theorem CopyInv.createNode {h n kind id attrs children k} (inv : CopyInv src.toHeap vm maps)
    (hn : src.lookupNode h = some n) (hnone : maps.nodes.lookup h = none)
    (hk : foreignString src.toHeap n.kind = some kind) (hi : foreignString src.toHeap n.id = some id)
    (ha : (src.attrsOf n).mapM (foreignAttr src.toHeap) = some attrs)
    (hchildren : List.Forall₂ (fun c k => maps.nodes.lookup c = some k) (src.childrenOf n) children)
    (hc : (settledStore env).node maps.holds kind id attrs children vm = .ok k vm') :
    CopyInv src.toHeap vm' { maps with nodes := (h, k) :: maps.nodes, holds := true } ∧
      (maps.holds = true → vm.Grown vm') := by
  obtain ⟨hcreate, hplace⟩ := settledStore_node hc
  have hle := BoundaryMaps.Le.enterNode (k := k) hnone
  -- the record that is written reads the texts of the source over the copied children
  have hcell : ∀ {cs kt it ms}, vm'.expand (.node k) = some (.node kt it ms, cs.map .node) → cs = children →
      nodeTexts vm.toHeap kind id attrs = some (kt, it, ms) → CopiedCell src.toHeap vm'.toHeap
        { maps with nodes := (h, k) :: maps.nodes, holds := true } (.node h) (.node k) := by
    rintro _ kt it ms hexp rfl htexts l vs hsrc
    obtain ⟨n', hn', _, hl, rfl⟩ := (Heap.expand_node _).1 hsrc
    rw [hn] at hn'
    cases hn'
    obtain ⟨kt', it', ms', rfl, htexts'⟩ := foreign_nodeTexts (d := vm.toHeap) hk hi ha hl
    rw [htexts] at htexts'
    cases htexts'
    refine ⟨_, hexp, ?_⟩
    rw [List.forall₂_map_left_iff, List.forall₂_map_right_iff]
    exact hchildren.imp fun _ _ hlook => .node (hle.nodes _ _ hlook)
  cases hh : maps.holds with
  | true =>
      obtain ⟨kt, it, ms, htexts, hg, hs, rfl, hlen, hexp⟩ := createNodeRecord_inPlace inv.sound hcreate (hplace hh)
      exact ⟨inv.enterNode hnone (fun _ => hg) hs (fun _ => Nat.lt_succ_self _) (Nat.le_of_eq hlen.symm)
        (hcell hexp rfl htexts), fun _ => hg⟩
  | false =>
      -- nothing has been copied yet, so the node has no children
      have hnil : children = [] := by
        generalize src.childrenOf n = cs at hchildren
        cases hchildren with
        | nil => rfl
        | cons hlook _ =>
            rw [(inv.empty hh).1] at hlook
            cases hlook
      subst hnil
      obtain ⟨kt, it, ms, vm₁, vm₂, cs, hkt, hit, hms, _, hcol, hw⟩ := createNodeRecord_array inv.sound hcreate
      have hcs : cs = [] := List.forall₂_nil_left_iff.1 hcol.2
      subst hcs
      obtain ⟨hexp, hs, hkeq, hlen, _⟩ := hw.expand
      refine ⟨inv.enterNode hnone (fun hf => ?_) hs (fun hf => ?_) ?_
        (hcell hexp rfl (nodeTexts_eq_some hkt hit hms)), by simp⟩
      · rw [hh] at hf
        cases hf
      · rw [hh] at hf
        cases hf
      · rw [hlen, hkeq]

theorem copyWorkerBoundaryNode_settled {fuel} : ∀ {h maps vm k maps' vm'}, CopyInv src.toHeap vm maps →
    copyWorkerBoundaryNode env (settledStore env) src fuel h maps vm = .ok (k, maps') vm' →
    CopyStep src.toHeap vm maps vm' maps' ∧ maps'.nodes.lookup h = some k := by
  induction fuel with
  | zero =>
      intro h maps vm k maps' vm' _ hc
      cases hc
  | succ fuel ih =>
      intro h maps vm k maps' vm' inv hc
      obtain ⟨n, hn, ⟨hlook, rfl, rfl⟩ | ⟨hnone, hbusy, _, _, children, maps₁, vm₁, kind, id, attrs, hchildren, hk, hi,
        ha, hcreate, rfl⟩⟩ := copyWorkerBoundaryNode_ok hc
      · exact ⟨.refl inv, hlook⟩
      · have mark := inv.busyNode h
        obtain ⟨step, hall⟩ := copyWorkerBoundaryChildren_settled ih mark.inv hchildren
        -- nobody else has entered the node meanwhile
        have hnone₁ : maps₁.nodes.lookup h = none := (step.busy.nodes h (List.mem_cons_self ..)).2 hnone
        obtain ⟨inv', hgrown⟩ := step.inv.createNode hn hnone₁ hk hi ha (forall₂_slice hall) hcreate
        have steps := mark.trans step
        refine ⟨⟨inv', steps.le.trans (.enterNode hnone₁), ?_, fun hh => ?_⟩, lookup_cons_self⟩
        · refine ⟨fun b hb => ⟨(steps.busy.nodes b hb).1, fun hb' => ?_⟩, steps.busy.pairs⟩
          have hne : b ≠ h := by
            rintro rfl
            exact hbusy hb
          rw [lookup_cons_of_ne hne]
          exact (steps.busy.nodes b hb).2 hb'
        · exact (steps.grown hh).trans (hgrown (steps.le.holds hh))

/-! ## Values -/

/-- What a copy of a value comes to: the value has a copy in the destination, and if the copy still holds nothing
there, it is a copy anywhere. -/
structure CopiedValue (src : Heap) (dst : Vm) (maps : BoundaryMaps) (dst' : Vm) (maps' : BoundaryMaps) (v w : Value) :
    Prop where
  step : CopyStep src dst maps dst' maps'
  copied : Copied src dst'.toHeap maps' v w
  free : maps'.holds = false → ∀ d m, Copied src d m v w

theorem CopiedValue.scalar (inv : CopyInv src.toHeap vm maps) {v} (hv : ∀ h : Heap, h.expand v = some (.scalar v, [])) :
    CopiedValue src.toHeap vm maps vm maps v v := by
  have hcopied : ∀ d m, Copied src.toHeap d m v v := by
    intro d m
    refine .leaf ?_ ?_ fun l hl => ?_
    · rintro k rfl
      simpa [Heap.expand, Heap.lookupNode] using hv ⟨[], 0, [], 0, [], [], [], []⟩
    · rintro k rfl
      simpa [Heap.expand, Heap.lookupScratchPair] using hv ⟨[], 0, [], 0, [], [], [], []⟩
    · rw [hv] at hl
      cases hl
      exact hv d
  exact ⟨.refl inv, hcopied _ _, fun _ => hcopied⟩

/-- Something that is no handle has been copied, with everything held before still good. -/
theorem CopyInv.hold (inv : CopyInv src.toHeap vm maps) (hg : maps.holds = true → vm.Grown vm')
    (hs : vm'.StringsSound) : CopyStep src.toHeap vm maps vm' { maps with holds := true } := by
  refine ⟨?_, ⟨fun _ _ h => h, fun _ _ h => h, fun _ => rfl⟩, ⟨fun _ hb => ⟨hb, id⟩, fun _ hb => ⟨hb, id⟩⟩, hg⟩
  cases hh : maps.holds with
  | true => exact (inv.grown (hg hh) hs).same rfl rfl hh.symm
  | false =>
      obtain ⟨hn, hp⟩ := inv.empty hh
      refine ⟨hs, ?_, ?_, ?_, ?_, by simp⟩ <;> simp [hn, hp]

theorem expand_string {h : Heap} {p l vs} (hp : p ≠ .null) :
    h.expand (.string p) = some (l, vs) ↔ ∃ t, h.cstr p = some t ∧ l = .string t ∧ vs = [] := by
  cases p with
  | null => exact absurd rfl hp
  | _ =>
      simp only [Heap.expand, Option.map_eq_some_iff, Prod.mk.injEq]
      constructor
      · rintro ⟨t, ht, rfl, rfl⟩
        exact ⟨t, ht, rfl, rfl⟩
      · rintro ⟨t, ht, rfl, rfl⟩
        exact ⟨t, ht, rfl, rfl⟩

theorem copiedValue_string {p q text} (inv : CopyInv src.toHeap vm maps) (hp : p ≠ .null)
    (hf : foreignString src.toHeap p = some text) (h : (settledStore env).string maps.holds text vm = .ok q vm') :
    CopiedValue src.toHeap vm maps vm' { maps with holds := true } (.string p) (.string q) := by
  obtain ⟨hcopy, hplace⟩ := settledStore_string h
  obtain ⟨_, hs, hq, hread⟩ := copyStringToArena_ok inv.sound hcopy
  refine ⟨inv.hold (fun hh => copyStringToArena_inPlace inv.sound hcopy (hplace hh)) hs,
    .leaf (by simp) (by simp) fun l hl => ?_, by simp⟩
  obtain ⟨t, ht, rfl, _⟩ := (expand_string hp).1 hl
  exact (expand_string hq).2 ⟨t, hread t (foreignString_cstr hf ht).1, rfl, rfl⟩

theorem bytesAt_length {h : Heap} {d n data} (hd : h.bytesAt d n = some data) : data.length = n := by
  unfold Heap.bytesAt at hd
  split at hd
  · rename_i h0
    cases hd
    exact h0.symm
  · cases d with
    | null => cases hd
    | ext t =>
        simp only at hd
        split at hd
        · rename_i hle
          cases hd
          rw [List.length_take, Nat.min_eq_left hle]
        · cases hd
    | arena block o =>
        simp only at hd
        split at hd
        · rename_i hr
          cases hd
          rw [List.length_take, List.length_drop]
          omega
        · cases hd

theorem copiedValue_bytes {d n data q} (inv : CopyInv src.toHeap vm maps) (hd : src.bytesAt d n = some data)
    (h : bytesArenaAlloc env data vm = .ok q vm') :
    CopiedValue src.toHeap vm maps vm' { maps with holds := true } (.bytes d n) (.bytes q n) := by
  obtain ⟨hg, hread, hsame, _⟩ := bytesArenaAlloc_ok h
  have hlen : data.length = n := bytesAt_length hd
  rw [hlen] at hread
  refine ⟨inv.hold (fun _ => hg) (hsame.sound inv.sound), .leaf (by simp) (by simp) fun l hl => ?_, by simp⟩
  simp only [Heap.expand, hd, Option.map_some, Option.some.injEq, Prod.mk.injEq, and_true] at hl
  simp [Heap.expand, hread, hl]

/-- Creating a pair over copied components makes a copied cell of it. -/
theorem CopyInv.createPair {h p first second k} (inv : CopyInv src.toHeap vm maps)
    (hp : src.lookupScratchPair h = some p) (hnone : maps.pairs.lookup h = none)
    (h₁ : Copied src.toHeap vm.toHeap maps p.first first) (h₂ : Copied src.toHeap vm.toHeap maps p.second second)
    (hc : createScratchPair first second vm = .ok k vm') :
    CopyInv src.toHeap vm' { maps with pairs := (h, k) :: maps.pairs, holds := true } ∧ vm.Grown vm' := by
  obtain ⟨hg, hsame, hk, hpairs, _⟩ := createScratchPair_ok hc
  have hle := BoundaryMaps.Le.enterPair (k := k) hnone
  refine ⟨inv.enterPair hnone hg (hsame.sound inv.sound) (by omega) (by simp [hpairs, hk]) ?_, hg⟩
  intro l vs hsrc
  obtain ⟨p', hp', rfl, rfl⟩ := (Heap.expand_pair _).1 hsrc
  rw [hp] at hp'
  cases hp'
  refine ⟨[first, second], (Heap.expand_pair _).2 ⟨⟨first, second⟩, ?_, rfl, rfl⟩, ?_⟩
  · simp [Heap.lookupScratchPair, hpairs, hk]
  · exact .cons (h₁.mono hg.heap hle) (.cons (h₂.mono hg.heap hle) .nil)

theorem copyWorkerBoundaryPair_settled {copy : Value → BoundaryMaps → VmM (Value × BoundaryMaps)}
    (hcopy : ∀ {v maps vm w maps' vm'}, CopyInv src.toHeap vm maps → copy v maps vm = .ok (w, maps') vm' →
      CopiedValue src.toHeap vm maps vm' maps' v w) {h k} (inv : CopyInv src.toHeap vm maps)
    (hc : copyWorkerBoundaryPair src copy h maps vm = .ok (k, maps') vm') :
    CopyStep src.toHeap vm maps vm' maps' ∧ maps'.pairs.lookup h = some k := by
  obtain ⟨p, hp, ⟨hlook, rfl, rfl⟩ | ⟨hnone, hbusy, first, second, maps₁, maps₂, vm₁, vm₂, hfirst, hsecond, hcreate,
    rfl⟩⟩ := copyWorkerBoundaryPair_ok hc
  · exact ⟨.refl inv, hlook⟩
  · have mark := inv.busyPair h
    have c₁ := hcopy mark.inv hfirst
    have c₂ := hcopy c₁.step.inv hsecond
    -- the first component is still good: nothing has moved since, or it is a scalar
    have hfirst₂ : Copied src.toHeap vm₂.toHeap maps₂ p.first first := by
      cases hh : maps₁.holds with
      | true => exact c₁.copied.mono (c₂.step.grown hh).heap c₂.step.le
      | false => exact c₁.free hh _ _
    have hnone₂ : maps₂.pairs.lookup h = none :=
      ((c₁.step.trans c₂.step).busy.pairs h (List.mem_cons_self ..)).2 hnone
    obtain ⟨inv', hgrown⟩ := c₂.step.inv.createPair hp hnone₂ hfirst₂ c₂.copied hcreate
    have steps := (mark.trans c₁.step).trans c₂.step
    refine ⟨⟨inv', steps.le.trans (.enterPair hnone₂), ?_, fun hh => (steps.grown hh).trans hgrown⟩, lookup_cons_self⟩
    refine ⟨steps.busy.nodes, fun b hb => ⟨(steps.busy.pairs b hb).1, fun hb' => ?_⟩⟩
    have hne : b ≠ h := by
      rintro rfl
      exact hbusy hb
    rw [lookup_cons_of_ne hne]
    exact (steps.busy.pairs b hb).2 hb'

theorem CopyStep.holds_of_node {h k} (step : CopyStep src.toHeap vm maps vm' maps')
    (hk : maps'.nodes.lookup h = some k) : CopiedValue src.toHeap vm maps vm' maps' (.node h) (.node k) := by
  refine ⟨step, .node hk, fun hh => ?_⟩
  rw [(step.inv.empty hh).1] at hk
  cases hk

theorem CopyStep.holds_of_pair {h k} (step : CopyStep src.toHeap vm maps vm' maps')
    (hk : maps'.pairs.lookup h = some k) : CopiedValue src.toHeap vm maps vm' maps' (.pair h) (.pair k) := by
  refine ⟨step, .pair hk, fun hh => ?_⟩
  rw [(step.inv.empty hh).2] at hk
  cases hk

theorem copyWorkerBoundaryValueWithContext_settled {fuel} : ∀ {direction v maps vm w maps' vm'},
    CopyInv src.toHeap vm maps →
    copyWorkerBoundaryValueWithContext env (settledStore env) src fuel direction v maps vm = .ok (w, maps') vm' →
    CopiedValue src.toHeap vm maps vm' maps' v w := by
  induction fuel with
  | zero =>
      intro direction v maps vm w maps' vm' _ h
      cases h
  | succ fuel ih =>
      intro direction v maps vm w maps' vm' inv h
      cases v with
      | string p =>
          cases p with
          | null => cases h
          | _ =>
              rw [copyWorkerBoundaryValueWithContext_string (by simp)] at h
              simp only [VmM.bind_ok, VmM.deref_ok, VmM.onFail_ok, VmM.pure_run,
                Outcome.ok.injEq, Prod.mk.injEq] at h
              obtain ⟨text, _, ⟨hf, rfl⟩, q, _, hq, ⟨rfl, rfl⟩, rfl⟩ := h
              exact copiedValue_string inv (by simp) hf hq
      | bytes d n =>
          rw [copyWorkerBoundaryValueWithContext_bytes] at h
          split at h
          · cases h
          · simp only [VmM.bind_ok, VmM.deref_ok, VmM.onFail_ok, VmM.pure_run, Outcome.ok.injEq, Prod.mk.injEq] at h
            obtain ⟨data, _, ⟨hd, rfl⟩, q, _, hq, ⟨rfl, rfl⟩, rfl⟩ := h
            exact copiedValue_bytes inv hd hq
      | node k =>
          simp only [copyWorkerBoundaryValueWithContext_node, VmM.bind_ok, VmM.pure_run, Outcome.ok.injEq,
            Prod.mk.injEq] at h
          obtain ⟨⟨j, maps₁⟩, _, hn, ⟨rfl, rfl⟩, rfl⟩ := h
          obtain ⟨step, hlook⟩ := copyWorkerBoundaryNode_settled inv hn
          exact step.holds_of_node hlook
      | pair k =>
          simp only [copyWorkerBoundaryValueWithContext_pair, VmM.bind_ok, VmM.pure_run, Outcome.ok.injEq,
            Prod.mk.injEq] at h
          obtain ⟨⟨j, maps₁⟩, _, hn, ⟨rfl, rfl⟩, rfl⟩ := h
          obtain ⟨step, hlook⟩ := copyWorkerBoundaryPair_settled (fun inv h => ih inv h) inv hn
          exact step.holds_of_pair hlook
      | void =>
          cases h
          exact .scalar inv fun _ => rfl
      | int i =>
          cases h
          exact .scalar inv fun _ => rfl
      | number x =>
          cases h
          exact .scalar inv fun _ => rfl
      | bool b =>
          cases h
          exact .scalar inv fun _ => rfl
      | null =>
          cases h
          exact .scalar inv fun _ => rfl
      | _ => cases h

end Aivm
