import Aivm.Model.Rules
import Aivm.Workers.Lemmas.Settled

/-!
# Copies through any store

What a copy does to the destination depends on its store only through the two operations of the store: relations that
these keep are kept by the whole copy, and a store that does more makes the copy do more.
-/

namespace Aivm

open VmM

variable {env : Env} {src : Vm} {store store' : CopyStore} {Q : Vm → Vm → Prop}

/-! ## Relations that a copy keeps -/

theorem copyWorkerBoundaryChildren_within (hq : Chains Q) {copy : Nat → BoundaryMaps → VmM (Nat × BoundaryMaps)}
    (hcopy : ∀ c maps, Within Q (copy c maps)) (slots : List Nat) :
    ∀ maps, Within Q (copyWorkerBoundaryChildren src copy slots maps) := by
  induction slots with
  | nil => exact fun maps => .pure hq _
  | cons slot slots ih =>
      intro maps
      unfold copyWorkerBoundaryChildren
      split
      · exact .throw _
      · exact .bind hq (hcopy _ _) fun _ => .bind hq (ih _) fun _ => .pure hq _

theorem copyWorkerBoundaryNode_within (hq : Chains Q)
    (hnode : ∀ holds kind id attrs children, Within Q (store.node holds kind id attrs children)) (fuel : Nat) :
    ∀ h maps, Within Q (copyWorkerBoundaryNode env store src fuel h maps) := by
  induction fuel with
  | zero => exact fun h maps => .throw _
  | succ fuel ih =>
      intro h maps
      unfold copyWorkerBoundaryNode
      split
      · exact .throw _
      · split
        · exact .pure hq _
        · split
          · exact .throw _
          · refine .bind hq (.allocate hq env _) fun _ => ?_
            split
            · exact .throw_bind _ _
            · refine .bind hq (copyWorkerBoundaryChildren_within hq ih _ _) fun _ => ?_
              refine .bind hq (.deref hq _) fun _ => .bind hq (.deref hq _) fun _ => .bind hq (.deref hq _) fun _ => ?_
              exact .bind hq (hnode _ _ _ _ _) fun _ => .pure hq _

theorem copyWorkerBoundaryPair_within (hq : Chains Q) (hpair : ∀ a b, Within Q (createScratchPair a b))
    {copy : Value → BoundaryMaps → VmM (Value × BoundaryMaps)} (hcopy : ∀ v maps, Within Q (copy v maps)) (h : Nat)
    (maps : BoundaryMaps) : Within Q (copyWorkerBoundaryPair src copy h maps) := by
  unfold copyWorkerBoundaryPair
  split
  · exact .throw _
  · split
    · exact .pure hq _
    · split
      · exact .throw _
      · refine .bind hq (hcopy _ _) fun _ => .bind hq (hcopy _ _) fun _ => ?_
        exact .bind hq (hpair _ _) fun _ => .pure hq _

theorem copyWorkerBoundaryValueWithContext_within (hq : Chains Q)
    (hnode : ∀ holds kind id attrs children, Within Q (store.node holds kind id attrs children))
    (hstring : ∀ holds p, Within Q (store.string holds p)) (hbytes : ∀ data, Within Q (bytesArenaAlloc env data))
    (hpair : ∀ a b, Within Q (createScratchPair a b)) (fuel : Nat) : ∀ direction v maps,
    Within Q (copyWorkerBoundaryValueWithContext env store src fuel direction v maps) := by
  induction fuel with
  | zero => exact fun direction v maps => .throw _
  | succ fuel ih =>
      intro direction v maps
      cases v with
      | string p =>
          cases p with
          | null => exact .throw _
          | _ => exact .bind hq (.deref hq _) fun _ => .bind hq (.onFail (hstring _ _)) fun _ => .pure hq _
      | bytes d n =>
          simp only [copyWorkerBoundaryValueWithContext_bytes]
          split
          · exact .throw _
          · exact .bind hq (.deref hq _) fun _ => .bind hq (.onFail (hbytes _)) fun _ => .pure hq _
      | node h => exact .bind hq (copyWorkerBoundaryNode_within hq hnode _ _ _) fun _ => .pure hq _
      | pair h => exact .bind hq (copyWorkerBoundaryPair_within hq hpair (ih _) _ _) fun _ => .pure hq _
      | void => exact .pure hq _
      | int i => exact .pure hq _
      | number x => exact .pure hq _
      | bool b => exact .pure hq _
      | null => exact .pure hq _
      | _ => exact .throw _

/-! ## Stores that do more -/

/-- Where one store succeeds, the other does the same. -/
structure CopyStore.Refines (store store' : CopyStore) : Prop where
  node : ∀ holds kind id attrs children,
    VmM.Refines (store.node holds kind id attrs children) (store'.node holds kind id attrs children)
  string : ∀ holds p, VmM.Refines (store.string holds p) (store'.string holds p)

theorem settledStore_refines (env : Env) : (settledStore env).Refines (vmStore env) where
  node _ _ _ _ _ _ _ _ h := (settledStore_node h).1
  string _ _ _ _ _ h := (settledStore_string h).1

theorem copyWorkerBoundaryChildren_refines {copy copy' : Nat → BoundaryMaps → VmM (Nat × BoundaryMaps)}
    (hcopy : ∀ c maps, VmM.Refines (copy c maps) (copy' c maps)) (slots : List Nat) :
    ∀ maps, VmM.Refines (copyWorkerBoundaryChildren src copy slots maps)
      (copyWorkerBoundaryChildren src copy' slots maps) := by
  induction slots with
  | nil => exact fun maps => .refl _
  | cons slot slots ih =>
      intro maps
      unfold copyWorkerBoundaryChildren
      split
      · exact .refl _
      · exact .bind (hcopy _ _) fun _ => .bind (ih _) fun _ => .refl _

theorem copyWorkerBoundaryNode_refines (hs : store.Refines store') (fuel : Nat) : ∀ h maps,
    VmM.Refines (copyWorkerBoundaryNode env store src fuel h maps) (copyWorkerBoundaryNode env store' src fuel h maps) := by
  induction fuel with
  | zero => exact fun h maps => .refl _
  | succ fuel ih =>
      intro h maps
      unfold copyWorkerBoundaryNode
      split
      · exact .refl _
      · split
        · exact .refl _
        · split
          · exact .refl _
          · refine .bind (.refl _) fun _ => ?_
            split
            · exact .throw_bind _ _ _
            · refine .bind (copyWorkerBoundaryChildren_refines ih _ _) fun _ => ?_
              refine .bind (.refl _) fun _ => .bind (.refl _) fun _ => .bind (.refl _) fun _ => ?_
              exact .bind (hs.node _ _ _ _ _) fun _ => .refl _

theorem copyWorkerBoundaryPair_refines {copy copy' : Value → BoundaryMaps → VmM (Value × BoundaryMaps)}
    (hcopy : ∀ v maps, VmM.Refines (copy v maps) (copy' v maps)) (h : Nat) (maps : BoundaryMaps) :
    VmM.Refines (copyWorkerBoundaryPair src copy h maps) (copyWorkerBoundaryPair src copy' h maps) := by
  unfold copyWorkerBoundaryPair
  split
  · exact .refl _
  · split
    · exact .refl _
    · split
      · exact .refl _
      · exact .bind (hcopy _ _) fun _ => .bind (hcopy _ _) fun _ => .refl _

theorem copyWorkerBoundaryValueWithContext_refines (hs : store.Refines store') (fuel : Nat) : ∀ direction v maps,
    VmM.Refines (copyWorkerBoundaryValueWithContext env store src fuel direction v maps)
      (copyWorkerBoundaryValueWithContext env store' src fuel direction v maps) := by
  induction fuel with
  | zero => exact fun direction v maps => .refl _
  | succ fuel ih =>
      intro direction v maps
      cases v with
      | string p =>
          cases p with
          | null => exact .refl _
          | _ => exact .bind (.refl _) fun _ => .bind (.onFail (hs.string _ _)) fun _ => .refl _
      | node h => exact .bind (copyWorkerBoundaryNode_refines hs _ _ _) fun _ => .refl _
      | pair h => exact .bind (copyWorkerBoundaryPair_refines (ih _) _ _) fun _ => .refl _
      | _ => exact .refl _

theorem copyWorkerBoundaryValueInto_refines (hs : store.Refines store') (direction : String) (v : Value) :
    VmM.Refines (copyWorkerBoundaryValueInto env store src direction v)
      (copyWorkerBoundaryValueInto env store' src direction v) :=
  .bind (.refl _) fun _ => .bind (copyWorkerBoundaryValueWithContext_refines hs _ _ _ _) fun _ => .refl _

/-! ## The store of the VM -/

/-- The roots denote what they did, and the string arena stays sound. -/
def Vm.KeptSound (vm vm' : Vm) : Prop := vm.StringsSound → vm.Kept vm' ∧ vm'.StringsSound

theorem Vm.KeptSound.chains : Chains Vm.KeptSound where
  refl vm hs := ⟨.refl vm, hs⟩
  trans h h' hs := ⟨(h hs).1.trans (h' (h hs).2).1, (h' (h hs).2).2⟩

theorem Vm.Grown.keptSound {vm vm' : Vm} (h : vm.Grown vm') (hs : vm.SameStrings vm') : vm.KeptSound vm' :=
  fun sound => ⟨.of_extends h.roots h.heap, hs.sound sound⟩

theorem createNodeRecord_keptSound (kind id : StrPtr) (attrs : List NodeAttr) (children : List Nat) :
    Within Vm.KeptSound (createNodeRecord env kind id attrs (.array children)) := by
  intro vm handle vm' h hs
  obtain ⟨k, i, ms, vm₁, vm₂, cs, _, _, _, hr, hcol, hw⟩ := createNodeRecord_array hs h
  obtain ⟨_, hsound, _, _, hg⟩ := hw.expand
  exact ⟨((stringArenaReserve_kept hr).trans hcol.1.kept).trans (.of_extends hg.roots hg.heap), hsound⟩

theorem copyWorkerBoundaryValue_keptSound (direction : String) (v : Value) :
    Within Vm.KeptSound (copyWorkerBoundaryValue env src direction v) := by
  have hq := Vm.KeptSound.chains
  refine .bind hq (.allocate hq env _) fun _ => .bind hq ?_ fun _ => .pure hq _
  refine copyWorkerBoundaryValueWithContext_within hq (fun _ => createNodeRecord_keptSound) ?_ ?_ ?_ _ _ _ _
  · intro _ p vm q vm' h hs
    obtain ⟨hc, hsound, _⟩ := copyStringToArena_ok hs h
    exact ⟨hc.kept, hsound⟩
  · intro data vm q vm' h
    obtain ⟨hg, _, hsame, _⟩ := bytesArenaAlloc_ok h
    exact hg.keptSound hsame
  · intro a b vm k vm' h
    obtain ⟨hg, hsame, _⟩ := createScratchPair_ok h
    exact hg.keptSound hsame

end Aivm
