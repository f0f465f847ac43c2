import Aivm.Machine.Builders
import Aivm.Machine.Lemmas.Slots
import Aivm.Model.Rules
import Aivm.Nodes.Lemmas.Create

/-!
# Histories of node builders

What has been done to the node builders of a machine, as a list of events. A builder value is the number of a slot, so
that an alias of it is the same number.
-/

namespace Aivm

/-- A builder operation that has succeeded. -/
inductive BuilderEvent where
  | made (handle : Nat)
  | appended (handle : Nat)
  | finished (handle : Nat)
deriving DecidableEq, Repr

namespace BuilderEvent

def isMade : BuilderEvent → Bool
  | made _ => true
  | _ => false

def isFinished : BuilderEvent → Bool
  | finished _ => true
  | _ => false

def madeHandle : BuilderEvent → Option Nat
  | made handle => some handle
  | _ => none

end BuilderEvent

/-- The handles of the builders that have been made, one for each. -/
def madeHandles (history : List BuilderEvent) : List Nat := history.filterMap BuilderEvent.madeHandle

/-- The same builders are active; what they hold may have been moved by a collection. -/
def Vm.SameBuilders (vm vm' : Vm) : Prop :=
  ∀ handle, (lookupBuilder vm' handle).isSome = (lookupBuilder vm handle).isSome

/-- A machine whose builders have this history: operations on builders succeed, and in between anything may happen that
leaves the same builders active. An operation that is refused ends the run. -/
inductive BuilderRun (env : Env) : List BuilderEvent → Vm → Prop where
  | start {vm : Vm} : (∀ handle, lookupBuilder vm handle = none) → BuilderRun env [] vm
  | made {history : List BuilderEvent} {vm vm' : Vm} {kind id : StrPtr} {handle : Nat} : BuilderRun env history vm →
      (nodeBuilderNewRecord env kind id).run vm = .ok handle vm' → BuilderRun env (history ++ [.made handle]) vm'
  | appendedChild {history : List BuilderEvent} {vm vm' : Vm} {handle child : Nat} {u : Unit} :
      BuilderRun env history vm → (nodeBuilderAppendChildRecord env handle child).run vm = .ok u vm' →
      BuilderRun env (history ++ [.appended handle]) vm'
  | appendedAttr {history : List BuilderEvent} {vm vm' : Vm} {handle attr : Nat} {u : Unit} :
      BuilderRun env history vm → (nodeBuilderAppendAttrRecord env handle attr).run vm = .ok u vm' →
      BuilderRun env (history ++ [.appended handle]) vm'
  | finished {history : List BuilderEvent} {vm vm' : Vm} {handle node : Nat} : BuilderRun env history vm →
      (nodeBuilderFinishRecord env handle).run vm = .ok node vm' → BuilderRun env (history ++ [.finished handle]) vm'
  | elsewhere {history : List BuilderEvent} {vm vm' : Vm} : BuilderRun env history vm → vm.SameBuilders vm' →
      BuilderRun env history vm'

/-- Every operation on the builder fails with an error. -/
structure DeadBuilder (env : Env) (handle : Nat) (vm : Vm) : Prop where
  appendChild : ∀ child, ∃ vm', (nodeBuilderAppendChildRecord env handle child).run vm = .fail vm' ∧ vm'.status = .error
  appendAttr : ∀ attr, ∃ vm', (nodeBuilderAppendAttrRecord env handle attr).run vm = .fail vm' ∧ vm'.status = .error
  finish : ∃ vm', (nodeBuilderFinishRecord env handle).run vm = .fail vm' ∧ vm'.status = .error

/-- Operations on the builder leave the others as they are; a collection on the way may move what they hold. -/
structure OwnBuilder (env : Env) (handle : Nat) (vm : Vm) : Prop where
  appendChild : ∀ child u vm', (nodeBuilderAppendChildRecord env handle child).run vm = .ok u vm' →
    ∀ other, other ≠ handle → lookupBuilder vm' other = lookupBuilder vm other
  appendAttr : ∀ attr u vm', (nodeBuilderAppendAttrRecord env handle attr).run vm = .ok u vm' →
    ∀ other, other ≠ handle → lookupBuilder vm' other = lookupBuilder vm other
  finish : ∀ node vm', (nodeBuilderFinishRecord env handle).run vm = .ok node vm' →
    ∀ other, other ≠ handle → (lookupBuilder vm' other).isSome = (lookupBuilder vm other).isSome

/-- A finished builder is dead, an operation concerns the builder of its handle only, and no two builders have one
handle, so that an alias of one does not lead to another. -/
structure SingleUse (env : Env) (history : List BuilderEvent) (vm : Vm) : Prop where
  finished : ∀ handle, .finished handle ∈ history → DeadBuilder env handle vm
  own : ∀ handle, OwnBuilder env handle vm
  apart : (madeHandles history).Nodup

/-- No builder is made after one has been finished. -/
def MadeFirst (history : List BuilderEvent) : Prop :=
  history.Pairwise fun first later => first.isFinished = true → later.isMade = false

/-!
## Which builders are active

Only the operations on builders make a builder active or inactive. The creation of a node, which the end of a builder
calls, may collect; it rewrites what builders hold, but not which there are.
-/

open VmM

variable {env : Env} {vm vm' : Vm} {handle : Nat}

theorem lookupBuilder_congr (h : vm'.nodeBuilders = vm.nodeBuilders) (handle : Nat) :
    lookupBuilder vm' handle = lookupBuilder vm handle := by
  rw [lookupBuilder, lookupBuilder, h]

theorem Vm.SameBuilders.of_eq (h : vm'.nodeBuilders = vm.nodeBuilders) : vm.SameBuilders vm' := by
  intro handle
  rw [lookupBuilder_congr h]

theorem sameBuilders_chains : Chains Vm.SameBuilders where
  refl _ _ := rfl
  trans h h' handle := (h' handle).trans (h handle)

/-! ## Collections and allocations -/

theorem NodeCompacted.sameBuilders {extra live livePairs : List Nat} {arenas : NodeArenas}
    (c : NodeCompacted env extra vm vm' live livePairs arenas) : vm.SameBuilders vm' := by
  have hmoved := Unfold.mapM_eq_some.1 c.roots.builders
  have hslots : ∀ slot : Nat, (vm'.nodeBuilders[slot]?).join.isSome = (vm.nodeBuilders[slot]?).join.isSome := by
    intro slot
    cases hslot : vm.nodeBuilders[slot]? with
    | none =>
        have hend : vm'.nodeBuilders[slot]? = none := by
          rw [List.getElem?_eq_none_iff] at hslot ⊢
          exact hmoved.length_eq ▸ hslot
        rw [hend]
    | some b =>
        obtain ⟨b', hb', hremapped⟩ := Unfold.forall₂_getElem? hmoved hslot
        rw [hb']
        cases b with
        | none =>
            cases hremapped
            rfl
        | some b =>
            obtain ⟨children, -, rfl⟩ := Option.map_eq_some_iff.1 hremapped
            rfl
  intro handle
  rw [lookupBuilder, lookupBuilder]
  split
  · rfl
  · exact hslots _

theorem compactNodeArenasWithMap_sameBuilders {extra : List Nat} {map : Nat → Nat}
    (h : compactNodeArenasWithMap env extra vm = .ok map vm') : vm.SameBuilders vm' := by
  rcases compactNodeArenasWithMap_ok h with ⟨-, rfl, -⟩ | ⟨live, livePairs, arenas, c, -⟩
  · exact .of_eq rfl
  · exact sameBuilders_chains.trans (.of_eq rfl) c.sameBuilders

theorem collectNodesFor_sameBuilders {detail : String} {src src' : ChildSource}
    (h : collectNodesFor env detail src vm = .ok src' vm') : vm.SameBuilders vm' := by
  obtain ⟨map, vm₁, cs, hcompact, -, -, rfl⟩ := collectNodesFor_ok h
  exact sameBuilders_chains.trans (compactNodeArenasWithMap_sameBuilders hcompact) (.of_eq rfl)

theorem collectProactively_sameBuilders {attrs children : Nat} {src src' : ChildSource}
    (h : collectProactively env attrs children src vm = .ok src' vm') : vm.SameBuilders vm' := by
  obtain ⟨vm₁, -, hroots, -, -, ⟨-, rfl⟩ | ⟨detail, hcollect⟩⟩ := collectProactively_ok h
  · exact .of_eq hroots.builders
  · exact sameBuilders_chains.trans (.of_eq hroots.builders) (collectNodesFor_sameBuilders hcollect)

theorem collectIfFull_sameBuilders {attrs children : Nat} {src src' : ChildSource}
    (h : collectIfFull env attrs children src vm = .ok src' vm') : vm.SameBuilders vm' := by
  rcases collectIfFull_ok h with ⟨-, rfl⟩ | ⟨detail, hcollect⟩
  · exact sameBuilders_chains.refl _
  · exact collectNodesFor_sameBuilders hcollect

theorem Vm.StringLimitGrown.sameBuilders (h : vm.StringLimitGrown vm') : vm.SameBuilders vm' := by
  rw [h]
  exact .of_eq rfl

theorem stringArenaReserve_sameBuilders {additional : Nat} {u : Unit}
    (h : stringArenaReserve env additional vm = .ok u vm') : vm.SameBuilders vm' := by
  obtain ⟨-, ⟨-, hgrown⟩ | ⟨-, vm₁, vm₂, hgrown, hcompact, hgrown'⟩⟩ := stringArenaReserve_ok h
  · exact hgrown.sameBuilders
  · have hmoved : vm₁.SameBuilders vm₂ := by
      rcases compactStringArena_ok hcompact with ⟨-, rfl⟩ | ⟨live, livePairs, c⟩
      · exact sameBuilders_chains.refl _
      · apply Vm.SameBuilders.of_eq
        rw [c.moved.frame]
    exact sameBuilders_chains.trans hgrown.sameBuilders (sameBuilders_chains.trans hmoved hgrown'.sameBuilders)

theorem storeString_within (env : Env) (text : List Byte) : Within Vm.SameBuilders (storeString env text) := by
  intro vm p vm' h
  simp only [storeString, stringArenaAlloc, bind_ok, get_run, modify_run, pure_run, Outcome.ok.injEq] at h
  obtain ⟨_, _, ⟨_, vm₁, hreserve, _, _, ⟨rfl, rfl⟩, _, _, ⟨_, rfl⟩, _, rfl⟩, _, _, ⟨_, rfl⟩, _, rfl⟩ := h
  exact sameBuilders_chains.trans (stringArenaReserve_sameBuilders hreserve) (.of_eq rfl)

theorem copyStringRangeToArena_within (env : Env) (text : List Byte) :
    Within Vm.SameBuilders (copyStringRangeToArena env text) := by
  apply Within.bind sameBuilders_chains (.get sameBuilders_chains)
  intro vm
  split
  · exact .pure sameBuilders_chains _
  · exact storeString_within env text

theorem copyNodeAttr_within (env : Env) (a : List Byte × AttrMeaning) :
    Within Vm.SameBuilders (copyNodeAttr env a) := by
  apply Within.bind sameBuilders_chains (copyStringRangeToArena_within env a.1)
  intro key
  cases a.2 with
  | identifier t =>
      exact .bind sameBuilders_chains (copyStringRangeToArena_within env t) fun _ => .pure sameBuilders_chains _
  | string t =>
      exact .bind sameBuilders_chains (copyStringRangeToArena_within env t) fun _ => .pure sameBuilders_chains _
  | int i => exact .pure sameBuilders_chains _
  | bool b => exact .pure sameBuilders_chains _

theorem copyNodeAttrs_within (env : Env) (attrs : List (List Byte × AttrMeaning)) :
    Within Vm.SameBuilders (attrs.mapM (copyNodeAttr env)) := by
  induction attrs with
  | nil => exact .pure sameBuilders_chains []
  | cons a attrs ih =>
      rw [List.mapM_cons]
      exact .bind sameBuilders_chains (copyNodeAttr_within env a) fun _ =>
        .bind sameBuilders_chains ih fun _ => .pure sameBuilders_chains _

theorem writeNode_within (env : Env) (kind id : List Byte) (attrs : List (List Byte × AttrMeaning))
    (children : ChildSource) : Within Vm.SameBuilders (writeNode env kind id attrs children) := by
  apply Within.bind sameBuilders_chains (copyStringRangeToArena_within env kind)
  intro kind
  apply Within.bind sameBuilders_chains (copyStringRangeToArena_within env id)
  intro id
  apply Within.bind sameBuilders_chains (copyNodeAttrs_within env attrs)
  intro attrs vm node vm' h
  cases h
  exact .of_eq rfl

/-- The creation of a node leaves the same builders active. -/
theorem createNodeRecord_sameBuilders {kind id : StrPtr} {attrs : List NodeAttr} {children : ChildSource} {node : Nat}
    (h : createNodeRecord env kind id attrs children vm = .ok node vm') : vm.SameBuilders vm' := by
  rw [createNodeRecord] at h
  split at h
  · cases h
  · simp only [bind_ok, get_run, Outcome.ok.injEq] at h
    obtain ⟨_, _, halloc, _, _, ⟨rfl, rfl⟩, k, _, hkind, i, _, hid, ms, _, hattrs, _, vm₁, hreserve, src₁, vm₂, hproactive,
      src₂, vm₃, hfull, hwrite⟩ := h
    obtain rfl := Env.allocateIf_ok halloc
    obtain ⟨rfl, -⟩ := snapshotNodeInputString_ok hkind
    obtain ⟨rfl, -⟩ := snapshotNodeInputString_ok hid
    obtain ⟨rfl, -⟩ := snapshotNodeAttrs_ok hattrs
    have hroom := sameBuilders_chains.trans (stringArenaReserve_sameBuilders hreserve)
      (collectProactively_sameBuilders hproactive)
    exact sameBuilders_chains.trans hroom
      (sameBuilders_chains.trans (collectIfFull_sameBuilders hfull) (writeNode_within env k i ms src₂ _ _ _ hwrite))

end Aivm
