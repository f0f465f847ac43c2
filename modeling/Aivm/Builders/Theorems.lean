import Aivm.Builders.Activity
import Aivm.Model.Lifecycle

/-!
# Builder handles are used once

As long as no builder is made after one has been finished, handles are not used again, and a finished builder stays dead.
A builder that is made later takes the first free slot, and that is one that a finished builder has left.
-/

namespace Aivm

open VmM

variable {env : Env} {vm vm' : Vm} {handle : Nat} {history : List BuilderEvent}

/-! ## What the operations do -/

theorem readText_same {p : StrPtr} {text : List Byte} (h : (readText env p).run vm = .ok text vm') : vm' = vm := by
  simp only [readText, Routine.bind_run, bind_ok, Routine.look, VmM.look, Routine.deref, deref_ok, Outcome.ok.injEq] at h
  obtain ⟨_, _, ⟨-, rfl⟩, -, rfl⟩ := h
  rfl

theorem putNodeBuilder_lookup {slot : Nat} (hslot : Writable nodeBuilderCapacity slot vm.nodeBuilders)
    (b : Option NodeBuilderRecord) (other : Nat) :
    lookupBuilder { vm with nodeBuilders := putSlot nodeBuilderCapacity slot b vm.nodeBuilders } other =
      if other = slot + 1 then b else lookupBuilder vm other := by
  have hput := putSlot_getElem hslot b (other - 1)
  rw [lookupBuilder, lookupBuilder, hput]
  by_cases hzero : other = 0
  · rw [if_pos hzero, if_pos hzero, if_neg (by omega)]
  · rw [if_neg hzero, if_neg hzero]
    by_cases hother : other = slot + 1
    · rw [if_pos (by omega), if_pos hother]
    · rw [if_neg (by omega), if_neg hother]

/-- The slot of an active builder can be written. -/
theorem lookupBuilder_slot {b : NodeBuilderRecord} (h : lookupBuilder vm handle = some b) :
    handle - 1 + 1 = handle ∧ Writable nodeBuilderCapacity (handle - 1) vm.nodeBuilders := by
  rw [lookupBuilder] at h
  split at h
  · cases h
  · refine ⟨by omega, .inl ?_⟩
    by_contra hge
    rw [List.getElem?_eq_none (Nat.le_of_not_lt hge)] at h
    cases h

/-- A new builder takes the first free slot. -/
theorem nodeBuilderNewRecord_ok {kind id : StrPtr} (h : (nodeBuilderNewRecord env kind id).run vm = .ok handle vm') :
    handle = freeSlot vm.nodeBuilders + 1 ∧ ∃ b, ∀ other, lookupBuilder vm' other =
      if other = handle then some b else lookupBuilder vm other := by
  have hseen : vm.seen.nodeBuilders = vm.nodeBuilders := rfl
  simp only [nodeBuilderNewRecord, Routine.bind_run, bind_ok, Routine.look, VmM.look, Outcome.ok.injEq] at h
  obtain ⟨_, _, ⟨rfl, rfl⟩, h⟩ := h
  rw [hseen] at h
  split at h
  · simp only [Routine.throw, Routine.bind_run, bind_ok, throw_run, reduceCtorEq, false_and, exists_false] at h
  · rename_i hroom
    simp only [Routine.bind_run, bind_ok] at h
    obtain ⟨_, _, hkind, _, _, hid, _, _, halloc, _, _, hput, h⟩ := h
    cases readText_same hkind
    cases readText_same hid
    cases allocate_ok halloc
    cases hput
    cases h
    exact ⟨rfl, _, putNodeBuilder_lookup (freeSlot_writable (by omega)) _⟩

/-- The record of an active builder is replaced. -/
theorem putNodeBuilder_ok {b : NodeBuilderRecord} (h : lookupBuilder vm handle = some b) (b' : Option NodeBuilderRecord)
    (other : Nat) :
    lookupBuilder { vm with nodeBuilders := putSlot nodeBuilderCapacity (handle - 1) b' vm.nodeBuilders } other =
      if other = handle then b' else lookupBuilder vm other := by
  obtain ⟨hslot, hwritable⟩ := lookupBuilder_slot h
  have hput := putNodeBuilder_lookup hwritable b' other
  rw [hslot] at hput
  exact hput

theorem nodeBuilderAppendChildRecord_ok {child : Nat} {u : Unit}
    (h : (nodeBuilderAppendChildRecord env handle child).run vm = .ok u vm') :
    (lookupBuilder vm handle).isSome ∧ ∃ b, ∀ other, lookupBuilder vm' other =
      if other = handle then some b else lookupBuilder vm other := by
  have hseen : lookupBuilder vm.seen handle = lookupBuilder vm handle := rfl
  simp only [nodeBuilderAppendChildRecord, Routine.bind_run, bind_ok, Routine.look, VmM.look, Outcome.ok.injEq] at h
  obtain ⟨_, _, ⟨rfl, rfl⟩, h⟩ := h
  rw [hseen] at h
  cases hlookup : lookupBuilder vm handle with
  | none =>
      rw [hlookup] at h
      cases h
  | some b =>
      rw [hlookup] at h
      cases hchild : vm.seen.lookupNode child with
      | none =>
          rw [hchild] at h
          cases h
      | some n =>
          simp only [hchild] at h
          have hput : (@Routine.putNodeBuilder env (handle - 1)
              (some { b with children := b.children ++ [child] })).run vm = .ok u vm' := by
            split at h
            · simp only [Routine.bind_run, bind_ok] at h
              obtain ⟨_, _, halloc, h⟩ := h
              cases allocate_ok halloc
              exact h
            · exact h
          cases hput
          exact ⟨rfl, _, putNodeBuilder_ok hlookup _⟩

theorem wrongBuilderAttr_not_ok {u : Unit} : (wrongBuilderAttr env).run vm ≠ .ok u vm' := nofun

theorem nodeBuilderAppendAttrRecord_ok {attr : Nat} {u : Unit}
    (h : (nodeBuilderAppendAttrRecord env handle attr).run vm = .ok u vm') :
    (lookupBuilder vm handle).isSome ∧ ∃ b, ∀ other, lookupBuilder vm' other =
      if other = handle then some b else lookupBuilder vm other := by
  have hseen : lookupBuilder vm.seen handle = lookupBuilder vm handle := rfl
  simp only [nodeBuilderAppendAttrRecord, Routine.bind_run, bind_ok, Routine.look, VmM.look, Outcome.ok.injEq] at h
  obtain ⟨_, _, ⟨rfl, rfl⟩, h⟩ := h
  rw [hseen] at h
  cases hlookup : lookupBuilder vm handle with
  | none =>
      rw [hlookup] at h
      cases h
  | some b =>
      rw [hlookup] at h
      cases hattr : vm.seen.lookupNode attr with
      | none =>
          rw [hattr] at h
          cases h
      | some n =>
          simp only [hattr] at h
          split at h
          · simp only [Routine.bind_run, bind_ok, wrongBuilderAttr_not_ok, false_and, exists_false] at h
          · cases hentry : vm.seen.nodeAttrs[n.attrStart]? with
            | none =>
                rw [hentry] at h
                cases h
            | some a =>
                simp only [hentry, Routine.bind_run, bind_ok, Routine.deref, deref_ok] at h
                obtain ⟨_, _, hkey, _, _, ⟨-, rfl⟩, _, _, halloc, h⟩ := h
                cases readText_same hkey
                cases allocate_ok halloc
                cases h
                exact ⟨rfl, _, putNodeBuilder_ok hlookup _⟩

theorem nodeBuilderFinishRecord_ok {node : Nat} (h : (nodeBuilderFinishRecord env handle).run vm = .ok node vm') :
    (lookupBuilder vm handle).isSome ∧ lookupBuilder vm' handle = none ∧
      ∀ other, other ≠ handle → (lookupBuilder vm' other).isSome = (lookupBuilder vm other).isSome := by
  have hseen : lookupBuilder vm.seen handle = lookupBuilder vm handle := rfl
  simp only [nodeBuilderFinishRecord, Routine.bind_run, bind_ok, Routine.look, VmM.look, Outcome.ok.injEq] at h
  obtain ⟨_, _, ⟨rfl, rfl⟩, h⟩ := h
  rw [hseen] at h
  cases hlookup : lookupBuilder vm handle with
  | none =>
      rw [hlookup] at h
      cases h
  | some b =>
      simp only [hlookup, Routine.bind_run, bind_ok] at h
      obtain ⟨k, vm₁, hcreate, _, _, hput, h⟩ := h
      have hcreated : createNodeRecord env (.lit b.kind) (.lit b.id) b.attrs (.builder (handle - 1)) vm = .ok k vm₁ :=
        hcreate
      have hsame : vm.SameBuilders vm₁ := createNodeRecord_sameBuilders hcreated
      cases hput
      cases h
      have hactive : (lookupBuilder vm₁ handle).isSome := by
        rw [hsame handle, hlookup]
        rfl
      obtain ⟨b', hb'⟩ := Option.isSome_iff_exists.1 hactive
      have hput := putNodeBuilder_ok hb' none
      refine ⟨rfl, ?_, fun other hother => ?_⟩
      · exact (hput handle).trans (if_pos rfl)
      · exact (congrArg Option.isSome ((hput other).trans (if_neg hother))).trans (hsame other)

/-! ## Histories -/

@[simp] theorem madeHandles_append (history : List BuilderEvent) (e : BuilderEvent) :
    madeHandles (history ++ [e]) = madeHandles history ++ e.madeHandle.toList := by
  simp only [madeHandles, List.filterMap_append]
  cases h : e.madeHandle with
  | none => simp [h]
  | some handle => simp [h]

theorem madeFirst_append {e : BuilderEvent} :
    MadeFirst (history ++ [e]) ↔
      MadeFirst history ∧ ∀ first ∈ history, first.isFinished = true → e.isMade = false := by
  simp [MadeFirst, List.pairwise_append]

/-- Before a builder is made, none has been finished. -/
theorem MadeFirst.not_finished (h : MadeFirst (history ++ [.made handle])) (other : Nat) :
    .finished other ∉ history := by
  intro hmem
  have hmade := (madeFirst_append.1 h).2 _ hmem rfl
  cases hmade

theorem madeFirst_made (h : MadeFirst history) (hnot : ∀ other, .finished other ∉ history) :
    MadeFirst (history ++ [.made handle]) := by
  apply madeFirst_append.2
  refine ⟨h, fun first hmem hfinished => ?_⟩
  cases first with
  | finished other => exact absurd hmem (hnot other)
  | made other => cases hfinished
  | appended other => cases hfinished

/-- The builders that are active are those that have been made and not finished, and those that have been made take the
slots from the first on. -/
structure Tracked (history : List BuilderEvent) (vm : Vm) : Prop where
  active : ∀ handle, (lookupBuilder vm handle).isSome ↔ handle ∈ madeHandles history ∧ .finished handle ∉ history
  finished : ∀ handle, .finished handle ∈ history → handle ∈ madeHandles history
  positive : ∀ handle ∈ madeHandles history, 0 < handle
  packed : ∀ handle ∈ madeHandles history, ∀ below, 0 < below → below ≤ handle → below ∈ madeHandles history
  distinct : (madeHandles history).Nodup

namespace Tracked

theorem start (h : ∀ handle, lookupBuilder vm handle = none) : Tracked [] vm where
  active handle := by simp [h, madeHandles]
  finished handle hmem := by cases hmem
  positive handle hmem := by cases hmem
  packed handle hmem := by cases hmem
  distinct := List.nodup_nil

/-- The first free slot is not beyond that of a builder that is not active. -/
theorem new_le {kind id : StrPtr} {other : Nat} (hnew : (nodeBuilderNewRecord env kind id).run vm = .ok handle vm')
    (hzero : 0 < other) (hother : lookupBuilder vm other = none) : handle ≤ other := by
  obtain ⟨rfl, -⟩ := nodeBuilderNewRecord_ok hnew
  rw [lookupBuilder, if_neg (by omega)] at hother
  have hfirst := freeSlot_first hother
  omega

/-- As long as none has been finished, a new builder has a new handle. -/
theorem made {kind id : StrPtr} (t : Tracked history vm) (hnot : ∀ other, .finished other ∉ history)
    (hnew : (nodeBuilderNewRecord env kind id).run vm = .ok handle vm') : Tracked (history ++ [.made handle]) vm' := by
  obtain ⟨hslot, b, hlookup⟩ := nodeBuilderNewRecord_ok hnew
  have hmade : madeHandles (history ++ [.made handle]) = madeHandles history ++ [handle] := by
    simp [BuilderEvent.madeHandle]
  have hactive : ∀ other, (lookupBuilder vm other).isSome ↔ other ∈ madeHandles history := by
    intro other
    simp [t.active other, hnot other]
  have hfree : lookupBuilder vm handle = none := by
    rw [hslot, lookupBuilder, if_neg (by omega)]
    exact freeSlot_free vm.nodeBuilders
  have hfresh : handle ∉ madeHandles history := by
    intro hmem
    have hsome := (hactive handle).2 hmem
    rw [hfree] at hsome
    cases hsome
  constructor
  · intro other
    rw [hmade, hlookup other]
    by_cases hother : other = handle
    · simp [hother, hnot handle]
    · simp [hother, hactive other, hnot other]
  · intro other hmem
    simp [hnot other] at hmem
  · intro other hmem
    rw [hmade, List.mem_append, List.mem_singleton] at hmem
    rcases hmem with hmem | rfl
    · exact t.positive other hmem
    · omega
  · intro other hmem below hzero hbelow
    rw [hmade, List.mem_append, List.mem_singleton] at hmem ⊢
    rcases hmem with hmem | rfl
    · exact .inl (t.packed other hmem below hzero hbelow)
    · by_cases heq : below = other
      · exact .inr heq
      · left
        apply (hactive below).1
        by_contra hnone
        have hle := new_le hnew hzero (Option.not_isSome_iff_eq_none.1 hnone)
        omega
  · rw [hmade]
    exact List.nodup_append.2 ⟨t.distinct, by simp, by
      intro a ha b hb heq
      rw [List.mem_singleton] at hb
      exact hfresh (hb ▸ heq ▸ ha)⟩

/-- An operation that changes an active builder makes none active or inactive. -/
theorem appended (t : Tracked history vm) (hbuilder : (lookupBuilder vm handle).isSome)
    (hlookup : ∃ b, ∀ other, lookupBuilder vm' other = if other = handle then some b else lookupBuilder vm other) :
    Tracked (history ++ [.appended handle]) vm' := by
  obtain ⟨b, hlookup⟩ := hlookup
  have hmade : madeHandles (history ++ [.appended handle]) = madeHandles history := by
    simp [BuilderEvent.madeHandle]
  have hsame : ∀ other, (lookupBuilder vm' other).isSome = (lookupBuilder vm other).isSome := by
    intro other
    rw [hlookup other]
    by_cases hother : other = handle
    · rw [if_pos hother, hother, hbuilder]
      rfl
    · rw [if_neg hother]
  constructor
  · intro other
    simp [hsame other, t.active other, hmade]
  · intro other hmem
    rw [hmade]
    exact t.finished other (by simpa using hmem)
  · rw [hmade]
    exact t.positive
  · rw [hmade]
    exact t.packed
  · rw [hmade]
    exact t.distinct

theorem ended {node : Nat} (t : Tracked history vm)
    (hfinish : (nodeBuilderFinishRecord env handle).run vm = .ok node vm') :
    Tracked (history ++ [.finished handle]) vm' := by
  obtain ⟨hbuilder, hnone, hothers⟩ := nodeBuilderFinishRecord_ok hfinish
  have hmade : madeHandles (history ++ [.finished handle]) = madeHandles history := by
    simp [BuilderEvent.madeHandle]
  constructor
  · intro other
    rw [hmade]
    by_cases hother : other = handle
    · simp [hother, hnone]
    · simp [hothers other hother, t.active other, hother]
  · intro other hmem
    rw [hmade]
    simp only [List.mem_append, List.mem_singleton, BuilderEvent.finished.injEq] at hmem
    rcases hmem with hmem | rfl
    · exact t.finished other hmem
    · exact ((t.active other).1 hbuilder).1
  · rw [hmade]
    exact t.positive
  · rw [hmade]
    exact t.packed
  · rw [hmade]
    exact t.distinct

theorem elsewhere (t : Tracked history vm) (h : vm.SameBuilders vm') : Tracked history vm' where
  active handle := by rw [h handle, t.active handle]
  finished := t.finished
  positive := t.positive
  packed := t.packed
  distinct := t.distinct

end Tracked

/-- What is known of the builders in every run that makes them before it finishes one. -/
theorem BuilderRun.tracked (r : BuilderRun env history vm) (h : MadeFirst history) : Tracked history vm := by
  induction r with
  | start hnone => exact .start hnone
  | made r hnew ih => exact (ih (madeFirst_append.1 h).1).made h.not_finished hnew
  | appendedChild r happend ih =>
      obtain ⟨hbuilder, hlookup⟩ := nodeBuilderAppendChildRecord_ok happend
      exact (ih (madeFirst_append.1 h).1).appended hbuilder hlookup
  | appendedAttr r happend ih =>
      obtain ⟨hbuilder, hlookup⟩ := nodeBuilderAppendAttrRecord_ok happend
      exact (ih (madeFirst_append.1 h).1).appended hbuilder hlookup
  | finished r hfinish ih => exact (ih (madeFirst_append.1 h).1).ended hfinish
  | elsewhere r hsame ih => exact (ih h).elsewhere hsame

/-- A builder that is made after one has been finished takes a handle that another one has had. -/
theorem BuilderRun.madeFirst (r : BuilderRun env history vm) (h : (madeHandles history).Nodup) : MadeFirst history := by
  induction r with
  | start => exact List.Pairwise.nil
  | @made history vm vm' kind id handle r hnew ih =>
      rw [madeHandles_append] at h
      have hfirst := ih (List.Nodup.of_append_left h)
      have t := r.tracked hfirst
      apply madeFirst_made hfirst
      intro other hmem
      have hmade := t.finished other hmem
      have hnone : lookupBuilder vm other = none := by
        apply Option.not_isSome_iff_eq_none.1
        intro hsome
        exact ((t.active other).1 hsome).2 hmem
      have hle : handle ≤ other := Tracked.new_le hnew (t.positive other hmade) hnone
      have hpositive : 0 < handle := by
        obtain ⟨rfl, -⟩ := nodeBuilderNewRecord_ok hnew
        omega
      have hused := t.packed other hmade handle hpositive hle
      exact (List.nodup_append.1 h).2.2 handle hused handle (by simp [BuilderEvent.madeHandle]) rfl
  | appendedChild r happend ih =>
      apply madeFirst_append.2
      exact ⟨ih (by simpa [BuilderEvent.madeHandle] using h), fun _ _ _ => rfl⟩
  | appendedAttr r happend ih =>
      apply madeFirst_append.2
      exact ⟨ih (by simpa [BuilderEvent.madeHandle] using h), fun _ _ _ => rfl⟩
  | finished r hfinish ih =>
      apply madeFirst_append.2
      exact ⟨ih (by simpa [BuilderEvent.madeHandle] using h), fun _ _ _ => rfl⟩
  | elsewhere r hsame ih => exact ih h

/-! ## Single use -/

theorem deadBuilder_of_none (h : lookupBuilder vm handle = none) : DeadBuilder env handle vm := by
  have hseen : lookupBuilder vm.seen handle = none := h
  constructor
  · intro child
    simp only [nodeBuilderAppendChildRecord, Routine.bind_run, Routine.look, VmM.look, bind_run, hseen]
    exact ⟨_, rfl, rfl⟩
  · intro attr
    simp only [nodeBuilderAppendAttrRecord, Routine.bind_run, Routine.look, VmM.look, bind_run, hseen]
    exact ⟨_, rfl, rfl⟩
  · simp only [nodeBuilderFinishRecord, Routine.bind_run, Routine.look, VmM.look, bind_run, hseen]
    exact ⟨_, rfl, rfl⟩

theorem ownBuilder (env : Env) (handle : Nat) (vm : Vm) : OwnBuilder env handle vm where
  appendChild child u vm' h other hother := by
    obtain ⟨-, b, hlookup⟩ := nodeBuilderAppendChildRecord_ok h
    rw [hlookup other, if_neg hother]
  appendAttr attr u vm' h other hother := by
    obtain ⟨-, b, hlookup⟩ := nodeBuilderAppendAttrRecord_ok h
    rw [hlookup other, if_neg hother]
  finish node vm' h := (nodeBuilderFinishRecord_ok h).2.2

theorem freshVm_builders (handle : Nat) : lookupBuilder (freshVm .production ⟨[], [], []⟩) handle = none := by
  simp [lookupBuilder, freshVm, resetFields, setRuntimeProfile, zeroedVm]

/-- Two builders, one of which is finished. -/
def makeTwo : Routine .generous Nat := do
  let first ← nodeBuilderNewRecord .generous (.lit (ascii "Par")) (.lit (ascii "p"))
  let _ ← nodeBuilderNewRecord .generous (.lit (ascii "Par")) (.lit (ascii "q"))
  nodeBuilderFinishRecord .generous first

/-- A child for a builder that has been finished, after another builder has been made. -/
def appendToFinished : Routine .generous Unit := do
  let old ← nodeBuilderNewRecord .generous (.lit (ascii "Par")) (.lit (ascii "p"))
  let node ← nodeBuilderFinishRecord .generous old
  let _ ← nodeBuilderNewRecord .generous (.lit (ascii "Par")) (.lit (ascii "q"))
  nodeBuilderAppendChildRecord .generous old node

end Aivm
