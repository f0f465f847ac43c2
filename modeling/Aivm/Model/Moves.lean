import Aivm.Model.Extends

/-!
# Moves

An operation of the store, whether it appends, collects or both, relates every value before to a value after it:
the relation leads from cells to like cells, and every root is rewritten along it. Moves compose.
-/

namespace Aivm

open Unfold

variable {R S : Value → Value → Prop} {vm vm' vm'' : Vm}

/-- Fields that no operation of the store touches. -/
def Vm.SameFrame (vm vm' : Vm) : Prop :=
  vm' = { vm with
    toHeap := vm'.toHeap
    toLimits := vm'.toLimits
    stack := vm'.stack
    locals := vm'.locals
    completedTasks := vm'.completedTasks
    parValues := vm'.parValues
    nodeBuilders := vm'.nodeBuilders
    processArgvNodeHandle := vm'.processArgvNodeHandle
    uiDefaultWindowSizeNodeHandle := vm'.uiDefaultWindowSizeNodeHandle
    uiEmptyEventNodeHandle := vm'.uiEmptyEventNodeHandle
    stringIntern := vm'.stringIntern
    nodeAllocationsSinceGc := vm'.nodeAllocationsSinceGc
    counters := vm'.counters }

theorem Vm.SameFrame.refl (vm : Vm) : vm.SameFrame vm := by
  cases vm
  rfl

theorem Vm.SameFrame.trans (h : vm.SameFrame vm') (h' : vm'.SameFrame vm'') : vm.SameFrame vm'' := by
  unfold Vm.SameFrame at *
  rw [h', h]

/-- A task whose result has been rewritten. -/
def TaskMoved {W : Type} (R : Value → Value → Prop) (t t' : CompletedTask W) : Prop :=
  t' = { t with result := t'.result } ∧ R t.result t'.result

/-- A builder whose child handles have been rewritten. -/
inductive BuilderMoved (R : Value → Value → Prop) : Option NodeBuilderRecord → Option NodeBuilderRecord → Prop where
  | none : BuilderMoved R none none
  | some {b : NodeBuilderRecord} {children} : List.Forall₂ (fun c c' => R (.node c) (.node c')) b.children children →
      BuilderMoved R (some b) (some { b with children := children })

/-- A handle kept by the VM itself. -/
def HandleMoved (R : Value → Value → Prop) (h h' : Nat) : Prop := 0 < h → 0 < h' ∧ R (.node h) (.node h')

/-- A handle in the range of its store. -/
def Heap.InRange (h : Heap) : Value → Prop
  | .node k => 0 < k ∧ k ≤ h.nodes.length
  | .pair k => 0 < k ∧ k ≤ h.scratchPairs.length
  | _ => True

/-- Values of one kind, which may differ in their handle or pointer only. -/
def Value.Like : Value → Value → Prop
  | .node _, .node _ => True
  | .pair _, .pair _ => True
  | .string p, .string q => p = .null ↔ q = .null
  | .bytes d n, .bytes e m => n = m ∧ (d = .null ↔ e = .null)
  | v, w => v = w

/-- A value that programs compare by its handle, which a collection may change. -/
def Value.IsHandle : Value → Prop
  | .node _ => True
  | .pair _ => True
  | _ => False

structure Moves (R : Value → Value → Prop) (vm vm' : Vm) : Prop where
  frame : vm.SameFrame vm'
  simulates : Simulates vm.expand vm'.expand R
  like : ∀ {v w}, R v w → v.Like w
  oneToOne : ∀ {v v' w w'}, R v w → R v' w' → v.IsHandle → v'.IsHandle → (v = v' ↔ w = w')
  inRange : ∀ {v w}, R v w → vm.InRange v → vm'.InRange w
  stack : List.Forall₂ R vm.stack vm'.stack
  locals : List.Forall₂ R vm.locals vm'.locals
  tasks : List.Forall₂ (TaskMoved R) vm.completedTasks vm'.completedTasks
  pars : List.Forall₂ R vm.parValues vm'.parValues
  builders : List.Forall₂ (BuilderMoved R) vm.nodeBuilders vm'.nodeBuilders
  processArgv : HandleMoved R vm.processArgvNodeHandle vm'.processArgvNodeHandle
  uiDefaultWindowSize : HandleMoved R vm.uiDefaultWindowSizeNodeHandle vm'.uiDefaultWindowSizeNodeHandle
  uiEmptyEvent : HandleMoved R vm.uiEmptyEventNodeHandle vm'.uiEmptyEventNodeHandle

theorem Heap.InRange.mono {h h' : Heap} {v} (hv : h.InRange v) (hn : h.nodes.length ≤ h'.nodes.length)
    (hp : h.scratchPairs.length ≤ h'.scratchPairs.length) : h'.InRange v := by
  cases v with
  | node k => exact ⟨hv.1, Nat.le_trans hv.2 hn⟩
  | pair k => exact ⟨hv.1, Nat.le_trans hv.2 hp⟩
  | _ => trivial

theorem Value.Like.refl (v : Value) : v.Like v := by
  cases v <;> simp [Value.Like]

theorem Value.Like.isHandle {v w : Value} (h : v.Like w) (hv : v.IsHandle) : w.IsHandle := by
  cases v <;> cases w <;> simp_all [Value.Like, Value.IsHandle]

theorem Value.Like.trans {u v w : Value} (h : u.Like v) (h' : v.Like w) : u.Like w := by
  cases u <;> cases v <;> simp only [Value.Like, reduceCtorEq] at h <;> cases w <;>
    simp_all [Value.Like]

theorem BuilderMoved.comp {a b c} (h : BuilderMoved R a b) (h' : BuilderMoved S b c) :
    BuilderMoved (Relation.Comp R S) a c := by
  cases h with
  | none =>
      cases h'
      exact .none
  | some hr =>
      cases h' with
      | some hs => exact .some (forall₂_comp (fun hr hs => ⟨_, hr, hs⟩) hr hs)

theorem HandleMoved.comp {a b c} (h : HandleMoved R a b) (h' : HandleMoved S b c) :
    HandleMoved (Relation.Comp R S) a c := fun ha =>
  have hb := h ha
  have hc := h' hb.1
  ⟨hc.1, _, hb.2, hc.2⟩

namespace Moves

theorem trans (h : Moves R vm vm') (h' : Moves S vm' vm'') : Moves (Relation.Comp R S) vm vm'' where
  frame := h.frame.trans h'.frame
  simulates := h.simulates.comp h'.simulates
  like := by
    rintro v w ⟨u, hr, hs⟩
    exact (h.like hr).trans (h'.like hs)
  oneToOne := by
    rintro v v' w w' ⟨u, hr, hs⟩ ⟨u', hr', hs'⟩ hv hv'
    exact (h.oneToOne hr hr' hv hv').trans (h'.oneToOne hs hs' ((h.like hr).isHandle hv) ((h.like hr').isHandle hv'))
  inRange := by
    rintro v w ⟨u, hr, hs⟩ hv
    exact h'.inRange hs (h.inRange hr hv)
  stack := forall₂_comp (fun hr hs => ⟨_, hr, hs⟩) h.stack h'.stack
  locals := forall₂_comp (fun hr hs => ⟨_, hr, hs⟩) h.locals h'.locals
  tasks := by
    refine forall₂_comp (fun {a b c} hr hs => ?_) h.tasks h'.tasks
    refine ⟨?_, _, hr.2, hs.2⟩
    rw [hs.1, hr.1]
  pars := forall₂_comp (fun hr hs => ⟨_, hr, hs⟩) h.pars h'.pars
  builders := forall₂_comp (fun hr hs => hr.comp hs) h.builders h'.builders
  processArgv := h.processArgv.comp h'.processArgv
  uiDefaultWindowSize := h.uiDefaultWindowSize.comp h'.uiDefaultWindowSize
  uiEmptyEvent := h.uiEmptyEvent.comp h'.uiEmptyEvent

theorem denotes (h : Moves R vm vm') {v w t} (hvw : R v w) (ht : vm.Denotes v t) : vm'.Denotes w t :=
  h.simulates.denotes hvw ht

/-- A store that only grows relates every value to itself. -/
theorem of_extends (hf : vm.SameFrame vm') (s : vm.SameRoots vm') (e : vm.Extends vm'.toHeap) : Moves Eq vm vm' where
  frame := hf
  simulates := by
    rintro v _ rfl l vs hv
    exact ⟨vs, e.expand hv, List.forall₂_refl vs⟩
  like := by
    rintro v _ rfl
    exact .refl v
  oneToOne := by
    rintro v v' _ _ rfl rfl _ _
    rfl
  inRange := by
    rintro v _ rfl hv
    exact hv.mono e.nodes.length_le e.pairs.length_le
  stack := by
    rw [s.stack]
    exact List.forall₂_refl _
  locals := by
    rw [s.locals]
    exact List.forall₂_refl _
  tasks := by
    rw [s.tasks]
    exact List.forall₂_same.2 fun t _ => ⟨rfl, rfl⟩
  pars := by
    rw [s.pars]
    exact List.forall₂_refl _
  builders := by
    rw [s.builders]
    refine List.forall₂_same.2 fun b _ => ?_
    cases b with
    | none => exact .none
    | some b => exact .some (List.forall₂_refl _)
  processArgv := fun h => ⟨by rw [s.processArgv]; exact h, by rw [s.processArgv]⟩
  uiDefaultWindowSize := fun h => ⟨by rw [s.uiDefaultWindowSize]; exact h, by rw [s.uiDefaultWindowSize]⟩
  uiEmptyEvent := fun h => ⟨by rw [s.uiEmptyEvent]; exact h, by rw [s.uiEmptyEvent]⟩

theorem refl (vm : Vm) : Moves Eq vm vm := of_extends (.refl vm) (.refl vm) (.refl vm.toHeap)

theorem rootValues (h : Moves R vm vm') : List.Forall₂ R vm.rootValues vm'.rootValues := by
  refine List.rel_append (List.rel_append (List.rel_append h.stack h.locals) ?_) h.pars
  rw [List.forall₂_map_left_iff, List.forall₂_map_right_iff]
  exact h.tasks.imp fun _ _ ht => ht.2

/-- If pair handles stay, a reachable pair is related to itself. -/
theorem pairReachable (h : Moves R vm vm') (hpair : ∀ {k w}, R (.pair k) w → w = .pair k) {k}
    (hk : vm.PairReachable k) : vm'.PairReachable k ∧ R (.pair k) (.pair k) := by
  induction hk with
  | root hm =>
      obtain ⟨i, hi⟩ := List.mem_iff_getElem?.1 hm
      obtain ⟨w, hw, hr⟩ := forall₂_getElem? h.rootValues hi
      obtain rfl := hpair hr
      exact ⟨.root (List.mem_of_getElem? hw), hr⟩
  | @first k p j _ hp hj ih =>
      obtain ⟨ws, hw, hrel⟩ := h.simulates _ _ ih.2 _ _ ((Heap.expand_pair _).2 ⟨p, hp, rfl, rfl⟩)
      obtain ⟨p', hp', _, rfl⟩ := (Heap.expand_pair _).1 hw
      cases hrel with
      | cons hr _ =>
          rw [hj] at hr
          have he := hpair hr
          exact ⟨ih.1.first hp' he, he ▸ hr⟩
  | @second k p j _ hp hj ih =>
      obtain ⟨ws, hw, hrel⟩ := h.simulates _ _ ih.2 _ _ ((Heap.expand_pair _).2 ⟨p, hp, rfl, rfl⟩)
      obtain ⟨p', hp', _, rfl⟩ := (Heap.expand_pair _).1 hw
      cases hrel with
      | cons _ hrest =>
          cases hrest with
          | cons hr _ =>
              rw [hj] at hr
              have he := hpair hr
              exact ⟨ih.1.second hp' he, he ▸ hr⟩

/-- Every root is rewritten along the relation. -/
theorem holds (h : Moves R vm vm') (hpair : ∀ {k w}, R (.pair k) w → w = .pair k) {r v} (hv : vm.Holds r v) :
    ∃ w, vm'.Holds r w ∧ R v w := by
  have hcell : ∀ {k p}, vm.PairReachable k → vm.lookupScratchPair k = some p →
      ∃ p', vm'.lookupScratchPair k = some p' ∧ R p.first p'.first ∧ R p.second p'.second := by
    intro k p hk hp
    obtain ⟨ws, hw, hrel⟩ :=
      h.simulates _ _ (h.pairReachable hpair hk).2 _ _ ((Heap.expand_pair _).2 ⟨p, hp, rfl, rfl⟩)
    obtain ⟨p', hp', _, rfl⟩ := (Heap.expand_pair _).1 hw
    cases hrel with
    | cons h₁ hrest =>
        cases hrest with
        | cons h₂ _ => exact ⟨p', hp', h₁, h₂⟩
  cases r with
  | processArgv =>
      obtain ⟨h0, rfl⟩ := hv
      obtain ⟨h0', hr⟩ := h.processArgv h0
      exact ⟨_, ⟨h0', rfl⟩, hr⟩
  | uiDefaultWindowSize =>
      obtain ⟨h0, rfl⟩ := hv
      obtain ⟨h0', hr⟩ := h.uiDefaultWindowSize h0
      exact ⟨_, ⟨h0', rfl⟩, hr⟩
  | uiEmptyEvent =>
      obtain ⟨h0, rfl⟩ := hv
      obtain ⟨h0', hr⟩ := h.uiEmptyEvent h0
      exact ⟨_, ⟨h0', rfl⟩, hr⟩
  | stack i => exact forall₂_getElem? h.stack hv
  | «local» i => exact forall₂_getElem? h.locals hv
  | task i =>
      obtain ⟨t, ht, rfl⟩ := hv
      obtain ⟨t', ht', hr⟩ := forall₂_getElem? h.tasks ht
      exact ⟨t'.result, ⟨t', ht', rfl⟩, hr.2⟩
  | par i => exact forall₂_getElem? h.pars hv
  | pairFirst k =>
      obtain ⟨hk, p, hp, rfl⟩ := hv
      obtain ⟨p', hp', hr, _⟩ := hcell hk hp
      exact ⟨p'.first, ⟨(h.pairReachable hpair hk).1, p', hp', rfl⟩, hr⟩
  | pairSecond k =>
      obtain ⟨hk, p, hp, rfl⟩ := hv
      obtain ⟨p', hp', _, hr⟩ := hcell hk hp
      exact ⟨p'.second, ⟨(h.pairReachable hpair hk).1, p', hp', rfl⟩, hr⟩
  | builderChild b i =>
      obtain ⟨rec, x, hb, hx, rfl⟩ := hv
      obtain ⟨rec', hb', hm⟩ := forall₂_getElem? h.builders hb
      cases hm with
      | some hc =>
          obtain ⟨y, hy, hr⟩ := forall₂_getElem? hc hx
          exact ⟨.node y, ⟨_, y, hb', hy, rfl⟩, hr⟩

theorem kept (h : Moves R vm vm') (hpair : ∀ {k w}, R (.pair k) w → w = .pair k) : vm.Kept vm' := by
  intro r v hv
  obtain ⟨w, hw, hr⟩ := h.holds hpair hv
  exact ⟨w, hw, fun _ ht => h.denotes hr ht⟩

end Moves

end Aivm
