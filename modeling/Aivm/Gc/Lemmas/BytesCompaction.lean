import Aivm.Gc.BytesCompaction
import Aivm.Gc.Lemmas.NodeCompaction

/-!
# What a compaction of the bytes arena does

Every view that a root value or a live pair holds is copied, and reads the same afterwards.
-/

namespace Aivm

open Unfold

variable {env : Env} {vm vm' : Vm} {h : Heap} {block capacity relocs : Nat} {livePairs : List Nat}

/-! ## Views -/

/-- A view of the old arena and its copy in the new one. -/
structure ViewCopied (h : Heap) (block : Nat) (arena : List Byte) (data : BytesPtr) (length : Nat)
    (newData : BytesPtr) : Prop where
  inside : h.pointerInBytesArena data length = true
  copied : ∃ b offset offset', data = .arena b offset ∧ newData = .arena block offset' ∧
    offset' + length ≤ arena.length ∧ slice arena offset' length = slice h.bytesArena offset length

theorem ViewCopied.grows {arena arena' data n newData} (v : ViewCopied h block arena data n newData)
    (hp : arena <+: arena') : ViewCopied h block arena' data n newData := by
  obtain ⟨rest, rfl⟩ := hp
  obtain ⟨hin, b, o, o', hd, hn, hlen, hs⟩ := v
  refine ⟨hin, b, o, o', hd, hn, by simp; omega, ?_⟩
  rw [← hs]
  simp only [slice]
  rw [List.drop_append_of_le_length (by omega), List.take_append_of_le_length (by simp; omega)]

/-- A view outside the arena reads the same anywhere. -/
theorem bytesAt_outside {h h' : Heap} {d n b} (hout : h.pointerInBytesArena d n = false) (hb : h.bytesAt d n = some b) :
    h'.bytesAt d n = some b := by
  unfold Heap.bytesAt at hb ⊢
  split at hb
  · rename_i hn
    rw [if_pos hn]
    exact hb
  · rename_i hn
    rw [if_neg hn]
    cases d with
    | null => exact hb
    | ext d => exact hb
    | arena block offset =>
        simp only at hb
        split at hb
        · rename_i hin
          have hne : h.bytesArena ≠ [] := by
            intro he
            rw [he] at hin
            simp at hin
            omega
          simp [Heap.pointerInBytesArena, hin, hne] at hout
        · cases hb

theorem ViewCopied.bytesAt {h' : Heap} {d n d' b} (v : ViewCopied h block h'.bytesArena d n d')
    (hblock : h'.bytesBlock = block) (hb : h.bytesAt d n = some b) : h'.bytesAt d' n = some b := by
  obtain ⟨hin, bl, o, o', rfl, rfl, hlen, hs⟩ := v
  unfold Heap.bytesAt at hb ⊢
  split at hb
  · rename_i hn
    rw [if_pos hn]
    exact hb
  · rename_i hn
    rw [if_neg hn]
    simp only at hb ⊢
    split at hb
    · rw [if_pos ⟨hblock.symm, hlen⟩]
      unfold slice at hs
      rw [hs]
      exact hb
    · cases hb

/-! ## The copying -/

/-- Every relocation noted so far is a copy. -/
def BytesCopies.Sound (h : Heap) (block : Nat) (s : BytesCopies) : Prop :=
  ∀ r ∈ s.relocations, ViewCopied h block s.arena r.oldData r.length r.newData

def BytesCopies.Grows (s s' : BytesCopies) : Prop := s.arena <+: s'.arena

/-- A value whose view, if it has one in the arena, has been copied. -/
inductive ViewMoved (h : Heap) (block : Nat) (arena : List Byte) : Value → Value → Prop where
  | view {d n d'} : ViewCopied h block arena d n d' → ViewMoved h block arena (.bytes d n) (.bytes d' n)
  | other {v} : (∀ d n, v = .bytes d n → h.pointerInBytesArena d n = false) → ViewMoved h block arena v v

theorem ViewMoved.grows {arena arena' v w} (hv : ViewMoved h block arena v w) (hp : arena <+: arena') :
    ViewMoved h block arena' v w := by
  cases hv with
  | view hc => exact .view (hc.grows hp)
  | other ho => exact .other ho

theorem compactRelocateValueBytes_ok {v s w s'} (hs : s.Sound h block)
    (hr : compactRelocateValueBytes h block capacity relocs v s = .ok (w, s')) :
    s'.Sound h block ∧ s.Grows s' ∧ ViewMoved h block s'.arena v w := by
  unfold compactRelocateValueBytes at hr
  split at hr
  · rename_i b offset length
    simp only at hr
    split at hr
    · rename_i hin
      split at hr
      · rename_i r hfind
        cases hr
        obtain ⟨hd, hl⟩ : r.oldData = .arena b offset ∧ r.length = length := by
          simpa using List.find?_some hfind
        have hcopy := hs r (List.mem_of_find?_eq_some hfind)
        rw [hd, hl] at hcopy
        exact ⟨hs, List.prefix_rfl, .view hcopy⟩
      · split at hr
        · cases hr
        · cases hr
          have hcopy : ViewCopied h block (s.arena ++ slice h.bytesArena offset length) (.arena b offset) length
              (.arena block s.arena.length) := by
            have hlen : (slice h.bytesArena offset length).length = length := by
              simp only [Heap.pointerInBytesArena, decide_eq_true_eq] at hin
              exact slice_length hin.2.2
            refine ⟨hin, b, offset, s.arena.length, rfl, rfl, by simp [hlen], ?_⟩
            have := slice_append s.arena (slice h.bytesArena offset length) [] rfl hlen.symm
            rwa [List.append_nil] at this
          refine ⟨fun r hr => ?_, List.prefix_append .., .view hcopy⟩
          rcases List.mem_append.1 hr with hr | hr
          · exact (hs r hr).grows (List.prefix_append ..)
          · rw [List.mem_singleton] at hr
            subst hr
            exact hcopy
    · rename_i hin
      cases hr
      refine ⟨hs, List.prefix_rfl, .other fun d n he => ?_⟩
      cases he
      simpa using hin
  · rename_i hnot
    cases hr
    refine ⟨hs, List.prefix_rfl, .other fun d n he => ?_⟩
    subst he
    cases d with
    | arena b o => exact absurd rfl (hnot b o n)
    | _ => rfl

theorem relocateTaskBytes_ok {W : Type} {t t' : CompletedTask W} {s s'} (hs : s.Sound h block)
    (hr : relocateTaskBytes h block capacity relocs t s = .ok (t', s')) :
    s'.Sound h block ∧ s.Grows s' ∧ TaskMoved (ViewMoved h block s'.arena) t t' := by
  simp only [relocateTaskBytes, Results.bind_ok] at hr
  obtain ⟨⟨w, s₁⟩, hw, hr⟩ := hr
  cases hr
  obtain ⟨h₁, h₂, h₃⟩ := compactRelocateValueBytes_ok hs hw
  exact ⟨h₁, h₂, rfl, h₃⟩

/-- The components of a live pair have been copied, other pairs are left alone. -/
def PairViewsMoved (h : Heap) (block : Nat) (livePairs : List Nat) (arena : List Byte) (p : ScratchPair × Nat)
    (p' : ScratchPair) : Prop :=
  p.2 + 1 ∈ livePairs → ViewMoved h block arena p.1.first p'.first ∧ ViewMoved h block arena p.1.second p'.second

theorem relocatePairBytes_ok {p s p' s'} (hs : s.Sound h block)
    (hr : relocatePairBytes h block capacity relocs livePairs p s = .ok (p', s')) :
    s'.Sound h block ∧ s.Grows s' ∧ PairViewsMoved h block livePairs s'.arena p p' := by
  unfold relocatePairBytes at hr
  split at hr
  · simp only [Results.bind_ok] at hr
    obtain ⟨⟨a, s₁⟩, ha, ⟨b, s₂⟩, hb, hr⟩ := hr
    cases hr
    obtain ⟨hs₁, hg₁, m₁⟩ := compactRelocateValueBytes_ok hs ha
    obtain ⟨hs₂, hg₂, m₂⟩ := compactRelocateValueBytes_ok hs₁ hb
    exact ⟨hs₂, hg₁.trans hg₂, fun _ => ⟨m₁.grows hg₂, m₂⟩⟩
  · rename_i hdead
    cases hr
    exact ⟨hs, List.prefix_rfl, fun hlive => absurd hlive hdead⟩

/-- What rewriting the views does to the state. -/
structure BytesMoved (block : Nat) (livePairs : List Nat) (vm vm' : Vm) : Prop where
  frame : vm' = { vm with
    stack := vm'.stack, locals := vm'.locals, completedTasks := vm'.completedTasks, parValues := vm'.parValues
    scratchPairs := vm'.scratchPairs, bytesArena := vm'.bytesArena, bytesBlock := block
    bytesArenaGcThreshold := vm'.bytesArenaGcThreshold }
  stack : List.Forall₂ (ViewMoved vm.toHeap block vm'.bytesArena) vm.stack vm'.stack
  locals : List.Forall₂ (ViewMoved vm.toHeap block vm'.bytesArena) vm.locals vm'.locals
  tasks : List.Forall₂ (TaskMoved (ViewMoved vm.toHeap block vm'.bytesArena)) vm.completedTasks vm'.completedTasks
  pars : List.Forall₂ (ViewMoved vm.toHeap block vm'.bytesArena) vm.parValues vm'.parValues
  pairs : List.Forall₂ (PairViewsMoved vm.toHeap block livePairs vm'.bytesArena) vm.scratchPairs.zipIdx vm'.scratchPairs

/-- A map over a list that copies views, as one step. -/
theorem mapAccum_copies {α β : Type} {f : α → BytesCopies → Except Fault (β × BytesCopies)}
    {R : List Byte → α → β → Prop} (hmono : ∀ {a a' x y}, a <+: a' → R a x y → R a' x y)
    (hf : ∀ a s b s', s.Sound h block → f a s = .ok (b, s') → s'.Sound h block ∧ s.Grows s' ∧ R s'.arena a b)
    {as s bs s'} (hs : s.Sound h block) (hr : mapAccum f as s = .ok (bs, s')) :
    s'.Sound h block ∧ s.Grows s' ∧ List.Forall₂ (R s'.arena) as bs := by
  have hrefl : ∀ s : BytesCopies, s.Grows s := fun _ => List.prefix_rfl
  have htrans : ∀ {s s' s'' : BytesCopies}, s.Grows s' → s'.Grows s'' → s.Grows s'' := fun h h' => h.trans h'
  have hmono' : ∀ {s s' : BytesCopies} {a b}, s.Grows s' → R s.arena a b → R s'.arena a b := fun hle hR => hmono hle hR
  exact MapAccum.forall₂ (R := fun s => R s.arena) hrefl htrans hmono'
    (fun a _ s b s' hs hr => hf a s b s' hs hr) hs hr

theorem relocateBytes_ok (hr : relocateBytes block livePairs vm = .ok vm') : BytesMoved block livePairs vm vm' := by
  simp only [relocateBytes, Results.bind_ok] at hr
  obtain ⟨⟨stack, s₁⟩, h₁, ⟨locals, s₂⟩, h₂, ⟨tasks, s₃⟩, h₃, ⟨pars, s₄⟩, h₄, ⟨pairs, s₅⟩, h₅, hr⟩ := hr
  cases hr
  have hstart : BytesCopies.Sound vm.toHeap block ⟨[], []⟩ := fun _ h => by cases h
  have hvalue : ∀ v s w s', s.Sound vm.toHeap block →
      compactRelocateValueBytes vm.toHeap block vm.bytesArenaCapacity (relocationCapacity vm) v s = .ok (w, s') →
      s'.Sound vm.toHeap block ∧ s.Grows s' ∧ ViewMoved vm.toHeap block s'.arena v w :=
    fun v s w s' => compactRelocateValueBytes_ok
  obtain ⟨i₁, g₁, r₁⟩ := mapAccum_copies (R := ViewMoved vm.toHeap block) (fun hp hv => hv.grows hp) hvalue hstart h₁
  obtain ⟨i₂, g₂, r₂⟩ := mapAccum_copies (R := ViewMoved vm.toHeap block) (fun hp hv => hv.grows hp) hvalue i₁ h₂
  obtain ⟨i₃, g₃, r₃⟩ := mapAccum_copies (R := fun a => TaskMoved (ViewMoved vm.toHeap block a))
    (fun hp hv => ⟨hv.1, hv.2.grows hp⟩) (fun t s t' s' => relocateTaskBytes_ok) i₂ h₃
  obtain ⟨i₄, g₄, r₄⟩ := mapAccum_copies (R := ViewMoved vm.toHeap block) (fun hp hv => hv.grows hp) hvalue i₃ h₄
  obtain ⟨i₅, g₅, r₅⟩ := mapAccum_copies (R := PairViewsMoved vm.toHeap block livePairs)
    (fun hp hv hl => ⟨(hv hl).1.grows hp, (hv hl).2.grows hp⟩) (fun p s p' s' => relocatePairBytes_ok) i₄ h₅
  have e₄ := g₅
  have e₃ := g₄.trans e₄
  have e₂ := g₃.trans e₃
  have e₁ := g₂.trans e₂
  exact ⟨rfl, r₁.imp fun _ _ h => h.grows e₁, r₂.imp fun _ _ h => h.grows e₂,
    r₃.imp fun _ _ h => ⟨h.1, h.2.grows e₃⟩, r₄.imp fun _ _ h => h.grows e₄, r₅⟩

/-! ## The whole compaction -/

structure BytesCompacted (env : Env) (vm vm' : Vm) (livePairs : List Nat) : Prop where
  markedPairs : markLiveScratchPairHandles env vm = .ok livePairs
  moved : BytesMoved (freshBytesBlock env vm) livePairs vm vm'

/-- The relation between a live value before and after. -/
inductive Rebyted (vm : Vm) (block : Nat) (arena : List Byte) (livePairs : List Nat) : Value → Value → Prop where
  | pair {k} : k ∈ livePairs ∨ vm.lookupScratchPair k = none → Rebyted vm block arena livePairs (.pair k) (.pair k)
  | other {v w} : (∀ k, v ≠ .pair k) → ViewMoved vm.toHeap block arena v w → Rebyted vm block arena livePairs v w

theorem Rebyted.node {arena} (h : Nat) : Rebyted vm block arena livePairs (.node h) (.node h) :=
  .other (by simp) (.other (by simp))

theorem ViewMoved.like {arena v w} (hm : ViewMoved h block arena v w) : v.Like w := by
  cases hm with
  | view hc =>
      obtain ⟨_, _, _, _, rfl, rfl, _⟩ := hc
      simp [Value.Like]
  | other _ => exact .refl v

/-- Handles stay what they are. -/
theorem Rebyted.handle_eq {arena v w} (hm : Rebyted vm block arena livePairs v w) (hv : v.IsHandle) : w = v := by
  cases hm with
  | pair _ => rfl
  | other _ hm =>
      cases hm with
      | view _ => cases hv
      | other _ => rfl

namespace BytesCompacted

theorem heap (c : BytesCompacted env vm vm' livePairs) : vm'.toHeap = { vm.toHeap with
    bytesArena := vm'.bytesArena, bytesBlock := freshBytesBlock env vm, scratchPairs := vm'.scratchPairs } :=
  congrArg Vm.toHeap c.moved.frame

theorem rebyted (c : BytesCompacted env vm vm' livePairs) {v w}
    (hm : ViewMoved vm.toHeap (freshBytesBlock env vm) vm'.bytesArena v w) (hp : ∀ k, v = .pair k → vm.PairReachable k) :
    Rebyted vm (freshBytesBlock env vm) vm'.bytesArena livePairs v w := by
  cases v with
  | pair k =>
      cases hm
      refine .pair ?_
      cases hl : vm.lookupScratchPair k with
      | none => exact .inr rfl
      | some p => exact .inl ((mem_livePairs c.markedPairs).2 ⟨hp k rfl, p, hl⟩)
  | _ => exact .other (by simp) hm

theorem rebyted_root (c : BytesCompacted env vm vm' livePairs) {v w} (hv : v ∈ vm.rootValues)
    (hm : ViewMoved vm.toHeap (freshBytesBlock env vm) vm'.bytesArena v w) :
    Rebyted vm (freshBytesBlock env vm) vm'.bytesArena livePairs v w :=
  c.rebyted hm fun _ hk => .root (hk ▸ hv)

theorem lookupScratchPair (c : BytesCompacted env vm vm' livePairs) {k p} (hk : k ∈ livePairs)
    (hp : vm.lookupScratchPair k = some p) :
    ∃ p', vm'.lookupScratchPair k = some p' ∧
      Rebyted vm (freshBytesBlock env vm) vm'.bytesArena livePairs p.first p'.first ∧
      Rebyted vm (freshBytesBlock env vm) vm'.bytesArena livePairs p.second p'.second := by
  obtain ⟨h0, hget⟩ := (Heap.lookupScratchPair_eq_some _).1 hp
  have hz : vm.scratchPairs.zipIdx[k - 1]? = some (p, k - 1) := by simp [hget]
  obtain ⟨p', hp', hm⟩ := forall₂_getElem? c.moved.pairs hz
  have hr := ((mem_livePairs c.markedPairs).1 hk).1
  obtain ⟨m₁, m₂⟩ := hm (by rwa [Nat.sub_add_cancel h0])
  exact ⟨p', (Heap.lookupScratchPair_eq_some _).2 ⟨h0, hp'⟩, c.rebyted m₁ fun j hj => hr.first hp hj,
    c.rebyted m₂ fun j hj => hr.second hp hj⟩

/-- A node reads as before. -/
theorem expand_node (c : BytesCompacted env vm vm' livePairs) (k : Nat) : vm'.expand (.node k) = vm.expand (.node k) := by
  rw [c.heap]
  rfl

theorem simulates (c : BytesCompacted env vm vm' livePairs) :
    Simulates vm.expand vm'.expand (Rebyted vm (freshBytesBlock env vm) vm'.bytesArena livePairs) := by
  intro v w hvw l vs hexp
  cases hvw with
  | @pair k hk =>
      obtain ⟨p, hp, rfl, rfl⟩ := (Heap.expand_pair _).1 hexp
      have hlive : k ∈ livePairs := by
        rcases hk with hk | hk
        · exact hk
        · rw [hp] at hk
          cases hk
      obtain ⟨p', hp', h₁, h₂⟩ := c.lookupScratchPair hlive hp
      exact ⟨[p'.first, p'.second], (Heap.expand_pair _).2 ⟨p', hp', rfl, rfl⟩, .cons h₁ (.cons h₂ .nil)⟩
  | other hp hm =>
      by_cases hnode : ∃ k, v = .node k
      · obtain ⟨k, rfl⟩ := hnode
        cases hm
        refine ⟨vs, by rw [c.expand_node, hexp], List.forall₂_same.2 fun u hu => ?_⟩
        obtain ⟨n, _, _, _, rfl⟩ := (Heap.expand_node _).1 hexp
        obtain ⟨x, _, rfl⟩ := List.mem_map.1 hu
        exact .node x
      · have hn : ∀ k, v ≠ .node k := fun k hk => hnode ⟨k, hk⟩
        obtain rfl := Heap.expand_leaf _ hn hp hexp
        refine ⟨[], ?_, .nil⟩
        have hcstr : vm'.cstr = vm.cstr := Heap.cstr_congr (by rw [c.heap]) (by rw [c.heap])
        have hblock : vm'.bytesBlock = freshBytesBlock env vm := by rw [c.heap]
        cases hm with
        | view hc =>
            simp only [Heap.expand, Option.map_eq_some_iff, Prod.mk.injEq] at hexp ⊢
            obtain ⟨b, hb, hl, _⟩ := hexp
            exact ⟨b, hc.bytesAt hblock hb, hl, trivial⟩
        | other ho =>
            cases v with
            | node k => exact absurd rfl (hn k)
            | pair k => exact absurd rfl (hp k)
            | string p => cases p <;> simpa [Heap.expand, hcstr] using hexp
            | bytes d n =>
                simp only [Heap.expand, Option.map_eq_some_iff, Prod.mk.injEq] at hexp ⊢
                obtain ⟨b, hb, hl, _⟩ := hexp
                exact ⟨b, bytesAt_outside (ho d n rfl) hb, hl, trivial⟩
            | _ => exact hexp

theorem moves (c : BytesCompacted env vm vm' livePairs) :
    Moves (Rebyted vm (freshBytesBlock env vm) vm'.bytesArena livePairs) vm vm' where
  frame := by
    unfold Vm.SameFrame
    rw [c.moved.frame]
  simulates := c.simulates
  like := by
    rintro v w hvw
    cases hvw with
    | pair _ => trivial
    | other _ hm => exact hm.like
  oneToOne := by
    rintro v v' w w' hvw hvw' hv hv'
    rw [hvw.handle_eq hv, hvw'.handle_eq hv']
  inRange := by
    rintro v w hvw hv
    have hpairs := c.moved.pairs.length_eq
    rw [List.length_zipIdx] at hpairs
    cases hvw with
    | pair _ => exact ⟨hv.1, hpairs ▸ hv.2⟩
    | other hp hm =>
        cases hm with
        | view _ => trivial
        | other _ =>
            refine hv.mono (Nat.le_of_eq ?_) (Nat.le_of_eq hpairs)
            rw [c.heap]
  stack := forall₂_imp_mem c.moved.stack fun v w hv hm =>
    c.rebyted_root (mem_rootValues.2 (.inl (List.mem_iff_getElem?.1 hv))) hm
  locals := forall₂_imp_mem c.moved.locals fun v w hv hm =>
    c.rebyted_root (mem_rootValues.2 (.inr (.inl (List.mem_iff_getElem?.1 hv)))) hm
  tasks := by
    refine forall₂_imp_mem c.moved.tasks fun t t' ht hm => ?_
    obtain ⟨i, hi⟩ := List.mem_iff_getElem?.1 ht
    exact ⟨hm.1, c.rebyted_root (mem_rootValues.2 (.inr (.inr (.inl ⟨i, t, hi, rfl⟩)))) hm.2⟩
  pars := forall₂_imp_mem c.moved.pars fun v w hv hm =>
    c.rebyted_root (mem_rootValues.2 (.inr (.inr (.inr (List.mem_iff_getElem?.1 hv))))) hm
  builders := by
    rw [show vm'.nodeBuilders = vm.nodeBuilders by rw [c.moved.frame]]
    refine List.forall₂_same.2 fun b _ => ?_
    cases b with
    | none => exact .none
    | some b => exact .some (List.forall₂_same.2 fun h _ => .node h)
  processArgv := fun h => ⟨by rw [c.moved.frame]; exact h, by rw [c.moved.frame]; exact .node _⟩
  uiDefaultWindowSize := fun h => ⟨by rw [c.moved.frame]; exact h, by rw [c.moved.frame]; exact .node _⟩
  uiEmptyEvent := fun h => ⟨by rw [c.moved.frame]; exact h, by rw [c.moved.frame]; exact .node _⟩

end BytesCompacted

/-- Without any root value nothing is read from the bytes arena, and no pair can be reached. -/
theorem relocationCapacity_eq_zero (hz : relocationCapacity vm = 0) :
    vm.rootValues = [] ∧ vm.scratchPairs = [] := by
  simp only [relocationCapacity, Nat.add_eq_zero_iff, List.length_eq_zero_iff] at hz
  simp [Vm.rootValues, hz]

theorem compactBytesArena_moves {u} (h : compactBytesArena env vm = .ok u vm') : ∃ R, Moves R vm vm' := by
  simp only [compactBytesArena, VmM.bind_ok, VmM.get_run, Outcome.ok.injEq] at h
  obtain ⟨_, _, ⟨rfl, rfl⟩, h⟩ := h
  split at h
  · cases h
    exact ⟨_, .refl _⟩
  split at h
  · rename_i hz
    obtain ⟨hroots, _⟩ := relocationCapacity_eq_zero hz
    simp only [Vm.rootValues, List.append_eq_nil_iff, List.map_eq_nil_iff] at hroots
    obtain ⟨⟨⟨hs, hl⟩, ht⟩, hp⟩ := hroots
    cases h
    -- only nodes are left to be related, and they read as before
    have hnode : ∀ k, ∃ j, Value.node k = .node j := fun k => ⟨k, rfl⟩
    refine ⟨fun v w => v = w ∧ ∃ k, v = .node k, rfl, ?_, ?_, ?_, ?_, ?_, ?_, ?_, ?_, ?_, ?_, ?_, ?_⟩
    · rintro _ _ ⟨rfl, k, rfl⟩ l vs hexp
      refine ⟨vs, hexp, List.forall₂_same.2 fun u hu => ⟨rfl, ?_⟩⟩
      obtain ⟨n, _, _, _, rfl⟩ := (Heap.expand_node _).1 hexp
      obtain ⟨x, _, rfl⟩ := List.mem_map.1 hu
      exact hnode x
    · rintro _ _ ⟨rfl, k, rfl⟩
      trivial
    · rintro _ _ _ _ ⟨rfl, _⟩ ⟨rfl, _⟩ _ _
      rfl
    · rintro _ _ ⟨rfl, k, rfl⟩ hv
      exact hv
    · simp [hs]
    · simp [hl]
    · simp [ht]
    · simp [hp]
    · refine List.forall₂_same.2 fun b _ => ?_
      cases b with
      | none => exact .none
      | some b => exact .some (List.forall₂_same.2 fun x _ => ⟨rfl, hnode x⟩)
    · exact fun h0 => ⟨h0, rfl, hnode _⟩
    · exact fun h0 => ⟨h0, rfl, hnode _⟩
    · exact fun h0 => ⟨h0, rfl, hnode _⟩
  · simp only [VmM.bind_ok, VmM.lift_ok, VmM.modify_run, Outcome.ok.injEq] at h
    obtain ⟨_, _, ha, livePairs, _, ⟨hl, rfl⟩, moved, _, ⟨hr, rfl⟩, _, rfl⟩ := h
    obtain rfl := Env.allocate_ok ha
    exact ⟨_, (BytesCompacted.mk hl (relocateBytes_ok hr)).moves⟩

end Aivm
