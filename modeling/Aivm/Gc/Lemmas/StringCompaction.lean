import Aivm.Gc.StringCompaction
import Aivm.Model.Moves
import Aivm.Gc.Lemmas.Mark

/-!
# What a string compaction does

The new arena is at every moment a concatenation of distinct strings, and it only grows. A rewritten pointer reads,
in the new arena, what the old one read in the old arena.
-/

namespace Aivm

open Unfold CStrings

/-- The new arena, at any moment of the compaction. -/
def NewArena (arena : List Byte) : Prop := ∃ ss, Clean 0 ss ∧ ss.Nodup ∧ arena = encode 0 ss

/-- The new arena grows by whole strings. -/
def Grows (arena arena' : List Byte) : Prop := ∃ ss, Clean 0 ss ∧ arena' = arena ++ encode 0 ss

theorem Grows.refl (arena : List Byte) : Grows arena arena := ⟨[], by simp [Clean], by simp⟩

theorem Grows.trans {a b c : List Byte} (h : Grows a b) (h' : Grows b c) : Grows a c := by
  obtain ⟨ss, hs, rfl⟩ := h
  obtain ⟨ts, ht, rfl⟩ := h'
  exact ⟨ss ++ ts, hs.append ht, by rw [encode_append, List.append_assoc]⟩

/-- The string `text` starts at `offset` in the arena. -/
def StartsAt (arena text : List Byte) (offset : Nat) : Prop :=
  ∃ ss i, Clean 0 ss ∧ arena = encode 0 ss ∧ ss[i]? = some text ∧ offset = start 0 ss i

theorem StartsAt.grows {arena arena' text offset} (h : StartsAt arena text offset) (hg : Grows arena arena') :
    StartsAt arena' text offset := by
  obtain ⟨ss, i, hc, rfl, hi, rfl⟩ := h
  obtain ⟨ts, ht, rfl⟩ := hg
  have hlt := (List.getElem?_eq_some_iff.1 hi).1
  exact ⟨ss ++ ts, i, hc.append ht, (encode_append ss ts).symm, by rw [List.getElem?_append_left hlt, hi],
    (start_append hlt).symm⟩

theorem StartsAt.read {arena text offset} (h : StartsAt arena text offset) :
    CStrings.read 0 (arena.drop offset) = some text := by
  obtain ⟨ss, i, hc, rfl, hi, rfl⟩ := h
  exact read_start hc hi

theorem StartsAt.unique {arena text j k} (hn : NewArena arena) (hj : StartsAt arena text j)
    (hk : StartsAt arena text k) : j = k := by
  obtain ⟨us, huc, hund, rfl⟩ := hn
  obtain ⟨ss, i, hc, hss, hi, rfl⟩ := hj
  obtain ⟨ts, i', hc', hts, hi', rfl⟩ := hk
  obtain rfl := encode_inj huc hc hss
  obtain rfl := encode_inj huc hc' hts
  obtain ⟨h1, h2⟩ := List.getElem?_eq_some_iff.1 hi
  obtain ⟨h3, h4⟩ := List.getElem?_eq_some_iff.1 hi'
  rw [(hund.getElem_inj_iff).1 (h2.trans h4.symm)]

theorem compactLookupOrCopyString_ok {capacity text arena offset arena'} (hn : NewArena arena) (ht : (0 : Byte) ∉ text)
    (h : compactLookupOrCopyString capacity text arena = some (offset, arena')) :
    NewArena arena' ∧ Grows arena arena' ∧ StartsAt arena' text offset := by
  obtain ⟨ss, hc, hnd, rfl⟩ := hn
  unfold compactLookupOrCopyString at h
  split at h
  · rename_i o ho
    cases h
    obtain ⟨i, hi, rfl⟩ := find_encode_some hc ho
    exact ⟨⟨ss, hc, hnd, rfl⟩, .refl _, ss, i, hc, rfl, hi, by simp⟩
  · rename_i ho
    have hnew := find_encode_none hc (Nat.le_refl _) ho
    split at h
    · cases h
      have hclean : Clean 0 (ss ++ [text]) := hc.append fun s hs => by
        rw [List.mem_singleton.1 hs]
        exact ht
      have henc : encode 0 ss ++ text ++ [0] = encode 0 (ss ++ [text]) := by
        rw [encode_append]
        simp
      refine ⟨⟨ss ++ [text], hclean, ?_, henc⟩, ⟨[text], fun s hs => hclean s (List.mem_append_right _ hs), ?_⟩,
        ss ++ [text], ss.length, hclean, henc, by simp, by simp [start]⟩
      · exact List.Nodup.append hnd (List.nodup_singleton _) (by simpa using hnew)
      · rw [henc, encode_append]
    · cases h

/-! ## Pointers -/

/-- The pointer `p` of the old heap has become `p'`. -/
def PtrMoved (h : Heap) (block : Nat) (arena : List Byte) (p p' : StrPtr) : Prop :=
  (h.pointerInStringArena p = false ∧ p' = p) ∨
    (h.pointerInStringArena p = true ∧ ∃ offset, p' = .arena block offset ∧ StartsAt arena (h.arenaText p) offset)

theorem PtrMoved.null_iff {h block arena p p'} (hp : PtrMoved h block arena p p') : p = .null ↔ p' = .null := by
  rcases hp with ⟨_, rfl⟩ | ⟨hin, o, rfl, _⟩
  · rfl
  · cases p <;> simp [Heap.pointerInStringArena] at hin ⊢

theorem PtrMoved.grows {h block arena arena' p p'} (hp : PtrMoved h block arena p p') (hg : Grows arena arena') :
    PtrMoved h block arena' p p' := by
  rcases hp with hp | ⟨hp, o, rfl, ho⟩
  · exact .inl hp
  · exact .inr ⟨hp, o, rfl, ho.grows hg⟩

theorem arenaText_clean (h : Heap) (p : StrPtr) : (0 : Byte) ∉ h.arenaText p := by
  cases p <;> simp only [Heap.arenaText, List.not_mem_nil, not_false_eq_true]
  intro hz
  have := List.mem_takeWhile_imp hz
  simp at this

theorem compactRelocateStringPtr_ok {h block capacity p arena p' arena'} (hn : NewArena arena)
    (hr : compactRelocateStringPtr h block capacity p arena = .ok (p', arena')) :
    NewArena arena' ∧ Grows arena arena' ∧ PtrMoved h block arena' p p' := by
  unfold compactRelocateStringPtr at hr
  split at hr
  · rename_i hin
    split at hr
    · rename_i o a ho
      cases hr
      obtain ⟨hn', hg, hs⟩ := compactLookupOrCopyString_ok hn (arenaText_clean h p) ho
      exact ⟨hn', hg, .inr ⟨hin, o, rfl, hs⟩⟩
    · cases hr
  · rename_i hout
    cases hr
    exact ⟨hn, .refl _, .inl ⟨by simpa using hout, rfl⟩⟩

/-- A pointer that has been rewritten reads the same string. -/
theorem PtrMoved.cstr {h h' : Heap} {block arena p p' s} (hp : PtrMoved h block arena p p')
    (hb : h'.stringBlock = block) (ha : h'.stringArena = arena) (hs : h.cstr p = some s) : h'.cstr p' = some s := by
  cases p with
  | null => simp [Heap.cstr] at hs
  | lit t =>
      rcases hp with ⟨_, rfl⟩ | ⟨hin, _⟩
      · exact hs
      · simp [Heap.pointerInStringArena] at hin
  | arena b o =>
      simp only [Heap.cstr] at hs
      split at hs
      · rename_i hbl
        have hlt : o < h.stringArena.length := by
          by_contra hge
          rw [List.drop_eq_nil_of_le (by omega)] at hs
          simp [CStrings.read] at hs
        rcases hp with ⟨hout, _⟩ | ⟨_, off, rfl, hstart⟩
        · simp [Heap.pointerInStringArena, hbl, hlt] at hout
        · have htext : h.arenaText (.arena b o) = s := by
            obtain ⟨hclean, rest, hdrop⟩ := read_eq_some.1 hs
            simp only [Heap.arenaText, hdrop]
            exact takeWhile_terminated hclean
          rw [htext] at hstart
          simp [Heap.cstr, hb, ha, hstart.read]
      · cases hs

/-! ## Values and attributes -/

/-- Only string values change. -/
inductive ValueMoved (h : Heap) (block : Nat) (arena : List Byte) : Value → Value → Prop where
  | string {p p'} : PtrMoved h block arena p p' → ValueMoved h block arena (.string p) (.string p')
  | other {v} : (∀ p, v ≠ .string p) → ValueMoved h block arena v v

inductive AttrValueMoved (h : Heap) (block : Nat) (arena : List Byte) : AttrValue → AttrValue → Prop where
  | identifier {p p'} : PtrMoved h block arena p p' → AttrValueMoved h block arena (.identifier p) (.identifier p')
  | string {p p'} : PtrMoved h block arena p p' → AttrValueMoved h block arena (.string p) (.string p')
  | int {i} : AttrValueMoved h block arena (.int i) (.int i)
  | bool {b} : AttrValueMoved h block arena (.bool b) (.bool b)

def AttrMoved (h : Heap) (block : Nat) (arena : List Byte) (a a' : NodeAttr) : Prop :=
  PtrMoved h block arena a.key a'.key ∧ AttrValueMoved h block arena a.value a'.value

theorem ValueMoved.grows {h block arena arena' v v'} (hv : ValueMoved h block arena v v') (hg : Grows arena arena') :
    ValueMoved h block arena' v v' := by
  cases hv with
  | string hp => exact .string (hp.grows hg)
  | other hn => exact .other hn

theorem AttrMoved.grows {h block arena arena' a a'} (ha : AttrMoved h block arena a a') (hg : Grows arena arena') :
    AttrMoved h block arena' a a' := by
  obtain ⟨key, value⟩ := a
  obtain ⟨key', value'⟩ := a'
  obtain ⟨hk, hv⟩ := ha
  refine ⟨hk.grows hg, ?_⟩
  cases hv with
  | identifier hp => exact .identifier (hp.grows hg)
  | string hp => exact .string (hp.grows hg)
  | int => exact .int
  | bool => exact .bool

theorem compactRelocateValueString_ok {h block capacity v arena v' arena'} (hn : NewArena arena)
    (hr : compactRelocateValueString h block capacity v arena = .ok (v', arena')) :
    NewArena arena' ∧ Grows arena arena' ∧ ValueMoved h block arena' v v' := by
  cases v with
  | string p =>
      simp only [compactRelocateValueString, Results.bind_ok, Prod.exists] at hr
      obtain ⟨p', a, hp, hr⟩ := hr
      cases hr
      obtain ⟨hn', hg, hm⟩ := compactRelocateStringPtr_ok hn hp
      exact ⟨hn', hg, .string hm⟩
  | _ =>
      cases hr
      exact ⟨hn, .refl _, .other (by simp)⟩

theorem relocateAttr_ok {h block capacity a arena a' arena'} (hn : NewArena arena)
    (hr : relocateAttr h block capacity a arena = .ok (a', arena')) :
    NewArena arena' ∧ Grows arena arena' ∧ AttrMoved h block arena' a a' := by
  obtain ⟨key, value⟩ := a
  simp only [relocateAttr, Results.bind_ok, Prod.exists] at hr
  obtain ⟨k', a₁, hk, hr⟩ := hr
  obtain ⟨hn₁, hg₁, hm₁⟩ := compactRelocateStringPtr_ok hn hk
  cases value with
  | identifier p =>
      simp only [Results.bind_ok, Prod.exists] at hr
      obtain ⟨p', a₂, hp, hr⟩ := hr
      cases hr
      obtain ⟨hn₂, hg₂, hm₂⟩ := compactRelocateStringPtr_ok hn₁ hp
      exact ⟨hn₂, hg₁.trans hg₂, hm₁.grows hg₂, .identifier hm₂⟩
  | string p =>
      simp only [Results.bind_ok, Prod.exists] at hr
      obtain ⟨p', a₂, hp, hr⟩ := hr
      cases hr
      obtain ⟨hn₂, hg₂, hm₂⟩ := compactRelocateStringPtr_ok hn₁ hp
      exact ⟨hn₂, hg₁.trans hg₂, hm₁.grows hg₂, .string hm₂⟩
  | int i =>
      cases hr
      exact ⟨hn₁, hg₁, hm₁, .int⟩
  | bool b =>
      cases hr
      exact ⟨hn₁, hg₁, hm₁, .bool⟩

/-- A pointer that has been rewritten is not touched again. -/
theorem PtrMoved.again {h : Heap} {block capacity arena p p' arena' q arena''} (hb : block ≠ h.stringBlock)
    (hp : PtrMoved h block arena p p') (hr : compactRelocateStringPtr h block capacity p' arena' = .ok (q, arena'')) :
    q = p' ∧ arena'' = arena' := by
  have hout : h.pointerInStringArena p' = false := by
    rcases hp with ⟨hp, rfl⟩ | ⟨_, o, rfl, _⟩
    · exact hp
    · simp [Heap.pointerInStringArena, hb]
  simp only [compactRelocateStringPtr, hout, Bool.false_eq_true, ↓reduceIte, Except.ok.injEq, Prod.mk.injEq] at hr
  exact ⟨hr.1.symm, hr.2.symm⟩

theorem AttrMoved.again {h : Heap} {block capacity arena a a' arena' b arena''} (hb : block ≠ h.stringBlock)
    (ha : AttrMoved h block arena a a') (hr : relocateAttr h block capacity a' arena' = .ok (b, arena'')) :
    b = a' ∧ arena'' = arena' := by
  obtain ⟨key', value'⟩ := a'
  simp only [relocateAttr, Results.bind_ok, Prod.exists] at hr
  obtain ⟨k', a₁, hk, hr⟩ := hr
  obtain ⟨rfl, rfl⟩ := ha.1.again hb hk
  have hv := ha.2
  generalize a.value = value at hv
  cases hv with
  | identifier hp =>
      simp only [Results.bind_ok, Prod.exists] at hr
      obtain ⟨p', a₂, hp', hr⟩ := hr
      cases hr
      obtain ⟨rfl, rfl⟩ := hp.again hb hp'
      exact ⟨rfl, rfl⟩
  | string hp =>
      simp only [Results.bind_ok, Prod.exists] at hr
      obtain ⟨p', a₂, hp', hr⟩ := hr
      cases hr
      obtain ⟨rfl, rfl⟩ := hp.again hb hp'
      exact ⟨rfl, rfl⟩
  | int =>
      cases hr
      exact ⟨rfl, rfl⟩
  | bool =>
      cases hr
      exact ⟨rfl, rfl⟩

/-! ## Attribute slots -/

/-- The attribute arena while slots are rewritten: each slot is as it was or rewritten. -/
structure AttrProgress (h : Heap) (block : Nat) (s : List NodeAttr × List Byte) : Prop where
  arena : NewArena s.2
  slots : List.Forall₂ (fun a a' => a' = a ∨ AttrMoved h block s.2 a a') h.nodeAttrs s.1

def SlotMoved (h : Heap) (block : Nat) (s : List NodeAttr × List Byte) (slot : Nat) : Prop :=
  ∀ a, h.nodeAttrs[slot]? = some a → ∃ a', s.1[slot]? = some a' ∧ AttrMoved h block s.2 a a'

/-- Rewritten slots stay rewritten while the new arena grows. -/
def AttrsGrow (h : Heap) (block : Nat) (s s' : List NodeAttr × List Byte) : Prop :=
  Grows s.2 s'.2 ∧ ∀ slot, SlotMoved h block s slot → SlotMoved h block s' slot

theorem AttrsGrow.refl (h : Heap) (block : Nat) (s) : AttrsGrow h block s s := ⟨.refl _, fun _ h => h⟩

theorem AttrsGrow.trans {h block s s' s''} (h₁ : AttrsGrow h block s s') (h₂ : AttrsGrow h block s' s'') :
    AttrsGrow h block s s'' :=
  ⟨h₁.1.trans h₂.1, fun slot hs => h₂.2 slot (h₁.2 slot hs)⟩

/-- The arena may grow between two slots. -/
theorem AttrProgress.grows {h block attrs arena arena'} (hp : AttrProgress h block (attrs, arena))
    (hn : NewArena arena') (hg : Grows arena arena') :
    AttrProgress h block (attrs, arena') ∧ AttrsGrow h block (attrs, arena) (attrs, arena') := by
  refine ⟨⟨hn, hp.slots.imp fun a a' ha => ha.imp id (·.grows hg)⟩, hg, fun slot hs a ha => ?_⟩
  obtain ⟨a', ha', hm⟩ := hs a ha
  exact ⟨a', ha', hm.grows hg⟩

/-- One slot is rewritten, for the first time or again. -/
theorem AttrProgress.set {h : Heap} {block capacity attrs arena slot b b' arena'} (hb : block ≠ h.stringBlock)
    (hp : AttrProgress h block (attrs, arena)) (hslot : attrs[slot]? = some b)
    (hr : relocateAttr h block capacity b arena = .ok (b', arena')) :
    AttrProgress h block (attrs.set slot b', arena') ∧
      AttrsGrow h block (attrs, arena) (attrs.set slot b', arena') ∧ SlotMoved h block (attrs.set slot b', arena') slot := by
  obtain ⟨hn, hg, hm⟩ := relocateAttr_ok hp.arena hr
  obtain ⟨a, ha, hab⟩ := forall₂_getElem?' hp.slots hslot
  have hmoved : AttrMoved h block arena' a b' := by
    rcases hab with rfl | hab
    · exact hm
    · obtain ⟨rfl, rfl⟩ := hab.again hb hr
      exact hab.grows hg
  obtain ⟨hlt, _⟩ := List.getElem?_eq_some_iff.1 hslot
  have hself : SlotMoved h block (attrs.set slot b', arena') slot := by
    intro a₁ ha₁
    rw [ha] at ha₁
    cases ha₁
    exact ⟨b', by simp [hlt], hmoved⟩
  refine ⟨⟨hn, ?_⟩, ⟨hg, fun k hk => ?_⟩, hself⟩
  · rw [List.forall₂_iff_get]
    refine ⟨by simpa using hp.slots.length_eq, fun i h₁ h₂ => ?_⟩
    by_cases hik : slot = i
    · subst hik
      have ha' : h.nodeAttrs[slot] = a := (List.getElem?_eq_some_iff.1 ha).2
      simp only [List.get_eq_getElem, List.getElem_set_self, ha']
      exact .inr hmoved
    · have hi : i < attrs.length := by simpa using h₂
      have := hp.slots.get h₁ hi
      simp only [List.get_eq_getElem] at this ⊢
      rw [List.getElem_set_ne hik]
      exact this.imp id (·.grows hg)
  · by_cases hks : slot = k
    · exact hks ▸ hself
    · intro a₁ ha₁
      obtain ⟨a', ha', hm'⟩ := hk a₁ ha₁
      exact ⟨a', by simpa [List.getElem?_set_ne hks] using ha', hm'.grows hg⟩

theorem relocateAttrSlots_ok {h : Heap} {block capacity attrCapacity slots} (hb : block ≠ h.stringBlock) :
    ∀ {attrs arena s'}, AttrProgress h block (attrs, arena) →
      relocateAttrSlots h block capacity attrCapacity slots attrs arena = .ok s' →
      AttrProgress h block s' ∧ AttrsGrow h block (attrs, arena) s' ∧ ∀ slot ∈ slots, SlotMoved h block s' slot := by
  induction slots with
  | nil =>
      intro attrs arena s' hp hr
      cases hr
      exact ⟨hp, .refl .., by simp⟩
  | cons slot slots ih =>
      intro attrs arena s' hp hr
      simp only [relocateAttrSlots] at hr
      split at hr
      · cases hr
      split at hr
      · rename_i hnone
        obtain ⟨hp', hg, hall⟩ := ih hp hr
        refine ⟨hp', hg, fun k hk => ?_⟩
        rcases List.mem_cons.1 hk with rfl | hk
        · -- a slot outside the arena holds nothing to rewrite
          intro a ha
          obtain ⟨b, hb', _⟩ := forall₂_getElem? hp.slots ha
          rw [hnone] at hb'
          cases hb'
        · exact hall k hk
      · rename_i b hslot
        split at hr
        · cases hr
        · rename_i b' arena' hb'
          obtain ⟨hp₁, hg₁, hself⟩ := hp.set hb hslot hb'
          obtain ⟨hp', hg, hall⟩ := ih hp₁ hr
          refine ⟨hp', hg₁.trans hg, fun k hk => ?_⟩
          rcases List.mem_cons.1 hk with rfl | hk
          · exact hg.2 _ hself
          · exact hall k hk

/-! ## Nodes and pairs -/

/-- A live node has its strings rewritten, another node is left alone. -/
structure NodeStringsMoved (h : Heap) (block : Nat) (live : List Nat) (s : List NodeAttr × List Byte)
    (n : NodeRecord × Nat) (n' : NodeRecord) : Prop where
  dead : n.2 + 1 ∉ live → n' = n.1
  shape : n' = { n.1 with kind := n'.kind, id := n'.id }
  kind : n.2 + 1 ∈ live → PtrMoved h block s.2 n.1.kind n'.kind
  id : n.2 + 1 ∈ live → PtrMoved h block s.2 n.1.id n'.id
  attrs : n.2 + 1 ∈ live → ∀ slot, n.1.attrStart ≤ slot → slot < n.1.attrStart + n.1.attrCount →
    SlotMoved h block s slot

theorem NodeStringsMoved.grows {h block live s s' n n'} (hm : NodeStringsMoved h block live s n n')
    (hg : AttrsGrow h block s s') : NodeStringsMoved h block live s' n n' :=
  ⟨hm.dead, hm.shape, fun hl => (hm.kind hl).grows hg.1, fun hl => (hm.id hl).grows hg.1,
    fun hl slot h₁ h₂ => hg.2 slot (hm.attrs hl slot h₁ h₂)⟩

theorem relocateNode_ok {h : Heap} {block capacity attrCapacity live n s n' s'} (hb : block ≠ h.stringBlock)
    (hp : AttrProgress h block s)
    (hr : relocateNode h block capacity attrCapacity live n s = .ok (n', s')) :
    AttrProgress h block s' ∧ AttrsGrow h block s s' ∧ NodeStringsMoved h block live s' n n' := by
  obtain ⟨attrs, arena⟩ := s
  unfold relocateNode at hr
  split at hr
  · rename_i hlive
    simp only [Results.bind_ok, Prod.exists] at hr
    obtain ⟨kind, a₁, hk, id, a₂, hi, attrs', a₃, hs, hr⟩ := hr
    cases hr
    obtain ⟨hn₁, hg₁, hm₁⟩ := compactRelocateStringPtr_ok hp.arena hk
    obtain ⟨hn₂, hg₂, hm₂⟩ := compactRelocateStringPtr_ok hn₁ hi
    obtain ⟨hp₂, hgrow⟩ := hp.grows hn₂ (hg₁.trans hg₂)
    obtain ⟨hp₃, hg₃, hslots⟩ := relocateAttrSlots_ok hb hp₂ hs
    refine ⟨hp₃, hgrow.trans hg₃, fun hd => absurd hlive hd, rfl, fun _ => ?_, fun _ => ?_, fun _ slot h₁ h₂ => ?_⟩
    · exact hm₁.grows (hg₂.trans hg₃.1)
    · exact hm₂.grows hg₃.1
    · exact hslots slot (List.mem_range'_1.2 ⟨h₁, h₂⟩)
  · rename_i hdead
    cases hr
    exact ⟨hp, .refl .., fun _ => rfl, rfl, fun hl => absurd hl hdead, fun hl => absurd hl hdead,
      fun hl => absurd hl hdead⟩

structure PairStringsMoved (h : Heap) (block : Nat) (livePairs : List Nat) (arena : List Byte) (p : ScratchPair × Nat)
    (p' : ScratchPair) : Prop where
  dead : p.2 + 1 ∉ livePairs → p' = p.1
  first : p.2 + 1 ∈ livePairs → ValueMoved h block arena p.1.first p'.first
  second : p.2 + 1 ∈ livePairs → ValueMoved h block arena p.1.second p'.second

theorem PairStringsMoved.grows {h block livePairs arena arena' p p'} (hm : PairStringsMoved h block livePairs arena p p')
    (hg : Grows arena arena') : PairStringsMoved h block livePairs arena' p p' :=
  ⟨hm.dead, fun hl => (hm.first hl).grows hg, fun hl => (hm.second hl).grows hg⟩

theorem relocatePair_ok {h block capacity livePairs p arena p' arena'} (hn : NewArena arena)
    (hr : relocatePair h block capacity livePairs p arena = .ok (p', arena')) :
    NewArena arena' ∧ Grows arena arena' ∧ PairStringsMoved h block livePairs arena' p p' := by
  unfold relocatePair at hr
  split at hr
  · rename_i hlive
    simp only [Results.bind_ok, Prod.exists] at hr
    obtain ⟨first, a₁, hf, second, a₂, hs, hr⟩ := hr
    cases hr
    obtain ⟨hn₁, hg₁, hm₁⟩ := compactRelocateValueString_ok hn hf
    obtain ⟨hn₂, hg₂, hm₂⟩ := compactRelocateValueString_ok hn₁ hs
    exact ⟨hn₂, hg₁.trans hg₂, fun hd => absurd hlive hd, fun _ => hm₁.grows hg₂, fun _ => hm₂⟩
  · rename_i hdead
    cases hr
    exact ⟨hn, .refl _, fun _ => rfl, fun hl => absurd hl hdead, fun hl => absurd hl hdead⟩

def TaskStringsMoved {W : Type} (h : Heap) (block : Nat) (arena : List Byte) (t t' : CompletedTask W) : Prop :=
  t' = { t with result := t'.result } ∧ ValueMoved h block arena t.result t'.result

theorem relocateTask_ok {W : Type} {h block capacity arena arena'} {t t' : CompletedTask W} (hn : NewArena arena)
    (hr : relocateTask h block capacity t arena = .ok (t', arena')) :
    NewArena arena' ∧ Grows arena arena' ∧ TaskStringsMoved h block arena' t t' := by
  simp only [relocateTask, Results.bind_ok, Prod.exists] at hr
  obtain ⟨r, a, hr', hr⟩ := hr
  cases hr
  obtain ⟨hn', hg, hm⟩ := compactRelocateValueString_ok hn hr'
  exact ⟨hn', hg, rfl, hm⟩

/-! ## The whole compaction -/

/-- What a string compaction does to the state before its index is rebuilt. -/
structure StringsMoved (block : Nat) (live livePairs : List Nat) (vm vm' : Vm) : Prop where
  frame : vm' = { vm with
    stack := vm'.stack, locals := vm'.locals, completedTasks := vm'.completedTasks, parValues := vm'.parValues
    scratchPairs := vm'.scratchPairs, nodes := vm'.nodes, nodeAttrs := vm'.nodeAttrs, stringArena := vm'.stringArena
    stringBlock := block, stringIntern := vm'.stringIntern }
  arena : NewArena vm'.stringArena
  stack : List.Forall₂ (ValueMoved vm.toHeap block vm'.stringArena) vm.stack vm'.stack
  locals : List.Forall₂ (ValueMoved vm.toHeap block vm'.stringArena) vm.locals vm'.locals
  tasks : List.Forall₂ (TaskStringsMoved vm.toHeap block vm'.stringArena) vm.completedTasks vm'.completedTasks
  pars : List.Forall₂ (ValueMoved vm.toHeap block vm'.stringArena) vm.parValues vm'.parValues
  pairs : List.Forall₂ (PairStringsMoved vm.toHeap block livePairs vm'.stringArena) vm.scratchPairs.zipIdx
    vm'.scratchPairs
  nodes : List.Forall₂ (NodeStringsMoved vm.toHeap block live (vm'.nodeAttrs, vm'.stringArena)) vm.nodes.zipIdx vm'.nodes
  attrs : AttrProgress vm.toHeap block (vm'.nodeAttrs, vm'.stringArena)

theorem relocateStrings_ok {block live livePairs vm vm'} (hb : block ≠ vm.stringBlock)
    (hr : relocateStrings block live livePairs vm = .ok vm') : StringsMoved block live livePairs vm vm' := by
  simp only [relocateStrings, Results.bind_ok, Prod.exists] at hr
  obtain ⟨st, a₁, h₁, lo, a₂, h₂, ta, a₃, h₃, pa, a₄, h₄, sp, a₅, h₅, ns, as, a₆, h₆, hr⟩ := hr
  cases hr
  have hnil : NewArena [] := ⟨[], by simp [Clean], List.nodup_nil, rfl⟩
  have hvalues : ∀ {vs vs' a a'}, NewArena a →
      mapAccum (compactRelocateValueString vm.toHeap block vm.stringArenaCapacity) vs a = .ok (vs', a') →
      NewArena a' ∧ Grows a a' ∧ List.Forall₂ (ValueMoved vm.toHeap block a') vs vs' := fun hn h =>
    MapAccum.forall₂ (R := ValueMoved vm.toHeap block) Grows.refl Grows.trans (fun hg hv => hv.grows hg)
      (fun _ _ _ _ _ hn hr => compactRelocateValueString_ok hn hr) hn h
  obtain ⟨n₁, -, m₁⟩ := hvalues hnil h₁
  obtain ⟨n₂, g₂, m₂⟩ := hvalues n₁ h₂
  obtain ⟨n₃, g₃, m₃⟩ := MapAccum.forall₂ (R := TaskStringsMoved vm.toHeap block) Grows.refl Grows.trans
    (fun hg hv => ⟨hv.1, hv.2.grows hg⟩) (fun _ _ _ _ _ hn hr => relocateTask_ok hn hr) n₂ h₃
  obtain ⟨n₄, g₄, m₄⟩ := hvalues n₃ h₄
  obtain ⟨n₅, g₅, m₅⟩ := MapAccum.forall₂ (R := PairStringsMoved vm.toHeap block livePairs) Grows.refl Grows.trans
    (fun hg hv => hv.grows hg) (fun _ _ _ _ _ hn hr => relocatePair_ok hn hr) n₄ h₅
  have hstart : AttrProgress vm.toHeap block (vm.nodeAttrs, a₅) := ⟨n₅, List.forall₂_same.2 fun _ _ => .inl rfl⟩
  obtain ⟨p₆, g₆, m₆⟩ := MapAccum.forall₂ (R := NodeStringsMoved vm.toHeap block live) (AttrsGrow.refl vm.toHeap block)
    AttrsGrow.trans (fun hg hv => hv.grows hg) (fun _ _ _ _ _ hp hr => relocateNode_ok hb hp hr) hstart h₆
  have e₅ : Grows a₅ a₆ := g₆.1
  have e₄ : Grows a₄ a₆ := g₅.trans e₅
  have e₃ : Grows a₃ a₆ := g₄.trans e₄
  have e₂ : Grows a₂ a₆ := g₃.trans e₃
  have e₁ : Grows a₁ a₆ := g₂.trans e₂
  exact ⟨rfl, p₆.arena, m₁.imp fun _ _ h => h.grows e₁, m₂.imp fun _ _ h => h.grows e₂,
    m₃.imp fun _ _ h => ⟨h.1, h.2.grows e₃⟩, m₄.imp fun _ _ h => h.grows e₄, m₅.imp fun _ _ h => h.grows e₅, m₆, p₆⟩

theorem relocateStrings_intern {block live livePairs vm vm'} (hr : relocateStrings block live livePairs vm = .ok vm') :
    vm'.stringIntern = vm.stringIntern := by
  simp only [relocateStrings, Results.bind_ok, Prod.exists] at hr
  obtain ⟨_, _, _, _, _, _, _, _, _, _, _, _, _, _, _, _, _, _, _, hr⟩ := hr
  cases hr
  rfl

/-- A compaction of a VM that holds strings. -/
structure StringCompacted (env : Env) (vm vm' : Vm) (live livePairs : List Nat) : Prop where
  marked : markLiveNodeHandles env vm [] = .ok live
  markedPairs : markLiveScratchPairHandles env vm = .ok livePairs
  moved : StringsMoved (freshBlock env vm) live livePairs vm vm'
  intern : ∃ vm₁ : Vm, vm₁.stringArena = vm'.stringArena ∧ vm₁.stringIntern = vm.stringIntern ∧
    vm'.stringIntern = rebuildStringInternIndex env vm₁

theorem freshBlock_ne (env : Env) (vm : Vm) : freshBlock env vm ≠ vm.stringBlock := by
  unfold freshBlock
  split
  · omega
  · assumption

theorem compactStringArena_ok {env vm u vm'} (h : compactStringArena env vm = .ok u vm') :
    (vm.stringArena.length = 0 ∧ vm' = vm) ∨ ∃ live livePairs, StringCompacted env vm vm' live livePairs := by
  simp only [compactStringArena, VmM.bind_ok, VmM.get_run, Outcome.ok.injEq] at h
  obtain ⟨_, _, ⟨rfl, rfl⟩, h⟩ := h
  split at h
  · rename_i hn
    cases h
    exact .inl ⟨hn, rfl⟩
  · simp only [VmM.bind_ok, VmM.lift_ok, VmM.modify_run, Outcome.ok.injEq] at h
    obtain ⟨_, _, ha, live, _, ⟨hl, rfl⟩, livePairs, _, ⟨hp, rfl⟩, moved, _, ⟨hm, rfl⟩, _, _, ⟨_, rfl⟩, _, rfl⟩ := h
    obtain rfl := Env.allocate_ok ha
    have m := relocateStrings_ok (freshBlock_ne _ _) hm
    refine .inr ⟨live, livePairs, hl, hp, ⟨?_, m.arena, m.stack, m.locals, m.tasks, m.pars, m.pairs, m.nodes, m.attrs⟩,
      moved, rfl, relocateStrings_intern hm, rfl⟩
    exact congrArg (fun x : Vm => { x with stringIntern := rebuildStringInternIndex env moved }) m.frame

/-- The relation between a live value before a string compaction and the same value after it. -/
inductive Restrung (vm : Vm) (block : Nat) (arena : List Byte) (live livePairs : List Nat) : Value → Value → Prop where
  | node {h} : (h ∈ live ∨ vm.lookupNode h = none) → Restrung vm block arena live livePairs (.node h) (.node h)
  | pair {k} : (k ∈ livePairs ∨ vm.lookupScratchPair k = none) →
      Restrung vm block arena live livePairs (.pair k) (.pair k)
  | leaf {v w} : (∀ h, v ≠ .node h) → (∀ k, v ≠ .pair k) → ValueMoved vm.toHeap block arena v w →
      Restrung vm block arena live livePairs v w

theorem ValueMoved.like {h : Heap} {block arena v w} (hm : ValueMoved h block arena v w) : v.Like w := by
  cases hm with
  | string hp => exact hp.null_iff
  | other _ => exact .refl v

/-- Handles stay what they are. -/
theorem Restrung.handle_eq {vm : Vm} {block arena live livePairs v w} (hm : Restrung vm block arena live livePairs v w)
    (hv : v.IsHandle) : w = v := by
  cases hm with
  | node _ => rfl
  | pair _ => rfl
  | leaf _ _ hm =>
      cases hm with
      | string _ => cases hv
      | other _ => rfl

theorem AttrMoved.meaning {h h' : Heap} {block arena a a' m} (ha : AttrMoved h block arena a a')
    (hb : h'.stringBlock = block) (hs : h'.stringArena = arena) (hm : h.attrMeaning a = some m) :
    h'.attrMeaning a' = some m := by
  obtain ⟨key, value⟩ := a
  obtain ⟨key', value'⟩ := a'
  obtain ⟨hk, hv⟩ := ha
  simp only [Heap.attrMeaning, Option.bind_eq_bind, Option.bind_eq_some_iff] at hm ⊢
  obtain ⟨k, hkey, hm⟩ := hm
  refine ⟨k, hk.cstr hb hs hkey, ?_⟩
  cases hv with
  | identifier hp =>
      simp only [Option.bind_eq_some_iff] at hm ⊢
      obtain ⟨t, ht, hm⟩ := hm
      exact ⟨t, hp.cstr hb hs ht, hm⟩
  | string hp =>
      simp only [Option.bind_eq_some_iff] at hm ⊢
      obtain ⟨t, ht, hm⟩ := hm
      exact ⟨t, hp.cstr hb hs ht, hm⟩
  | int => exact hm
  | bool => exact hm

namespace StringCompacted

variable {env : Env} {vm vm' : Vm} {live livePairs : List Nat}

theorem heap (c : StringCompacted env vm vm' live livePairs) :
    vm'.toHeap = { vm.toHeap with
      scratchPairs := vm'.scratchPairs, nodes := vm'.nodes, nodeAttrs := vm'.nodeAttrs, stringArena := vm'.stringArena
      stringBlock := freshBlock env vm } :=
  congrArg Vm.toHeap c.moved.frame

theorem lookupNode (c : StringCompacted env vm vm' live livePairs) {h n} (hn : vm.lookupNode h = some n) :
    ∃ n', vm'.lookupNode h = some n' ∧
      NodeStringsMoved vm.toHeap (freshBlock env vm) live (vm'.nodeAttrs, vm'.stringArena) (n, h - 1) n' := by
  obtain ⟨h0, hget⟩ := (Heap.lookupNode_eq_some _).1 hn
  have hz : vm.nodes.zipIdx[h - 1]? = some (n, h - 1) := by simp [hget]
  obtain ⟨n', hn', hm⟩ := forall₂_getElem? c.moved.nodes hz
  exact ⟨n', (Heap.lookupNode_eq_some _).2 ⟨h0, hn'⟩, hm⟩

theorem lookupScratchPair (c : StringCompacted env vm vm' live livePairs) {k p}
    (hp : vm.lookupScratchPair k = some p) :
    ∃ p', vm'.lookupScratchPair k = some p' ∧
      PairStringsMoved vm.toHeap (freshBlock env vm) livePairs vm'.stringArena (p, k - 1) p' := by
  obtain ⟨h0, hget⟩ := (Heap.lookupScratchPair_eq_some _).1 hp
  have hz : vm.scratchPairs.zipIdx[k - 1]? = some (p, k - 1) := by simp [hget]
  obtain ⟨p', hp', hm⟩ := forall₂_getElem? c.moved.pairs hz
  exact ⟨p', (Heap.lookupScratchPair_eq_some _).2 ⟨h0, hp'⟩, hm⟩

/-- The attributes of a live node are the old ones, rewritten. -/
theorem attrsOf (c : StringCompacted env vm vm' live livePairs) {n n' : NodeRecord} {i : Nat}
    (hm : NodeStringsMoved vm.toHeap (freshBlock env vm) live (vm'.nodeAttrs, vm'.stringArena) (n, i) n')
    (hi : i + 1 ∈ live) :
    List.Forall₂ (AttrMoved vm.toHeap (freshBlock env vm) vm'.stringArena) (vm.attrsOf n) (vm'.attrsOf n') := by
  have hlen := c.moved.attrs.slots.length_eq
  simp only at hlen
  have hshape : n'.attrStart = n.attrStart ∧ n'.attrCount = n.attrCount := by
    rw [hm.shape]
    exact ⟨rfl, rfl⟩
  simp only [Heap.attrsOf, slice, hshape.1, hshape.2]
  rw [List.forall₂_iff_get]
  refine ⟨by simp [hlen], fun j h₁ h₂ => ?_⟩
  simp only [List.length_take, List.length_drop] at h₁ h₂
  have hslot := hm.attrs hi (n.attrStart + j) (by simp only; omega) (by simp only; omega)
  obtain ⟨a', ha', hmoved⟩ := hslot vm.nodeAttrs[n.attrStart + j] (by simp)
  simp only [List.get_eq_getElem, List.getElem_take, List.getElem_drop]
  rw [(List.getElem?_eq_some_iff.1 ha').2]
  exact hmoved

theorem nodeLabel (c : StringCompacted env vm vm' live livePairs) {n n' : NodeRecord} {i : Nat} {l}
    (hm : NodeStringsMoved vm.toHeap (freshBlock env vm) live (vm'.nodeAttrs, vm'.stringArena) (n, i) n')
    (hi : i + 1 ∈ live) (hl : vm.nodeLabel n = some l) : vm'.nodeLabel n' = some l := by
  have hblock : vm'.stringBlock = freshBlock env vm := by rw [c.heap]
  simp only [Heap.nodeLabel, Option.bind_eq_bind, Option.bind_eq_some_iff, Option.pure_def, Option.some.injEq] at hl ⊢
  obtain ⟨kind, hk, id, hid, attrs, ha, rfl⟩ := hl
  refine ⟨kind, (hm.kind hi).cstr hblock rfl hk, id, (hm.id hi).cstr hblock rfl hid, attrs, ?_, rfl⟩
  have hattrs := c.attrsOf hm hi
  rw [mapM_eq_some] at ha ⊢
  clear hk hid
  generalize vm.attrsOf n = as at ha hattrs
  generalize vm'.attrsOf n' = as' at hattrs ⊢
  induction hattrs generalizing attrs with
  | nil =>
      cases ha
      exact .nil
  | cons hmoved _ ih =>
      cases ha with
      | cons hx hrest => exact .cons (hmoved.meaning hblock rfl hx) (ih _ hrest)

/-- A node reachable from the roots is live, if it exists. -/
theorem node_live (c : StringCompacted env vm vm' live livePairs) {h} (hr : vm.NodeReachable [] h) :
    h ∈ live ∨ vm.lookupNode h = none := by
  obtain ⟨_, _, _, hlive, _⟩ := markLiveNodeHandles_spec c.marked
  cases hn : vm.lookupNode h with
  | none => exact .inr rfl
  | some n => exact .inl ((hlive h).2 ⟨hr, lookupNode_range hn⟩)

theorem pair_live (c : StringCompacted env vm vm' live livePairs) {k} (hr : vm.PairReachable k) :
    k ∈ livePairs ∨ vm.lookupScratchPair k = none := by
  cases hp : vm.lookupScratchPair k with
  | none => exact .inr rfl
  | some p => exact .inl ((mem_livePairs c.markedPairs).2 ⟨hr, p, hp⟩)

/-- A rewritten value whose handles are reachable. -/
theorem restrung (c : StringCompacted env vm vm' live livePairs) {v w}
    (hv : ValueMoved vm.toHeap (freshBlock env vm) vm'.stringArena v w)
    (hn : ∀ h, v = .node h → vm.NodeReachable [] h) (hp : ∀ k, v = .pair k → vm.PairReachable k) :
    Restrung vm (freshBlock env vm) vm'.stringArena live livePairs v w := by
  cases v with
  | node h =>
      cases hv
      exact .node (c.node_live (hn h rfl))
  | pair k =>
      cases hv
      exact .pair (c.pair_live (hp k rfl))
  | _ => exact .leaf (by simp) (by simp) hv

/-- The components of a reachable pair are rewritten. -/
theorem pair_restrung (c : StringCompacted env vm vm' live livePairs) {k p} (hk : k ∈ livePairs)
    (hp : vm.lookupScratchPair k = some p) :
    ∃ p', vm'.lookupScratchPair k = some p' ∧
      Restrung vm (freshBlock env vm) vm'.stringArena live livePairs p.first p'.first ∧
      Restrung vm (freshBlock env vm) vm'.stringArena live livePairs p.second p'.second := by
  obtain ⟨p', hp', hm⟩ := c.lookupScratchPair hp
  have hr := ((mem_livePairs c.markedPairs).1 hk).1
  have hk' : k - 1 + 1 ∈ livePairs := by
    rwa [Nat.sub_add_cancel (lookupScratchPair_range hp).1]
  refine ⟨p', hp', c.restrung (hm.first hk') ?_ ?_, c.restrung (hm.second hk') ?_ ?_⟩
  · exact fun h hh => .root (.inl ⟨.pairFirst k, hr, p, hp, hh.symm⟩)
  · exact fun j hj => hr.first hp hj
  · exact fun h hh => .root (.inl ⟨.pairSecond k, hr, p, hp, hh.symm⟩)
  · exact fun j hj => hr.second hp hj

theorem nodeReachable_of_live (c : StringCompacted env vm vm' live livePairs) {h} (hh : h ∈ live) :
    vm.NodeReachable [] h := by
  obtain ⟨_, _, _, hlive, _⟩ := markLiveNodeHandles_spec c.marked
  exact ((hlive h).1 hh).1

/-- Reading a rewritten value afterwards gives what the old value gave before. -/
theorem simulates (c : StringCompacted env vm vm' live livePairs) :
    Simulates vm.expand vm'.expand (Restrung vm (freshBlock env vm) vm'.stringArena live livePairs) := by
  intro v w hvw l vs hexp
  cases hvw with
  | @node h hh =>
      obtain ⟨n, hn, hslices, hlabel, rfl⟩ := (Heap.expand_node _).1 hexp
      have hlive : h ∈ live := by
        rcases hh with hh | hh
        · exact hh
        · rw [hn] at hh
          cases hh
      obtain ⟨n', hn', hm⟩ := c.lookupNode hn
      have hlive' : h - 1 + 1 ∈ live := by
        rwa [Nat.sub_add_cancel (lookupNode_range hn).1]
      have hlen : vm.nodeAttrs.length = vm'.nodeAttrs.length := c.moved.attrs.slots.length_eq
      have hchildren : vm'.nodeChildren = vm.nodeChildren := by rw [c.heap]
      have hslices' : vm'.SlicesInRange n' := by
        rw [hm.shape]
        unfold Heap.SlicesInRange at hslices ⊢
        rw [← hlen, hchildren]
        exact hslices
      refine ⟨(vm.childrenOf n).map .node, (Heap.expand_node _).2 ⟨n', hn', hslices', c.nodeLabel hm hlive' hlabel, ?_⟩, ?_⟩
      · rw [hm.shape]
        simp only [Heap.childrenOf, hchildren]
      · rw [List.forall₂_same]
        intro x hx
        obtain ⟨y, hy, rfl⟩ := List.mem_map.1 hx
        exact .node (c.node_live ((c.nodeReachable_of_live hlive).child hn hy))
  | @pair k hk =>
      obtain ⟨p, hp, rfl, rfl⟩ := (Heap.expand_pair _).1 hexp
      have hlive : k ∈ livePairs := by
        rcases hk with hk | hk
        · exact hk
        · rw [hp] at hk
          cases hk
      obtain ⟨p', hp', hfirst, hsecond⟩ := c.pair_restrung hlive hp
      exact ⟨[p'.first, p'.second], (Heap.expand_pair _).2 ⟨p', hp', rfl, rfl⟩, .cons hfirst (.cons hsecond .nil)⟩
  | leaf hn hp hm =>
      obtain rfl := Heap.expand_leaf _ hn hp hexp
      refine ⟨[], ?_, .nil⟩
      have hblock : vm'.stringBlock = freshBlock env vm := by rw [c.heap]
      have hbytes : vm'.bytesAt = vm.bytesAt := Heap.bytesAt_congr (by rw [c.heap]) (by rw [c.heap])
      cases hm with
      | @string p p' hptr =>
          cases p with
          | null =>
              rcases hptr with ⟨_, rfl⟩ | ⟨hin, _⟩
              · exact hexp
              · simp [Heap.pointerInStringArena] at hin
          | _ =>
              simp only [Heap.expand, Option.map_eq_some_iff, Prod.mk.injEq] at hexp
              obtain ⟨t, ht, rfl, _⟩ := hexp
              have ht' := hptr.cstr hblock rfl ht
              cases p' with
              | null => simp [Heap.cstr] at ht'
              | _ => simp [Heap.expand, ht']
      | other hs =>
          cases v with
          | string p => exact absurd rfl (hs p)
          | node h => exact absurd rfl (hn h)
          | pair k => exact absurd rfl (hp k)
          | bytes d m => simpa [Heap.expand, hbytes] using hexp
          | _ => exact hexp

/-! ## Roots before and after -/

theorem handle_live (c : StringCompacted env vm vm' live livePairs) {r h} (hh : vm.Holds r (.node h)) :
    Restrung vm (freshBlock env vm) vm'.stringArena live livePairs (.node h) (.node h) :=
  .node (c.node_live (.root (.inl ⟨r, hh⟩)))

theorem restrung_root (c : StringCompacted env vm vm' live livePairs) {r v w} (hv : vm.Holds r v)
    (hroot : v ∈ vm.rootValues) (hm : ValueMoved vm.toHeap (freshBlock env vm) vm'.stringArena v w) :
    Restrung vm (freshBlock env vm) vm'.stringArena live livePairs v w :=
  c.restrung hm (fun _ hh => .root (.inl ⟨r, hh ▸ hv⟩)) fun _ hk => .root (hk ▸ hroot)

/-- A string compaction moves every root, rewriting its strings. -/
theorem moves (c : StringCompacted env vm vm' live livePairs) :
    Moves (Restrung vm (freshBlock env vm) vm'.stringArena live livePairs) vm vm' where
  frame := by
    unfold Vm.SameFrame
    rw [c.moved.frame]
  simulates := c.simulates
  like := by
    rintro v w hvw
    cases hvw with
    | node _ => trivial
    | pair _ => trivial
    | leaf _ _ hm => exact hm.like
  oneToOne := by
    rintro v v' w w' hvw hvw' hv hv'
    rw [hvw.handle_eq hv, hvw'.handle_eq hv']
  inRange := by
    rintro v w hvw hv
    have hnodes := c.moved.nodes.length_eq
    have hpairs := c.moved.pairs.length_eq
    rw [List.length_zipIdx] at hnodes hpairs
    cases hvw with
    | node _ => exact hv.mono (Nat.le_of_eq hnodes) (Nat.le_of_eq hpairs)
    | pair _ => exact hv.mono (Nat.le_of_eq hnodes) (Nat.le_of_eq hpairs)
    | leaf _ _ hm =>
        cases hm with
        | string _ => trivial
        | other _ => exact hv.mono (Nat.le_of_eq hnodes) (Nat.le_of_eq hpairs)
  stack := by
    refine forall₂_imp_mem c.moved.stack fun v w hv hm => ?_
    obtain ⟨i, hi⟩ := List.mem_iff_getElem?.1 hv
    exact c.restrung_root (r := .stack i) hi (mem_rootValues.2 (.inl ⟨i, hi⟩)) hm
  locals := by
    refine forall₂_imp_mem c.moved.locals fun v w hv hm => ?_
    obtain ⟨i, hi⟩ := List.mem_iff_getElem?.1 hv
    exact c.restrung_root (r := .local i) hi (mem_rootValues.2 (.inr (.inl ⟨i, hi⟩))) hm
  tasks := by
    refine forall₂_imp_mem c.moved.tasks fun t t' ht hm => ?_
    obtain ⟨i, hi⟩ := List.mem_iff_getElem?.1 ht
    have hholds : vm.Holds (.task i) t.result := ⟨t, hi, rfl⟩
    exact ⟨hm.1, c.restrung_root hholds (mem_rootValues.2 (.inr (.inr (.inl ⟨i, hholds⟩)))) hm.2⟩
  pars := by
    refine forall₂_imp_mem c.moved.pars fun v w hv hm => ?_
    obtain ⟨i, hi⟩ := List.mem_iff_getElem?.1 hv
    exact c.restrung_root (r := .par i) hi (mem_rootValues.2 (.inr (.inr (.inr ⟨i, hi⟩)))) hm
  builders := by
    rw [show vm'.nodeBuilders = vm.nodeBuilders by rw [c.moved.frame]]
    refine List.forall₂_same.2 fun b hb => ?_
    obtain ⟨i, hi⟩ := List.mem_iff_getElem?.1 hb
    cases b with
    | none => exact .none
    | some b =>
        refine .some (List.forall₂_same.2 fun x hx => ?_)
        obtain ⟨j, hj⟩ := List.mem_iff_getElem?.1 hx
        exact c.handle_live (r := .builderChild i j) ⟨b, x, hi, hj, rfl⟩
  processArgv := by
    intro h0
    rw [show vm'.processArgvNodeHandle = vm.processArgvNodeHandle by rw [c.moved.frame]]
    exact ⟨h0, c.handle_live (r := .processArgv) ⟨h0, rfl⟩⟩
  uiDefaultWindowSize := by
    intro h0
    rw [show vm'.uiDefaultWindowSizeNodeHandle = vm.uiDefaultWindowSizeNodeHandle by rw [c.moved.frame]]
    exact ⟨h0, c.handle_live (r := .uiDefaultWindowSize) ⟨h0, rfl⟩⟩
  uiEmptyEvent := by
    intro h0
    rw [show vm'.uiEmptyEventNodeHandle = vm.uiEmptyEventNodeHandle by rw [c.moved.frame]]
    exact ⟨h0, c.handle_live (r := .uiEmptyEvent) ⟨h0, rfl⟩⟩

theorem Restrung.pair {vm : Vm} {block arena live livePairs k w} (h : Restrung vm block arena live livePairs (.pair k) w) :
    w = .pair k := by
  cases h with
  | pair _ => rfl
  | leaf _ hp _ => exact absurd rfl (hp k)

theorem holds_forward (c : StringCompacted env vm vm' live livePairs) {r v} (h : vm.Holds r v) :
    ∃ w, vm'.Holds r w ∧ Restrung vm (freshBlock env vm) vm'.stringArena live livePairs v w :=
  c.moves.holds Restrung.pair h

/-! ## Reachable strings before and after -/

theorem nodeReachable_forward (c : StringCompacted env vm vm' live livePairs) {h} (hr : vm.NodeReachable [] h) :
    vm'.NodeReachable [] h := by
  induction hr with
  | root hroot =>
      rcases hroot with ⟨r, hr⟩ | hx
      · obtain ⟨w, hw, hm⟩ := c.holds_forward hr
        cases hm with
        | node _ => exact .root (.inl ⟨r, hw⟩)
        | leaf hn _ _ => exact absurd rfl (hn _)
      · cases hx
  | @child h n k hr hn hk ih =>
      obtain ⟨n', hn', hm⟩ := c.lookupNode hn
      have harena : vm'.nodeChildren = vm.nodeChildren := by rw [c.heap]
      have hchildren : vm'.childrenOf n' = vm.childrenOf n := by
        rw [hm.shape]
        simp only [Heap.childrenOf, harena]
      exact ih.child hn' (hchildren ▸ hk)

/-- Every reachable string pointer is rewritten where it stands. -/
theorem pointsAt_forward (c : StringCompacted env vm vm' live livePairs) {slot p} (h : vm.PointsAt slot p) :
    ∃ p', vm'.PointsAt slot p' ∧ PtrMoved vm.toHeap (freshBlock env vm) vm'.stringArena p p' := by
  have hnode : ∀ {h n}, vm.NodeReachable [] h → vm.lookupNode h = some n → ∃ n', vm'.lookupNode h = some n' ∧
      NodeStringsMoved vm.toHeap (freshBlock env vm) live (vm'.nodeAttrs, vm'.stringArena) (n, h - 1) n' ∧
      h - 1 + 1 ∈ live := by
    intro h n hr hn
    obtain ⟨n', hn', hm⟩ := c.lookupNode hn
    refine ⟨n', hn', hm, ?_⟩
    rw [Nat.sub_add_cancel (lookupNode_range hn).1]
    rcases c.node_live hr with hl | hl
    · exact hl
    · rw [hn] at hl
      cases hl
  cases slot with
  | root r =>
      obtain ⟨w, hw, hm⟩ := c.holds_forward h
      cases hm with
      | leaf _ _ hm =>
          cases hm with
          | @string _ p' hp => exact ⟨p', hw, hp⟩
          | other hs => exact absurd rfl (hs p)
  | kind h₁ =>
      obtain ⟨hr, n, hn, rfl⟩ := h
      obtain ⟨n', hn', hm, hl⟩ := hnode hr hn
      exact ⟨n'.kind, ⟨c.nodeReachable_forward hr, n', hn', rfl⟩, hm.kind hl⟩
  | id h₁ =>
      obtain ⟨hr, n, hn, rfl⟩ := h
      obtain ⟨n', hn', hm, hl⟩ := hnode hr hn
      exact ⟨n'.id, ⟨c.nodeReachable_forward hr, n', hn', rfl⟩, hm.id hl⟩
  | key h₁ i =>
      obtain ⟨hr, n, a, hn, ha, rfl⟩ := h
      obtain ⟨n', hn', hm, hl⟩ := hnode hr hn
      obtain ⟨a', ha', hmoved⟩ := forall₂_getElem? (c.attrsOf hm hl) ha
      exact ⟨a'.key, ⟨c.nodeReachable_forward hr, n', a', hn', ha', rfl⟩, hmoved.1⟩
  | text h₁ i =>
      obtain ⟨hr, n, a, hn, ha, hp⟩ := h
      obtain ⟨n', hn', hm, hl⟩ := hnode hr hn
      obtain ⟨a', ha', hmoved⟩ := forall₂_getElem? (c.attrsOf hm hl) ha
      have hreach := c.nodeReachable_forward hr
      have hv := hmoved.2
      rcases hp with hp | hp
      · rw [hp] at hv
        generalize he : a'.value = v' at hv
        cases hv with
        | @identifier _ p' hp' => exact ⟨p', ⟨hreach, n', a', hn', ha', .inl he⟩, hp'⟩
      · rw [hp] at hv
        generalize he : a'.value = v' at hv
        cases hv with
        | @string _ p' hp' => exact ⟨p', ⟨hreach, n', a', hn', ha', .inr he⟩, hp'⟩

end StringCompacted

end Aivm
