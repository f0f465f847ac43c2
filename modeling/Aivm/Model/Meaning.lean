import Aivm.Lib.CStrings
import Aivm.Lib.Unfold
import Aivm.Model.Types

/-!
# What a value denotes

A value denotes a finite tree read through the stores: strings and bytes by their contents, nodes by kind, id,
attributes and children, pairs by their two components, everything else by itself. A pointer into an arena that
has been replaced, or a handle out of range, denotes nothing.
-/

namespace Aivm

open Unfold

inductive AttrMeaning where
  | identifier (text : List Byte)
  | string (text : List Byte)
  | int (value : Int)
  | bool (value : Bool)
deriving DecidableEq, Repr

/-- The label of a tree node: what a cell says besides the values stored in it. -/
inductive Label where
  | scalar (value : Value)
  | nullString
  | string (text : List Byte)
  | bytes (data : List Byte)
  | node (kind id : List Byte) (attrs : List (List Byte × AttrMeaning))
  | pair
deriving DecidableEq, Repr

namespace Heap

variable (h : Heap)

/-- The string a pointer designates. -/
def cstr : StrPtr → Option (List Byte)
  | .null => none
  | .lit text => some (text.takeWhile (· ≠ 0))
  | .arena block offset => if block = h.stringBlock then CStrings.read 0 (h.stringArena.drop offset) else none

/-- The bytes of a view. -/
def bytesAt (data : BytesPtr) (length : Nat) : Option (List Byte) :=
  if length = 0 then some []
  else
    match data with
    | .null => none
    | .ext d => if length ≤ d.length then some (d.take length) else none
    | .arena block offset =>
        if block = h.bytesBlock ∧ offset + length ≤ h.bytesArena.length then
          some ((h.bytesArena.drop offset).take length)
        else none

def attrMeaning (a : NodeAttr) : Option (List Byte × AttrMeaning) := do
  let key ← h.cstr a.key
  match a.value with
  | .identifier p => return (key, .identifier (← h.cstr p))
  | .string p => return (key, .string (← h.cstr p))
  | .int i => return (key, .int i)
  | .bool b => return (key, .bool b)

/-- The slices of a node lie within the side arenas. -/
def SlicesInRange (n : NodeRecord) : Prop :=
  n.attrStart + n.attrCount ≤ h.nodeAttrs.length ∧ n.childStart + n.childCount ≤ h.nodeChildren.length

instance (n : NodeRecord) : Decidable (h.SlicesInRange n) := by
  unfold SlicesInRange
  infer_instance

/-- The label of a node record. -/
def nodeLabel (n : NodeRecord) : Option Label := do
  let kind ← h.cstr n.kind
  let id ← h.cstr n.id
  let attrs ← (h.attrsOf n).mapM h.attrMeaning
  return .node kind id attrs

/-- The cell behind a value: its label and the values stored in it. -/
def expand : Value → Option (Label × List Value)
  | .string .null => some (.nullString, [])
  | .string p => (h.cstr p).map fun s => (.string s, [])
  | .bytes d n => (h.bytesAt d n).map fun b => (.bytes b, [])
  | .node k => do
      let n ← h.lookupNode k
      if h.SlicesInRange n then
        return (← h.nodeLabel n, (h.childrenOf n).map .node)
      else none
  | .pair k => (h.lookupScratchPair k).map fun p => (.pair, [p.first, p.second])
  | v => some (.scalar v, [])

abbrev Denotes (v : Value) (t : Unfold.Tree Label) : Prop := Unfold.Denotes h.expand v t

theorem expand_node {k l vs} : h.expand (.node k) = some (l, vs) ↔
    ∃ n, h.lookupNode k = some n ∧ h.SlicesInRange n ∧ h.nodeLabel n = some l ∧
      vs = (h.childrenOf n).map .node := by
  simp only [expand, Option.bind_eq_bind, Option.bind_eq_some_iff]
  constructor
  · rintro ⟨n, hn, he⟩
    split at he
    · rename_i hs
      obtain ⟨l', hl, he⟩ := Option.bind_eq_some_iff.1 he
      cases he
      exact ⟨n, hn, hs, hl, rfl⟩
    · cases he
  · rintro ⟨n, hn, hs, hl, rfl⟩
    exact ⟨n, hn, by simp [hs, hl]⟩

theorem expand_pair {k l vs} : h.expand (.pair k) = some (l, vs) ↔
    ∃ p, h.lookupScratchPair k = some p ∧ l = .pair ∧ vs = [p.first, p.second] := by
  simp only [expand, Option.map_eq_some_iff, Prod.mk.injEq]
  constructor
  · rintro ⟨p, hp, hl, hv⟩
    exact ⟨p, hp, hl.symm, hv.symm⟩
  · rintro ⟨p, hp, rfl, rfl⟩
    exact ⟨p, hp, rfl, rfl⟩

/-- A value that is no handle has no values below it. -/
theorem expand_leaf {v l vs} (hn : ∀ k, v ≠ .node k) (hp : ∀ k, v ≠ .pair k) (he : h.expand v = some (l, vs)) :
    vs = [] := by
  cases v with
  | node k => exact absurd rfl (hn k)
  | pair k => exact absurd rfl (hp k)
  | string p =>
      cases p <;> simp only [expand, Option.some.injEq, Option.map_eq_some_iff, Prod.mk.injEq] at he
      · exact he.2.symm
      · obtain ⟨_, _, _, hvs⟩ := he
        exact hvs.symm
      · obtain ⟨_, _, _, hvs⟩ := he
        exact hvs.symm
  | bytes d n =>
      simp only [expand, Option.map_eq_some_iff, Prod.mk.injEq] at he
      obtain ⟨_, _, _, hvs⟩ := he
      exact hvs.symm
  | _ =>
      simp only [expand, Option.some.injEq, Prod.mk.injEq] at he
      exact he.2.symm

theorem cstr_congr {a b : Heap} (hs : b.stringArena = a.stringArena) (hb : b.stringBlock = a.stringBlock) :
    b.cstr = a.cstr := by
  funext p
  cases p <;> simp [cstr, hs, hb]

theorem bytesAt_congr {a b : Heap} (hs : b.bytesArena = a.bytesArena) (hb : b.bytesBlock = a.bytesBlock) :
    b.bytesAt = a.bytesAt := by
  funext d n
  simp [bytesAt, hs, hb]

/-- A value that is no handle is read from the two byte arenas only. -/
theorem expand_congr {a b : Heap} (hc : b.cstr = a.cstr) (hb : b.bytesAt = a.bytesAt) {v} (hn : ∀ k, v ≠ .node k)
    (hp : ∀ k, v ≠ .pair k) : b.expand v = a.expand v := by
  cases v with
  | node k => exact absurd rfl (hn k)
  | pair k => exact absurd rfl (hp k)
  | string p => cases p <;> simp [expand, hc]
  | bytes d n => simp [expand, hb]
  | _ => rfl

theorem nodeLabel_congr {a b : Heap} (hc : b.cstr = a.cstr) {n n' : NodeRecord} (hk : n'.kind = n.kind)
    (hi : n'.id = n.id) (ha : b.attrsOf n' = a.attrsOf n) : b.nodeLabel n' = a.nodeLabel n := by
  have hm : b.attrMeaning = a.attrMeaning := by
    funext x
    simp [attrMeaning, hc]
  simp [nodeLabel, hc, hm, hk, hi, ha]

theorem lookupNode_eq_some {k n} : h.lookupNode k = some n ↔ 0 < k ∧ h.nodes[k - 1]? = some n := by
  unfold lookupNode
  split <;> simp_all

theorem lookupScratchPair_eq_some {k p} :
    h.lookupScratchPair k = some p ↔ 0 < k ∧ h.scratchPairs[k - 1]? = some p := by
  unfold lookupScratchPair
  split <;> simp_all

end Heap

end Aivm
