import Aivm.Storage.Arenas

/-!
# Storage that covers its capacities

What the VM relies on whenever it works on its arenas, and which uses of the API keep it so. A profile changes the
capacities at once, while storage is claimed by `aivm_reset_state` only and node arenas are never allocated again; so a
run is followed with a note of how the storage stands.
-/

namespace Aivm

/-! ## The property -/

/-- The record of the size is right, the storage covers the capacity, and the limit lies in between. -/
structure ByteArena.Covers (a : ByteArena) : Prop where
  recorded : a.allocated = some a.storageCapacity
  capacity_le : a.capacity ≤ a.storageCapacity
  used_le : a.used ≤ a.limit
  limit_le : a.limit ≤ a.capacity

def NodeArena.Covers (a : NodeArena) : Prop := ∃ n, a.allocated = some n ∧ a.capacity ≤ n

structure VmStorage.Covered (s : VmStorage) : Prop where
  stringArena : s.stringArena.Covers
  bytesArena : s.bytesArena.Covers
  nodes : s.nodes.Covers
  nodeAttrs : s.nodeAttrs.Covers
  nodeChildren : s.nodeChildren.Covers

/-- An instruction that runs touches the arenas, or a compaction does. -/
def StorageEvent.WorksOn (s : VmStorage) : StorageEvent → Prop
  | .stringReserve .. | .stringAlloc .. | .bytesAlloc .. | .growNodeArenas .. => s.storageFailed = false
  | .compactNodes | .compactStrings _ | .compactBytes _ => True
  | _ => False

/-- Before and after every work on the arenas in a run, the storage covers the capacities. -/
def CoveredThroughout (events : List StorageEvent) : Prop :=
  ∀ before e rest, events = before ++ e :: rest → e.WorksOn (VmStorage.after before) →
    (VmStorage.after before).Covered ∧ (VmStorage.after (before ++ [e])).Covered

/-! ## The condition -/

/-- How the storage stands: whether the last reset claimed it and it was not freed since, whether a profile set since
that reset fits the byte arenas, and whether the last profile set fits the node arenas there were. -/
structure Standing where
  claimed : Bool
  bytesFit : Bool
  nodesFit : Bool
deriving DecidableEq, Repr

namespace VmStorage

/-- The storage of the byte arenas is large enough for a profile, and their limits small enough. -/
def BytesFit (s : VmStorage) (profile : RuntimeProfile) : Prop :=
  let limits := runtimeProfileLimits profile
  (s.stringArena.limit ≤ limits.stringArenaCapacity ∧ limits.stringArenaCapacity ≤ s.stringArena.storageCapacity) ∧
    s.bytesArena.limit ≤ limits.bytesArenaCapacity ∧ limits.bytesArenaCapacity ≤ s.bytesArena.storageCapacity

instance (s : VmStorage) (profile : RuntimeProfile) : Decidable (s.BytesFit profile) := by
  unfold BytesFit
  infer_instance

/-- The node arenas there are, if any, are large enough for a profile. -/
def NodesFit (s : VmStorage) (profile : RuntimeProfile) : Prop :=
  let limits := runtimeProfileLimits profile
  (∀ n ∈ s.nodes.allocated, limits.nodeCapacity ≤ n) ∧ (∀ n ∈ s.nodeAttrs.allocated, limits.nodeAttrCapacity ≤ n) ∧
    ∀ n ∈ s.nodeChildren.allocated, limits.nodeChildCapacity ≤ n

instance (s : VmStorage) (profile : RuntimeProfile) : Decidable (s.NodesFit profile) := by
  unfold NodesFit
  infer_instance

/-- The strings in use take more room than the limit can be raised to. -/
def CompactsStrings (s : VmStorage) (host : Nat → Bool) (size : Nat) : Prop :=
  (s.growStringArena host size).stringArena.limit < s.stringArena.used + size

end VmStorage

/-- The pieces that a compaction copies are different parts of the arena. -/
def ArenaLive.Apart (live : ArenaLive) (used : Nat) : Prop :=
  (∀ p ∈ live.pieces, p.start + p.size ≤ used) ∧
    live.pieces.Pairwise fun p q =>
      Disjoint (Intervals.cover ArenaPiece.start ArenaPiece.size p) (Intervals.cover ArenaPiece.start ArenaPiece.size q)

/-- The condition on a compaction of the string arena: the size on record is the capacity. -/
def VmStorage.StringsCompactable (s : VmStorage) (live : ArenaLive) : Prop :=
  s.stringArena.storageCapacity = s.stringArena.capacity ∧ live.Apart s.stringArena.used

namespace Standing

/-- Memory that holds no storage yet. -/
def initial : Standing := ⟨false, true, true⟩

/-- Claimed for the capacities of now. -/
def Ready (standing : Standing) : Prop :=
  standing.claimed = true ∧ standing.bytesFit = true ∧ standing.nodesFit = true

/-- How the storage stands after an event. Node arenas are never allocated again, so a reset does not help them. -/
def next (standing : Standing) (s : VmStorage) : StorageEvent → Standing
  | .init profile g => ⟨((s.setRuntimeProfile profile).ensureStorage g).claimed, true, s.NodesFit profile⟩
  | .setRuntimeProfile profile => ⟨standing.claimed, s.BytesFit profile, s.NodesFit profile⟩
  | .resetState g => ⟨(s.ensureStorage g).claimed, true, standing.nodesFit⟩
  | .dispose => initial
  | _ => standing

/-- The condition on one event: instructions and compactions run on storage that is claimed and fits, and a compaction
finds the size of the string arena on record. -/
def Meets (standing : Standing) (s : VmStorage) : StorageEvent → Prop
  | .init .. | .setRuntimeProfile _ | .resetState _ | .dispose => True
  | .stringReserve host live size | .stringAlloc host live size =>
      s.storageFailed = false → standing.Ready ∧ (s.CompactsStrings host size → s.StringsCompactable live)
  | .bytesAlloc .. | .growNodeArenas .. => s.storageFailed = false → standing.Ready
  | .compactNodes => standing.Ready
  | .compactStrings live => standing.Ready ∧ s.StringsCompactable live
  | .compactBytes live => standing.Ready ∧ live.Apart s.bytesArena.used

/-- Every event of a run meets its condition. -/
def AllMeet (standing : Standing) (s : VmStorage) : List StorageEvent → Prop
  | [] => True
  | e :: es => standing.Meets s e ∧ (standing.next s e).AllMeet (s.step e) es

end Standing

/-- The condition on a run from zeroed memory. -/
def MeetsStorageCondition (events : List StorageEvent) : Prop := Standing.initial.AllMeet .zeroed events

end Aivm
