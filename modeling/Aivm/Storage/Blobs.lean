import Aivm.Lib.Slots
import Aivm.Machine.Text

/-!
# The blob store

Blobs are byte strings that the host keeps behind handles. A table of slots holds them. Handles are counted up and start
again at a reset only.
-/

namespace Aivm

/-- `AIVM_VM_BLOB_CAPACITY`. -/
def blobCapacity : Nat := 64

/-- `AIVM_VM_BLOB_BYTES`. -/
def blobBytes : Nat := 16 * 1024 * 1024

/-- `AivmBlobRecord`. -/
structure BlobRecord where
  handle : Int
  data : List Byte
  active : Bool
deriving DecidableEq, Repr

/-- `clear_blob_record`. -/
def BlobRecord.cleared : BlobRecord := ⟨0, [], false⟩

/-- The fields of `AivmVm` that belong to blobs. -/
structure BlobStore where
  blobs : List BlobRecord
  length_blobs : blobs.length = blobCapacity
  blobCount : Nat
  blobBytesUsed : Nat
  blobBytesHighWater : Nat
  blobPressureCount : Nat
  nextBlobHandle : Int

/-- A machine as far as blobs are concerned. It has storage once all its arenas are allocated. -/
structure BlobVm where
  hasStorage : Bool
  store : BlobStore

/-- What the allocator of the host grants during a call. -/
structure BlobHost where
  storage : Bool
  memory : Bool

/-- The statuses of `AivmBlobStatus` other than `AIVM_BLOB_OK`. -/
inductive BlobError where
  | invalid
  | limit
  | notFound
  | oom
deriving DecidableEq, Repr

/-- The `data` and `length` of `aivm_blob_create`. -/
inductive BlobSource where
  | null (length : Nat)
  | bytes (contents : List Byte)
deriving DecidableEq, Repr

/-- The length is that of some bytes, or is given for none. -/
def BlobSource.isMissing : BlobSource → Bool
  | .null length => decide (0 < length)
  | .bytes _ => false

def BlobSource.contents : BlobSource → List Byte
  | .null _ => []
  | .bytes contents => contents

namespace BlobStore

variable (store : BlobStore)

/-- The blobs of the store. -/
def activeBlobs : List BlobRecord := store.blobs.filter BlobRecord.active

/-- Put a record into a slot. -/
def setBlob (index : Nat) (blob : BlobRecord) : BlobStore :=
  { store with
    blobs := store.blobs.set index blob
    length_blobs := List.length_set.trans store.length_blobs }

/-- `aivm_counter_increment_saturating` of the pressure counter. -/
def underPressure : BlobStore :=
  { store with
    blobPressureCount := if store.blobPressureCount + 1 < 2 ^ 64 then store.blobPressureCount + 1 else 2 ^ 64 - 1 }

/-- `aivm_release_all_blobs`. -/
def releaseAllBlobs : BlobStore :=
  { store with
    blobs := List.replicate blobCapacity .cleared
    length_blobs := List.length_replicate
    blobCount := 0
    blobBytesUsed := 0 }

/-- What `aivm_reset_state` makes of the store. -/
def reset : BlobStore :=
  { store.releaseAllBlobs with
    blobBytesHighWater := 0
    blobPressureCount := 0
    nextBlobHandle := 1 }

/-- `find_blob`. -/
def findBlob (handle : Int) : Option Nat :=
  if handle ≤ 0 then none else store.blobs.findIdx? fun blob => blob.active && blob.handle == handle

/-- `aivm_blob_create` in a machine that has storage. The copy is allocated last. -/
def create (hasMemory : Bool) (contents : List Byte) : Except BlobError Int × BlobStore :=
  let needed := store.blobBytesUsed + contents.length
  if blobCapacity ≤ store.blobCount ∨ 2 ^ 64 ≤ needed ∨ blobBytes < needed ∨ store.nextBlobHandle ≤ 0 then
    (.error .limit, store.underPressure)
  else
    match store.blobs.findIdx? fun blob => !blob.active with
    | none => (.error .limit, store.underPressure)
    | some index =>
        if 0 < contents.length ∧ hasMemory = false then (.error .oom, store.underPressure)
        else
          (.ok store.nextBlobHandle,
            { store.setBlob index ⟨store.nextBlobHandle, contents, true⟩ with
              nextBlobHandle := wrapInt64 (store.nextBlobHandle + 1)
              blobCount := store.blobCount + 1
              blobBytesUsed := needed
              blobBytesHighWater := max store.blobBytesHighWater needed })

/-- `aivm_blob_read`. -/
def read (handle : Int) (offset length : Nat) (hasData hasRead : Bool) : Except BlobError (List Byte) :=
  if hasRead = false ∨ (0 < length ∧ hasData = false) then .error .invalid
  else
    match store.findBlob handle with
    | none => .error .notFound
    | some index =>
        let data := (store.blobs.getD index .cleared).data
        if data.length ≤ offset then .ok []
        else .ok ((data.drop offset).take (min length (data.length - offset)))

/-- `aivm_blob_release`. -/
def release (handle : Int) : Except BlobError Unit × BlobStore :=
  match store.findBlob handle with
  | none => (.error .notFound, store)
  | some index =>
      let length := (store.blobs.getD index .cleared).data.length
      (.ok (),
        { store.setBlob index .cleared with
          blobCount := store.blobCount - 1
          blobBytesUsed := if length ≤ store.blobBytesUsed then store.blobBytesUsed - length else 0 })

end BlobStore

namespace BlobVm

/-- `aivm_vm_ensure_storage`. -/
def ensureStorage (host : BlobHost) (vm : BlobVm) : BlobVm := { vm with hasStorage := vm.hasStorage || host.storage }

/-- `aivm_blob_create`. -/
def create (host : BlobHost) (source : BlobSource) (hasHandle : Bool) (vm : BlobVm) : Except BlobError Int × BlobVm :=
  if hasHandle = false ∨ source.isMissing then (.error .invalid, vm)
  else
    let vm := ensureStorage host vm
    if vm.hasStorage then
      let result := vm.store.create host.memory source.contents
      (result.1, { vm with store := result.2 })
    else (.error .oom, { vm with store := vm.store.underPressure })

/-- `aivm_reset_state`. -/
def resetState (host : BlobHost) (vm : BlobVm) : BlobVm :=
  let vm := ensureStorage host vm
  if vm.hasStorage then { vm with store := vm.store.reset } else vm

/-- The cleared memory that `prepare_vm_for_init` leaves. -/
def cleared : BlobVm where
  hasStorage := false
  store :=
    { blobs := List.replicate blobCapacity .cleared
      length_blobs := List.length_replicate
      blobCount := 0
      blobBytesUsed := 0
      blobBytesHighWater := 0
      blobPressureCount := 0
      nextBlobHandle := 0 }

end BlobVm

/-! ## Sequences of calls -/

inductive BlobCall where
  | create (host : BlobHost) (source : BlobSource) (hasHandle : Bool)
  | read (handle : Int) (offset length : Nat) (hasData hasRead : Bool)
  | release (handle : Int)
  | reset (host : BlobHost)

/-- What a call has done to the blobs. -/
inductive BlobEvent where
  | created (handle : Int) (contents : List Byte)
  | released (handle : Int)
  | reset
deriving DecidableEq, Repr

/-- A machine and what has been done, newest first. -/
structure BlobState where
  history : List BlobEvent
  vm : BlobVm

/-- One call. -/
def BlobState.call (state : BlobState) : BlobCall → BlobState
  | .create host source hasHandle =>
      let result := state.vm.create host source hasHandle
      match result.1 with
      | .ok handle => ⟨.created handle source.contents :: state.history, result.2⟩
      | .error _ => ⟨state.history, result.2⟩
  | .read .. => state
  | .release handle =>
      let result := state.vm.store.release handle
      match result.1 with
      | .ok _ => ⟨.released handle :: state.history, { state.vm with store := result.2 }⟩
      | .error _ => ⟨state.history, { state.vm with store := result.2 }⟩
  | .reset host => ⟨.reset :: state.history, state.vm.resetState host⟩

/-- The state after `aivm_init` and these calls. -/
def runBlobs (host : BlobHost) (calls : List BlobCall) : BlobState :=
  calls.foldl BlobState.call ⟨[], BlobVm.cleared.resetState host⟩

/-- What was stored under a handle that is not released since. -/
def contentsOf : List BlobEvent → Int → Option (List Byte)
  | [], _ => none
  | .created h contents :: history, handle => if h = handle then some contents else contentsOf history handle
  | .released h :: history, handle => if h = handle then none else contentsOf history handle
  | .reset :: _, _ => none

/-- The handles issued since the last reset. -/
def issuedHandles : List BlobEvent → List Int
  | [] => []
  | .created h _ :: history => h :: issuedHandles history
  | .released _ :: history => issuedHandles history
  | .reset :: _ => []

end Aivm
