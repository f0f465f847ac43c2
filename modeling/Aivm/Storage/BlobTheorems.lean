import Aivm.Storage.Blobs

/-!
# What the blob store keeps

The store agrees with what has been done to it, whatever calls are made.
-/

namespace Aivm

variable {history : List BlobEvent} {store : BlobStore} {vm : BlobVm} {handle : Int}

/-! ## One search and one slot -/

theorem BlobStore.findBlob_some {index : Nat} (h : store.findBlob handle = some index) :
    ∃ blob, store.blobs[index]? = some blob ∧ blob.active = true ∧ blob.handle = handle ∧ 0 < handle := by
  rw [findBlob] at h
  by_cases hpos : handle ≤ 0
  · rw [if_pos hpos] at h
    cases h
  · rw [if_neg hpos] at h
    obtain ⟨blob, hblob, hp⟩ := Slots.find_some h
    simp only [Bool.and_eq_true, beq_iff_eq] at hp
    exact ⟨blob, hblob, hp.1, hp.2, by omega⟩

theorem BlobStore.findBlob_none (h : store.findBlob handle = none) :
    ∀ blob ∈ store.activeBlobs, 0 < blob.handle → blob.handle ≠ handle := by
  intro blob hblob hpos heq
  obtain ⟨hmem, hactive⟩ := List.mem_filter.1 hblob
  rw [findBlob, if_neg (by omega)] at h
  have hnot := List.findIdx?_eq_none_iff.1 h blob hmem
  simp [hactive, heq] at hnot

theorem BlobStore.getD_blobs {index : Nat} {blob : BlobRecord} (h : store.blobs[index]? = some blob) :
    store.blobs.getD index .cleared = blob := by
  simp [h]

theorem BlobStore.mem_activeBlobs {index : Nat} {blob : BlobRecord} (h : store.blobs[index]? = some blob)
    (hactive : blob.active = true) : blob ∈ store.activeBlobs :=
  List.mem_filter.2 ⟨List.mem_of_getElem? h, hactive⟩

theorem wrapInt64_succ {n : Int} (hpos : 0 < n) (hlt : n < 2 ^ 63) :
    wrapInt64 (n + 1) = n + 1 ∨ wrapInt64 (n + 1) ≤ 0 := by
  simp only [wrapInt64, Int.bmod_def]
  omega

theorem wrapInt64_lt (n : Int) : wrapInt64 n < 2 ^ 63 := by
  simp only [wrapInt64, Int.bmod_def]
  omega

/-! ## The invariant -/

/-- The active blobs are those of the history, and the counters count them. -/
structure BlobStore.Keeps (store : BlobStore) (history : List BlobEvent) : Prop where
  positive : ∀ blob ∈ store.activeBlobs, 0 < blob.handle
  distinct : (store.activeBlobs.map BlobRecord.handle).Nodup
  counted : store.blobCount = store.activeBlobs.length
  accounted : store.blobBytesUsed = (store.activeBlobs.map fun blob => blob.data.length).sum
  bounded : store.blobBytesUsed ≤ blobBytes
  holds : ∀ handle contents, contentsOf history handle = some contents ↔
    ∃ blob ∈ store.activeBlobs, blob.handle = handle ∧ blob.data = contents
  issued : ∀ handle ∈ issuedHandles history, handle < store.nextBlobHandle ∨ store.nextBlobHandle ≤ 0
  inRange : store.nextBlobHandle < 2 ^ 63

theorem contentsOf_issued {contents : List Byte} : ∀ {history : List BlobEvent},
    contentsOf history handle = some contents → handle ∈ issuedHandles history := by
  intro history
  induction history with
  | nil => simp [contentsOf]
  | cons event history ih =>
      intro h
      cases event with
      | created made contents =>
          simp only [contentsOf] at h
          by_cases hmade : made = handle
          · simp [issuedHandles, hmade]
          · rw [if_neg hmade] at h
            exact List.mem_cons_of_mem _ (ih h)
      | released gone =>
          simp only [contentsOf] at h
          by_cases hgone : gone = handle
          · simp [hgone] at h
          · rw [if_neg hgone] at h
            exact ih h
      | reset => simp [contentsOf] at h

theorem activeBlobs_replicate {store : BlobStore} {n : Nat} (h : store.blobs = List.replicate n .cleared) :
    store.activeBlobs = [] := by
  rw [BlobStore.activeBlobs, h, List.filter_eq_nil_iff]
  intro blob hblob
  rw [List.eq_of_mem_replicate hblob]
  simp [BlobRecord.cleared]

namespace BlobStore.Keeps

/-- A store without blobs after a history without blobs. -/
theorem empty (hblobs : store.activeBlobs = []) (hcount : store.blobCount = 0) (hbytes : store.blobBytesUsed = 0)
    (hcontents : ∀ handle, contentsOf history handle = none) (hissued : issuedHandles history = [])
    (hrange : store.nextBlobHandle < 2 ^ 63) : store.Keeps history := by
  constructor
  · simp [hblobs]
  · simp [hblobs]
  · simp [hblobs, hcount]
  · simp [hblobs, hbytes]
  · simp [hbytes]
  · simp [hblobs, hcontents]
  · simp [hissued]
  · exact hrange

theorem underPressure (h : store.Keeps history) : store.underPressure.Keeps history :=
  ⟨h.positive, h.distinct, h.counted, h.accounted, h.bounded, h.holds, h.issued, h.inRange⟩

theorem reset : store.reset.Keeps (.reset :: history) :=
  .empty (activeBlobs_replicate (n := blobCapacity) rfl) rfl rfl (by simp [contentsOf]) rfl (by simp [BlobStore.reset])

end BlobStore.Keeps

/-! ## Creation -/

/-- A store with room for some bytes, and the slot that they are put into. -/
structure BlobStore.Room (store : BlobStore) (contents : List Byte) (index : Nat) : Prop where
  count : store.blobCount < blobCapacity
  bytes : store.blobBytesUsed + contents.length ≤ blobBytes
  next : 0 < store.nextBlobHandle
  free : ∃ blob, store.blobs[index]? = some blob ∧ blob.active = false

/-- The store with a new blob in a slot. -/
def BlobStore.created (store : BlobStore) (contents : List Byte) (index : Nat) : BlobStore :=
  { store.setBlob index ⟨store.nextBlobHandle, contents, true⟩ with
    nextBlobHandle := wrapInt64 (store.nextBlobHandle + 1)
    blobCount := store.blobCount + 1
    blobBytesUsed := store.blobBytesUsed + contents.length
    blobBytesHighWater := max store.blobBytesHighWater (store.blobBytesUsed + contents.length) }

/-- Either there is room and the blob is put there, or only the pressure is counted. -/
theorem BlobStore.create_cases (store : BlobStore) (hasMemory : Bool) (contents : List Byte) :
    (∃ index, store.Room contents index ∧
      store.create hasMemory contents = (.ok store.nextBlobHandle, store.created contents index)) ∨
    ∃ e, store.create hasMemory contents = (.error e, store.underPressure) := by
  rw [create]
  by_cases hlimit : blobCapacity ≤ store.blobCount ∨ 2 ^ 64 ≤ store.blobBytesUsed + contents.length ∨
      blobBytes < store.blobBytesUsed + contents.length ∨ store.nextBlobHandle ≤ 0
  · exact .inr ⟨.limit, by simp only [if_pos hlimit]⟩
  · simp only [if_neg hlimit]
    cases hfree : store.blobs.findIdx? fun blob => !blob.active with
    | none => exact .inr ⟨.limit, rfl⟩
    | some index =>
        by_cases hmemory : 0 < contents.length ∧ hasMemory = false
        · exact .inr ⟨.oom, by simp only [if_pos hmemory]⟩
        · obtain ⟨blob, hblob, hactive⟩ := Slots.find_some hfree
          have hroom : store.Room contents index :=
            ⟨by omega, by omega, by omega, blob, hblob, by simpa using hactive⟩
          exact .inl ⟨index, hroom, by simp only [if_neg hmemory]; rfl⟩

theorem BlobStore.activeBlobs_created {contents : List Byte} {index : Nat} (h : store.Room contents index) :
    (store.created contents index).activeBlobs.Perm (⟨store.nextBlobHandle, contents, true⟩ :: store.activeBlobs) := by
  obtain ⟨blob, hblob, hactive⟩ := h.free
  exact Slots.filter_take_slot hblob hactive rfl

namespace BlobStore.Keeps

/-- A blob that is created is held as it was given. -/
theorem create {contents : List Byte} {index : Nat} (h : store.Keeps history) (hroom : store.Room contents index) :
    (store.created contents index).Keeps (.created store.nextBlobHandle contents :: history) := by
  have hperm := activeBlobs_created hroom
  have hmem : ∀ blob, blob ∈ (store.created contents index).activeBlobs ↔
      blob = ⟨store.nextBlobHandle, contents, true⟩ ∨ blob ∈ store.activeBlobs := by
    intro blob
    rw [hperm.mem_iff, List.mem_cons]
  have hfresh : ∀ blob ∈ store.activeBlobs, blob.handle ≠ store.nextBlobHandle := by
    intro blob hblob heq
    have hissued := h.issued _ (contentsOf_issued ((h.holds _ _).2 ⟨blob, hblob, rfl, rfl⟩))
    have hnext := hroom.next
    omega
  have hnext := hroom.next
  have hwrap := wrapInt64_succ hroom.next h.inRange
  constructor
  · intro blob hblob
    cases (hmem blob).1 hblob with
    | inl heq => simpa [heq] using hnext
    | inr hold => exact h.positive blob hold
  · rw [(hperm.map _).nodup_iff, List.map_cons, List.nodup_cons]
    refine ⟨?_, h.distinct⟩
    simp only [List.mem_map, not_exists, not_and]
    exact hfresh
  · rw [hperm.length_eq]
    simp [created, h.counted]
  · rw [(hperm.map _).sum_eq]
    simp [created, h.accounted, Nat.add_comm]
  · exact hroom.bytes
  · intro handle asked
    simp only [contentsOf, hmem]
    by_cases hsame : store.nextBlobHandle = handle
    · rw [if_pos hsame]
      constructor
      · intro heq
        cases heq
        exact ⟨_, .inl rfl, hsame, rfl⟩
      · rintro ⟨blob, rfl | hold, hhandle, rfl⟩
        · rfl
        · exact absurd (hhandle.trans hsame.symm) (hfresh blob hold)
    · rw [if_neg hsame, h.holds]
      constructor
      · rintro ⟨blob, hold, hblob⟩
        exact ⟨blob, .inr hold, hblob⟩
      · rintro ⟨blob, rfl | hold, hblob⟩
        · exact absurd hblob.1 hsame
        · exact ⟨blob, hold, hblob⟩
  · intro handle hhandle
    simp only [issuedHandles, List.mem_cons] at hhandle
    have hbound : handle ≤ store.nextBlobHandle := by
      cases hhandle with
      | inl heq => omega
      | inr hold =>
          have hissued := h.issued handle hold
          omega
    simp only [created]
    omega
  · exact wrapInt64_lt _

end BlobStore.Keeps

/-! ## Release -/

/-- The store without the blob in a slot. -/
def BlobStore.released (store : BlobStore) (blob : BlobRecord) (index : Nat) : BlobStore :=
  { store.setBlob index .cleared with
    blobCount := store.blobCount - 1
    blobBytesUsed := if blob.data.length ≤ store.blobBytesUsed then store.blobBytesUsed - blob.data.length else 0 }

theorem BlobStore.blobCount_released (blob : BlobRecord) (index : Nat) :
    (store.released blob index).blobCount = store.blobCount - 1 := rfl

theorem BlobStore.blobBytesUsed_released (blob : BlobRecord) (index : Nat) :
    (store.released blob index).blobBytesUsed = store.blobBytesUsed - blob.data.length := by
  simp only [released]
  split <;> omega

/-- Either there is such a blob and its slot is cleared, or nothing changes. -/
theorem BlobStore.release_cases (store : BlobStore) (handle : Int) :
    (∃ index blob, store.blobs[index]? = some blob ∧ blob.active = true ∧ blob.handle = handle ∧
      store.release handle = (.ok (), store.released blob index)) ∨
    (store.findBlob handle = none ∧ store.release handle = (.error .notFound, store)) := by
  rw [release]
  cases hfind : store.findBlob handle with
  | none => exact .inr ⟨rfl, rfl⟩
  | some index =>
      obtain ⟨blob, hblob, hactive, hhandle, -⟩ := findBlob_some hfind
      exact .inl ⟨index, blob, hblob, hactive, hhandle, by simp only [getD_blobs hblob]; rfl⟩

theorem BlobStore.activeBlobs_released {blob : BlobRecord} {index : Nat} (hblob : store.blobs[index]? = some blob)
    (hactive : blob.active = true) : store.activeBlobs.Perm (blob :: (store.released blob index).activeBlobs) :=
  Slots.filter_free_slot hblob hactive rfl

namespace BlobStore.Keeps

/-- A blob that is released is gone, and no other one is. -/
theorem release {blob : BlobRecord} {index : Nat} (h : store.Keeps history) (hblob : store.blobs[index]? = some blob)
    (hactive : blob.active = true) : (store.released blob index).Keeps (.released blob.handle :: history) := by
  have hperm := activeBlobs_released hblob hactive
  have hmem : ∀ other, other ∈ store.activeBlobs ↔
      other = blob ∨ other ∈ (store.released blob index).activeBlobs := by
    intro other
    rw [hperm.mem_iff, List.mem_cons]
  have hdistinct := h.distinct
  rw [(hperm.map _).nodup_iff, List.map_cons, List.nodup_cons] at hdistinct
  have hbytes := h.accounted
  rw [(hperm.map _).sum_eq, List.map_cons, List.sum_cons] at hbytes
  have hcount := h.counted
  rw [hperm.length_eq, List.length_cons] at hcount
  constructor
  · intro other hother
    exact h.positive other ((hmem other).2 (.inr hother))
  · exact hdistinct.2
  · rw [blobCount_released, hcount, Nat.add_sub_cancel]
  · rw [blobBytesUsed_released, hbytes, Nat.add_sub_cancel_left]
  · have hbounded := h.bounded
    rw [blobBytesUsed_released]
    omega
  · intro handle asked
    simp only [contentsOf]
    by_cases hsame : blob.handle = handle
    · rw [if_pos hsame]
      constructor
      · intro heq
        cases heq
      · rintro ⟨other, hother, hhandle, -⟩
        exact absurd (List.mem_map.2 ⟨other, hother, hhandle.trans hsame.symm⟩) hdistinct.1
    · rw [if_neg hsame, h.holds]
      simp only [hmem]
      constructor
      · rintro ⟨other, rfl | hother, hhandle⟩
        · exact absurd hhandle.1 hsame
        · exact ⟨other, hother, hhandle⟩
      · rintro ⟨other, hother, hhandle⟩
        exact ⟨other, .inr hother, hhandle⟩
  · exact h.issued
  · exact h.inRange

end BlobStore.Keeps

/-! ## Every sequence of calls -/

theorem BlobVm.ensureStorage_store (host : BlobHost) (vm : BlobVm) : (vm.ensureStorage host).store = vm.store := rfl

/-- What a creation that fails leaves. -/
structure BlobVm.Refused (vm vm' : BlobVm) : Prop where
  store : vm'.store = vm.store ∨ vm'.store = vm.store.underPressure
  storage : vm.hasStorage = true → vm'.hasStorage = true

theorem BlobVm.Refused.pressure {vm vm' : BlobVm} (h : vm.Refused vm') :
    ∃ n, vm'.store = { vm.store with blobPressureCount := n } := by
  cases h.store with
  | inl hsame => exact ⟨vm.store.blobPressureCount, hsame⟩
  | inr hpressure => exact ⟨_, hpressure⟩

/-- A creation puts a blob into the store, or changes nothing there but the pressure counter. -/
theorem BlobVm.create_cases (host : BlobHost) (source : BlobSource) (hasHandle : Bool) (vm : BlobVm) :
    (∃ index, vm.store.Room source.contents index ∧ vm.create host source hasHandle =
      (.ok vm.store.nextBlobHandle, ⟨true, vm.store.created source.contents index⟩)) ∨
    ∃ e vm', vm.create host source hasHandle = (.error e, vm') ∧ vm.Refused vm' := by
  rw [create]
  by_cases hinvalid : hasHandle = false ∨ source.isMissing
  · rw [if_pos hinvalid]
    exact .inr ⟨.invalid, vm, rfl, .inl rfl, id⟩
  · rw [if_neg hinvalid]
    by_cases hstorage : (vm.ensureStorage host).hasStorage
    · simp only [if_pos hstorage, ensureStorage_store]
      cases vm.store.create_cases host.memory source.contents with
      | inl h =>
          obtain ⟨index, hroom, hcreate⟩ := h
          exact .inl ⟨index, hroom, by rw [hcreate, hstorage]⟩
      | inr h =>
          obtain ⟨e, hcreate⟩ := h
          exact .inr ⟨e, { vm.ensureStorage host with store := vm.store.underPressure }, by rw [hcreate], .inr rfl,
            fun _ => hstorage⟩
    · simp only [if_neg hstorage]
      exact .inr ⟨.oom, _, rfl, .inr rfl, fun h => by simp [ensureStorage, h]⟩

/-- The store agrees with the history, and a machine without storage has no blobs. -/
structure BlobState.Keeps (state : BlobState) : Prop where
  store : state.vm.store.Keeps state.history
  storage : state.vm.hasStorage = false → state.vm.store.activeBlobs = []

namespace BlobState.Keeps

variable {state : BlobState}

theorem start (host : BlobHost) : BlobState.Keeps ⟨[], BlobVm.cleared.resetState host⟩ := by
  have hcleared : BlobVm.cleared.store.activeBlobs = [] := activeBlobs_replicate (n := blobCapacity) rfl
  have hreset : BlobVm.cleared.store.reset.activeBlobs = [] := activeBlobs_replicate (n := blobCapacity) rfl
  rw [BlobVm.resetState]
  by_cases hstorage : (BlobVm.cleared.ensureStorage host).hasStorage
  · simp only [if_pos hstorage]
    exact ⟨.empty hreset rfl rfl (fun _ => rfl) rfl (by simp [BlobStore.reset]), fun _ => hreset⟩
  · simp only [if_neg hstorage]
    exact ⟨.empty hcleared rfl rfl (fun _ => rfl) rfl (by simp [BlobVm.cleared, BlobVm.ensureStorage]), fun _ => hcleared⟩

theorem create (h : state.Keeps) (host : BlobHost) (source : BlobSource) (hasHandle : Bool) :
    (state.call (.create host source hasHandle)).Keeps := by
  cases state.vm.create_cases host source hasHandle with
  | inl hok =>
      obtain ⟨index, hroom, hcreate⟩ := hok
      simp only [call, hcreate]
      exact ⟨h.store.create hroom, fun hnone => by cases hnone⟩
  | inr herror =>
      obtain ⟨e, vm', hcreate, hrefused⟩ := herror
      simp only [call, hcreate]
      have hactive : vm'.store.activeBlobs = state.vm.store.activeBlobs := by
        cases hrefused.store with
        | inl hsame => rw [hsame]
        | inr hpressure => rw [hpressure]; rfl
      constructor
      · cases hrefused.store with
        | inl hsame => exact hsame ▸ h.store
        | inr hpressure => exact hpressure ▸ h.store.underPressure
      · intro hnone
        rw [hactive]
        apply h.storage
        cases hbefore : state.vm.hasStorage with
        | false => rfl
        | true => exact (hrefused.storage hbefore).symm.trans hnone

theorem release (h : state.Keeps) (handle : Int) : (state.call (.release handle)).Keeps := by
  cases state.vm.store.release_cases handle with
  | inl hok =>
      obtain ⟨index, blob, hblob, hactive, rfl, hrelease⟩ := hok
      simp only [call, hrelease]
      refine ⟨h.store.release hblob hactive, fun hnone => ?_⟩
      have hmem := BlobStore.mem_activeBlobs hblob hactive
      rw [h.storage hnone] at hmem
      cases hmem
  | inr hnone =>
      simp only [call, hnone.2]
      exact h

theorem reset (h : state.Keeps) (host : BlobHost) : (state.call (.reset host)).Keeps := by
  simp only [call, BlobVm.resetState]
  by_cases hstorage : (state.vm.ensureStorage host).hasStorage
  · simp only [if_pos hstorage]
    exact ⟨.reset, fun _ => activeBlobs_replicate (n := blobCapacity) rfl⟩
  · simp only [if_neg hstorage]
    have hbefore : state.vm.hasStorage = false := by
      simp only [BlobVm.ensureStorage, Bool.or_eq_true, not_or] at hstorage
      simpa using hstorage.1
    have hempty := h.storage hbefore
    have hcount := h.store.counted
    have hbytes := h.store.accounted
    simp only [hempty, List.length_nil, List.map_nil, List.sum_nil] at hcount hbytes
    exact ⟨.empty hempty hcount hbytes (fun _ => rfl) rfl h.store.inRange, fun _ => hempty⟩

/-- Every call keeps the store in agreement with the history. -/
theorem call (h : state.Keeps) (c : BlobCall) : (state.call c).Keeps := by
  cases c with
  | create host source hasHandle => exact h.create host source hasHandle
  | read handle offset length hasData hasRead => exact h
  | release handle => exact h.release handle
  | reset host => exact h.reset host

/-- So does every sequence of calls. -/
theorem calls (h : state.Keeps) : ∀ calls : List BlobCall, (calls.foldl BlobState.call state).Keeps := by
  intro calls
  induction calls generalizing state with
  | nil => exact h
  | cons c calls ih => exact ih (h.call c)

end BlobState.Keeps

theorem runBlobs_keeps (host : BlobHost) (calls : List BlobCall) : (runBlobs host calls).Keeps :=
  (BlobState.Keeps.start host).calls calls

/-! ## What callers see -/

namespace BlobStore.Keeps

/-- A blob is found under its handle and no other one is. -/
theorem findBlob_contents (h : store.Keeps history) :
    (store.findBlob handle).map (fun index => (store.blobs.getD index .cleared).data) = contentsOf history handle := by
  cases hfind : store.findBlob handle with
  | none =>
      cases hcontents : contentsOf history handle with
      | none => rfl
      | some contents =>
          obtain ⟨blob, hblob, hhandle, -⟩ := (h.holds _ _).1 hcontents
          exact absurd hhandle (findBlob_none hfind blob hblob (h.positive blob hblob))
  | some index =>
      obtain ⟨blob, hblob, hactive, hhandle, -⟩ := findBlob_some hfind
      have hheld := (h.holds handle blob.data).2 ⟨blob, mem_activeBlobs hblob hactive, hhandle, rfl⟩
      rw [hheld, Option.map_some, getD_blobs hblob]

theorem read_contents (h : store.Keeps history) {offset length : Nat} {hasData : Bool}
    (hdata : 0 < length → hasData = true) {contents : List Byte} (hcontents : contentsOf history handle = some contents) :
    store.read handle offset length hasData true = .ok ((contents.drop offset).take length) := by
  have hfound := h.findBlob_contents.trans hcontents
  have hvalid : ¬ (true = false ∨ (0 < length ∧ hasData = false)) := by
    rintro (hread | ⟨hpos, hnone⟩)
    · cases hread
    · rw [hdata hpos] at hnone
      cases hnone
  rw [read, if_neg hvalid]
  cases hfind : store.findBlob handle with
  | none => simp [hfind] at hfound
  | some index =>
      rw [hfind, Option.map_some, Option.some.injEq] at hfound
      simp only [hfound]
      by_cases hend : contents.length ≤ offset
      · simp [hend, List.drop_of_length_le hend]
      · rw [if_neg hend, ← List.length_drop, Except.ok.injEq, List.take_eq_take_iff]
        omega

theorem read_none (h : store.Keeps history) {offset length : Nat} {hasData : Bool}
    (hdata : 0 < length → hasData = true) (hcontents : contentsOf history handle = none) :
    store.read handle offset length hasData true = .error .notFound := by
  have hfound := h.findBlob_contents.trans hcontents
  rw [Option.map_eq_none_iff] at hfound
  cases length with
  | zero => simp [read, hfound]
  | succ length => simp [read, hfound, hdata]

theorem release_none (h : store.Keeps history) (hcontents : contentsOf history handle = none) :
    store.release handle = (.error .notFound, store) := by
  have hfound := h.findBlob_contents.trans hcontents
  rw [Option.map_eq_none_iff] at hfound
  simp [BlobStore.release, hfound]

/-- A release gives back the slot and the bytes of its blob. -/
theorem release_restores (h : store.Keeps history) {contents : List Byte}
    (hcontents : contentsOf history handle = some contents) :
    (store.release handle).1 = .ok () ∧ (store.release handle).2.blobCount + 1 = store.blobCount ∧
      (store.release handle).2.blobBytesUsed + contents.length = store.blobBytesUsed := by
  have hfound := h.findBlob_contents.trans hcontents
  cases hfind : store.findBlob handle with
  | none => simp [hfind] at hfound
  | some index =>
      obtain ⟨blob, hblob, hactive, -, -⟩ := findBlob_some hfind
      rw [hfind, Option.map_some, getD_blobs hblob, Option.some.injEq] at hfound
      have hperm := activeBlobs_released hblob hactive
      have hcount := h.counted
      rw [hperm.length_eq, List.length_cons] at hcount
      have hbytes := h.accounted
      rw [(hperm.map _).sum_eq, List.map_cons, List.sum_cons] at hbytes
      have hreleased : store.release handle = (.ok (), store.released blob index) := by
        simp only [BlobStore.release, hfind, getD_blobs hblob]
        rfl
      rw [hreleased]
      refine ⟨rfl, ?_, ?_⟩
      · simp only [blobCount_released]
        omega
      · simp only [blobBytesUsed_released, ← hfound]
        omega

end BlobStore.Keeps

/-- What callers can rely on in a state. -/
structure BlobsBehave (state : BlobState) : Prop where
  positive : ∀ blob ∈ state.vm.store.activeBlobs, 0 < blob.handle
  distinct : (state.vm.store.activeBlobs.map BlobRecord.handle).Nodup
  counted : state.vm.store.blobCount = state.vm.store.activeBlobs.length
  accounted : state.vm.store.blobBytesUsed = (state.vm.store.activeBlobs.map fun blob => blob.data.length).sum
  bounded : state.vm.store.blobBytesUsed ≤ blobBytes
  active : ∀ handle, (∃ blob ∈ state.vm.store.activeBlobs, blob.handle = handle) ↔
    (contentsOf state.history handle).isSome
  fresh : ∀ host source hasHandle handle, (state.vm.create host source hasHandle).1 = .ok handle →
    handle ∉ issuedHandles state.history
  refused : ∀ host source hasHandle e, (state.vm.create host source hasHandle).1 = .error e →
    (∃ n, (state.vm.create host source hasHandle).2.store = { state.vm.store with blobPressureCount := n }) ∧
    (state.vm.hasStorage = true → (state.vm.create host source hasHandle).2.hasStorage = true)
  read : ∀ handle offset length hasData, (0 < length → hasData = true) → ∀ contents,
    contentsOf state.history handle = some contents →
      state.vm.store.read handle offset length hasData true = .ok ((contents.drop offset).take length)
  notFound : ∀ handle offset length hasData, (0 < length → hasData = true) →
    contentsOf state.history handle = none →
      state.vm.store.read handle offset length hasData true = .error .notFound
  restored : ∀ handle contents, contentsOf state.history handle = some contents →
    (state.vm.store.release handle).1 = .ok () ∧
    (state.vm.store.release handle).2.blobCount + 1 = state.vm.store.blobCount ∧
    (state.vm.store.release handle).2.blobBytesUsed + contents.length = state.vm.store.blobBytesUsed
  kept : ∀ handle, contentsOf state.history handle = none →
    state.vm.store.release handle = (.error .notFound, state.vm.store)

/-- The blob store behaves after every sequence of calls. -/
theorem blobs_behave (host : BlobHost) (calls : List BlobCall) : BlobsBehave (runBlobs host calls) := by
  have hkeeps := (runBlobs_keeps host calls).store
  generalize runBlobs host calls = state at hkeeps
  constructor
  · exact hkeeps.positive
  · exact hkeeps.distinct
  · exact hkeeps.counted
  · exact hkeeps.accounted
  · exact hkeeps.bounded
  · intro handle
    rw [Option.isSome_iff_exists]
    simp only [hkeeps.holds]
    constructor
    · rintro ⟨blob, hblob, hhandle⟩
      exact ⟨blob.data, blob, hblob, hhandle, rfl⟩
    · rintro ⟨_, blob, hblob, hhandle, -⟩
      exact ⟨blob, hblob, hhandle⟩
  · intro host source hasHandle handle hcreated hissued
    cases state.vm.create_cases host source hasHandle with
    | inl hok =>
        obtain ⟨index, hroom, hcreate⟩ := hok
        rw [hcreate, Except.ok.injEq] at hcreated
        have hbelow := hkeeps.issued handle hissued
        have hnext := hroom.next
        omega
    | inr herror =>
        obtain ⟨e, vm', hcreate, -⟩ := herror
        rw [hcreate] at hcreated
        cases hcreated
  · intro host source hasHandle e hfailed
    cases state.vm.create_cases host source hasHandle with
    | inl hok =>
        obtain ⟨index, -, hcreate⟩ := hok
        rw [hcreate] at hfailed
        cases hfailed
    | inr herror =>
        obtain ⟨e, vm', hcreate, hrefused⟩ := herror
        rw [hcreate]
        exact ⟨hrefused.pressure, hrefused.storage⟩
  · intro handle offset length hasData hdata contents hcontents
    exact hkeeps.read_contents hdata hcontents
  · intro handle offset length hasData hdata hcontents
    exact hkeeps.read_none hdata hcontents
  · intro handle contents hcontents
    exact hkeeps.release_restores hcontents
  · intro handle hcontents
    exact hkeeps.release_none hcontents

end Aivm
