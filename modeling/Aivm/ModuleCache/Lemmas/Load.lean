import Aivm.ModuleCache.Lemmas.Runs

/-!
# Loading into the cache

A loaded program lies in memory of its own while it is copied, with constants that fit its storage.
-/

namespace Aivm.ModuleCache

open Blocks

variable {alloc : Allocator} {sizes : Sizes} {m : Memory Block} {w w' : World} {host : LoadHost}
  {uninitialized r : ProgramRecord} {base : Nat}

/-! ## Placing blocks -/

theorem place_grown {blocks : List Block} (h : ∀ k < blocks.length, m (base + k) = none) :
    Grown (List.range' base blocks.length) m (place base blocks m) where
  fresh a ha := by
    obtain ⟨k, hk, rfl⟩ := List.mem_range'.1 ha
    simpa using h k hk
  same a ha := by
    have hout : ¬ (base ≤ a ∧ a < base + blocks.length) := by simpa using ha
    simp [place, hout]

theorem place_at {blocks : List Block} {k : Nat} {b : Block} (h : blocks[k]? = some b) :
    place base blocks m (base + k) = some b := by
  have hk : k < blocks.length := (List.getElem?_eq_some_iff.1 h).1
  rw [place, if_pos ⟨Nat.le_add_right .., Nat.add_lt_add_left hk base⟩, Nat.add_sub_cancel_left, h]

/-! ## The loaded program -/

/-- A constant of the loader as a reader of C strings finds it. -/
def asRead : Value → Value
  | .string (.lit text) => .string (.lit (text.takeWhile (· ≠ 0)))
  | v => v

/-- The contents of a loaded program. -/
def recordContents (r : ProgramRecord) : Contents :=
  ⟨r.formatVersion, r.formatFlags, r.sections, r.instructions, r.constants.map asRead, r.workerCatalog⟩

theorem read_terminated (text rest : List Byte) :
    CStrings.read 0 (text ++ ([0] ++ rest)) = some (text.takeWhile (· ≠ 0)) := by
  have hmem : (0 : Byte) ∈ text ++ ([0] ++ rest) := by simp
  rw [CStrings.read, if_pos hmem]
  congr 1
  induction text with
  | nil => simp
  | cons b text ih =>
      by_cases hb : b = 0
      · simp [hb]
      · simpa [hb] using ih

/-- A constant of the loader reads as it is, and lies in the used part of its storage. -/
theorem layConstant_ok {s b : Nat} {c : Constant} {T before after D before' after' : List Byte}
    (hs : m s = some (.bytes (padded T programMaxStringBytes 0)))
    (hb : m b = some (.bytes (padded D programMaxBytesStorage 0))) (hT : T = before ++ (storedText c.value ++ after))
    (hD : D = before' ++ (storedData c.value ++ after')) :
    resolve m (layConstant s b before.length before'.length c.value) = some (asRead c.value) ∧
      ∀ p : ProgramObject, p.stringStorageUsed = T.length → p.bytesStorageUsed = D.length →
        ConstantFits m p (layConstant s b before.length before'.length c.value) := by
  cases c with
  | string text =>
      have htext : readText m s before.length = some (text.takeWhile (· ≠ 0)) := by
        simp only [readText, hs, Option.bind_some, Block.asBytes, Option.bind_eq_bind, hT, Constant.value, storedText,
          padded, List.append_assoc, List.drop_left]
        exact read_terminated text _
      refine ⟨Option.map_eq_some_iff.2 ⟨_, htext, rfl⟩, fun p hp _ t ht => ?_⟩
      cases htext.symm.trans ht
      have hle := (List.takeWhile_prefix (l := text) fun b => decide (b ≠ 0)).length_le
      rw [hp, hT]
      simp only [Constant.value, storedText, List.length_append]
      omega
  | bytes d =>
      have hdata : readBytesAt m b before'.length d.length = some d := by
        by_cases hz : d.length = 0
        · simp [readBytesAt, List.length_eq_zero_iff.1 hz]
        · simp [readBytesAt, hz, hb, hD, Block.asBytes, Constant.value, storedData, padded]
      refine ⟨by simp [Constant.value, layConstant, resolve, hdata, asRead], fun p _ hp d' hd' i x hx hi => ?_⟩
      cases hdata.symm.trans hd'
      have hlt := (List.getElem?_eq_some_iff.1 hx).1
      rw [hp, hD] at hi
      simp only [Constant.value, storedData, List.length_append] at hi
      omega
  | _ => exact ⟨rfl, fun _ _ _ => trivial⟩

theorem layConstants_ok {s b : Nat} {cs : List Constant} {T before D before' : List Byte}
    (hs : m s = some (.bytes (padded T programMaxStringBytes 0)))
    (hb : m b = some (.bytes (padded D programMaxBytesStorage 0)))
    (hT : T = before ++ (cs.map Constant.value).flatMap storedText)
    (hD : D = before' ++ (cs.map Constant.value).flatMap storedData) :
    List.Forall₂ (fun v w => resolve m v = some w)
      (layConstants s b before.length before'.length (cs.map Constant.value)) ((cs.map Constant.value).map asRead) ∧
      ∀ p : ProgramObject, p.stringStorageUsed = T.length → p.bytesStorageUsed = D.length →
        ∀ v ∈ layConstants s b before.length before'.length (cs.map Constant.value), ConstantFits m p v := by
  induction cs generalizing before before' with
  | nil => exact ⟨.nil, nofun⟩
  | cons c cs ih =>
      simp only [List.map_cons, List.flatMap_cons] at hT hD
      obtain ⟨hread, hfits⟩ := layConstant_ok hs hb hT hD
      rw [← List.append_assoc] at hT hD
      obtain ⟨hreads, hall⟩ := ih hT hD
      rw [List.length_append, List.length_append] at hreads hall
      refine ⟨.cons hread hreads, fun p hp hp' v hv => ?_⟩
      cases hv with
      | head => exact hfits p hp hp'
      | tail _ hv => exact hall p hp hp' v hv

theorem loadedCells_ok {a : Nat} {es : List WorkerCatalogEntry}
    (h : ∀ k (hk : k < es.length), m (a + k) = some (.bytes es[k].artifact)) :
    (loadedCells a es).length = es.length ∧ (loadedCells a es).mapM (readCell m) = some es := by
  induction es generalizing a with
  | nil => exact ⟨rfl, rfl⟩
  | cons e es ih =>
      have hhead : m a = some (.bytes e.artifact) := h 0 (Nat.succ_pos _)
      obtain ⟨hlen, hread⟩ := ih (a := a + 1) fun k hk => by
        have hadd : a + 1 + k = a + (k + 1) := by omega
        rw [hadd]
        exact h (k + 1) (Nat.succ_lt_succ hk)
      refine ⟨by simp [loadedCells, hlen], ?_⟩
      simp [loadedCells, List.mapM_cons, hread, readCell, readBytesAt_copy rfl hhead]

/-! ## Storage of a loaded program -/

theorem length_stored (cs : List Constant) :
    ((cs.map Constant.value).flatMap storedText).length = (cs.map Constant.textSize).sum ∧
      ((cs.map Constant.value).flatMap storedData).length = (cs.map Constant.dataSize).sum := by
  induction cs with
  | nil => exact ⟨rfl, rfl⟩
  | cons c cs ih =>
      cases c with
      | string text =>
          simp [Constant.value, storedText, storedData, Constant.textSize, Constant.dataSize, ih]
          omega
      | _ => simp [Constant.value, storedText, storedData, Constant.textSize, Constant.dataSize, ih]

theorem installAll_storage {ss : List ImageSection} {cursor : Nat} {p : ProgramRecord} :
    (installAll cursor ss p).stringStorageUsed =
        p.stringStorageUsed + ((ss.flatMap ImageSection.table).map Constant.textSize).sum ∧
      (installAll cursor ss p).bytesStorageUsed =
        p.bytesStorageUsed + ((ss.flatMap ImageSection.table).map Constant.dataSize).sum := by
  induction ss generalizing cursor p with
  | nil => simp [installAll]
  | cons s ss ih =>
      obtain ⟨hs, hb⟩ := @ih (cursor + s.encode.length) (s.install (s.record cursor p))
      rw [installAll, hs, hb]
      cases s <;> simp [ImageSection.install, ImageSection.record, ImageSection.table, Aivm.storeConstants,
        ownConstants, ownInstructions, ProgramRecord.enter, Nat.add_assoc]

theorem length_layConstants {s b texts data : Nat} {vs : List Value} :
    (layConstants s b texts data vs).length = vs.length := by
  induction vs generalizing texts data with
  | nil => rfl
  | cons v vs ih => simp [layConstants, ih]

theorem readItems_all {α : Type} {view : Block → Option (List α)} {a : Nat} {b : Block} {items : List α}
    (hm : m a = some b) (hview : view b = some items) : readItems view m (some a) items.length = some items := by
  by_cases hz : items.length = 0
  · simp [readItems, List.length_eq_zero_iff.1 hz]
  · simp [readItems, hz, hm, hview]

theorem record_storage (image : Image) :
    image.record.stringStorageUsed = (image.table.map Constant.textSize).sum ∧
      image.record.bytesStorageUsed = (image.table.map Constant.dataSize).sum := by
  have h := @installAll_storage image.sections 16 (headerRecord image.flags image.sections.length)
  simpa [headerRecord, Image.record, Image.table] using h

/-- A loaded program reads as the loader has found it, and its constants fit. -/
theorem loaded_contents (m : Memory Block) (base : Nat) {bytes : List Byte} (h : loadProgram host bytes uninitialized = .ok r)
    (hs : r.stringStorageUsed ≤ programMaxStringBytes) (hb : r.bytesStorageUsed ≤ programMaxBytesStorage) :
    (loadedObject base r).contents (place base (loadedBlocks base r) m) = some (recordContents r) ∧
      (loadedObject base r).Fits (place base (loadedBlocks base r) m) := by
  obtain ⟨image, hholds, rfl⟩ := loadProgram_ok_iff.1 h
  obtain ⟨-, hconstants, -⟩ := (holds_iff.1 hholds).1.record_contents
  obtain ⟨hstrings, hbytes⟩ := record_storage image
  obtain ⟨htexts, hdata⟩ := length_stored image.table
  generalize image.record = r at *
  rw [← hconstants, ← hstrings] at htexts
  rw [← hconstants, ← hbytes] at hdata
  have hI : place base (loadedBlocks base r) m (base + 0) = some (.instructions r.instructions) := place_at rfl
  have hC : place base (loadedBlocks base r) m (base + 1) =
      some (.constants (layConstants (base + 2) (base + 3) 0 0 r.constants)) := place_at rfl
  have hS : place base (loadedBlocks base r) m (base + 2) =
      some (.bytes (padded (r.constants.flatMap storedText) programMaxStringBytes 0)) := place_at rfl
  have hB : place base (loadedBlocks base r) m (base + 3) =
      some (.bytes (padded (r.constants.flatMap storedData) programMaxBytesStorage 0)) := place_at rfl
  have hK : place base (loadedBlocks base r) m (base + 4) = some (.catalog (loadedCells (base + 5) r.workerCatalog)) :=
    place_at rfl
  have hA : ∀ k (hk : k < r.workerCatalog.length),
      place base (loadedBlocks base r) m (base + 5 + k) = some (.bytes r.workerCatalog[k].artifact) := by
    intro k hk
    rw [Nat.add_assoc]
    refine place_at ?_
    simp [loadedBlocks, Nat.add_comm 5 k, hk]
  obtain ⟨hcells, hcatalog⟩ := loadedCells_ok hA
  obtain ⟨hvalues, hfits⟩ := @layConstants_ok _ _ _ image.table _ [] _ [] hS hB (by rw [hconstants]; rfl) (by rw [hconstants]; rfl)
  rw [← hconstants] at hvalues hfits
  have hread : readItems Block.asConstants (place base (loadedBlocks base r) m) (some (base + 1)) r.constants.length =
      some (layConstants (base + 2) (base + 3) 0 0 r.constants) := by
    rw [← @length_layConstants (base + 2) (base + 3) 0 0 r.constants]
    exact readItems_all hC rfl
  constructor
  · refine ProgramObject.contents_eq_some.2 ⟨⟨⟨_, readArray_padded ?_ hS⟩, _, readArray_padded ?_ hB⟩,
      ⟨readItems_all hI rfl, ?_, ?_⟩, rfl, rfl, rfl⟩
    · exact htexts ▸ hs
    · exact hdata ▸ hb
    · rw [ProgramObject.readConstants, loadedObject, hread, Option.bind_some]
      exact Unfold.mapM_eq_some.2 hvalues
    · rw [ProgramObject.readCatalog, loadedObject, ← hcells, readItems_all hK rfl, Option.bind_some, hcatalog]
      rfl
  · intro values hv
    cases hread.symm.trans hv
    exact hfits _ htexts.symm hdata.symm

/-! ## Loading and putting -/

/-- The addresses from `base` on are free for what is loaded. -/
def Placeable (host : LoadHost) (uninitialized : ProgramRecord) (base : Nat) (bytes : List Byte) (w : World) : Prop :=
  cacheEnd ≤ base ∧ ∀ r, loadProgram host bytes uninitialized = .ok r → ∀ k < (loadedBlocks base r).length,
    w.memory (base + k) = none

/-- A load fails and changes nothing, or it puts the loaded program. -/
theorem load_cases {name bytes : List Byte} {status : CacheStatus} (hs : w.Sound)
    (hp : Placeable host uninitialized base bytes w)
    (h : load alloc sizes host uninitialized base name bytes w = some (status, w')) :
    (status ≠ .ok ∧ w' = w) ∨ ∃ r w₁ w₂, loadProgram host bytes uninitialized = .ok r ∧
      w₁ = { w with memory := place base (loadedBlocks base r) w.memory } ∧ w₁.Sound ∧ w.Keeps w₁ ∧
      put alloc sizes name (loadedObject base r) w₁ = some (status, w₂) ∧ w'.Sound ∧ w₂.Keeps w' ∧
      w'.cache = w₂.cache ∧ (status ≠ .ok → w' = w) := by
  simp only [load] at h
  split at h
  · cases h
    exact .inl ⟨nofun, rfl⟩
  · split at h
    · rename_i r hload
      obtain ⟨⟨status, w₂⟩, hput, h⟩ := Option.bind_eq_some_iff.1 h
      cases h
      have hgrown := place_grown (hp.2 r hload)
      have hfresh : ∀ a, a < cacheEnd ∨ a ∈ w.owned → a ∉ List.range' base (loadedBlocks base r).length := by
        intro a ha hn
        cases ha with
        | inl ha =>
            obtain ⟨k, -, rfl⟩ := List.mem_range'.1 hn
            have hbase := hp.1
            omega
        | inr ha =>
            obtain ⟨i, e, he, ha⟩ := World.mem_owned.1 ha
            exact (hs.entry i e he).live a ha (hgrown.fresh a hn)
      obtain ⟨hs₁, hk₁⟩ := hs.host fun a ha => hgrown.same a (hfresh a ha)
      -- a copy is not where the program was loaded to
      have hfree : ∀ a, a < cacheEnd ∨ a ∈ w₂.owned → a ∉ List.range' base (loadedBlocks base r).length := by
        intro a ha hn
        refine hfresh a (ha.imp id fun ha => ?_) hn
        have hold : a ∈ World.owned { w with memory := place base (loadedBlocks base r) w.memory } := by
          refine (put_owned hs₁ hput ha).resolve_right fun hnone => ?_
          obtain ⟨k, hk, rfl⟩ := List.mem_range'.1 hn
          have hat : place base (loadedBlocks base r) w.memory (base + k) = _ := place_at (List.getElem?_eq_getElem hk)
          rw [Nat.one_mul] at hnone
          cases hnone.symm.trans hat
        exact World.owned_host (fun x hx => hgrown.same x (hfresh x (.inr hx))) hold
      obtain ⟨hs₂, hk₂⟩ := (hs₁.put hput).1.host fun a ha => free_not_mem (hfree a ha)
      refine .inr ⟨r, _, w₂, hload, rfl, hs₁, hk₁, hput, hs₂, hk₂, rfl, fun hfail => ?_⟩
      rcases put_cases hs₁ hput with ⟨-, rfl⟩ | ⟨rfl, -⟩
      · rw [hgrown.free]
      · exact absurd rfl hfail
    · cases h
      exact .inl ⟨nofun, rfl⟩
    · cases h

end Aivm.ModuleCache
