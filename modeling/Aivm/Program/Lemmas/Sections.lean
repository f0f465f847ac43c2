import Aivm.Program.Lemmas.Load

/-!
# What the loop over the sections accepts

The loader succeeds on the images of the format and on nothing else, and leaves their contents in the record.
-/

namespace Aivm

open ByteReader Parse

variable {host : LoadHost} {bytes : List Byte} {load : List Byte → Parse LoadFailure ProgramRecord}
variable {p q : ProgramRecord} {seen seen' : SeenSections}

/-! ## Lengths of runs -/

theorem length_le_flatMap {α : Type} {f : α → List Byte} (hf : ∀ a, 0 < (f a).length) (xs : List α) :
    xs.length ≤ (xs.flatMap f).length := by
  induction xs with
  | nil => simp
  | cons x xs ih =>
      have hx := hf x
      simp only [List.flatMap_cons, List.length_append, List.length_cons]
      omega

theorem length_le_flatMap_of_mem {α : Type} {f : α → List Byte} {x : α} {xs : List α} (h : x ∈ xs) :
    (f x).length ≤ (xs.flatMap f).length := by
  induction h with
  | head xs => simp
  | tail y _ ih =>
      simp only [List.flatMap_cons, List.length_append]
      omega

theorem Constant.length_encode_pos (c : Constant) : 0 < c.encode.length := by
  cases c <;> simp [encode]

theorem ImageSection.length_encode (s : ImageSection) : s.encode.length = 8 + s.payload.length := by
  simp only [encode, List.length_append, length_le]
  omega

/-! ## The sections met so far -/

namespace SeenSections

def has (seen : SeenSections) (sectionType : Nat) : Bool :=
  (seen.instructions && sectionType = sectionInstructions) || (seen.constants && sectionType = sectionConstants) ||
    (seen.workerCatalog && sectionType = sectionWorkerCatalog)

def mark (seen : SeenSections) (sectionType : Nat) : SeenSections where
  instructions := seen.instructions || sectionType = sectionInstructions
  constants := seen.constants || sectionType = sectionConstants
  workerCatalog := seen.workerCatalog || sectionType = sectionWorkerCatalog

end SeenSections

/-- No known section stands twice, nor again after it was met. -/
def Fresh (seen : SeenSections) (sectionTypes : List Nat) : Prop :=
  Image.Distinct sectionTypes ∧ ∀ t ∈ sectionTypes, seen.has t = false

theorem fresh_none {sectionTypes} : Fresh ⟨false, false, false⟩ sectionTypes ↔ Image.Distinct sectionTypes := by
  simp [Fresh, SeenSections.has]

theorem has_mark {t u} : (seen.mark t).has u = true ↔ seen.has u = true ∨ t = u ∧ ImageSection.isKnown u = true := by
  obtain ⟨a, b, c⟩ := seen
  simp only [SeenSections.has, SeenSections.mark, ImageSection.isKnown, Bool.or_eq_true, Bool.and_eq_true,
    decide_eq_true_eq]
  grind

theorem fresh_nil : Fresh seen [] := by
  simp [Fresh, Image.Distinct]

theorem fresh_cons {t ts} : Fresh seen (t :: ts) ↔ seen.has t = false ∧ Fresh (seen.mark t) ts := by
  have hmark : ∀ u, (seen.mark t).has u = false ↔ seen.has u = false ∧ ¬ (t = u ∧ ImageSection.isKnown u = true) := by
    intro u
    rw [← Bool.not_eq_true, has_mark, not_or, Bool.not_eq_true]
  simp only [Fresh, Image.Distinct, List.forall_mem_cons, hmark, List.filter_cons]
  split
  · rename_i hknown
    simp only [List.nodup_cons, List.mem_filter, hknown, and_true]
    grind
  · grind

/-! ## One section -/

/-- What a section puts into the record. -/
def ImageSection.install : ImageSection → ProgramRecord → ProgramRecord
  | .instructions items, p => { ownInstructions items.length p with instructions := items }
  | .constants items, p =>
      { storeConstants items (ownConstants items.length p) with constants := items.map Constant.value }
  | .workerCatalog items, p => { p with workerCatalog := items }
  | .other _ _, p => p

/-- A section of the format that the host has room for, with artifacts that load. -/
def ImageSection.Accepted (host : LoadHost) (bytes : List Byte) (load : List Byte → Parse LoadFailure ProgramRecord)
    (s : ImageSection) : Prop :=
  s.Wf ∧ s.Granted host bytes ∧ ∀ e ∈ s.workers, e.Served load

/-- Before the constants the storage is empty. -/
def Untouched (seen : SeenSections) (p : ProgramRecord) : Prop :=
  seen.constants = false → p.stringStorageUsed = 0 ∧ p.bytesStorageUsed = 0

theorem loadCatalogSection_ok {start size} (hend : start + size ≤ bytes.length)
    (hversion : ∀ artifact worker, load artifact = .ok worker → worker.formatVersion = 2) :
    loadCatalogSection host bytes load start size p = .ok q ↔
      ∃ es, (es.length ≤ workerCatalogMaxEntries ∧ ∀ e ∈ es, e.Wf ∧ e.artifact.length < 2 ^ 32 ∧ e.Served load) ∧
        (ImageSection.workerCatalog es).Granted host bytes ∧
        At bytes start (encodeItems WorkerCatalogEntry.encode es) ∧
        size = (encodeItems WorkerCatalogEntry.encode es).length ∧ q = { p with workerCatalog := es } := by
  simp only [loadCatalogSection, bind_ok, readBytes_ok]
  constructor
  · rintro ⟨payload, ⟨hat, rfl⟩, h⟩
    split at h
    · rename_i es hes
      obtain ⟨rfl, hmax, hgranted, hall⟩ := (loadWorkerCatalog_ok hversion).1 hes
      cases h
      exact ⟨es, ⟨hmax, hall⟩, hgranted, hat, rfl, rfl⟩
    · simp at h
    · cases h
    · cases h
  · rintro ⟨es, ⟨hmax, hall⟩, hgranted, hat, rfl, rfl⟩
    refine ⟨_, ⟨hat, rfl⟩, ?_⟩
    rw [(loadWorkerCatalog_ok hversion).2 ⟨rfl, hmax, hgranted, hall⟩]
    rfl

theorem ImageSection.Wf.eq_instructions {s : ImageSection} (h : s.Wf) (ht : s.sectionType = sectionInstructions) :
    ∃ items, s = .instructions items := by
  cases s with
  | instructions items => exact ⟨items, rfl⟩
  | constants items => cases ht
  | workerCatalog items => cases ht
  | other t payload =>
      obtain rfl : t = sectionInstructions := ht
      cases h.items.2

theorem ImageSection.Wf.eq_constants {s : ImageSection} (h : s.Wf) (ht : s.sectionType = sectionConstants) :
    ∃ items, s = .constants items := by
  cases s with
  | instructions items => cases ht
  | constants items => exact ⟨items, rfl⟩
  | workerCatalog items => cases ht
  | other t payload =>
      obtain rfl : t = sectionConstants := ht
      cases h.items.2

theorem ImageSection.Wf.eq_workerCatalog {s : ImageSection} (h : s.Wf) (ht : s.sectionType = sectionWorkerCatalog) :
    ∃ items, s = .workerCatalog items := by
  cases s with
  | instructions items => cases ht
  | constants items => cases ht
  | workerCatalog items => exact ⟨items, rfl⟩
  | other t payload =>
      obtain rfl : t = sectionWorkerCatalog := ht
      cases h.items.2

theorem ImageSection.eq_other {s : ImageSection} (ht : isKnown s.sectionType = false) :
    ∃ t payload, s = .other t payload := by
  cases s with
  | instructions items => cases ht
  | constants items => cases ht
  | workerCatalog items => cases ht
  | other t payload => exact ⟨t, payload, rfl⟩

theorem ImageSection.Wf.type_lt {s : ImageSection} (h : s.Wf) : s.sectionType < 2 ^ 32 := by
  cases s with
  | instructions items => simp [sectionType, sectionInstructions]
  | constants items => simp [sectionType, sectionConstants]
  | workerCatalog items => simp [sectionType, sectionWorkerCatalog]
  | other t payload => exact h.items.1

/-- A counted run whose length fits 32 bits has fewer items than that. -/
theorem length_items_lt {α : Type} {f : α → List Byte} (hf : ∀ a, 0 < (f a).length) {xs : List α}
    (h : (encodeItems f xs).length < 2 ^ 32) : xs.length < 2 ^ 32 := by
  have hle := length_le_flatMap hf xs
  simp only [encodeItems, List.length_append, length_le] at h
  omega

theorem loadSection_instructions_ok {start size} (hsize : size < 2 ^ 32) (hend : start + size ≤ bytes.length) :
    loadSection host bytes load seen sectionInstructions start size p = .ok (seen', q) ↔
      seen.has sectionInstructions = false ∧ seen' = seen.mark sectionInstructions ∧ ∃ s : ImageSection,
        s.sectionType = sectionInstructions ∧ s.Accepted host bytes load ∧ At bytes start s.payload ∧
          size = s.payload.length ∧ q = s.install p := by
  have hhas : seen.has sectionInstructions = seen.instructions := by
    simp [SeenSections.has, sectionInstructions, sectionConstants, sectionWorkerCatalog]
  have hmark : seen.mark sectionInstructions = { seen with instructions := true } := by
    simp [SeenSections.mark, sectionInstructions, sectionConstants, sectionWorkerCatalog]
  simp only [loadSection, ↓reduceIte, ite_ok loadError_ne_ok, bind_ok, loadInstructionSection_ok hend, pure_eq,
    ok.injEq, Prod.mk.injEq, hhas, hmark, Bool.not_eq_true]
  constructor
  · rintro ⟨hseen, _, ⟨is, hwf, _, hgranted, hat, rfl, rfl⟩, rfl, rfl⟩
    exact ⟨hseen, rfl, .instructions is, rfl, ⟨⟨hsize, hwf⟩, hgranted, by simp [ImageSection.workers]⟩, hat, rfl, rfl⟩
  · rintro ⟨hseen, rfl, s, ht, ⟨hwf, hgranted, _⟩, hat, rfl, rfl⟩
    obtain ⟨is, rfl⟩ := hwf.eq_instructions ht
    have hlen := length_items_lt (fun i => by rw [Instruction.length_encode]; decide) hwf.size
    exact ⟨hseen, _, ⟨is, hwf.items, hlen, hgranted, hat, rfl, rfl⟩, rfl, rfl⟩

theorem loadSection_constants_ok {start size} (hp : Untouched seen p) (hsize : size < 2 ^ 32)
    (hend : start + size ≤ bytes.length) :
    loadSection host bytes load seen sectionConstants start size p = .ok (seen', q) ↔
      seen.has sectionConstants = false ∧ seen' = seen.mark sectionConstants ∧ ∃ s : ImageSection,
        s.sectionType = sectionConstants ∧ s.Accepted host bytes load ∧ At bytes start s.payload ∧
          size = s.payload.length ∧ q = s.install p := by
  have hhas : seen.has sectionConstants = seen.constants := by
    simp [SeenSections.has, sectionInstructions, sectionConstants, sectionWorkerCatalog]
  have hmark : seen.mark sectionConstants = { seen with constants := true } := by
    simp [SeenSections.mark, sectionInstructions, sectionConstants, sectionWorkerCatalog]
  have hne : sectionConstants ≠ sectionInstructions := by decide
  simp only [loadSection, hne, ↓reduceIte, ite_ok loadError_ne_ok, bind_ok, pure_eq, ok.injEq, Prod.mk.injEq, hhas, hmark,
    Bool.not_eq_true]
  constructor
  · rintro ⟨hseen, _, hq, rfl, rfl⟩
    obtain ⟨hs, hb⟩ := hp hseen
    have hfits : StorageFits p := ⟨by omega, by omega⟩
    obtain ⟨cs, hwf, _, hgranted, hat, rfl, hstore, rfl⟩ := (loadConstantSection_ok hfits hend).1 hq
    simp only [StorageFits, storeConstants, hs, hb, Nat.zero_add] at hstore
    exact ⟨hseen, rfl, .constants cs, rfl, ⟨⟨hsize, hwf, hstore⟩, hgranted, by simp [ImageSection.workers]⟩, hat, rfl, rfl⟩
  · rintro ⟨hseen, rfl, s, ht, ⟨hwf, hgranted, _⟩, hat, rfl, rfl⟩
    obtain ⟨cs, rfl⟩ := hwf.eq_constants ht
    obtain ⟨hs, hb⟩ := hp hseen
    have hfits : StorageFits p := ⟨by omega, by omega⟩
    have hstore : StorageFits (storeConstants cs p) := by
      simp only [StorageFits, storeConstants, hs, hb, Nat.zero_add]
      exact hwf.items.2
    have hlen := length_items_lt Constant.length_encode_pos hwf.size
    exact ⟨hseen, _, (loadConstantSection_ok hfits hend).2 ⟨cs, hwf.items.1, hlen, hgranted, hat, rfl, hstore, rfl⟩, rfl, rfl⟩

theorem loadSection_catalog_ok {start size} (hsize : size < 2 ^ 32) (hend : start + size ≤ bytes.length)
    (hversion : ∀ artifact worker, load artifact = .ok worker → worker.formatVersion = 2) :
    loadSection host bytes load seen sectionWorkerCatalog start size p = .ok (seen', q) ↔
      seen.has sectionWorkerCatalog = false ∧ seen' = seen.mark sectionWorkerCatalog ∧ ∃ s : ImageSection,
        s.sectionType = sectionWorkerCatalog ∧ s.Accepted host bytes load ∧ At bytes start s.payload ∧
          size = s.payload.length ∧ q = s.install p := by
  have hhas : seen.has sectionWorkerCatalog = seen.workerCatalog := by
    simp [SeenSections.has, sectionInstructions, sectionConstants, sectionWorkerCatalog]
  have hmark : seen.mark sectionWorkerCatalog = { seen with workerCatalog := true } := by
    simp [SeenSections.mark, sectionInstructions, sectionConstants, sectionWorkerCatalog]
  have hne : sectionWorkerCatalog ≠ sectionInstructions := by decide
  have hne' : sectionWorkerCatalog ≠ sectionConstants := by decide
  simp only [loadSection, hne, hne', ↓reduceIte, ite_ok constantLoadError_ne_ok, bind_ok, loadCatalogSection_ok hend hversion,
    pure_eq, ok.injEq, Prod.mk.injEq, hhas, hmark, Bool.not_eq_true]
  constructor
  · rintro ⟨hseen, _, ⟨es, ⟨hmax, hall⟩, hgranted, hat, rfl, rfl⟩, rfl, rfl⟩
    exact ⟨hseen, rfl, .workerCatalog es, rfl, ⟨⟨hsize, hmax, fun e he => (hall e he).1⟩, hgranted,
      fun e he => (hall e he).2.2⟩, hat, rfl, rfl⟩
  · rintro ⟨hseen, rfl, s, ht, ⟨hwf, hgranted, hserved⟩, hat, rfl, rfl⟩
    obtain ⟨es, rfl⟩ := hwf.eq_workerCatalog ht
    have hlen : ∀ e ∈ es, e.artifact.length < 2 ^ 32 := by
      intro e he
      have hle := length_le_flatMap_of_mem (f := WorkerCatalogEntry.encode) he
      have hsize := hwf.size
      rw [(hwf.items.2 e he).length_encode] at hle
      simp only [ImageSection.payload, encodeItems, List.length_append, length_le] at hsize
      omega
    exact ⟨hseen, _, ⟨es, ⟨hwf.items.1, fun e he => ⟨hwf.items.2 e he, hlen e he, hserved e he⟩⟩, hgranted, hat, rfl, rfl⟩,
      rfl, rfl⟩

theorem loadSection_other_ok {t start size} (ht : t < 2 ^ 32) (hknown : ImageSection.isKnown t = false)
    (hsize : size < 2 ^ 32) (hend : start + size ≤ bytes.length) :
    loadSection host bytes load seen t start size p = .ok (seen', q) ↔
      seen.has t = false ∧ seen' = seen.mark t ∧ ∃ s : ImageSection, s.sectionType = t ∧ s.Accepted host bytes load ∧
        At bytes start s.payload ∧ size = s.payload.length ∧ q = s.install p := by
  obtain ⟨h₁, h₂, h₃⟩ : t ≠ sectionInstructions ∧ t ≠ sectionConstants ∧ t ≠ sectionWorkerCatalog := by
    simpa [ImageSection.isKnown] using hknown
  have hhas : seen.has t = false := by simp [SeenSections.has, h₁, h₂, h₃]
  have hmark : seen.mark t = seen := by simp [SeenSections.mark, h₁, h₂, h₃]
  simp only [loadSection, h₁, h₂, h₃, ↓reduceIte, pure_eq, ok.injEq, Prod.mk.injEq, hhas, hmark, true_and]
  constructor
  · rintro ⟨rfl, rfl⟩
    have hat := at_slice hend
    have hlen : size = ((bytes.drop start).take size).length := by
      simp only [List.length_take, List.length_drop]
      omega
    exact ⟨rfl, .other t ((bytes.drop start).take size), rfl, ⟨⟨by simpa [ImageSection.payload, ← hlen], ht, hknown⟩, trivial,
      by simp [ImageSection.workers]⟩, hat, hlen, rfl⟩
  · rintro ⟨rfl, s, rfl, _, hat, rfl, rfl⟩
    obtain ⟨t, payload, rfl⟩ := ImageSection.eq_other hknown
    exact ⟨rfl, rfl⟩

theorem loadSection_ok {t start size} (hp : Untouched seen p) (ht : t < 2 ^ 32) (hsize : size < 2 ^ 32)
    (hend : start + size ≤ bytes.length)
    (hversion : ∀ artifact worker, load artifact = .ok worker → worker.formatVersion = 2) :
    loadSection host bytes load seen t start size p = .ok (seen', q) ↔
      seen.has t = false ∧ seen' = seen.mark t ∧ ∃ s : ImageSection, s.sectionType = t ∧ s.Accepted host bytes load ∧
        At bytes start s.payload ∧ size = s.payload.length ∧ q = s.install p := by
  by_cases h₁ : t = sectionInstructions
  · subst h₁
    exact loadSection_instructions_ok hsize hend
  by_cases h₂ : t = sectionConstants
  · subst h₂
    exact loadSection_constants_ok hp hsize hend
  by_cases h₃ : t = sectionWorkerCatalog
  · subst h₃
    exact loadSection_catalog_ok hsize hend hversion
  · exact loadSection_other_ok ht (by simp [ImageSection.isKnown, h₁, h₂, h₃]) hsize hend

/-! ## All sections -/

/-- The record with a section in its table. -/
def ProgramRecord.enter (p : ProgramRecord) (cursor sectionType size : Nat) : ProgramRecord :=
  { p with sections := p.sections ++ [⟨sectionType, size, (cursor + 8) % 2 ^ 32⟩] }

/-- One round of the loop over the sections. -/
def loadNext (host : LoadHost) (bytes : List Byte) (load : List Byte → Parse LoadFailure ProgramRecord)
    (seen : SeenSections) (cursor : Nat) (p : ProgramRecord) : Parse LoadFailure (SeenSections × Nat × ProgramRecord) :=
  if bytes.length < cursor + 8 then loadError .truncated cursor p
  else do
    let sectionType ← readLe bytes 4 cursor
    let size ← readLe bytes 4 (cursor + 4)
    if bytes.length < cursor + 8 + size then
      loadError .sectionOob (cursor + 8) p
    else
      let (seen, p) ← loadSection host bytes load seen sectionType (cursor + 8) size (p.enter cursor sectionType size)
      return (seen, cursor + 8 + size, p)

theorem loadSections_succ {count cursor} : loadSections host bytes load (count + 1) seen cursor p =
    (loadNext host bytes load seen cursor p >>= fun (seen, cursor, p) => loadSections host bytes load count seen cursor p) := by
  simp only [loadSections, loadNext, ProgramRecord.enter]
  split
  · rfl
  · cases (readLe bytes 4 cursor : Parse LoadFailure Nat) with
    | ok t =>
        cases (readLe bytes 4 (cursor + 4) : Parse LoadFailure Nat) with
        | ok size =>
            simp only [ok_bind]
            split
            · rfl
            · cases loadSection host bytes load seen t (cursor + 8) size _ <;> rfl
        | fail e => rfl
        | outOfBounds => rfl
        | outOfFuel => rfl
    | fail e => rfl
    | outOfBounds => rfl
    | outOfFuel => rfl

/-- The record with a section of an image in its table. -/
def ImageSection.record (cursor : Nat) (s : ImageSection) (p : ProgramRecord) : ProgramRecord :=
  p.enter cursor s.sectionType s.payload.length

/-- The record after the sections from `cursor` on. -/
def installAll : Nat → List ImageSection → ProgramRecord → ProgramRecord
  | _, [], p => p
  | cursor, s :: ss, p => installAll (cursor + s.encode.length) ss (s.install (s.record cursor p))

theorem Untouched.install {s : ImageSection} {cursor} (hp : Untouched seen p) :
    Untouched (seen.mark s.sectionType) (s.install (s.record cursor p)) := by
  intro hseen
  simp only [SeenSections.mark, Bool.or_eq_false_iff, decide_eq_false_iff_not] at hseen
  obtain ⟨hseen, ht⟩ := hseen
  cases s with
  | instructions items => exact hp hseen
  | constants items => exact absurd rfl ht
  | workerCatalog items => exact hp hseen
  | other t payload => exact hp hseen

theorem loadNext_ok {cursor next} (hp : Untouched seen p)
    (hversion : ∀ artifact worker, load artifact = .ok worker → worker.formatVersion = 2) :
    loadNext host bytes load seen cursor p = .ok (seen', next, q) ↔
      ∃ s : ImageSection, s.Accepted host bytes load ∧ At bytes cursor s.encode ∧ seen.has s.sectionType = false ∧
        seen' = seen.mark s.sectionType ∧ next = cursor + s.encode.length ∧ q = s.install (s.record cursor p) := by
  have hp' : ∀ t size, Untouched seen (p.enter cursor t size) := fun _ _ => hp
  simp only [loadNext, ite_ok loadError_ne_ok, bind_ok, readLe_ok, pure_eq, ok.injEq, Prod.mk.injEq]
  constructor
  · rintro ⟨_, t, ⟨hat, ht⟩, size, ⟨hsizeat, hsize⟩, hend, ⟨seen', p'⟩, hsection, rfl, rfl, rfl⟩
    obtain ⟨hhas, rfl, s, rfl, hs, hpayload, rfl, rfl⟩ := (loadSection_ok (hp' _ _) ht hsize (by omega) hversion).1 hsection
    refine ⟨s, hs, ?_, hhas, rfl, by rw [ImageSection.length_encode, Nat.add_assoc], rfl⟩
    simp only [ImageSection.encode, at_append, length_le]
    exact ⟨hat, hsizeat, hpayload⟩
  · rintro ⟨s, hs, hat, hhas, rfl, rfl, rfl⟩
    simp only [ImageSection.encode, at_append, length_le] at hat
    obtain ⟨htype, hsizeat, hpayload⟩ := hat
    have hend := hpayload.le
    have hsection := (loadSection_ok (hp' s.sectionType s.payload.length) hs.1.type_lt hs.1.size hend hversion).2
      ⟨hhas, rfl, s, rfl, hs, hpayload, rfl, rfl⟩
    refine ⟨by omega, _, ⟨htype, hs.1.type_lt⟩, _, ⟨hsizeat, hs.1.size⟩, by omega, _, hsection, rfl, ?_, rfl⟩
    rw [ImageSection.length_encode, Nat.add_assoc]

theorem loadSections_ok {count cursor} (hp : Untouched seen p) (hc : cursor ≤ bytes.length)
    (hversion : ∀ artifact worker, load artifact = .ok worker → worker.formatVersion = 2) :
    loadSections host bytes load count seen cursor p = .ok q ↔
      ∃ ss : List ImageSection, ss.length = count ∧ (∀ s ∈ ss, s.Accepted host bytes load) ∧
        At bytes cursor (ss.flatMap ImageSection.encode) ∧ Fresh seen (ss.map ImageSection.sectionType) ∧
          q = installAll cursor ss p := by
  induction count generalizing seen cursor p with
  | zero =>
      simp only [loadSections, pure_eq, ok.injEq, List.length_eq_zero_iff]
      constructor
      · rintro rfl
        exact ⟨[], rfl, by simp, at_nil.2 hc, fresh_nil, rfl⟩
      · rintro ⟨ss, rfl, _, _, _, rfl⟩
        rfl
  | succ count ih =>
      rw [loadSections_succ, bind_ok]
      constructor
      · rintro ⟨⟨seen', next, p'⟩, hnext, hrest⟩
        obtain ⟨s, hs, hat, hhas, rfl, rfl, rfl⟩ := (loadNext_ok hp hversion).1 hnext
        obtain ⟨ss, hlen, hall, hats, hfresh, rfl⟩ := (ih hp.install hat.le).1 hrest
        refine ⟨s :: ss, by simp [hlen], List.forall_mem_cons.2 ⟨hs, hall⟩, ?_, fresh_cons.2 ⟨hhas, hfresh⟩, rfl⟩
        rw [List.flatMap_cons, at_append]
        exact ⟨hat, hats⟩
      · rintro ⟨ss, hlen, hall, hat, hfresh, hq⟩
        cases ss with
        | nil => simp at hlen
        | cons s ss =>
            simp only [List.length_cons, Nat.add_right_cancel_iff] at hlen
            obtain ⟨hs, hall⟩ := List.forall_mem_cons.1 hall
            obtain ⟨hhas, hfresh⟩ := fresh_cons.1 hfresh
            rw [List.flatMap_cons, at_append] at hat
            refine ⟨_, (loadNext_ok hp hversion).2 ⟨s, hs, hat.1, hhas, rfl, rfl, rfl⟩, ?_⟩
            exact (ih hp.install hat.1.le).2 ⟨ss, hlen, hall, hat.2, hfresh, hq⟩

/-! ## The contents of the record -/

/-- Only a section that was met has put something into the record. -/
structure Blank (seen : SeenSections) (p : ProgramRecord) : Prop where
  instructions : seen.instructions = false → p.instructions = []
  constants : seen.constants = false → p.constants = []
  workerCatalog : seen.workerCatalog = false → p.workerCatalog = []

theorem Blank.install {s : ImageSection} {cursor} (hp : Blank seen p) :
    Blank (seen.mark s.sectionType) (s.install (s.record cursor p)) := by
  cases s with
  | instructions items =>
      exact ⟨by simp [SeenSections.mark, ImageSection.sectionType], fun h => hp.constants (Bool.or_eq_false_iff.1 h).1,
        fun h => hp.workerCatalog (Bool.or_eq_false_iff.1 h).1⟩
  | constants items =>
      exact ⟨fun h => hp.instructions (Bool.or_eq_false_iff.1 h).1, by simp [SeenSections.mark, ImageSection.sectionType],
        fun h => hp.workerCatalog (Bool.or_eq_false_iff.1 h).1⟩
  | workerCatalog items =>
      exact ⟨fun h => hp.instructions (Bool.or_eq_false_iff.1 h).1, fun h => hp.constants (Bool.or_eq_false_iff.1 h).1,
        by simp [SeenSections.mark, ImageSection.sectionType]⟩
  | other t payload =>
      exact ⟨fun h => hp.instructions (Bool.or_eq_false_iff.1 h).1, fun h => hp.constants (Bool.or_eq_false_iff.1 h).1,
        fun h => hp.workerCatalog (Bool.or_eq_false_iff.1 h).1⟩

theorem Blank.contents {s : ImageSection} (cursor : Nat) (hp : Blank seen p) (hhas : seen.has s.sectionType = false) :
    (s.install (s.record cursor p)).instructions = p.instructions ++ s.code ∧
      (s.install (s.record cursor p)).constants = p.constants ++ s.table.map Constant.value ∧
      (s.install (s.record cursor p)).workerCatalog = p.workerCatalog ++ s.workers := by
  simp only [SeenSections.has, Bool.or_eq_false_iff, Bool.and_eq_false_iff, decide_eq_false_iff_not] at hhas
  obtain ⟨⟨h₁, h₂⟩, h₃⟩ := hhas
  cases s with
  | instructions items =>
      have hnil := hp.instructions (h₁.resolve_right (not_not.2 rfl))
      simp [ImageSection.install, ImageSection.record, ProgramRecord.enter, ownInstructions, ImageSection.code, ImageSection.table,
        ImageSection.workers, hnil]
  | constants items =>
      have hnil := hp.constants (h₂.resolve_right (not_not.2 rfl))
      simp [ImageSection.install, ImageSection.record, ProgramRecord.enter, ownConstants, storeConstants, ImageSection.code, ImageSection.table,
        ImageSection.workers, hnil]
  | workerCatalog items =>
      have hnil := hp.workerCatalog (h₃.resolve_right (not_not.2 rfl))
      simp [ImageSection.install, ImageSection.record, ProgramRecord.enter, ImageSection.code, ImageSection.table, ImageSection.workers, hnil]
  | other t payload =>
      simp [ImageSection.install, ImageSection.record, ProgramRecord.enter, ImageSection.code, ImageSection.table, ImageSection.workers]

theorem installAll_contents {ss} (cursor : Nat) (hp : Blank seen p) (hfresh : Fresh seen (ss.map ImageSection.sectionType)) :
    (installAll cursor ss p).instructions = p.instructions ++ ss.flatMap ImageSection.code ∧
      (installAll cursor ss p).constants = p.constants ++ (ss.flatMap ImageSection.table).map Constant.value ∧
      (installAll cursor ss p).workerCatalog = p.workerCatalog ++ ss.flatMap ImageSection.workers := by
  induction ss generalizing seen p cursor with
  | nil => simp [installAll]
  | cons s ss ih =>
      obtain ⟨hhas, hfresh⟩ := fresh_cons.1 hfresh
      obtain ⟨hi, hc, hw⟩ := hp.contents cursor hhas
      obtain ⟨hi', hc', hw'⟩ := ih (cursor + s.encode.length) hp.install hfresh
      rw [installAll, hi', hc', hw', hi, hc, hw]
      simp

@[simp] theorem install_formatVersion (s : ImageSection) (p : ProgramRecord) :
    (s.install p).formatVersion = p.formatVersion := by
  cases s <;> rfl

theorem installAll_formatVersion {ss cursor} : (installAll cursor ss p).formatVersion = p.formatVersion := by
  induction ss generalizing cursor p with
  | nil => rfl
  | cons s ss ih => simp [installAll, ih, ImageSection.record, ProgramRecord.enter]

@[simp] theorem install_formatFlags (s : ImageSection) (p : ProgramRecord) :
    (s.install p).formatFlags = p.formatFlags := by
  cases s <;> rfl

theorem installAll_formatFlags {ss cursor} : (installAll cursor ss p).formatFlags = p.formatFlags := by
  induction ss generalizing cursor p with
  | nil => rfl
  | cons s ss ih => simp [installAll, ih, ImageSection.record, ProgramRecord.enter]

@[simp] theorem install_sections (s : ImageSection) (p : ProgramRecord) : (s.install p).sections = p.sections := by
  cases s <;> rfl

/-- The section table lists the sections with their places. -/
theorem mem_installAll_sections {ss cursor entry} : entry ∈ (installAll cursor ss p).sections ↔
    entry ∈ p.sections ∨ ∃ before s after, ss = before ++ s :: after ∧ entry = ⟨s.sectionType, s.payload.length,
      (cursor + (before.flatMap ImageSection.encode).length + 8) % 2 ^ 32⟩ := by
  induction ss generalizing cursor p with
  | nil => simp [installAll]
  | cons s ss ih =>
      rw [installAll, ih, install_sections]
      simp only [ImageSection.record, ProgramRecord.enter, List.mem_append, List.mem_singleton, or_assoc]
      apply or_congr_right
      constructor
      · rintro (rfl | ⟨before, s', after, rfl, rfl⟩)
        · exact ⟨[], s, ss, rfl, by simp⟩
        · exact ⟨s :: before, s', after, rfl, by simp [Nat.add_assoc]⟩
      · rintro ⟨before, s', after, heq, rfl⟩
        cases before with
        | nil =>
            obtain ⟨rfl, rfl⟩ := List.cons.inj heq
            exact .inl (by simp)
        | cons b before =>
            obtain ⟨rfl, rfl⟩ := List.cons.inj heq
            exact .inr ⟨before, s', after, rfl, by simp [Nat.add_assoc]⟩

/-! ## The loader -/

/-- The record after the header. -/
def headerRecord (flags count : Nat) : ProgramRecord := ⟨[], false, [], false, 2, flags, count, [], 0, 0, []⟩

/-- The record of an image. -/
def Image.record (image : Image) : ProgramRecord :=
  installAll 16 image.sections (headerRecord image.flags image.sections.length)

theorem Image.Wf.record_contents {image : Image} (h : image.Wf) :
    image.record.instructions = image.code ∧ image.record.constants = image.table.map Constant.value ∧
      image.record.workerCatalog = image.workers := by
  have hblank : Blank ⟨false, false, false⟩ (headerRecord image.flags image.sections.length) :=
    ⟨fun _ => rfl, fun _ => rfl, fun _ => rfl⟩
  exact installAll_contents 16 hblank (fresh_none.2 h.distinct)

theorem loadAibc1_outProgram (fuel : Nat) (bytes : List Byte) (p q : ProgramRecord) :
    loadAibc1 host fuel bytes p = loadAibc1 host fuel bytes q := by
  cases fuel <;> rfl

theorem Image.length_encodeHeader (flags count : Nat) : (encodeHeader flags count).length = 16 := by
  simp [encodeHeader]

theorem loadAibc1_ok_of {fuel} (hversion : ∀ p artifact worker, loadAibc1 host fuel artifact p = .ok worker →
    worker.formatVersion = 2) :
    loadAibc1 host (fuel + 1) bytes p = .ok q ↔
      ∃ image : Image, image.Wf ∧ At bytes 0 image.encode ∧ (∀ s ∈ image.sections, s.Granted host bytes) ∧
        (∀ e ∈ image.workers, e.Served fun artifact => loadAibc1 host fuel artifact p) ∧ q = image.record := by
  have hload : ∀ p', (fun artifact => loadAibc1 host fuel artifact p') = fun artifact => loadAibc1 host fuel artifact p :=
    fun p' => funext fun artifact => loadAibc1_outProgram fuel artifact p' p
  have huntouched : ∀ flags count, Untouched ⟨false, false, false⟩ (headerRecord flags count) :=
    fun _ _ _ => ⟨rfl, rfl⟩
  simp only [loadAibc1, clearProgram, ite_ok loadError_ne_ok, bind_ok, readBytes_ok, readLe_ok, ne_eq, not_not, hload]
  constructor
  · rintro ⟨hlen, magic, ⟨hmagic, _⟩, rfl, version, ⟨hv, _⟩, flags, ⟨hf, hflags⟩, count, ⟨hcount, _⟩, rfl, hmax, h⟩
    obtain ⟨ss, rfl, hall, hat, hfresh, rfl⟩ :=
      (loadSections_ok (huntouched flags count) (by omega) (hversion p)).1 h
    refine ⟨⟨flags, ss⟩, ⟨hflags, by simp only; omega, fun s hs => (hall s hs).1, fresh_none.1 hfresh⟩, ?_,
      fun s hs => (hall s hs).2.1, ?_, rfl⟩
    · simp only [Image.encode, Image.encodeHeader, at_append, length_le, List.length_append]
      exact ⟨⟨hmagic, hv, hf, hcount⟩, hat⟩
    · intro e he
      obtain ⟨s, hs, he⟩ := List.mem_flatMap.1 he
      exact (hall s hs).2.2 e he
  · rintro ⟨⟨flags, ss⟩, hwf, hat, hgranted, hserved, rfl⟩
    rw [Image.encode, at_append, Image.length_encodeHeader] at hat
    obtain ⟨hhead, hat⟩ := hat
    have hend := hhead.le
    rw [Image.length_encodeHeader] at hend
    simp only [Image.encodeHeader, at_append, length_le] at hhead
    have hmax : ss.length ≤ programMaxSections := hwf.count
    have hmax' : programMaxSections = 32 := rfl
    refine ⟨by omega, _, ⟨hhead.1, rfl⟩, rfl, 2, ⟨hhead.2.1, by decide⟩, flags, ⟨hhead.2.2.1, hwf.flags⟩, ss.length,
      ⟨hhead.2.2.2, by omega⟩, rfl, by omega, ?_⟩
    refine (loadSections_ok (huntouched flags ss.length) (by omega) (hversion p)).2 ⟨ss, rfl, ?_, hat,
      fresh_none.2 hwf.distinct, rfl⟩
    exact fun s hs => ⟨hwf.sections s hs, hgranted s hs, fun e he => hserved e (List.mem_flatMap.2 ⟨s, hs, he⟩)⟩

theorem loadAibc1_version {fuel} (p : ProgramRecord) (artifact : List Byte) (worker : ProgramRecord)
    (h : loadAibc1 host fuel artifact p = .ok worker) : worker.formatVersion = 2 := by
  induction fuel generalizing artifact p worker with
  | zero => cases h
  | succ fuel ih =>
      obtain ⟨image, _, _, _, _, rfl⟩ := (loadAibc1_ok_of ih).1 h
      rw [Image.record, installAll_formatVersion, headerRecord]

theorem loadAibc1_ok {fuel} :
    loadAibc1 host (fuel + 1) bytes p = .ok q ↔
      ∃ image : Image, image.Wf ∧ At bytes 0 image.encode ∧ (∀ s ∈ image.sections, s.Granted host bytes) ∧
        (∀ e ∈ image.workers, e.Served fun artifact => loadAibc1 host fuel artifact p) ∧ q = image.record :=
  loadAibc1_ok_of loadAibc1_version

theorem ImageSection.Wf.worker {s : ImageSection} {e} (hwf : s.Wf) (he : e ∈ s.workers) : e.Wf := by
  cases s with
  | workerCatalog items => exact hwf.items.2 e he
  | instructions items => cases he
  | constants items => cases he
  | other t payload => cases he

/-- An artifact is shorter than the bytes that hold it. -/
theorem ImageSection.Wf.artifact_lt {s : ImageSection} {ss : List ImageSection} {cursor e} (hwf : s.Wf) (hs : s ∈ ss)
    (hat : At bytes cursor (ss.flatMap ImageSection.encode)) (he : e ∈ s.workers) : e.artifact.length < bytes.length := by
  have hlen := (hwf.worker he).length_encode
  have hsec := length_le_flatMap_of_mem (f := ImageSection.encode) hs
  have hend := hat.le
  cases s with
  | workerCatalog items =>
      have hentry := length_le_flatMap_of_mem (f := WorkerCatalogEntry.encode) he
      rw [ImageSection.length_encode] at hsec
      simp only [ImageSection.payload, ImageSection.workers, encodeItems, List.length_append] at hsec hentry
      omega
  | instructions items => cases he
  | constants items => cases he
  | other t payload => cases he

theorem Image.Wf.worker {image : Image} {e} (hwf : image.Wf) (he : e ∈ image.workers) : e.Wf := by
  obtain ⟨s, hs, he⟩ := List.mem_flatMap.1 he
  exact (hwf.sections s hs).worker he

theorem Image.Wf.artifact_lt {image : Image} {e} (hwf : image.Wf) (hat : At bytes 0 image.encode) (he : e ∈ image.workers) :
    e.artifact.length < bytes.length := by
  obtain ⟨s, hs, he⟩ := List.mem_flatMap.1 he
  rw [Image.encode, at_append] at hat
  exact (hwf.sections s hs).artifact_lt hs hat.2 he

/-- An artifact that loads is one that holds an image. -/
theorem WorkerCatalogEntry.Wf.served_iff {fuel} {e : WorkerCatalogEntry} (hwf : e.Wf)
    (hok : ∀ q, loadAibc1 host fuel e.artifact p = .ok q ↔ ∃ image, Holds host e.artifact image ∧ q = image.record) :
    e.Served (fun artifact => loadAibc1 host fuel artifact p) ↔ e.Runs host := by
  simp only [WorkerCatalogEntry.Served, WorkerCatalogEntry.Runs, hok]
  constructor
  · rintro ⟨_, ⟨worker, hholds, rfl⟩, _, htarget⟩
    rw [(holds_iff.1 hholds).1.record_contents.1] at htarget
    exact ⟨worker, hholds, htarget⟩
  · rintro ⟨worker, hholds, htarget⟩
    rw [← (holds_iff.1 hholds).1.record_contents.1] at htarget
    refine ⟨_, ⟨worker, hholds, rfl⟩, ?_, htarget⟩
    rw [hwf.version, Image.record, installAll_formatVersion, headerRecord]

/-- The loader succeeds exactly on images. -/
theorem loadAibc1_ok_iff {fuel} (hfuel : bytes.length < fuel) :
    loadAibc1 host fuel bytes p = .ok q ↔ ∃ image, Holds host bytes image ∧ q = image.record := by
  induction fuel generalizing bytes p q with
  | zero => omega
  | succ fuel ih =>
      have hrun : ∀ {image : Image}, image.Wf → At bytes 0 image.encode → ∀ e ∈ image.workers,
          (e.Served (fun artifact => loadAibc1 host fuel artifact p) ↔ e.Runs host) := by
        intro image hwf hat e he
        have hlt := hwf.artifact_lt hat he
        exact (hwf.worker he).served_iff fun q => ih (by omega)
      rw [loadAibc1_ok]
      constructor
      · rintro ⟨image, hwf, hat, hgranted, hserved, rfl⟩
        exact ⟨image, holds_iff.2 ⟨hwf, hat, hgranted, fun e he => (hrun hwf hat e he).1 (hserved e he)⟩, rfl⟩
      · rintro ⟨image, hholds, rfl⟩
        obtain ⟨hwf, hat, hgranted, hruns⟩ := holds_iff.1 hholds
        exact ⟨image, hwf, hat, hgranted, fun e he => (hrun hwf hat e he).2 (hruns e he), rfl⟩

/-! ## Where the worker catalog stands -/

theorem ImageSection.workers_eq_nil {s : ImageSection} (h : s.sectionType ≠ sectionWorkerCatalog) : s.workers = [] := by
  cases s with
  | workerCatalog items => exact absurd rfl h
  | instructions items => rfl
  | constants items => rfl
  | other t payload => rfl

theorem flatMap_workers_eq_nil {ss : List ImageSection} (h : ∀ s ∈ ss, s.sectionType ≠ sectionWorkerCatalog) :
    ss.flatMap ImageSection.workers = [] :=
  List.flatMap_eq_nil_iff.2 fun s hs => ImageSection.workers_eq_nil (h s hs)

theorem Image.Wf.catalog_alone {image : Image} {before s after} (hwf : image.Wf)
    (hs : image.sections = before ++ s :: after) (ht : s.sectionType = sectionWorkerCatalog) :
    image.workers = s.workers := by
  have hdistinct := hwf.distinct
  rw [hs, List.map_append, List.map_cons, ht, Distinct, List.filter_append, List.filter_cons_of_pos rfl, List.nodup_middle,
    List.nodup_cons] at hdistinct
  have hother : ∀ s' ∈ before ++ after, s'.sectionType ≠ sectionWorkerCatalog := by
    intro s' hs' ht'
    apply hdistinct.1
    rw [← List.filter_append, ← List.map_append]
    exact List.mem_filter.2 ⟨List.mem_map.2 ⟨s', hs', ht'⟩, rfl⟩
  rw [workers, hs, List.flatMap_append, List.flatMap_cons,
    flatMap_workers_eq_nil fun s' hs' => hother s' (List.mem_append_left _ hs'),
    flatMap_workers_eq_nil fun s' hs' => hother s' (List.mem_append_right _ hs')]
  simp

/-- The catalog of an image fills its section. -/
theorem Image.Wf.catalog_layout {image : Image} (hwf : image.Wf) (hat : At bytes 0 image.encode) :
    ((∀ entry ∈ image.record.sections, entry.sectionType ≠ sectionWorkerCatalog) ∧ image.workers = []) ∨
      ∃ start, ⟨sectionWorkerCatalog, (encodeItems WorkerCatalogEntry.encode image.workers).length, start % 2 ^ 32⟩ ∈
          image.record.sections ∧ At bytes start (encodeItems WorkerCatalogEntry.encode image.workers) := by
  have hmem := @mem_installAll_sections (headerRecord image.flags image.sections.length) image.sections 16
  by_cases h : ∃ s ∈ image.sections, s.sectionType = sectionWorkerCatalog
  · obtain ⟨s, hs, ht⟩ := h
    obtain ⟨before, after, hsplit⟩ := List.append_of_mem hs
    have hworkers := hwf.catalog_alone hsplit ht
    obtain ⟨items, rfl⟩ := (hwf.sections s hs).eq_workerCatalog ht
    right
    refine ⟨16 + (before.flatMap ImageSection.encode).length + 8, hmem.2 (.inr ⟨before, _, after, hsplit, ?_⟩), ?_⟩
    · rw [hworkers]
      rfl
    · rw [Image.encode, hsplit, List.flatMap_append, List.flatMap_cons, at_append, at_append, at_append,
        Image.length_encodeHeader, Nat.zero_add, ImageSection.encode, at_append, at_append, length_le, length_le] at hat
      rw [hworkers]
      exact hat.2.2.1.2.2
  · left
    have hnone : ∀ s ∈ image.sections, s.sectionType ≠ sectionWorkerCatalog := fun s hs ht => h ⟨s, hs, ht⟩
    refine ⟨?_, flatMap_workers_eq_nil hnone⟩
    intro entry hentry
    rcases hmem.1 hentry with hnil | ⟨before, s, after, hsplit, rfl⟩
    · cases hnil
    · exact hnone s (hsplit ▸ by simp)

end Aivm
