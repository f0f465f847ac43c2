import Aivm.ModuleCache.Cache
import Aivm.ModuleCache.Lemmas.Objects

/-!
# Copying a program

Whatever a copy writes lies in storage that was free before. What a successful copy reads back differs from the source
at most in constants that reach past the used part of their storage.
-/

namespace Aivm.ModuleCache

open Blocks

variable {alloc : Allocator} {sizes : Sizes} {m m' m₀ : Memory Block} {as : List Nat} {dst src : ProgramObject}

/-! ## Padded arrays -/

theorem padded_getElem? {α : Type} {items : List α} {capacity : Nat} {blank : α} (h : items.length ≤ capacity) {i : Nat} :
    (padded items capacity blank)[i]? =
      if i < items.length then items[i]? else if i < capacity then some blank else none := by
  rw [padded, List.getElem?_append]
  split
  · rfl
  · rw [List.getElem?_replicate]
    split_ifs <;> first | rfl | omega

theorem length_padded {α : Type} {items : List α} {capacity : Nat} {blank : α} (h : items.length ≤ capacity) :
    (padded items capacity blank).length = capacity := by
  simp [padded]
  omega

/-- A text of an array whose unused part is cleared. -/
theorem read_padded {array text : List Byte} {offset used : Nat} (hused : used ≤ array.length) (ho : offset ≤ used)
    (h : CStrings.read 0 (array.drop offset) = some text) :
    CStrings.read 0 ((padded (array.take used) array.length 0).drop offset) = some text ↔
      offset + text.length ≤ used := by
  have htake : (array.take used).length ≤ array.length := List.length_take_le' ..
  have hat : ∀ i, (padded (array.take used) array.length 0)[i]? =
      if i < used then array[i]? else if i < array.length then some 0 else none := by
    intro i
    rw [padded_getElem? htake, List.length_take, Nat.min_eq_left hused]
    split
    · rw [List.getElem?_take_of_lt ‹_›]
    · rfl
  obtain ⟨hclean, rest, hsplit⟩ := CStrings.read_eq_some.1 h
  have hsource : ∀ i, i ≤ text.length → array[offset + i]? = (text ++ [0])[i]? := by
    intro i hi
    rw [← List.getElem?_drop, hsplit, ← List.singleton_append, ← List.append_assoc, List.getElem?_append_left (by simp; omega)]
  have hend : offset + text.length < array.length := by
    have := hsource text.length (Nat.le_refl _)
    simp only [List.getElem?_append_right (Nat.le_refl _), Nat.sub_self, List.getElem?_cons_zero] at this
    exact (List.getElem?_eq_some_iff.1 this).1
  constructor
  · intro hread
    by_contra hlt
    -- the text would have a byte where the copy is cleared
    obtain ⟨-, rest', hsplit'⟩ := CStrings.read_eq_some.1 hread
    have hzero : ((padded (array.take used) array.length 0).drop offset)[used - offset]? = some 0 := by
      rw [List.getElem?_drop, hat, if_neg (by omega), if_pos (by omega)]
    rw [hsplit', List.getElem?_append_left (by omega)] at hzero
    exact hclean (List.mem_of_getElem? hzero)
  · intro hle
    refine CStrings.read_eq_some.2 ⟨hclean, ?_⟩
    have hprefix : text ++ [0] <+: (padded (array.take used) array.length 0).drop offset := by
      refine List.prefix_iff_getElem?.2 fun i hi => ?_
      simp only [List.length_append, List.length_singleton] at hi
      rw [← List.getElem?_eq_getElem (by simpa using hi), ← hsource i (by omega), List.getElem?_drop, hat]
      split
      · rfl
      · -- the terminator stands where the copy is cleared
        have hi' : i = text.length := by omega
        subst hi'
        rw [if_pos hend, hsource _ (Nat.le_refl _)]
        simp
    obtain ⟨rest', hrest'⟩ := hprefix
    exact ⟨rest', by simpa using hrest'.symm⟩

/-- Data of an array whose unused part is cleared. -/
theorem slice_padded {array : List Byte} {offset length used : Nat} (hused : used ≤ array.length)
    (hend : offset + length ≤ array.length) :
    ((padded (array.take used) array.length 0).drop offset).take length = (array.drop offset).take length ↔
      ∀ i b, ((array.drop offset).take length)[i]? = some b → used ≤ offset + i → b = 0 := by
  have htake : (array.take used).length ≤ array.length := List.length_take_le' ..
  have hat : ∀ i, i < length → (((padded (array.take used) array.length 0).drop offset).take length)[i]? =
      if offset + i < used then array[offset + i]? else some 0 := by
    intro i hi
    rw [List.getElem?_take_of_lt hi, List.getElem?_drop, padded_getElem? htake, List.length_take, Nat.min_eq_left hused]
    split
    · rw [List.getElem?_take_of_lt ‹_›]
    · rw [if_pos (by omega)]
  constructor
  · intro heq i b hb hi
    have hlt : i < length := by
      have := (List.getElem?_eq_some_iff.1 hb).1
      simp at this
      omega
    rw [← heq, hat i hlt, if_neg (by omega)] at hb
    exact (Option.some.inj hb).symm
  · intro hz
    refine List.ext_getElem? fun i => ?_
    by_cases hi : i < length
    · rw [hat i hi]
      split
      · rw [List.getElem?_take_of_lt hi, List.getElem?_drop]
      · have hlt : offset + i < array.length := by omega
        have hb : ((array.drop offset).take length)[i]? = some array[offset + i] := by
          rw [List.getElem?_take_of_lt hi, List.getElem?_drop, List.getElem?_eq_getElem hlt]
        rw [hb, hz i _ hb (by omega)]
    · simp [hi]

/-! ## Constants -/

/-- A constant of which no byte of a text and no nonzero byte of data lies behind the used part of the storage. -/
def ConstantFits (m : Memory Block) (p : ProgramObject) : Value → Prop
  | .string (.arena a offset) => ∀ text, readText m a offset = some text → offset + text.length ≤ p.stringStorageUsed
  | .bytes (.arena a offset) length => ∀ data, readBytesAt m a offset length = some data → ∀ i b, data[i]? = some b →
      p.bytesStorageUsed ≤ offset + i → b = 0
  | _ => True

/-- A program whose constants lie in the used parts of its storage. -/
def ProgramObject.Fits (m : Memory Block) (p : ProgramObject) : Prop :=
  ∀ values, readItems Block.asConstants m p.constants p.constantCount = some values → ∀ v ∈ values, ConstantFits m p v

theorem offsetInRange_some {offset used o : Nat} (h : offsetInRange offset used = some o) : o = offset ∧ offset ≤ used := by
  simp only [offsetInRange] at h
  split at h
  · cases h
  · cases h
    exact ⟨rfl, Nat.le_of_not_lt ‹_›⟩

theorem rebase_inside {v v' : Value} (h : rebase dst src v = some v') : dst.PointsInside v' := by
  cases v with
  | string text =>
      cases text with
      | arena a offset =>
          simp only [rebase] at h
          split at h
          · obtain ⟨o, -, rfl⟩ := Option.map_eq_some_iff.1 h
            exact ⟨o, rfl⟩
          · cases h
      | _ => cases h
  | bytes data length =>
      cases data with
      | arena a offset =>
          simp only [rebase] at h
          split at h
          · cases h
            exact .inl rfl
          · split at h
            · obtain ⟨o, -, rfl⟩ := Option.map_eq_some_iff.1 h
              exact .inr ⟨o, rfl⟩
            · cases h
      | _ =>
          simp only [rebase] at h
          split at h
          · cases h
            exact .inl rfl
          · cases h
  | _ =>
      cases h
      trivial

/-- The storages of a copy: the used parts of those of the source. -/
structure StorageCopied (m : Memory Block) (src dst : ProgramObject) (m' : Memory Block) : Prop where
  strings : ∃ array, readArray m src.stringStorage programMaxStringBytes = some array ∧
    m' dst.stringStorage = some (.bytes (padded (array.take src.stringStorageUsed) programMaxStringBytes 0))
  bytes : ∃ array, readArray m src.bytesStorage programMaxBytesStorage = some array ∧
    m' dst.bytesStorage = some (.bytes (padded (array.take src.bytesStorageUsed) programMaxBytesStorage 0))
  stringsUsed : src.stringStorageUsed ≤ programMaxStringBytes
  bytesUsed : src.bytesStorageUsed ≤ programMaxBytesStorage

theorem readArray_some {a size : Nat} {data} (h : readArray m a size = some data) :
    m a = some (.bytes data) ∧ data.length = size := by
  simp only [readArray, Option.bind_eq_bind, Option.bind_eq_some_iff] at h
  obtain ⟨all, ⟨b, hb, hview⟩, h⟩ := h
  split at h
  · cases h
    cases b <;> cases hview
    exact ⟨hb, ‹_›⟩
  · cases h

/-- A constant reads the same in the copy exactly if it fits. -/
theorem resolve_rebase {v v' w : Value} (hs : StorageCopied m src dst m') (hv : resolve m v = some w)
    (hr : rebase dst src v = some v') : resolve m' v' = some w ↔ ConstantFits m src v := by
  obtain ⟨array, harray, hcopy⟩ := hs.strings
  obtain ⟨hblock, hlen⟩ := readArray_some harray
  obtain ⟨array', harray', hcopy'⟩ := hs.bytes
  obtain ⟨hblock', hlen'⟩ := readArray_some harray'
  cases v with
  | string text =>
      cases text with
      | arena a offset =>
          simp only [rebase] at hr
          split at hr
          · rename_i ha
            subst ha
            obtain ⟨o, ho, rfl⟩ := Option.map_eq_some_iff.1 hr
            obtain ⟨rfl, hle⟩ := offsetInRange_some ho
            obtain ⟨text, htext, rfl⟩ := Option.map_eq_some_iff.1 hv
            have hread : CStrings.read 0 (array.drop o) = some text := by
              simpa [readText, hblock, Block.asBytes] using htext
            have hpadded := read_padded (hlen ▸ hs.stringsUsed) hle hread
            rw [hlen] at hpadded
            have hiff : resolve m' (.string (.arena dst.stringStorage o)) = some (.string (.lit text)) ↔
                CStrings.read 0 ((padded (array.take src.stringStorageUsed) programMaxStringBytes 0).drop o) =
                  some text := by
              simp [resolve, readText, hcopy, Block.asBytes]
            rw [hiff, hpadded]
            simp [ConstantFits, htext]
          · cases hr
      | _ => cases hr
  | bytes data length =>
      cases data with
      | arena a offset =>
          obtain ⟨data, hdata, rfl⟩ := Option.map_eq_some_iff.1 hv
          simp only [rebase] at hr
          split at hr
          · rename_i hz
            subst hz
            cases hr
            have hnil : data = [] := List.length_eq_zero_iff.1 (readBytesAt_length hdata)
            subst hnil
            simp [resolve, ConstantFits, hdata]
          · rename_i hz
            split at hr
            · rename_i ha
              subst ha
              obtain ⟨o, ho, rfl⟩ := Option.map_eq_some_iff.1 hr
              obtain ⟨rfl, hle⟩ := offsetInRange_some ho
              have hread := hdata
              simp only [readBytesAt, if_neg hz, hblock', Block.asBytes, Option.bind_eq_bind, Option.bind_some] at hread
              split at hread
              · rename_i hend
                cases hread
                have hslice := slice_padded (hlen' ▸ hs.bytesUsed) hend
                rw [hlen'] at hslice
                have hcap : o + length ≤
                    (padded (array'.take src.bytesStorageUsed) programMaxBytesStorage 0).length := by
                  rw [length_padded (by simp; omega)]
                  omega
                have hiff : resolve m' (.bytes (.arena dst.bytesStorage o) length) =
                    some (.bytes (.ext ((array'.drop o).take length)) length) ↔
                      ((padded (array'.take src.bytesStorageUsed) programMaxBytesStorage 0).drop o).take length =
                        (array'.drop o).take length := by
                  simp [resolve, readBytesAt, hz, hcopy', Block.asBytes, hcap]
                rw [hiff, hslice]
                simp [ConstantFits, hdata]
              · cases hread
            · cases hr
      | null =>
          simp only [rebase] at hr
          simp only [resolve] at hv
          split at hr
          · rename_i hz
            subst hz
            cases hr
            cases hv
            simp [resolve, ConstantFits]
          · cases hr
      | ext data =>
          simp only [rebase] at hr
          simp only [resolve] at hv
          split at hr
          · rename_i hz
            subst hz
            cases hr
            simp only [Nat.zero_le, if_true, List.take_zero, Option.some.injEq] at hv
            subst hv
            simp [resolve, ConstantFits]
          · cases hr
  | _ =>
      cases hr
      simp only [resolve] at hv ⊢
      simp [hv, ConstantFits]

theorem resolve_rebase_all (hs : StorageCopied m src dst m') {vs vs' ws : List Value}
    (hv : List.Forall₂ (fun v w => resolve m v = some w) vs ws)
    (hr : List.Forall₂ (fun v v' => rebase dst src v = some v') vs vs') :
    List.Forall₂ (fun v' w => resolve m' v' = some w) vs' ws ↔ ∀ v ∈ vs, ConstantFits m src v := by
  induction hv generalizing vs' with
  | nil =>
      cases hr
      simp
  | cons hw _ ih =>
      cases hr with
      | cons h htail =>
          rw [List.forall₂_cons, resolve_rebase hs hw h, ih htail]
          simp

/-! ## Allocations -/

/-- The blocks at the addresses exist and are not part of the cache. -/
def Granted (m : Memory Block) (as : List Nat) : Prop := ∀ a ∈ as, cacheEnd ≤ a ∧ m a ≠ none

theorem Granted.append {bs : List Nat} (h : Granted m as) (h' : Granted m bs) : Granted m (as ++ bs) := by
  intro a ha
  cases List.mem_append.1 ha with
  | inl ha => exact h a ha
  | inr hb => exact h' a hb

theorem Granted.extended (h : Granted m as) (he : Extends m m') : Granted m' as := by
  intro a ha
  obtain ⟨hle, hm⟩ := h a ha
  obtain ⟨b, hb⟩ := Option.ne_none_iff_exists'.1 hm
  exact ⟨hle, by simp [he a b hb]⟩

/-- Storage for items is there already or allocated. -/
theorem reserve_ok {inlineStorage inlineCount itemSize count : Nat} {blank : Block} {pointer allocated : Option Nat}
    (h : reserve alloc inlineStorage inlineCount itemSize count blank m = some (pointer, allocated, m')) :
    Grown allocated.toList m m' ∧ Granted m' allocated.toList ∧
      (count = 0 ∧ pointer = none ∨ pointer = some (allocated.getD inlineStorage)) := by
  simp only [reserve] at h
  split at h
  · cases h
    refine ⟨.refl m, nofun, ?_⟩
    by_cases hz : count = 0 <;> simp [hz]
  · split at h
    · cases h
    · split at h
      · cases h
      · rename_i a halloc
        cases h
        obtain ⟨hfree, hle⟩ := alloc.fresh halloc
        exact ⟨.alloc hfree, by simp [Granted, hle], by simp⟩

theorem readBytesAt_copy {a n : Nat} {data : List Byte} (hlen : data.length = n) (h : m a = some (.bytes data)) :
    readBytesAt m a 0 n = some data := by
  subst hlen
  by_cases hz : data.length = 0
  · simp [readBytesAt, List.length_eq_zero_iff.1 hz]
  · simp [readBytesAt, hz, h, Block.asBytes]

/-- The copies of the cells have copies of their artifacts. -/
theorem copyCells_ok {entries : Nat} {cells copied cells' : List CatalogCell}
    (h : copyCells alloc entries cells copied m = some (some cells', m')) :
    ∃ copies, cells' = copied ++ copies ∧ Grown (copies.map (·.artifact)) m m' ∧
      Granted m' (copies.map (·.artifact)) ∧
        List.Forall₂ (fun c c' => ∀ e, readCell m c = some e → readCell m' c' = some e) cells copies := by
  induction cells generalizing copied m with
  | nil =>
      cases h
      exact ⟨[], by simp, .refl _, nofun, .nil⟩
  | cons cell cells ih =>
      simp only [copyCells] at h
      split at h
      · cases h
      · rename_i a halloc
        obtain ⟨data, hdata, h⟩ := Option.bind_eq_some_iff.1 h
        obtain ⟨hfree, hle⟩ := alloc.fresh halloc
        obtain ⟨copies, rfl, hgrown, hgranted, hcopies⟩ := ih h
        have hone : Grown [a] m (set m a (.bytes data)) := .alloc hfree
        have hblock : m' a = some (.bytes data) := hgrown.extended a _ set_self
        have hhead : ∀ e, readCell m cell = some e → readCell m' { cell with artifact := a } = some e := by
          intro e he
          obtain ⟨artifact, hartifact, rfl⟩ := Option.map_eq_some_iff.1 he
          cases hdata.symm.trans hartifact
          simp [readCell, readBytesAt_copy (readBytesAt_length hdata) hblock]
        have htail := hcopies.imp fun c c' hc e he => hc e (readCell_mono hone.extended he)
        refine ⟨{ cell with artifact := a } :: copies, by simp, hone.trans hgrown, ?_, .cons hhead htail⟩
        intro x hx
        cases hx with
        | head => exact ⟨hle, by simp [hblock]⟩
        | tail _ hx => exact hgranted x hx

/-- Where an artifact is refused, the entries and all artifacts are given back. -/
theorem copyCells_refused {entries : Nat} {cells copied : List CatalogCell}
    (h : copyCells alloc entries cells copied m = some (none, m'))
    (hg : Grown (entries :: copied.map (·.artifact)) m₀ m) : m' = m₀ := by
  induction cells generalizing copied m with
  | nil => cases h
  | cons cell cells ih =>
      simp only [copyCells] at h
      split at h
      · cases h
        exact hg.free
      · rename_i a halloc
        obtain ⟨data, hdata, h⟩ := Option.bind_eq_some_iff.1 h
        refine ih h ?_
        rw [List.map_append, ← List.cons_append]
        exact hg.trans (.alloc (alloc.fresh halloc).1)

/-- A catalog that was copied. -/
theorem copyCatalog_ok {pointer : Option Nat} (h : copyCatalog alloc sizes src m = some (some pointer, m')) :
    ∃ copies, readItems Block.asCatalog m' pointer src.catalogCount = some copies ∧
      Grown (pointer.toList ++ copies.map (·.artifact)) m m' ∧ Granted m' (pointer.toList ++ copies.map (·.artifact)) ∧
        ∀ es, src.readCatalog m = some es → copies.mapM (readCell m') = some es := by
  simp only [copyCatalog] at h
  split at h
  · rename_i hz
    cases h
    refine ⟨[], by simp [readItems, hz], .refl m, nofun, fun es hes => ?_⟩
    simpa [ProgramObject.readCatalog, readItems, hz] using hes
  · rename_i hz
    split at h
    · cases h
    · rename_i a halloc
      obtain ⟨hfree, hle⟩ := alloc.fresh halloc
      simp only [Option.bind_eq_bind, Option.bind_eq_some_iff, Prod.exists] at h
      obtain ⟨cells, hcells, copied, m₁, hcopy, h⟩ := h
      split at h
      · cases h
      · rename_i copies
        cases h
        obtain ⟨copies, rfl, hgrown, hgranted, hcopies⟩ := copyCells_ok hcopy
        have hone : Grown [a] m (set m a (.catalog [])) := .alloc hfree
        have hall : Grown (a :: copies.map (·.artifact)) m m₁ := hone.trans hgrown
        -- the entries are written once more behind the loop
        have hkeep : ∀ c ∈ copies, set m₁ a (.catalog copies) c.artifact = m₁ c.artifact := by
          refine fun c hc => set_ne fun he => ?_
          have hn := hgrown.fresh c.artifact (List.mem_map_of_mem hc)
          simp [he] at hn
        have hlen : copies.length = src.catalogCount := by
          rw [← hcopies.length_eq, readItems_length hcells]
        refine ⟨copies, ?_, hall.write (List.mem_cons_self ..), ?_, fun es hes => ?_⟩
        · simp [readItems, Block.asCatalog, ← hlen]
        · intro x hx
          cases hx with
          | head => exact ⟨hle, by simp⟩
          | tail _ hx =>
              obtain ⟨c, hc, rfl⟩ := List.mem_map.1 hx
              exact ⟨(hgranted _ hx).1, by simpa [hkeep c hc] using (hgranted _ hx).2⟩
        · rw [ProgramObject.readCatalog, hcells, Option.bind_some] at hes
          rw [mapM_congr fun c hc => readCell_congr (hkeep c hc)]
          exact mapM_of_forall₂ (hcopies.imp fun c c' h e he => h e (readCell_mono hone.extended he)) hes

theorem copyCatalog_refused (h : copyCatalog alloc sizes src m = some (none, m')) : m' = m := by
  simp only [copyCatalog] at h
  split at h
  · cases h
  · split at h
    · cases h
      rfl
    · rename_i a halloc
      simp only [Option.bind_eq_bind, Option.bind_eq_some_iff, Prod.exists] at h
      obtain ⟨cells, -, copied, m₁, hcopy, h⟩ := h
      split at h
      · cases h
        exact copyCells_refused hcopy (.alloc (alloc.fresh halloc).1)
      · cases h

/-! ## The loops of the copy -/

/-- The arrays that the loops write. -/
def ProgramObject.written (p : ProgramObject) : List Nat :=
  [p.mutableInstructions, p.stringStorage, p.bytesStorage, p.mutableConstants]

theorem readBytesAt_prefix {a n : Nat} {data text : List Byte} (hm : m a = some (.bytes data))
    (h : readBytesAt m a 0 n = some text) : text = data.take n := by
  by_cases hz : n = 0
  · subst hz
    simpa [readBytesAt, eq_comm] using h
  · simp only [readBytesAt, if_neg hz, hm, Block.asBytes, Option.bind_eq_bind, Option.bind_some, List.drop_zero] at h
    split at h
    · cases h
      rfl
    · cases h

/-- What the loops have written, in terms of the memory `m₀` before the copy. -/
structure BodyCopied (m₀ : Memory Block) (src dst : ProgramObject) (m' : Memory Block) : Prop where
  instructions : ∃ items, m' dst.mutableInstructions =
      some (.instructions (padded items programInlineInstructions ⟨.nop, 0⟩)) ∧ items.length = src.instructionCount ∧
        ∀ items₀, readItems Block.asInstructions m₀ src.instructions src.instructionCount = some items₀ → items₀ = items
  constants : ∃ values values', values.mapM (rebase dst src) = some values' ∧ values.length = src.constantCount ∧
      m' dst.mutableConstants = some (.constants (padded values' programInlineConstants .void)) ∧
        ∀ values₀, readItems Block.asConstants m₀ src.constants src.constantCount = some values₀ → values₀ = values
  strings : ∃ text, m' dst.stringStorage = some (.bytes (padded text programMaxStringBytes 0)) ∧
      ∀ array, m₀ src.stringStorage = some (.bytes array) → text = array.take src.stringStorageUsed
  bytes : ∃ data, m' dst.bytesStorage = some (.bytes (padded data programMaxBytesStorage 0)) ∧
      ∀ array, m₀ src.bytesStorage = some (.bytes array) → data = array.take src.bytesStorageUsed

theorem copyBody_same {b : Bool} (h : copyBody dst src m = some (b, m')) : ∀ x, x ∉ dst.written → m' x = m x := by
  intro x hx
  simp only [ProgramObject.written, List.mem_cons, List.not_mem_nil, or_false, not_or] at hx
  simp only [copyBody, Option.bind_eq_bind, Option.bind_eq_some_iff] at h
  obtain ⟨_, -, _, -, _, -, _, -, h⟩ := h
  split at h
  · cases h
    rw [set_ne hx.2.2.1, set_ne hx.2.1, set_ne hx.1]
  · cases h
    rw [set_ne hx.2.2.2, set_ne hx.2.2.1, set_ne hx.2.1, set_ne hx.1]

theorem copyBody_ok (hg : Grown as m₀ m) (hw : ∀ a ∈ dst.written, a ∈ as) (hd : dst.written.Nodup)
    (h : copyBody dst src m = some (true, m')) :
    BodyCopied m₀ src dst m' := by
  simp only [copyBody, Option.bind_eq_bind, Option.bind_eq_some_iff] at h
  obtain ⟨items, hitems, text, htext, data, hdata, values, hvalues, h⟩ := h
  have hone := hg.write (b := .instructions (padded items programInlineInstructions ⟨.nop, 0⟩))
    (hw dst.mutableInstructions (by simp [ProgramObject.written]))
  have htwo := hone.write (b := .bytes (padded text programMaxStringBytes 0))
    (hw dst.stringStorage (by simp [ProgramObject.written]))
  have hthree := htwo.write (b := .bytes (padded data programMaxBytesStorage 0))
    (hw dst.bytesStorage (by simp [ProgramObject.written]))
  simp only [ProgramObject.written, List.nodup_cons, List.mem_cons, List.not_mem_nil, or_false, not_or, not_false_iff,
    List.nodup_nil, and_true] at hd
  obtain ⟨⟨hIS, hIB, hIC⟩, ⟨hSB, hSC⟩, hBC⟩ := hd
  split at h
  · cases h
  · rename_i values' hrebase
    cases h
    refine ⟨⟨items, ?_, readItems_length hitems, fun items₀ h₀ => ?_⟩,
      ⟨values, values', hrebase, readItems_length hvalues, set_self, fun values₀ h₀ => ?_⟩,
      ⟨text, ?_, fun array h₀ => ?_⟩, ⟨data, ?_, fun array h₀ => ?_⟩⟩
    · rw [set_ne hIC, set_ne hIB, set_ne hIS, set_self]
    · exact Option.some.inj ((readItems_mono hg.extended h₀).symm.trans hitems)
    · exact Option.some.inj ((readItems_mono hthree.extended h₀).symm.trans hvalues)
    · rw [set_ne hSC, set_ne hSB, set_self]
    · exact readBytesAt_prefix (hone.extended _ _ h₀) htext
    · rw [set_ne hBC, set_self]
    · exact readBytesAt_prefix (htwo.extended _ _ h₀) hdata

/-! ## The whole copy -/

theorem clearObject_grown {p : ProgramObject} (hg : Grown as m₀ m) (ha : ∀ a ∈ p.arrays, a ∈ as) :
    Grown as m₀ (clearObject p m) := by
  have hI := ha p.instructionStorage (by simp [ProgramObject.arrays])
  have hC := ha p.constantStorage (by simp [ProgramObject.arrays])
  have hS := ha p.stringStorage (by simp [ProgramObject.arrays])
  have hB := ha p.bytesStorage (by simp [ProgramObject.arrays])
  exact (((hg.write hI).write hC).write hS).write hB

theorem clearObject_arrays {p : ProgramObject} (h : a ∈ p.arrays) : clearObject p m a ≠ none := by
  simp only [ProgramObject.arrays, List.mem_cons, List.not_mem_nil, or_false] at h
  simp only [clearObject, Blocks.set]
  split_ifs <;> simp
  omega

theorem emptyProgram_arrays_lt {i : Fin maxModules} {a : Nat} (h : a ∈ (emptyProgram i).arrays) : a < cacheEnd := by
  have hi := i.isLt
  simp only [ProgramObject.arrays, emptyProgram, List.mem_cons, List.not_mem_nil, or_false] at h
  simp only [maxModules] at hi
  simp only [cacheEnd, maxModules]
  omega

theorem owned_without_catalog {p : ProgramObject} (hc : p.catalogCount = 0) (he : p.catalogEntries = none) :
    p.owned m = p.arrays ++ (p.allocatedInstructionStorage.toList ++ p.allocatedConstantStorage.toList) := by
  simp [ProgramObject.owned, ProgramObject.allocated, ProgramObject.cells, readItems, hc, he]

/-- What a copy takes over from its source as it is. -/
structure SameHeader (src copy : ProgramObject) : Prop where
  formatVersion : copy.formatVersion = src.formatVersion
  formatFlags : copy.formatFlags = src.formatFlags
  sections : copy.sections = src.sections
  instructionCount : copy.instructionCount = src.instructionCount
  constantCount : copy.constantCount = src.constantCount

/-- The storage for the items of a copy stands ready. -/
structure Ready (i : Fin maxModules) (m₀ : Memory Block) (src copy : ProgramObject) (m : Memory Block) : Prop where
  grown : Grown (copy.arrays ++
    (copy.allocatedInstructionStorage.toList ++ copy.allocatedConstantStorage.toList)) m₀ m
  granted : Granted m (copy.allocatedInstructionStorage.toList ++ copy.allocatedConstantStorage.toList)
  arrays : copy.arrays = (emptyProgram i).arrays
  arraysLive : ∀ a ∈ copy.arrays, m a ≠ none
  written : copy.written.Nodup
  instructions : copy.instructionCount = 0 ∧ copy.instructions = none ∨
    copy.instructions = some copy.mutableInstructions
  constants : copy.constantCount = 0 ∧ copy.constants = none ∨ copy.constants = some copy.mutableConstants
  header : SameHeader src copy
  stringsUsed : src.stringStorageUsed ≤ programMaxStringBytes
  bytesUsed : src.bytesStorageUsed ≤ programMaxBytesStorage

/-- The arrays that are written are different ones. -/
theorem written_nodup {i : Fin maxModules} {aI aC : Option Nat} {p : ProgramObject} (hp : p.arrays = (emptyProgram i).arrays)
    (hI : p.allocatedInstructionStorage = aI) (hC : p.allocatedConstantStorage = aC)
    (hleI : ∀ a ∈ aI, cacheEnd ≤ a) (hleC : ∀ a ∈ aC, cacheEnd ≤ a) (hne : ∀ a ∈ aI, a ∉ aC) : p.written.Nodup := by
  have hi : 4 * i.val + 3 < cacheEnd := emptyProgram_arrays_lt (i := i) (by simp [ProgramObject.arrays, emptyProgram])
  simp only [ProgramObject.arrays, emptyProgram, List.cons.injEq, and_true] at hp
  obtain ⟨h₀, h₁, h₂, h₃⟩ := hp
  cases aI <;> cases aC <;>
    simp_all [ProgramObject.written, ProgramObject.mutableInstructions, ProgramObject.mutableConstants] <;> omega

/-- A copy either fails before its loops, with storage that it owns, or comes to the loops. -/
theorem copyProgram_cases {i : Fin maxModules} {copy : ProgramObject} {b : Bool}
    (hfree : ∀ a ∈ (emptyProgram i).arrays, m₀ a = none)
    (h : copyProgram alloc sizes (emptyProgram i) src m₀ = some (b, copy, m')) :
    b = false ∧ Grown (copy.owned m') m₀ m' ∨
      ∃ ready m pointer m₁, Ready i m₀ src ready m ∧ copyCatalog alloc sizes src m = some (some pointer, m₁) ∧
        copy = { ready with catalogEntries := pointer, catalogCount := src.catalogCount } ∧
          copyBody copy src m₁ = some (b, m') := by
  simp only [copyProgram] at h
  split at h
  · cases h
    rw [owned_without_catalog rfl rfl]
    exact .inl ⟨rfl, .start (by simpa [emptyProgram] using hfree)⟩
  · rename_i hlimits
    have hclear : Grown (emptyProgram i).arrays m₀ (clearObject (emptyProgram i) m₀) :=
      clearObject_grown (.start hfree) fun a ha => ha
    split at h
    · cases h
      rw [owned_without_catalog rfl rfl]
      exact .inl ⟨rfl, by simpa [ProgramObject.arrays, ProgramObject.header, emptyProgram] using hclear⟩
    · rename_i instructions aI m₁ hreserve
      obtain ⟨hgrownI, hgrantedI, hpointerI⟩ := reserve_ok hreserve
      split at h
      · cases h
        rw [owned_without_catalog rfl rfl]
        refine .inl ⟨rfl, ?_⟩
        simpa [ProgramObject.arrays, ProgramObject.header, emptyProgram] using hclear.trans hgrownI
      · rename_i constants aC m₂ hreserve'
        obtain ⟨hgrownC, hgrantedC, hpointerC⟩ := reserve_ok hreserve'
        have hgrown : Grown ((emptyProgram i).arrays ++ (aI.toList ++ aC.toList)) m₀ m₂ := by
          rw [← List.append_assoc]
          exact (hclear.trans hgrownI).trans hgrownC
        have hlive : ∀ a ∈ (emptyProgram i).arrays, m₂ a ≠ none := by
          intro a ha
          have hcleared : clearObject (emptyProgram i) m₀ a ≠ none := clearObject_arrays ha
          obtain ⟨b, hb⟩ := Option.ne_none_iff_exists'.1 hcleared
          simp [hgrownC.extended a b (hgrownI.extended a b hb)]
        split at h
        · cases h
        · rename_i m₃ hcatalog
          cases h
          cases copyCatalog_refused hcatalog
          rw [owned_without_catalog rfl rfl]
          exact .inl ⟨rfl, by simpa [ProgramObject.arrays, ProgramObject.header, emptyProgram] using hgrown⟩
        · rename_i pointer m₃ hcatalog
          obtain ⟨⟨copied, m₄⟩, hbody, h⟩ := Option.map_eq_some_iff.1 h
          cases h
          simp only [not_or, Nat.not_lt] at hlimits
          refine .inr ⟨{ (emptyProgram i).header src with
            instructions
            allocatedInstructionStorage := aI
            constants
            allocatedConstantStorage := aC }, m₂, pointer, m₃, ?_, hcatalog, rfl, hbody⟩
          exact
            { grown := hgrown
              granted := (hgrantedI.extended hgrownC.extended).append hgrantedC
              arrays := rfl
              arraysLive := hlive
              written := by
                refine written_nodup rfl rfl rfl (fun a ha => (hgrantedI a (by simpa using ha)).1)
                  (fun a ha => (hgrantedC a (by simpa using ha)).1) fun a ha ha' => ?_
                exact (hgrantedI a (by simpa using ha)).2 (hgrownC.fresh a (by simpa using ha'))
              instructions := hpointerI
              constants := hpointerC
              header := ⟨rfl, rfl, rfl, rfl, rfl⟩
              stringsUsed := hlimits.2.1
              bytesUsed := hlimits.2.2 }

theorem Ready.written_live {i : Fin maxModules} {ready : ProgramObject} (hr : Ready i m₀ src ready m) {a : Nat}
    (ha : a ∈ ready.written) :
    a ∈ ready.arrays ++ (ready.allocatedInstructionStorage.toList ++ ready.allocatedConstantStorage.toList) ∧
      m a ≠ none := by
  have hall : a ∈ ready.arrays ++
      (ready.allocatedInstructionStorage.toList ++ ready.allocatedConstantStorage.toList) := by
    simp only [ProgramObject.written, ProgramObject.mutableInstructions, ProgramObject.mutableConstants,
      List.mem_cons, List.not_mem_nil, or_false] at ha
    simp only [ProgramObject.arrays, List.mem_append, List.mem_cons, List.not_mem_nil, or_false, Option.mem_toList]
    cases hI : ready.allocatedInstructionStorage <;> cases hC : ready.allocatedConstantStorage <;>
      simp [hI, hC] at ha ⊢ <;> omega
  refine ⟨hall, ?_⟩
  cases List.mem_append.1 hall with
  | inl ha => exact hr.arraysLive a ha
  | inr ha => exact (hr.granted a ha).2

/-- A copy that has come to its loops. -/
structure Looped (i : Fin maxModules) (m₀ : Memory Block) (src copy : ProgramObject) (m' : Memory Block) : Prop where
  grown : Grown (copy.owned m') m₀ m'
  outside : ∀ a ∈ copy.allocated m', cacheEnd ≤ a
  catalog : ∀ es, src.readCatalog m₀ = some es → copy.readCatalog m' = some es
  live : ∀ a ∈ copy.owned m', a ∉ copy.written → m' a ≠ none
  written : ∀ a ∈ copy.written, a ∈ copy.owned m'
  distinct : copy.written.Nodup
  arrays : copy.arrays = (emptyProgram i).arrays
  header : SameHeader src copy
  instructions : copy.instructionCount = 0 ∧ copy.instructions = none ∨
    copy.instructions = some copy.mutableInstructions
  constants : copy.constantCount = 0 ∧ copy.constants = none ∨ copy.constants = some copy.mutableConstants
  stringsUsed : src.stringStorageUsed ≤ programMaxStringBytes
  bytesUsed : src.bytesStorageUsed ≤ programMaxBytesStorage

theorem Ready.looped {i : Fin maxModules} {ready copy : ProgramObject} {pointer : Option Nat} {m₁ : Memory Block}
    {b : Bool} (hr : Ready i m₀ src ready m) (hc : copyCatalog alloc sizes src m = some (some pointer, m₁))
    (he : copy = { ready with catalogEntries := pointer, catalogCount := src.catalogCount })
    (hb : copyBody copy src m₁ = some (b, m')) :
    Looped i m₀ src copy m' ∧ Grown (copy.owned m') m₀ m₁ := by
  obtain ⟨copies, hcopies, hgrown, hgranted, hreads⟩ := copyCatalog_ok hc
  have hsame := copyBody_same hb
  subst he
  -- the loops write neither the entries nor an artifact
  have hkeep : ∀ a ∈ pointer.toList ++ copies.map (·.artifact), m' a = m₁ a :=
    fun a ha => hsame a fun hw => (hr.written_live hw).2 (hgrown.fresh a ha)
  have hentries : readItems Block.asCatalog m' pointer src.catalogCount = some copies := by
    rw [readItems_congr fun a ha => hkeep a (by simp [ha]), hcopies]
  have howned : ({ ready with catalogEntries := pointer, catalogCount := src.catalogCount } : ProgramObject).owned m' =
      (ready.arrays ++ (ready.allocatedInstructionStorage.toList ++ ready.allocatedConstantStorage.toList)) ++
        (pointer.toList ++ copies.map (·.artifact)) := by
    simp [ProgramObject.owned, ProgramObject.allocated, ProgramObject.cells, hentries, ProgramObject.arrays]
  have hall := hr.grown.trans hgrown
  have hwritten : ∀ a ∈ ready.written, a ∈ (ready.arrays ++
      (ready.allocatedInstructionStorage.toList ++ ready.allocatedConstantStorage.toList)) ++
        (pointer.toList ++ copies.map (·.artifact)) := fun a ha => List.mem_append_left _ (hr.written_live ha).1
  refine ⟨⟨?_, ?_, ?_, ?_, ?_, hr.written, hr.arrays, ⟨hr.header.1, hr.header.2, hr.header.3, hr.header.4, hr.header.5⟩,
    hr.instructions, hr.constants, hr.stringsUsed, hr.bytesUsed⟩, howned ▸ hall⟩
  · rw [howned]
    exact hall.rewrite hwritten hsame
  · intro a ha
    have ha : a ∈ (ready.allocatedInstructionStorage.toList ++ ready.allocatedConstantStorage.toList) ++
        (pointer.toList ++ copies.map (·.artifact)) := by
      simpa [ProgramObject.allocated, ProgramObject.cells, hentries] using ha
    cases List.mem_append.1 ha with
    | inl ha => exact (hr.granted a ha).1
    | inr ha => exact (hgranted a ha).1
  · intro es hes
    have hkept : copies.mapM (readCell m') = copies.mapM (readCell m₁) :=
      mapM_congr fun c hc => readCell_congr (hkeep _ (List.mem_append_right _ (List.mem_map_of_mem hc)))
    rw [ProgramObject.readCatalog, hentries, Option.bind_some, hkept]
    exact hreads es (readCatalog_mono hr.grown.extended hes)
  · intro a ha hw
    rw [howned] at ha
    rw [hsame a hw]
    cases List.mem_append.1 ha with
    | inr ha => exact (hgranted a ha).2
    | inl ha =>
        have hlive : m a ≠ none := by
          cases List.mem_append.1 ha with
          | inl ha => exact hr.arraysLive a ha
          | inr ha => exact (hr.granted a ha).2
        obtain ⟨b, hb⟩ := Option.ne_none_iff_exists'.1 hlive
        simp [hgrown.extended a b hb]
  · intro a ha
    rw [howned]
    exact hwritten a ha

/-! ## Outcomes -/

/-- A copy that fails owns all that it has written. -/
theorem copyProgram_failed {i : Fin maxModules} {copy : ProgramObject}
    (hfree : ∀ a ∈ (emptyProgram i).arrays, m₀ a = none)
    (h : copyProgram alloc sizes (emptyProgram i) src m₀ = some (false, copy, m')) : releaseEntry copy m' = m₀ := by
  rcases copyProgram_cases hfree h with ⟨-, hgrown⟩ | ⟨ready, m, pointer, m₁, hr, hc, he, hb⟩
  · exact hgrown.free
  · exact (hr.looped hc he hb).1.grown.free

/-- A successful copy. -/
structure Copied (i : Fin maxModules) (m₀ : Memory Block) (src copy : ProgramObject) (m' : Memory Block) : Prop where
  grown : Grown (copy.owned m') m₀ m'
  live : ∀ a ∈ copy.owned m', m' a ≠ none
  arrays : copy.arrays = (emptyProgram i).arrays
  outside : ∀ a ∈ copy.allocated m', cacheEnd ≤ a
  selfContained : copy.SelfContained m'
  limits : src.stringStorageUsed ≤ programMaxStringBytes ∧ src.bytesStorageUsed ≤ programMaxBytesStorage
  contents : ∀ c, src.contents m₀ = some c → (copy.contents m' = some c ↔ src.Fits m₀)

theorem readItems_padded {α : Type} {view : Block → Option (List α)} {p : Option Nat} {a count capacity : Nat}
    {items : List α} {blank : α} {b : Block} (hp : count = 0 ∧ p = none ∨ p = some a) (hm : m a = some b)
    (hview : view b = some (padded items capacity blank)) (hlen : items.length = count) :
    readItems view m p count = some items := by
  by_cases hz : count = 0
  · have hnil : items = [] := List.length_eq_zero_iff.1 (hlen.trans hz)
    simp [readItems, hz, hnil]
  · cases hp with
    | inl hp => exact absurd hp.1 hz
    | inr hp =>
        subst hlen
        simp [readItems, hz, hp, hm, hview, padded]

theorem readArray_padded {a size : Nat} {data : List Byte} (hlen : data.length ≤ size)
    (h : m a = some (.bytes (padded data size 0))) : readArray m a size = some (padded data size 0) := by
  simp [readArray, h, Block.asBytes, length_padded hlen]

/-- A pointer to items of the copy. -/
theorem Looped.pointer_owned {i : Fin maxModules} {copy : ProgramObject} {p : Option Nat} {count a x : Nat}
    (hl : Looped i m₀ src copy m') (hp : count = 0 ∧ p = none ∨ p = some a) (ha : a ∈ copy.written) (hx : p = some x) :
    x ∈ copy.owned m' := by
  rcases hp with ⟨-, hp⟩ | hp
  · cases hp.symm.trans hx
  · cases hp.symm.trans hx
    exact hl.written _ ha

theorem rebase_all_inside {vs vs' : List Value} (h : List.Forall₂ (fun v v' => rebase dst src v = some v') vs vs') :
    ∀ v' ∈ vs', dst.PointsInside v' := by
  induction h with
  | nil => nofun
  | cons h _ ih =>
      intro v' hv'
      cases hv' with
      | head => exact rebase_inside h
      | tail _ hv' => exact ih v' hv'

/-- What the loops have written is the contents of the source, but for constants that do not fit. -/
theorem Looped.copied {i : Fin maxModules} {copy : ProgramObject} (hl : Looped i m₀ src copy m')
    (hb : BodyCopied m₀ src copy m') : Copied i m₀ src copy m' := by
  obtain ⟨⟨items, hI, hIlen, hIsrc⟩, ⟨values, values', hrebase, hClen, hC, hCsrc⟩, ⟨text, hS, hSsrc⟩,
    ⟨data, hB, hBsrc⟩⟩ := hb
  have hforall := Unfold.mapM_eq_some.1 hrebase
  have hcount : values'.length = src.constantCount := by rw [← hforall.length_eq, hClen]
  have hreadI : readItems Block.asInstructions m' copy.instructions copy.instructionCount = some items :=
    readItems_padded hl.instructions hI rfl (hIlen.trans hl.header.instructionCount.symm)
  have hreadC : readItems Block.asConstants m' copy.constants copy.constantCount = some values' :=
    readItems_padded hl.constants hC rfl (hcount.trans hl.header.constantCount.symm)
  have hlive : ∀ a ∈ copy.written, m' a ≠ none := by
    intro a ha
    simp only [ProgramObject.written, List.mem_cons, List.not_mem_nil, or_false] at ha
    rcases ha with h | h | h | h
    · simp [h, hI]
    · simp [h, hS]
    · simp [h, hB]
    · simp [h, hC]
  refine ⟨hl.grown, fun a ha => ?_, hl.arrays, hl.outside, ⟨fun a => ?_, fun a => ?_, ?_⟩,
    ⟨hl.stringsUsed, hl.bytesUsed⟩, fun c hcontents => ?_⟩
  · by_cases hw : a ∈ copy.written
    · exact hlive a hw
    · exact hl.live a ha hw
  · exact hl.pointer_owned hl.instructions (by simp [ProgramObject.written])
  · exact hl.pointer_owned hl.constants (by simp [ProgramObject.written])
  · intro vs hvs
    cases hreadC.symm.trans hvs
    exact rebase_all_inside hforall
  · obtain ⟨⟨⟨array, harray⟩, array', harray'⟩, ⟨hinstructions, hconstants, hcatalog⟩, hversion, hflags, hsections⟩ :=
      ProgramObject.contents_eq_some.1 hcontents
    obtain ⟨hblock, hlen⟩ := readArray_some harray
    obtain ⟨hblock', hlen'⟩ := readArray_some harray'
    obtain ⟨values₀, hvalues₀, hresolve⟩ := Option.bind_eq_some_iff.1 hconstants
    cases hCsrc values₀ hvalues₀
    cases hIsrc _ hinstructions
    cases hSsrc array hblock
    cases hBsrc array' hblock'
    have hstorage : StorageCopied m₀ src copy m' := ⟨⟨array, harray, hS⟩, ⟨array', harray', hB⟩, hl.stringsUsed, hl.bytesUsed⟩
    have hfits : copy.readConstants m' = some c.constants ↔ src.Fits m₀ := by
      rw [ProgramObject.readConstants, hreadC, Option.bind_some, Unfold.mapM_eq_some,
        resolve_rebase_all hstorage (Unfold.mapM_eq_some.1 hresolve) hforall]
      simp [ProgramObject.Fits, hvalues₀]
    have htext := readArray_padded (by simpa using .inl hl.stringsUsed) hS
    have hdata := readArray_padded (by simpa using .inl hl.bytesUsed) hB
    rw [← hfits, ProgramObject.contents_eq_some]
    constructor
    · exact fun h => h.2.1.2.1
    · exact fun h => ⟨⟨⟨_, htext⟩, _, hdata⟩, ⟨hreadI, h, hl.catalog _ hcatalog⟩, hl.header.formatVersion.trans hversion,
        hl.header.formatFlags.trans hflags, hl.header.sections.trans hsections⟩

theorem copyProgram_copied {i : Fin maxModules} {copy : ProgramObject}
    (hfree : ∀ a ∈ (emptyProgram i).arrays, m₀ a = none)
    (h : copyProgram alloc sizes (emptyProgram i) src m₀ = some (true, copy, m')) : Copied i m₀ src copy m' := by
  rcases copyProgram_cases hfree h with ⟨hf, -⟩ | ⟨ready, m, pointer, m₁, hr, hc, he, hb⟩
  · cases hf
  · obtain ⟨hl, hg⟩ := hr.looped hc he hb
    exact hl.copied (copyBody_ok hg hl.written hl.distinct hb)

end Aivm.ModuleCache
