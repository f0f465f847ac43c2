import Aivm.Lib.Unfold
import Aivm.ModuleCache.Objects

/-!
# Reading programs

What can be read in a memory can be read in every memory that extends it, and a self-contained program reads the same
wherever its own blocks are the same.
-/

namespace Aivm.ModuleCache

open Blocks

variable {m m' : Memory Block} {a offset length : Nat} {pointer : Option Nat}

/-! ## Extensions -/

theorem view_mono {α : Type} {view : Block → Option (List α)} {items} (he : Extends m m')
    (h : (m a).bind view = some items) : (m' a).bind view = some items := by
  obtain ⟨b, hb, hv⟩ := Option.bind_eq_some_iff.1 h
  simp [he a b hb, hv]

theorem readItems_mono {α : Type} {view : Block → Option (List α)} {count items} (he : Extends m m')
    (h : readItems view m pointer count = some items) : readItems view m' pointer count = some items := by
  simp only [readItems] at h ⊢
  split
  · rwa [if_pos ‹_›] at h
  · rw [if_neg ‹_›] at h
    cases pointer with
    | none => simp at h
    | some a =>
        simp only [Option.bind_some, Option.bind_eq_bind] at h ⊢
        obtain ⟨all, hall, h⟩ := Option.bind_eq_some_iff.1 h
        rw [view_mono he hall]
        exact h

theorem readBytesAt_mono {data} (he : Extends m m') (h : readBytesAt m a offset length = some data) :
    readBytesAt m' a offset length = some data := by
  simp only [readBytesAt, Option.bind_eq_bind] at h ⊢
  split
  · rwa [if_pos ‹_›] at h
  · rw [if_neg ‹_›] at h
    obtain ⟨all, hall, h⟩ := Option.bind_eq_some_iff.1 h
    rw [view_mono he hall]
    exact h

theorem readText_mono {text} (he : Extends m m') (h : readText m a offset = some text) :
    readText m' a offset = some text := by
  simp only [readText, Option.bind_eq_bind] at h ⊢
  obtain ⟨all, hall, h⟩ := Option.bind_eq_some_iff.1 h
  rw [view_mono he hall]
  exact h

theorem readArray_mono {size data} (he : Extends m m') (h : readArray m a size = some data) :
    readArray m' a size = some data := by
  simp only [readArray, Option.bind_eq_bind] at h ⊢
  obtain ⟨all, hall, h⟩ := Option.bind_eq_some_iff.1 h
  rw [view_mono he hall]
  exact h

theorem readCell_mono {c e} (he : Extends m m') (h : readCell m c = some e) : readCell m' c = some e := by
  simp only [readCell, Option.map_eq_some_iff] at h ⊢
  obtain ⟨artifact, hartifact, h⟩ := h
  exact ⟨artifact, readBytesAt_mono he hartifact, h⟩

theorem mapM_of_forall₂ {α β γ : Type} {f : α → Option γ} {g : β → Option γ} {as : List α} {bs : List β} {cs : List γ}
    (h : List.Forall₂ (fun a b => ∀ c, f a = some c → g b = some c) as bs) (hf : as.mapM f = some cs) :
    bs.mapM g = some cs := by
  rw [Unfold.mapM_eq_some] at hf ⊢
  induction h generalizing cs with
  | nil =>
      cases hf
      exact .nil
  | cons h _ ih =>
      cases hf with
      | cons hc htail => exact .cons (h _ hc) (ih htail)

theorem readCatalog_mono {p : ProgramObject} {es} (he : Extends m m') (h : p.readCatalog m = some es) :
    p.readCatalog m' = some es := by
  obtain ⟨cells, hcells, hes⟩ := Option.bind_eq_some_iff.1 h
  rw [ProgramObject.readCatalog, readItems_mono he hcells]
  exact mapM_of_forall₂ (List.forall₂_same.2 fun c _ e hc => readCell_mono he hc) hes

theorem readItems_length {α : Type} {view : Block → Option (List α)} {count items}
    (h : readItems view m pointer count = some items) : items.length = count := by
  simp only [readItems] at h
  split at h
  · cases h
    exact Eq.symm ‹_›
  · obtain ⟨all, -, h⟩ := Option.bind_eq_some_iff.1 h
    split at h
    · cases h
      simpa using ‹_›
    · cases h

theorem readBytesAt_length {data} (h : readBytesAt m a offset length = some data) : data.length = length := by
  simp only [readBytesAt] at h
  split at h
  · cases h
    exact Eq.symm ‹_›
  · obtain ⟨all, -, h⟩ := Option.bind_eq_some_iff.1 h
    split at h
    · cases h
      simp
      omega
    · cases h

/-! ## The same blocks -/

theorem readItems_congr {α : Type} {view : Block → Option (List α)} {count} (h : ∀ a, pointer = some a → m' a = m a) :
    readItems view m' pointer count = readItems view m pointer count := by
  cases pointer with
  | none => rfl
  | some a => simp [readItems, h a rfl]

theorem readBytesAt_congr (h : m' a = m a) : readBytesAt m' a offset length = readBytesAt m a offset length := by
  simp [readBytesAt, h]

theorem readCell_congr {c} (h : m' c.artifact = m c.artifact) : readCell m' c = readCell m c := by
  simp [readCell, readBytesAt, h]

theorem mapM_congr {α β : Type} {f g : α → Option β} : ∀ {as : List α}, (∀ a ∈ as, f a = g a) → as.mapM f = as.mapM g
  | [], _ => rfl
  | a :: as, h => by
      rw [List.mapM_cons, List.mapM_cons, h a (List.mem_cons_self ..),
        mapM_congr fun b hb => h b (List.mem_cons_of_mem a hb)]

namespace ProgramObject

variable {p : ProgramObject}

theorem mem_owned_arrays (h : a ∈ p.arrays) : a ∈ p.owned m := List.mem_append_left _ h

theorem stringStorage_owned (m : Memory Block) (p : ProgramObject) : p.stringStorage ∈ p.owned m :=
  mem_owned_arrays (by simp [arrays])

theorem bytesStorage_owned (m : Memory Block) (p : ProgramObject) : p.bytesStorage ∈ p.owned m :=
  mem_owned_arrays (by simp [arrays])

theorem catalogEntries_owned (h : p.catalogEntries = some a) : a ∈ p.owned m := by
  simp [owned, allocated, h]

theorem artifact_owned {c} (h : c ∈ p.cells m) : c.artifact ∈ p.owned m := by
  simp only [owned, allocated, List.mem_append, List.mem_map]
  exact .inr (.inr ⟨c, h, rfl⟩)

theorem cells_congr (h : ∀ a ∈ p.owned m, m' a = m a) : p.cells m' = p.cells m := by
  rw [cells, cells, readItems_congr fun a ha => h a (catalogEntries_owned ha)]

theorem owned_congr (h : ∀ a ∈ p.owned m, m' a = m a) : p.owned m' = p.owned m := by
  rw [owned, owned, allocated, allocated, cells_congr h]

theorem allocated_congr (h : ∀ a ∈ p.owned m, m' a = m a) : p.allocated m' = p.allocated m := by
  rw [allocated, allocated, cells_congr h]

theorem resolve_congr (h : ∀ a ∈ p.owned m, m' a = m a) {v : Value} (hv : p.PointsInside v) :
    resolve m' v = resolve m v := by
  cases v with
  | string text =>
      obtain ⟨offset, rfl⟩ := hv
      simp [resolve, readText, h _ (stringStorage_owned m p)]
  | bytes data length =>
      rcases hv with rfl | ⟨offset, rfl⟩
      · rfl
      · simp [resolve, readBytesAt, h _ (bytesStorage_owned m p)]
  | _ => rfl

theorem readConstants_congr (hself : p.SelfContained m) (h : ∀ a ∈ p.owned m, m' a = m a) :
    p.readConstants m' = p.readConstants m := by
  rw [readConstants, readConstants, readItems_congr fun a ha => h a (hself.constants a ha)]
  cases hread : readItems Block.asConstants m p.constants p.constantCount with
  | none => rfl
  | some values => exact mapM_congr fun v hv => resolve_congr h (hself.values values hread v hv)

theorem readCatalog_congr (h : ∀ a ∈ p.owned m, m' a = m a) : p.readCatalog m' = p.readCatalog m := by
  rw [readCatalog, readCatalog, readItems_congr fun a ha => h a (catalogEntries_owned ha)]
  cases hread : readItems Block.asCatalog m p.catalogEntries p.catalogCount with
  | none => rfl
  | some items =>
      refine mapM_congr fun c hc => readCell_congr (h _ (artifact_owned ?_))
      simpa [cells, hread] using hc

/-- The parts of the contents. -/
theorem contents_eq_some {c : Contents} : p.contents m = some c ↔
    ((∃ array, readArray m p.stringStorage programMaxStringBytes = some array) ∧
      (∃ array, readArray m p.bytesStorage programMaxBytesStorage = some array)) ∧
    (readItems Block.asInstructions m p.instructions p.instructionCount = some c.instructions ∧
      p.readConstants m = some c.constants ∧ p.readCatalog m = some c.workerCatalog) ∧
    p.formatVersion = c.formatVersion ∧ p.formatFlags = c.formatFlags ∧ p.sections = c.sections := by
  simp only [contents, Option.bind_eq_bind, Option.bind_eq_some_iff, Option.pure_def, Option.some.injEq]
  constructor
  · rintro ⟨array, h₁, array', h₂, instructions, h₃, constants, h₄, catalog, h₅, rfl⟩
    exact ⟨⟨⟨array, h₁⟩, array', h₂⟩, ⟨h₃, h₄, h₅⟩, rfl, rfl, rfl⟩
  · rintro ⟨⟨⟨array, h₁⟩, array', h₂⟩, ⟨h₃, h₄, h₅⟩, h₆, h₇, h₈⟩
    exact ⟨array, h₁, array', h₂, _, h₃, _, h₄, _, h₅, by rw [h₆, h₇, h₈]⟩

/-- A self-contained program reads the same wherever its own blocks are the same. -/
theorem contents_congr (hself : p.SelfContained m) (h : ∀ a ∈ p.owned m, m' a = m a) : p.contents m' = p.contents m := by
  rw [contents, contents, readArray, readArray, readArray, readArray, h _ (stringStorage_owned m p),
    h _ (bytesStorage_owned m p), readItems_congr fun a ha => h a (hself.instructions a ha), readConstants_congr hself h,
    readCatalog_congr h]

theorem SelfContained.congr (hself : p.SelfContained m) (h : ∀ a ∈ p.owned m, m' a = m a) : p.SelfContained m' where
  instructions a ha := by
    rw [owned_congr h]
    exact hself.instructions a ha
  constants a ha := by
    rw [owned_congr h]
    exact hself.constants a ha
  values values hread := by
    rw [readItems_congr fun a ha => h a (hself.constants a ha)] at hread
    exact hself.values values hread

end ProgramObject

end Aivm.ModuleCache
