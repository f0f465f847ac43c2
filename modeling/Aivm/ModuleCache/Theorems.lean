import Aivm.ModuleCache.Lemmas.Load

/-!
# The module cache keeps what it is given

An entry is a copy that shares nothing with its source, and it stays as it is until the cache is cleared. It says what its
source said if the constants of the source lie in the used parts of its storage.
-/

namespace Aivm.ModuleCache

open Blocks Runs

variable {alloc : Allocator} {sizes : Sizes} {m : Memory Block} {w w' : World} {c : CacheCommand} {cs : List CacheCommand}

theorem World.Sound.step (hs : w.Sound) (h : Step sizes w c w') : w'.Sound ∧ (c ≠ .clear → w.Keeps w') := by
  cases h with
  | put hput =>
      obtain ⟨hs', hk⟩ := hs.put hput
      exact ⟨hs', fun _ => hk⟩
  | load hbase hfree hload =>
      rcases load_cases hs ⟨hbase, hfree⟩ hload with ⟨-, rfl⟩ | ⟨r, w₁, w₂, -, -, hs₁, hk₁, hput, hs₂, hk₂, -⟩
      · exact ⟨hs, fun _ => .refl _⟩
      · exact ⟨hs₂, fun _ => (hk₁.trans (hs₁.put hput).2).trans hk₂⟩
  | get => exact ⟨hs, fun _ => .refl _⟩
  | clear => exact ⟨hs.clear, fun h => absurd rfl h⟩
  | host hm =>
      obtain ⟨hs', hk⟩ := hs.host hm
      exact ⟨hs', fun _ => hk⟩

theorem World.Sound.run (hs : w.Sound) (h : Run (Step sizes) w cs w') :
    w'.Sound ∧ (CacheCommand.clear ∉ cs → w.Keeps w') := by
  refine h.invariant (P := fun cs w' => w'.Sound ∧ (CacheCommand.clear ∉ cs → w.Keeps w')) ⟨hs, fun _ => .refl w⟩ ?_
  rintro cs w₁ c w₂ - ⟨hs₁, hk₁⟩ hstep
  obtain ⟨hs₂, hk₂⟩ := hs₁.step hstep
  refine ⟨hs₂, fun hn => ?_⟩
  simp only [List.mem_append, List.mem_singleton, not_or] at hn
  exact (hk₁ hn.1).trans (hk₂ fun hc => hn.2 hc.symm)

/-- The host's memory with an empty cache. -/
def World.start (m : Memory Block) : World := ⟨.init, fun a => if a < cacheEnd then none else m a⟩

theorem World.start_sound (m : Memory Block) : (World.start m).Sound := .init fun a ha => by simp [ha]

/-- An entry that a name leads to, with what it owns. -/
structure Serves (w : World) (name : List Byte) (q : ProgramObject) : Prop where
  found : get name w.cache = (.ok, some q)
  selfContained : q.SelfContained w.memory

theorem Serves.of_entry (hs : w.Sound) {i : Fin maxModules} {e : CacheEntry} (he : w.cache.entries i = some e) :
    Serves w e.name e.program where
  found := by simp [get, (hs.entry i e he).name, findEntry_some hs.consistent he, he]
  selfContained := (hs.entry i e he).selfContained

/-- An entry serves its name with the same contents until the cache is cleared. -/
theorem Serves.later (hs : w.Sound) {i : Fin maxModules} {e : CacheEntry} (he : w.cache.entries i = some e)
    (h : Run (Step sizes) w cs w') (hc : CacheCommand.clear ∉ cs) :
    Serves w' e.name e.program ∧ e.program.contents w'.memory = e.program.contents w.memory ∧
      e.program.owned w'.memory = e.program.owned w.memory := by
  obtain ⟨hs', hk⟩ := hs.run h
  obtain ⟨he', hm⟩ := hk hc i e he
  exact ⟨.of_entry hs' he', ProgramObject.contents_congr (hs.entry i e he).selfContained hm, ProgramObject.owned_congr hm⟩

/-- The entry of a successful put. -/
theorem put_ok {name : List Byte} {p : ProgramObject} (hs : w.Sound) (h : put alloc sizes name p w = some (.ok, w')) :
    ∃ i e, w'.cache.entries i = some e ∧ e.name = name ∧ (∀ a ∈ e.program.owned w'.memory, w.memory a = none) ∧
      (p.stringStorageUsed ≤ programMaxStringBytes ∧ p.bytesStorageUsed ≤ programMaxBytesStorage) ∧
      ∀ c, p.contents w.memory = some c → (e.program.contents w'.memory = some c ↔ p.Fits w.memory) := by
  rcases put_cases hs h with ⟨hne, -⟩ | ⟨-, i, copy, -, hc, hcache, -⟩
  · exact absurd rfl hne
  · exact ⟨i, ⟨name, copy, _⟩, by rw [hcache]; exact Function.update_self .., rfl, hc.grown.fresh, hc.limits,
      hc.contents⟩

/-- A program with the string "a" at the start of its string storage, of which `used` bytes are used. -/
def textProgram (used : Nat) : ProgramObject where
  formatVersion := 1
  formatFlags := 0
  sections := []
  instructions := none
  instructionCount := 0
  constants := some 1001
  constantCount := 1
  instructionStorage := 1000
  allocatedInstructionStorage := none
  constantStorage := 1001
  allocatedConstantStorage := none
  stringStorage := 1002
  stringStorageUsed := used
  bytesStorage := 1003
  bytesStorageUsed := 0
  catalogEntries := none
  catalogCount := 0

def textMemory : Memory Block := fun a =>
  if a = 1001 then some (.constants [.string (.arena 1002 0)])
  else if a = 1002 then some (.bytes ([97, 0] ++ List.replicate (programMaxStringBytes - 2) 0))
  else if a = 1003 then some (.bytes (List.replicate programMaxBytesStorage 0))
  else none

def textSizes : Sizes := ⟨0, 1, 1, 1⟩

/-- An allocator that grants nothing. -/
def noAllocator : Allocator := ⟨fun _ _ => none, nofun⟩

theorem textMemory_strings : (World.start textMemory).memory 1002 =
    some (.bytes ([97, 0] ++ List.replicate (programMaxStringBytes - 2) 0)) := by
  simp [World.start, cacheEnd, maxModules, textMemory]

theorem textMemory_constants : (World.start textMemory).memory 1001 = some (.constants [.string (.arena 1002 0)]) := by
  simp [World.start, cacheEnd, maxModules, textMemory]

theorem textMemory_text : readText (World.start textMemory).memory 1002 0 = some [97] := by
  simp [readText, textMemory_strings, Block.asBytes, CStrings.read]

theorem textProgram_copied {used : Nat} (h : used ≤ 2) : ∃ copy m',
    copyProgram noAllocator textSizes (emptyProgram ⟨0, by decide⟩) (textProgram used) (World.start textMemory).memory =
      some (true, copy, m') := by
  have hlimits : ¬ (programMaxSections < (textProgram used).sections.length ∨
      programMaxStringBytes < (textProgram used).stringStorageUsed ∨
      programMaxBytesStorage < (textProgram used).bytesStorageUsed) := by
    simp only [textProgram, programMaxStringBytes, List.length_nil]
    omega
  have hroom : 1 ≤ programInlineConstants := by decide
  have hused : used ≤ programMaxStringBytes - 2 + 1 + 1 := Nat.le_trans h (by decide)
  simp only [copyProgram, if_neg hlimits]
  simp only [reserve, textProgram, ProgramObject.header, copyCatalog, emptyProgram, copyBody, clearObject, Nat.zero_le,
    if_true, hroom, ProgramObject.mutableInstructions, ProgramObject.mutableConstants, Option.getD_none]
  by_cases h0 : used = 0
  · simp [h0, readItems, readBytesAt, textMemory_constants, Block.asConstants, Blocks.set, rebase, offsetInRange]
  · simp [h0, hused, readItems, readBytesAt, textMemory_strings, textMemory_constants, Block.asBytes, Block.asConstants,
      Blocks.set, rebase, offsetInRange]

theorem textProgram_put {used : Nat} (h : used ≤ 2) : ∃ w',
    put noAllocator textSizes [109] (textProgram used) (World.start textMemory) = some (.ok, w') := by
  have hname : validName [109] = true := by decide
  have hnone : (World.start textMemory).cache.findEntry [109] = none := by
    simp [World.start, Cache.init, Cache.findEntry]
  have hcount : ¬ maxModules ≤ (World.start textMemory).cache.count := by simp [World.start, Cache.init, maxModules]
  have hbytes : ¬ (sizeMax < (World.start textMemory).cache.estimatedBytesUsed +
        estimateProgramBytes textSizes (textProgram used) ∨
      maxBytes < (World.start textMemory).cache.estimatedBytesUsed +
        estimateProgramBytes textSizes (textProgram used)) := by
    interval_cases used <;> decide
  have hfree : (List.finRange maxModules).find? (fun i => ((World.start textMemory).cache.entries i).isNone) =
      some ⟨0, by decide⟩ := by
    simp only [World.start, Cache.init, Option.isNone_none]
    decide
  obtain ⟨copy, m', hcopy⟩ := textProgram_copied h
  simp only [put, hname, hnone, hcount, if_neg hbytes, hfree, hcopy, not_true, if_false, Option.isSome_none,
    Bool.false_eq_true]
  exact ⟨_, rfl⟩

theorem textProgram_contents (used : Nat) : (textProgram used).contents (World.start textMemory).memory =
    some ⟨1, 0, [], [], [.string (.lit [97])], []⟩ := by
  have hstrings : readArray (World.start textMemory).memory (textProgram used).stringStorage programMaxStringBytes =
      some ([97, 0] ++ List.replicate (programMaxStringBytes - 2) 0) := by
    have hlen : 2 + (programMaxStringBytes - 2) = programMaxStringBytes := by decide
    simp only [readArray, textProgram, textMemory_strings, Block.asBytes, Option.bind_eq_bind, Option.bind_some,
      List.length_append, List.length_cons, List.length_nil, List.length_replicate, Nat.zero_add, Nat.reduceAdd, hlen, if_true]
  have hbytes : readArray (World.start textMemory).memory (textProgram used).bytesStorage programMaxBytesStorage =
      some (List.replicate programMaxBytesStorage 0) := by
    simp [readArray, textProgram, World.start, cacheEnd, maxModules, textMemory, Block.asBytes]
  simp only [ProgramObject.contents, hstrings, hbytes]
  simp [textProgram, readItems, ProgramObject.readConstants, ProgramObject.readCatalog, textMemory_constants,
    Block.asConstants, resolve, textMemory_text]

/-- A string that starts behind the used part is not refused, and it is not copied. -/
theorem put_cutsText : ∃ w' q, put noAllocator textSizes [109] (textProgram 0) (World.start textMemory) = some (.ok, w') ∧
    get [109] w'.cache = (.ok, some q) ∧
    q.contents w'.memory ≠ (textProgram 0).contents (World.start textMemory).memory := by
  obtain ⟨w', hput⟩ := textProgram_put (Nat.zero_le 2)
  have hs := (World.start_sound textMemory).put hput
  obtain ⟨i, e, he, hname, -, -, hcontents⟩ := put_ok (World.start_sound textMemory) hput
  refine ⟨w', e.program, hput, hname ▸ (Serves.of_entry hs.1 he).found, fun h => ?_⟩
  have hfits := (hcontents _ (textProgram_contents 0)).1 (h.trans (textProgram_contents 0))
  have hread : readItems Block.asConstants (World.start textMemory).memory (textProgram 0).constants
      (textProgram 0).constantCount = some [.string (.arena 1002 0)] := by
    simp [textProgram, readItems, textMemory_constants, Block.asConstants]
  have hend := hfits _ hread _ (List.mem_singleton.2 rfl) _ textMemory_text
  simp [textProgram] at hend

/-- What holds whenever the cache is in use. -/
structure World.KeepsModules (sizes : Sizes) (w : World) : Prop where
  consistent : w.cache.Consistent
  failed : ∀ alloc name p status w', put alloc sizes name p w = some (status, w') → status ≠ .ok → w' = w
  unloaded : ∀ alloc host uninitialized base name bytes status w', Placeable host uninitialized base bytes w →
    load alloc sizes host uninitialized base name bytes w = some (status, w') → status ≠ .ok → w' = w
  put : ∀ alloc name p w₁ cs w₂, put alloc sizes name p w = some (.ok, w₁) → Run (Step sizes) w₁ cs w₂ →
    CacheCommand.clear ∉ cs → ∃ q, Serves w₂ name q ∧ (∀ a ∈ q.owned w₂.memory, w.memory a = none) ∧
      ∀ c, p.contents w.memory = some c → (q.contents w₂.memory = some c ↔ p.Fits w.memory)
  load : ∀ alloc host uninitialized base name bytes w₁ cs w₂, Placeable host uninitialized base bytes w →
    load alloc sizes host uninitialized base name bytes w = some (.ok, w₁) → Run (Step sizes) w₁ cs w₂ →
      CacheCommand.clear ∉ cs → ∃ r q, loadProgram host bytes uninitialized = .ok r ∧ Serves w₂ name q ∧
        q.contents w₂.memory = some (recordContents r)

/-- In every run of the cache, entries are deep copies that stay, and failures leave no trace. -/
theorem keepsModules (h : Run (Step sizes) (World.start m) cs w) : w.KeepsModules sizes := by
  have hs := ((World.start_sound m).run h).1
  refine ⟨hs.consistent, ?_, ?_, ?_, ?_⟩
  · intro alloc name p status w' hput hne
    rcases put_cases hs hput with ⟨-, hw⟩ | ⟨hok, -⟩
    · exact hw
    · exact absurd hok hne
  · intro alloc host uninitialized base name bytes status w' hplace hload hne
    rcases load_cases hs hplace hload with ⟨-, hw⟩ | ⟨r, w₁, w₂, -, -, -, -, -, -, -, -, hw⟩
    · exact hw
    · exact hw hne
  · intro alloc name p w₁ cs w₂ hput hrun hclear
    obtain ⟨i, e, he, rfl, hfresh, -, hcontents⟩ := put_ok hs hput
    obtain ⟨hserves, hsame, howned⟩ := Serves.later (hs.put hput).1 he hrun hclear
    exact ⟨e.program, hserves, howned ▸ hfresh, hsame ▸ hcontents⟩
  · intro alloc host uninitialized base name bytes w₁ cs w₂ hplace hload hrun hclear
    rcases load_cases hs hplace hload with ⟨hne, -⟩ | ⟨r, w₃, w₄, hr, rfl, hs₃, -, hput, hs₁, hk, hcache, -⟩
    · exact absurd rfl hne
    · obtain ⟨i, e, he, rfl, -, ⟨hstrings, hbytes⟩, hcontents⟩ := put_ok hs₃ hput
      obtain ⟨hloaded, hfits⟩ := loaded_contents w.memory base hr hstrings hbytes
      obtain ⟨he₁, hm⟩ := hk i e he
      have hkept := ProgramObject.contents_congr ((hs₃.put hput).1.entry i e he).selfContained hm
      obtain ⟨hserves, hsame, -⟩ := Serves.later hs₁ he₁ hrun hclear
      exact ⟨r, e.program, hr, hserves, (hsame.trans hkept).trans ((hcontents _ hloaded).2 hfits)⟩

theorem textProgram_keepsModules :
    ∃ w, Run (Step textSizes) (World.start textMemory) [.put [109]] w ∧ w.KeepsModules textSizes := by
  obtain ⟨w, hput⟩ := textProgram_put (Nat.le_refl 2)
  have hrun : Run (Step textSizes) (World.start textMemory) [.put [109]] w := .next .start (.put hput)
  exact ⟨w, hrun, keepsModules hrun⟩

end Aivm.ModuleCache
