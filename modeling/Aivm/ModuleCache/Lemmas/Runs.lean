import Aivm.ModuleCache.Lemmas.Copy

/-!
# Runs of the cache

The active entries own their programs, each its own addresses. Every operation of the cache and of the host keeps that,
and but for `clear` every operation leaves the entries and what they own as they are.
-/

namespace Aivm.ModuleCache

open Blocks

variable {alloc : Allocator} {sizes : Sizes} {m m' : Memory Block} {w w' : World}

/-- An active entry, with all that it owns in memory. -/
structure EntrySound (i : Fin maxModules) (e : CacheEntry) (m : Memory Block) : Prop where
  live : ∀ a ∈ e.program.owned m, m a ≠ none
  arrays : e.program.arrays = (emptyProgram i).arrays
  outside : ∀ a ∈ e.program.allocated m, cacheEnd ≤ a
  selfContained : e.program.SelfContained m
  name : validName e.name = true

/-- Names are distinct, and the counters count. -/
structure Cache.Consistent (c : Cache) : Prop where
  names : ∀ i j e e', c.entries i = some e → c.entries j = some e' → e.name = e'.name → i = j
  count : c.count = (Finset.univ.filter fun i => (c.entries i).isSome).card
  bytes : c.estimatedBytesUsed = ∑ i, ((c.entries i).map (·.estimatedBytes)).getD 0
  countLe : c.count ≤ maxModules
  bytesLe : c.estimatedBytesUsed ≤ maxBytes

structure World.Sound (w : World) : Prop where
  unused : ∀ i, w.cache.entries i = none → ∀ a ∈ (emptyProgram i).arrays, w.memory a = none
  entry : ∀ i e, w.cache.entries i = some e → EntrySound i e w.memory
  disjoint : ∀ i j e e', w.cache.entries i = some e → w.cache.entries j = some e' → i ≠ j →
    ∀ a ∈ e.program.owned w.memory, a ∉ e'.program.owned w.memory
  consistent : w.cache.Consistent

/-- The active entries are still there, and so is all that they own. -/
def World.Keeps (w w' : World) : Prop :=
  ∀ i e, w.cache.entries i = some e →
    w'.cache.entries i = some e ∧ ∀ a ∈ e.program.owned w.memory, w'.memory a = w.memory a

theorem World.Keeps.refl (w : World) : w.Keeps w := fun _ _ he => ⟨he, fun _ _ => rfl⟩

theorem World.Keeps.trans {w'' : World} (h : w.Keeps w') (h' : w'.Keeps w'') : w.Keeps w'' := by
  intro i e he
  obtain ⟨he₁, hm₁⟩ := h i e he
  obtain ⟨he₂, hm₂⟩ := h' i e he₁
  refine ⟨he₂, fun a ha => ?_⟩
  rw [hm₂ a (by rwa [ProgramObject.owned_congr hm₁]), hm₁ a ha]

theorem World.mem_owned {a : Nat} : a ∈ w.owned ↔ ∃ i e, w.cache.entries i = some e ∧ a ∈ e.program.owned w.memory := by
  simp only [World.owned, List.mem_flatMap, List.mem_finRange, true_and]
  refine exists_congr fun i => ?_
  cases w.cache.entries i <;> simp

/-! ## The host -/

theorem EntrySound.congr {i : Fin maxModules} {e : CacheEntry} (h : EntrySound i e m)
    (hm : ∀ a ∈ e.program.owned m, m' a = m a) : EntrySound i e m' where
  live a ha := by
    rw [ProgramObject.owned_congr hm] at ha
    rw [hm a ha]
    exact h.live a ha
  arrays := h.arrays
  outside a ha := by
    rw [ProgramObject.allocated_congr hm] at ha
    exact h.outside a ha
  selfContained := h.selfContained.congr hm
  name := h.name

/-- The host may do what it wants with memory that is not the cache's. -/
theorem World.Sound.host (h : w.Sound) (hm : ∀ a, a < cacheEnd ∨ a ∈ w.owned → m a = w.memory a) :
    World.Sound { w with memory := m } ∧ w.Keeps { w with memory := m } := by
  have howned : ∀ i e, w.cache.entries i = some e → ∀ a ∈ e.program.owned w.memory, m a = w.memory a :=
    fun i e he a ha => hm a (.inr (World.mem_owned.2 ⟨i, e, he, ha⟩))
  refine ⟨⟨fun i hi a ha => ?_, fun i e he => (h.entry i e he).congr (howned i e he), fun i j e e' he he' hij a ha => ?_,
    h.consistent⟩, fun i e he => ⟨he, howned i e he⟩⟩
  · exact (hm a (.inl (emptyProgram_arrays_lt ha))).trans (h.unused i hi a ha)
  · rw [ProgramObject.owned_congr (howned i e he)] at ha
    rw [ProgramObject.owned_congr (howned j e' he')]
    exact h.disjoint i j e e' he he' hij a ha

theorem World.owned_host (hm : ∀ a ∈ w.owned, m a = w.memory a) {a : Nat} (ha : a ∈ World.owned { w with memory := m }) :
    a ∈ w.owned := by
  obtain ⟨i, e, he, ha⟩ := World.mem_owned.1 ha
  have he : w.cache.entries i = some e := he
  have hcongr : ∀ x ∈ e.program.owned w.memory, m x = w.memory x :=
    fun x hx => hm x (World.mem_owned.2 ⟨i, e, he, hx⟩)
  rw [ProgramObject.owned_congr hcongr] at ha
  exact World.mem_owned.2 ⟨i, e, he, ha⟩

/-! ## Putting -/

theorem findEntry_none {c : Cache} {name : List Byte} (h : (c.findEntry name).isSome = false) :
    ∀ i e, c.entries i = some e → e.name ≠ name := by
  intro i e he hn
  rw [Option.isSome_eq_false_iff, Option.isNone_iff_eq_none, Cache.findEntry, List.find?_eq_none] at h
  exact h i (List.mem_finRange i) (by simp [he, hn])

theorem findEntry_some {c : Cache} (hc : c.Consistent) {i : Fin maxModules} {e : CacheEntry}
    (he : c.entries i = some e) : c.findEntry e.name = some i := by
  cases hfind : c.findEntry e.name with
  | none => exact absurd rfl (findEntry_none (by simp [hfind]) i e he)
  | some j =>
      have hj := List.find?_some hfind
      simp only [Option.any_eq_true, decide_eq_true_eq] at hj
      obtain ⟨e', he', hname⟩ := hj
      rw [hc.names j i e' e he' he hname]

/-- A new entry for a name that is not taken. -/
theorem Cache.Consistent.put {c : Cache} (hc : c.Consistent) {i : Fin maxModules} (hi : c.entries i = none)
    {e : CacheEntry} (hname : ∀ j e', c.entries j = some e' → e'.name ≠ e.name) (hcount : c.count < maxModules)
    (hbytes : c.estimatedBytesUsed + e.estimatedBytes ≤ maxBytes) :
    Cache.Consistent ⟨Function.update c.entries i (some e), c.count + 1, c.estimatedBytesUsed + e.estimatedBytes⟩ := by
  refine ⟨?_, ?_, ?_, hcount, hbytes⟩
  · intro j k a b ha hb hab
    by_cases hj : j = i
    · by_cases hk : k = i
      · rw [hj, hk]
      · subst hj
        simp only [Function.update_self, Option.some.injEq] at ha
        simp only [Function.update_of_ne hk] at hb
        exact absurd (ha ▸ hab.symm) (hname k b hb)
    · simp only [Function.update_of_ne hj] at ha
      by_cases hk : k = i
      · subst hk
        simp only [Function.update_self, Option.some.injEq] at hb
        exact absurd (hb ▸ hab) (hname j a ha)
      · simp only [Function.update_of_ne hk] at hb
        exact hc.names j k a b ha hb hab
  · have hset : (Finset.univ.filter fun j => (Function.update c.entries i (some e) j).isSome) =
        insert i (Finset.univ.filter fun j => (c.entries j).isSome) := by
      ext j
      by_cases hj : j = i
      · simp [hj]
      · simp [hj]
    rw [hset, Finset.card_insert_of_notMem (by simp [hi]), hc.count]
  · have hterm : ∀ j, j ≠ i → ((Function.update c.entries i (some e) j).map (·.estimatedBytes)).getD 0 =
        ((c.entries j).map (·.estimatedBytes)).getD 0 := fun j hj => by rw [Function.update_of_ne hj]
    rw [← Finset.add_sum_erase _ _ (Finset.mem_univ i), Finset.sum_congr rfl fun j hj => hterm j (Finset.ne_of_mem_erase hj),
      hc.bytes, ← Finset.add_sum_erase _ _ (Finset.mem_univ i)]
    simp [hi, Nat.add_comm]

/-- A put fails and changes nothing, or it copies the program to an unused entry. -/
theorem put_cases {name : List Byte} {program : ProgramObject} {status : CacheStatus} (hs : w.Sound)
    (h : put alloc sizes name program w = some (status, w')) :
    status ≠ .ok ∧ w' = w ∨
      status = .ok ∧ ∃ i copy, w.cache.entries i = none ∧ Copied i w.memory program copy w'.memory ∧
        w'.cache = ⟨Function.update w.cache.entries i (some ⟨name, copy, estimateProgramBytes sizes program⟩),
          w.cache.count + 1, w.cache.estimatedBytesUsed + estimateProgramBytes sizes program⟩ ∧
        validName name = true ∧ w'.cache.Consistent := by
  simp only [put] at h
  split at h
  · cases h
    exact .inl ⟨nofun, rfl⟩
  · rename_i hvalid
    split at h
    · cases h
      exact .inl ⟨nofun, rfl⟩
    · rename_i hnew
      split at h
      · cases h
        exact .inl ⟨nofun, rfl⟩
      · rename_i hcount
        split at h
        · cases h
          exact .inl ⟨nofun, rfl⟩
        · rename_i hbytes
          split at h
          · cases h
            exact .inl ⟨nofun, rfl⟩
          · rename_i i hfind
            have hi : w.cache.entries i = none := by simpa using List.find?_some hfind
            split at h
            · cases h
            · rename_i copy m hcopy
              cases h
              rw [copyProgram_failed (hs.unused i hi) hcopy]
              exact .inl ⟨nofun, rfl⟩
            · rename_i copy m hcopy
              cases h
              refine .inr ⟨rfl, i, copy, hi, copyProgram_copied (hs.unused i hi) hcopy, rfl, by simpa using hvalid, ?_⟩
              refine hs.consistent.put hi (findEntry_none (by simpa using hnew)) (Nat.lt_of_not_le hcount) ?_
              exact Nat.le_of_not_lt fun hlt => hbytes (.inr hlt)

/-- A put of any outcome. -/
theorem World.Sound.put {name : List Byte} {program : ProgramObject} {status : CacheStatus} (hs : w.Sound)
    (h : put alloc sizes name program w = some (status, w')) : w'.Sound ∧ w.Keeps w' := by
  rcases put_cases hs h with ⟨-, rfl⟩ | ⟨-, i, copy, hi, hc, hcache, hvalid, hconsistent⟩
  · exact ⟨hs, .refl _⟩
  · have hother : ∀ j, j ≠ i → w'.cache.entries j = w.cache.entries j := fun j hj => by
      rw [hcache]
      exact Function.update_of_ne hj ..
    have hself : w'.cache.entries i = some ⟨name, copy, estimateProgramBytes sizes program⟩ := by
      rw [hcache]
      exact Function.update_self ..
    -- what was there is not among the addresses of the copy, for these were free
    have hold : ∀ j e, w.cache.entries j = some e → ∀ a ∈ e.program.owned w.memory, w'.memory a = w.memory a := by
      refine fun j e he a ha => hc.grown.same a fun hn => ?_
      exact (hs.entry j e he).live a ha (hc.grown.fresh a hn)
    have hne : ∀ j e, w.cache.entries j = some e → j ≠ i := by
      rintro j e he rfl
      cases hi.symm.trans he
    have hapart : ∀ j e, w.cache.entries j = some e → ∀ a ∈ e.program.owned w'.memory, a ∉ copy.owned w'.memory := by
      intro j e he a ha hn
      rw [ProgramObject.owned_congr (hold j e he)] at ha
      exact (hs.entry j e he).live a ha (hc.grown.fresh a hn)
    refine ⟨⟨fun j hj a ha => ?_, fun j e he => ?_, fun j k e e' he he' hjk a ha => ?_, hconsistent⟩, fun j e he => ?_⟩
    · have hji : j ≠ i := by
        rintro rfl
        cases hj.symm.trans hself
      have hj' : w.cache.entries j = none := (hother j hji).symm.trans hj
      rw [hc.grown.same a fun hn => ?_]
      · exact hs.unused j hj' a ha
      · have hlt := emptyProgram_arrays_lt ha
        cases List.mem_append.1 hn with
        | inr hn => exact absurd (hc.outside a hn) (Nat.not_le.2 hlt)
        | inl hn =>
            rw [hc.arrays] at hn
            simp only [ProgramObject.arrays, emptyProgram, List.mem_cons, List.not_mem_nil, or_false] at ha hn
            exact hji (Fin.ext (by omega))
    · by_cases hj : j = i
      · subst hj
        cases hself.symm.trans he
        exact ⟨hc.live, hc.arrays, hc.outside, hc.selfContained, hvalid⟩
      · rw [hother j hj] at he
        exact (hs.entry j e he).congr (hold j e he)
    · by_cases hj : j = i
      · have hk : k ≠ i := fun hk => hjk (hj.trans hk.symm)
        subst hj
        cases hself.symm.trans he
        rw [hother k hk] at he'
        exact fun hn => hapart k e' he' a hn ha
      · rw [hother j hj] at he
        by_cases hk : k = i
        · subst hk
          cases hself.symm.trans he'
          exact hapart j e he a ha
        · rw [hother k hk] at he'
          rw [ProgramObject.owned_congr (hold j e he)] at ha
          rw [ProgramObject.owned_congr (hold k e' he')]
          exact hs.disjoint j k e e' he he' hjk a ha
    · exact ⟨(hother j (hne j e he)).trans he, hold j e he⟩

/-- What is owned after a put was owned before it or was free. -/
theorem put_owned {name : List Byte} {program : ProgramObject} {status : CacheStatus} (hs : w.Sound)
    (h : ModuleCache.put alloc sizes name program w = some (status, w')) {a : Nat} (ha : a ∈ w'.owned) :
    a ∈ w.owned ∨ w.memory a = none := by
  rcases put_cases hs h with ⟨-, rfl⟩ | ⟨-, i, copy, hi, hc, hcache, -⟩
  · exact .inl ha
  · obtain ⟨j, e, he, ha⟩ := World.mem_owned.1 ha
    rw [hcache] at he
    by_cases hj : j = i
    · subst hj
      simp only [Function.update_self, Option.some.injEq] at he
      subst he
      exact .inr (hc.grown.fresh a ha)
    · simp only [Function.update_of_ne hj] at he
      have hold : ∀ x ∈ e.program.owned w.memory, w'.memory x = w.memory x :=
        fun x hx => hc.grown.same x fun hn => (hs.entry j e he).live x hx (hc.grown.fresh x hn)
      rw [ProgramObject.owned_congr hold] at ha
      exact .inl (World.mem_owned.2 ⟨j, e, he, ha⟩)

/-! ## Clearing -/

theorem Cache.init_consistent : Cache.init.Consistent := by
  refine ⟨nofun, ?_, ?_, Nat.zero_le _, Nat.zero_le _⟩ <;> simp [Cache.init]

/-- A world with an empty cache. -/
theorem World.Sound.init (h : ∀ a < cacheEnd, m a = none) : World.Sound ⟨.init, m⟩ where
  unused _ _ a ha := h a (emptyProgram_arrays_lt ha)
  entry := nofun
  disjoint := nofun
  consistent := Cache.init_consistent

theorem World.Sound.below (hs : w.Sound) {a : Nat} (ha : a < cacheEnd) (hn : a ∉ w.owned) : w.memory a = none := by
  have hi : a / 4 < maxModules := by
    simp only [cacheEnd] at ha
    omega
  have hmem : a ∈ (emptyProgram ⟨a / 4, hi⟩).arrays := by
    simp only [ProgramObject.arrays, emptyProgram, List.mem_cons, List.not_mem_nil, or_false]
    omega
  cases he : w.cache.entries ⟨a / 4, hi⟩ with
  | none => exact hs.unused _ he a hmem
  | some e =>
      refine absurd (World.mem_owned.2 ⟨_, e, he, ?_⟩) hn
      rw [← (hs.entry _ e he).arrays] at hmem
      exact ProgramObject.mem_owned_arrays hmem

theorem World.Sound.clear (hs : w.Sound) : (clear w).Sound := by
  refine .init fun a ha => ?_
  by_cases hn : a ∈ w.owned
  · exact free_mem hn
  · exact (free_not_mem hn).trans (hs.below ha hn)

end Aivm.ModuleCache
