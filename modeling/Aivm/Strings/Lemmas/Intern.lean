import Aivm.Strings.Intern

/-!
# The content index tells the truth

While the index is complete, every row names a string of the arena with its length, so a string found through the
index is the one asked for.
-/

namespace Aivm

open CStrings

/-- The row describes a string of the arena. -/
def StringInternEntry.Sound (arena : List Byte) (e : StringInternEntry) : Prop :=
  ∃ s, read 0 (arena.drop e.offset) = some s ∧ s.length = e.length

def StringIntern.Sound (arena : List Byte) (i : StringIntern) : Prop :=
  i.complete = true → ∀ e ∈ i.entries, e.hash ≠ 0 → e.Sound arena

theorem StringInternEntry.Sound.append {arena e} (h : StringInternEntry.Sound arena e) (more : List Byte) :
    StringInternEntry.Sound (arena ++ more) e := by
  obtain ⟨s, hs, hl⟩ := h
  refine ⟨s, ?_, hl⟩
  by_cases ho : e.offset ≤ arena.length
  · rw [List.drop_append_of_le_length ho]
    exact read_append hs more
  · rw [List.drop_eq_nil_of_le (by omega)] at hs
    simp [CStrings.read] at hs

/-! ## Rows of the table -/

theorem stringInternProbe_mem {entries e} : ∀ {probes slot es}, stringInternProbe entries e probes slot = some es →
    ∀ x ∈ es, x = e ∨ x ∈ entries := by
  intro probes
  induction probes with
  | zero =>
      intro slot es h
      cases h
  | succ probes ih =>
      intro slot es h
      simp only [stringInternProbe] at h
      split at h
      · cases h
      · split at h
        · cases h
          intro x hx
          rcases List.mem_or_eq_of_mem_set hx with hx | rfl
          · exact .inr hx
          · exact .inl rfl
        · exact ih h

theorem stringInternInsertAll_mem {new} : ∀ {entries es}, stringInternInsertAll entries new = some es →
    ∀ x ∈ es, x ∈ new ∨ x ∈ entries := by
  induction new with
  | nil =>
      intro entries es h x hx
      cases h
      exact .inr hx
  | cons e new ih =>
      intro entries es h x hx
      simp only [stringInternInsertAll] at h
      split at h
      · rename_i entries' he
        rcases ih h x hx with hx | hx
        · exact .inl (List.mem_cons_of_mem _ hx)
        · rcases stringInternProbe_mem he x hx with rfl | hx
          · exact .inl (List.mem_cons_self ..)
          · exact .inr hx
      · cases h

theorem stringInternResize_mem {env vm requested old es} (h : stringInternResize env vm requested old = some es) {x}
    (hx : x ∈ es) (h0 : x.hash ≠ 0) : x ∈ old := by
  unfold stringInternResize at h
  split at h
  · cases h
  split at h
  · rcases stringInternInsertAll_mem h x hx with hx | hx
    · exact (List.mem_filter.1 hx).1
    · rw [(List.mem_replicate.1 hx).2] at h0
      exact absurd rfl h0
  · cases h

/-! ## Rebuilding -/

/-- The strings listed for the arena are read at their offsets. -/
theorem arenaStrings_read {arena : List Byte} : ∀ {fuel offset ss}, arenaStrings fuel (arena.drop offset) offset = some ss →
    ∀ os ∈ ss, read 0 (arena.drop os.1) = some os.2 := by
  intro fuel
  induction fuel with
  | zero =>
      intro offset ss h
      simp only [arenaStrings] at h
      split at h
      · cases h
        simp
      · cases h
  | succ fuel ih =>
      intro offset ss h
      simp only [arenaStrings] at h
      split at h
      · cases h
        simp
      · split at h
        · cases h
        · rename_i s hs
          rw [List.drop_drop, ← Nat.add_assoc] at h
          obtain ⟨ss', hss, rfl⟩ := Option.map_eq_some_iff.1 h
          intro os hos
          rcases List.mem_cons.1 hos with rfl | hos
          · exact hs
          · exact ih hss os hos

theorem indexStrings_sound {arena : List Byte} {ss} : ∀ {i : StringIntern}, i.Sound arena →
    (∀ os ∈ ss, read 0 (arena.drop os.1) = some os.2) → (indexStrings i ss).Sound arena := by
  induction ss with
  | nil =>
      intro i hi _
      exact hi
  | cons os ss ih =>
      obtain ⟨offset, s⟩ := os
      intro i hi hss
      simp only [indexStrings]
      split
      · rename_i entries he
        refine ih (fun hc e hmem h0 => ?_) fun os hos => hss os (List.mem_cons_of_mem _ hos)
        rcases stringInternProbe_mem he e hmem with rfl | hmem
        · exact ⟨s, hss _ (List.mem_cons_self ..), rfl⟩
        · exact hi hc e hmem h0
      · intro hc
        cases hc

theorem resetStringInternIndex_sound (arena : List Byte) (i : StringIntern) : (resetStringInternIndex i).Sound arena := by
  intro _ e he h0
  obtain ⟨_, _, rfl⟩ := List.mem_map.1 he
  exact absurd rfl h0

theorem rebuildStringInternIndex_sound (env : Env) (vm : Vm) : (rebuildStringInternIndex env vm).Sound vm.stringArena := by
  unfold rebuildStringInternIndex
  split
  · intro hc
    cases hc
  · exact resetStringInternIndex_sound _ _
  · rename_i s ss hs
    have hread : ∀ os ∈ s :: ss, read 0 (vm.stringArena.drop os.1) = some os.2 := by
      rw [show vm.stringArena = vm.stringArena.drop 0 from rfl] at hs
      exact arenaStrings_read hs
    simp only
    split
    · intro hc
      cases hc
    · rename_i entries he
      refine indexStrings_sound (fun _ e hmem h0 => ?_) hread
      obtain ⟨_, _, rfl⟩ := List.mem_map.1 (stringInternResize_mem he hmem h0)
      exact absurd rfl h0

/-! ## Looking up and remembering -/

theorem lookupStringProbe_sound {vm : Vm} {hash text} (hi : vm.stringIntern.Sound vm.stringArena)
    (hc : vm.stringIntern.complete = true) : ∀ {probes slot offset},
    lookupStringProbe vm hash text probes slot = some offset → read 0 (vm.stringArena.drop offset) = some text := by
  intro probes
  induction probes with
  | zero =>
      intro slot offset h
      cases h
  | succ probes ih =>
      intro slot offset h
      simp only [lookupStringProbe] at h
      split at h
      · cases h
      · rename_i e he
        split at h
        · cases h
        · rename_i h0
          split at h
          · rename_i hm
            cases h
            obtain ⟨s, hs, hl⟩ := hi hc e (List.mem_of_getElem? he) h0
            obtain ⟨_, rest, hrest⟩ := read_eq_some.1 hs
            have htext := hm.2.2
            rw [slice, hrest, ← hm.2.1, ← hl, List.take_left] at htext
            rw [hs, htext]
          · exact ih h

theorem lookupStringInIndex_sound {vm : Vm} {text offset} (hi : vm.stringIntern.Sound vm.stringArena)
    (h : lookupStringInIndex vm text = some offset) : read 0 (vm.stringArena.drop offset) = some text := by
  unfold lookupStringInIndex at h
  split at h
  · rename_i hc
    exact lookupStringProbe_sound hi hc.1 h
  · cases h

theorem rememberStringInIndex_sound {env : Env} {vm : Vm} {offset text} (hi : vm.stringIntern.Sound vm.stringArena)
    (hs : read 0 (vm.stringArena.drop offset) = some text) :
    (rememberStringInIndex env vm offset text).Sound vm.stringArena := by
  unfold rememberStringInIndex
  simp only
  split
  · rename_i hc
    split
    · intro hc
      cases hc
    · rename_i entries he
      have hold : ∀ e ∈ entries, e.hash ≠ 0 → e.Sound vm.stringArena := by
        intro e hmem h0
        split at he
        · exact hi hc e (stringInternResize_mem he hmem h0) h0
        · cases he
          exact hi hc e hmem h0
      split
      · rename_i entries' he'
        intro _ e hmem h0
        rcases stringInternProbe_mem he' e hmem with rfl | hmem
        · exact ⟨text, hs, rfl⟩
        · exact hold e hmem h0
      · intro hc
        cases hc
  · exact hi

end Aivm
