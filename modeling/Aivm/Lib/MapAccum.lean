import Mathlib

/-!
# Mapping with an accumulator

A fallible map that threads an accumulator through a list. What each step establishes about its input and output
must survive the growth of the accumulator in later steps.
-/

universe u

/-- Map `f` over a list, passing the accumulator on; the first fault ends the run. -/
def mapAccum {α β σ ε : Type u} (f : α → σ → Except ε (β × σ)) : List α → σ → Except ε (List β × σ)
  | [], s => .ok ([], s)
  | a :: as, s =>
      match f a s with
      | .error e => .error e
      | .ok (b, s') =>
          match mapAccum f as s' with
          | .error e => .error e
          | .ok (bs, s'') => .ok (b :: bs, s'')

namespace MapAccum

variable {α β σ ε : Type u} {f : α → σ → Except ε (β × σ)}

theorem cons_ok {a as s bs s'} (h : mapAccum f (a :: as) s = .ok (bs, s')) :
    ∃ b s₁ cs, f a s = .ok (b, s₁) ∧ mapAccum f as s₁ = .ok (cs, s') ∧ bs = b :: cs := by
  simp only [mapAccum] at h
  split at h
  · cases h
  · rename_i b s₁ hb
    split at h
    · cases h
    · rename_i cs s₂ hcs
      cases h
      exact ⟨b, s₁, cs, hb, hcs, rfl⟩

/-- The accumulator keeps its invariant and grows, and every entry is related to its image at the end. -/
theorem forall₂ {inv : σ → Prop} {le : σ → σ → Prop} {R : σ → α → β → Prop} (hrefl : ∀ s, le s s)
    (htrans : ∀ {s s' s''}, le s s' → le s' s'' → le s s'') (hmono : ∀ {s s' a b}, le s s' → R s a b → R s' a b) :
    ∀ {as bs s s'}, (∀ a ∈ as, ∀ s b s', inv s → f a s = .ok (b, s') → inv s' ∧ le s s' ∧ R s' a b) → inv s →
      mapAccum f as s = .ok (bs, s') → inv s' ∧ le s s' ∧ List.Forall₂ (R s') as bs := by
  intro as
  induction as with
  | nil =>
      intro bs s s' _ hs h
      simp only [mapAccum, Except.ok.injEq, Prod.mk.injEq] at h
      obtain ⟨rfl, rfl⟩ := h
      exact ⟨hs, hrefl _, .nil⟩
  | cons a as ih =>
      intro bs s s' hf hs h
      obtain ⟨b, s₁, cs, hb, hcs, rfl⟩ := cons_ok h
      obtain ⟨hs₁, hle, hR⟩ := hf a (List.mem_cons_self ..) _ _ _ hs hb
      obtain ⟨hs', hle', hall⟩ := ih (fun x hx => hf x (List.mem_cons_of_mem _ hx)) hs₁ hcs
      exact ⟨hs', htrans hle hle', .cons (hmono hle' hR) hall⟩

/-- If every step succeeds under the invariant, so does the whole map. -/
theorem total {inv : σ → Prop} : ∀ {as s}, (∀ a ∈ as, ∀ s, inv s → ∃ b s', f a s = .ok (b, s') ∧ inv s') → inv s →
    ∃ bs s', mapAccum f as s = .ok (bs, s') ∧ inv s' := by
  intro as
  induction as with
  | nil =>
      intro s _ hs
      exact ⟨[], s, rfl, hs⟩
  | cons a as ih =>
      intro s hf hs
      obtain ⟨b, s₁, hb, hs₁⟩ := hf a (List.mem_cons_self ..) s hs
      obtain ⟨bs, s', hbs, hs'⟩ := ih (fun x hx => hf x (List.mem_cons_of_mem _ hx)) hs₁
      exact ⟨b :: bs, s', by simp [mapAccum, hb, hbs], hs'⟩

/-- Every fault of the map is a fault of one of its steps. -/
theorem fault {F : ε → Prop} (hf : ∀ a s e, f a s = .error e → F e) : ∀ {as s e}, mapAccum f as s = .error e → F e := by
  intro as
  induction as with
  | nil => simp [mapAccum]
  | cons a as ih =>
      intro s e h
      simp only [mapAccum] at h
      split at h
      · rename_i ha
        cases h
        exact hf a s _ ha
      · split at h
        · rename_i has
          cases h
          exact ih has
        · cases h

/-- What each step relates, whatever the accumulator, the map relates entry by entry. -/
theorem forall₂_of_step {R : α → β → Prop} (hf : ∀ a s b s', f a s = .ok (b, s') → R a b) {as bs s s'}
    (h : mapAccum f as s = .ok (bs, s')) : List.Forall₂ R as bs := by
  induction as generalizing s bs with
  | nil =>
      cases h
      exact .nil
  | cons a as ih =>
      obtain ⟨b, s₁, cs, hb, hcs, rfl⟩ := cons_ok h
      exact .cons (hf a s b s₁ hb) (ih hcs)

end MapAccum
