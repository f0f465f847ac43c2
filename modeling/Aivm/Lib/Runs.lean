import Mathlib

/-!
# Runs of a transition system

A run is a list of labels, oldest first, that leads from one state to another. An invariant may speak of the labels so
far as well as of the state.
-/

namespace Runs

variable {S L : Type} {step : S → L → S → Prop}

/-- `labels` lead from `s` to `s'`. -/
inductive Run (step : S → L → S → Prop) (s : S) : List L → S → Prop where
  | start : Run step s [] s
  | next {labels l s' s''} : Run step s labels s' → step s' l s'' → Run step s (labels ++ [l]) s''

namespace Run

/-- What holds at the start and is kept by every step of the run holds at its end. -/
theorem invariant {s s' : S} {labels : List L} {P : List L → S → Prop} (h : Run step s labels s') (h0 : P [] s)
    (hstep : ∀ labels a l b, Run step s labels a → P labels a → step a l b → P (labels ++ [l]) b) : P labels s' := by
  induction h with
  | start => exact h0
  | next h hl ih => exact hstep _ _ _ _ h ih hl

/-- The same for a predicate of states. -/
theorem keeps {s s' : S} {labels : List L} {P : S → Prop} (h : Run step s labels s') (h0 : P s)
    (hstep : ∀ a l b, P a → step a l b → P b) : P s' :=
  h.invariant (P := fun _ s => P s) h0 fun _ a l b _ ha hl => hstep a l b ha hl

theorem trans {s s' s'' : S} {xs ys : List L} (h : Run step s xs s') (h' : Run step s' ys s'') :
    Run step s (xs ++ ys) s'' := by
  induction h' with
  | start => simpa using h
  | next h' hl ih =>
      rw [← List.append_assoc]
      exact .next ih hl

theorem last {s s' : S} {labels : List L} {l : L} (h : Run step s (labels ++ [l]) s') :
    ∃ m, Run step s labels m ∧ step m l s' := by
  generalize he : labels ++ [l] = all at h
  cases h with
  | start => simp at he
  | next h hl =>
      obtain ⟨rfl, hl'⟩ := List.append_inj' he rfl
      cases hl'
      exact ⟨_, h, hl⟩

/-- A run can be cut between any two labels. -/
theorem split {s s' : S} {labels xs ys : List L} (h : Run step s labels s') (he : labels = xs ++ ys) :
    ∃ m, Run step s xs m ∧ Run step m ys s' := by
  induction h generalizing ys with
  | start =>
      obtain ⟨rfl, rfl⟩ := List.append_eq_nil_iff.1 he.symm
      exact ⟨s, .start, .start⟩
  | @next labels l a b h hl ih =>
      rcases List.eq_nil_or_concat ys with rfl | ⟨ys, y, rfl⟩
      · rw [List.append_nil] at he
        subst he
        exact ⟨b, .next h hl, .start⟩
      · simp only [List.concat_eq_append, ← List.append_assoc] at he
        obtain ⟨he, hy⟩ := List.append_inj' he rfl
        obtain ⟨m, hm, hm'⟩ := ih he
        cases hy
        refine ⟨m, hm, ?_⟩
        rw [List.concat_eq_append]
        exact .next hm' hl

end Run

end Runs

/-!
## Trails of a partial step function

A trail lists the states a computation passes, oldest first and without the state it ends in.
-/

namespace Trails

variable {α : Type} {f : α → Option α}

/-- `n` steps from `a`. -/
def iterate (f : α → Option α) : Nat → α → Option α
  | 0, a => some a
  | n + 1, a => (f a).bind (iterate f n)

/-- The steps from `a` to `b` are taken in the states `as`. -/
inductive Trail (f : α → Option α) : α → List α → α → Prop where
  | nil {a} : Trail f a [] a
  | cons {a b as c} : f a = some b → Trail f b as c → Trail f a (a :: as) c

namespace Trail

variable {a b c : α} {as bs : List α}

/-- A trail is as long as the number of its steps. -/
theorem iterate_eq (h : Trail f a as b) : iterate f as.length a = some b := by
  induction h with
  | nil => rfl
  | cons hf _ ih => simp [iterate, hf, ih]

theorem single (h : f a = some b) : Trail f a [a] b := .cons h .nil

theorem append (h : Trail f a as b) (h' : Trail f b bs c) : Trail f a (as ++ bs) c := by
  induction h with
  | nil => exact h'
  | cons hf _ ih => exact .cons hf (ih h')

/-- A trail that is not empty starts at its first state. -/
theorem head_eq (h : Trail f a (c :: as) b) : c = a := by
  cases h
  rfl

end Trail

/-- What each step keeps, steps keep. -/
theorem iterate_keeps {I : α → Prop} (hk : ∀ {a b}, f a = some b → I a → I b) :
    ∀ {n a b}, iterate f n a = some b → I a → I b := by
  intro n
  induction n with
  | zero =>
      intro a b h hi
      cases h
      exact hi
  | succ n ih =>
      intro a b h hi
      obtain ⟨a', hf, h⟩ := Option.bind_eq_some_iff.1 h
      exact ih h (hk hf hi)

theorem iterate_add (m n : Nat) (a : α) : iterate f (m + n) a = (iterate f m a).bind (iterate f n) := by
  induction m generalizing a with
  | zero => simp [iterate]
  | succ m ih =>
      rw [Nat.succ_add]
      cases hf : f a with
      | none => simp [iterate, hf]
      | some b => simp [iterate, hf, ih]

/-- From the states after `m` and after `m + n` steps: the steps between. -/
theorem iterate_between {start : Option α} {m n : Nat} {a b : α} (h : start.bind (iterate f m) = some a)
    (h' : start.bind (iterate f (m + n)) = some b) : iterate f n a = some b := by
  obtain ⟨s, hs, hm⟩ := Option.bind_eq_some_iff.1 h
  obtain ⟨s', hs', hmn⟩ := Option.bind_eq_some_iff.1 h'
  rw [hs, Option.some.injEq] at hs'
  subst hs'
  rw [iterate_add, hm] at hmn
  exact hmn

end Trails
