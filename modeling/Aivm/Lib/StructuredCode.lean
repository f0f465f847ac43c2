import Mathlib

/-!
# Structured code

Code with branches and loops, and the straight list of instructions that it stands for: a branch and a loop become jumps
to addresses that follow from the sizes of the parts. A mark names a part and adds no instruction.
-/

namespace StructuredCode

universe u v

/-- Code over basic instructions `ι` with marks `μ`. -/
inductive Code (ι : Type u) (μ : Type v) where
  | done
  | basic (i : ι)
  | seq (a b : Code ι μ)
  | branch (a b : Code ι μ)
  | loop (body : Code ι μ)
  | breakLoop
  | continueLoop
  | mark (m : μ) (c : Code ι μ)

/-- An instruction whose jumps are resolved; `skipUnless` jumps on false. -/
inductive Slot (ι : Type u) where
  | basic (i : ι)
  | jump (target : Nat)
  | skipUnless (target : Nat)
deriving DecidableEq

variable {ι : Type u} {μ : Type v}

namespace Code

def size : Code ι μ → Nat
  | done => 0
  | basic _ => 1
  | seq a b => a.size + b.size
  | branch a b => a.size + b.size + 2
  | loop body => body.size + 1
  | breakLoop => 1
  | continueLoop => 1
  | mark _ c => c.size

/-- The instructions of code that stands at `base`, inside a loop with the given start and end. -/
def flatten (loop : Nat × Nat) (base : Nat) : Code ι μ → List (Slot ι)
  | done => []
  | basic i => [.basic i]
  | seq a b => a.flatten loop base ++ b.flatten loop (base + a.size)
  | branch a b =>
      .skipUnless (base + a.size + 2) ::
        (a.flatten loop (base + 1) ++
          .jump (base + a.size + b.size + 2) :: b.flatten loop (base + a.size + 2))
  | .loop body => body.flatten (base, base + body.size + 1) base ++ [.jump base]
  | breakLoop => [.jump loop.2]
  | continueLoop => [.jump loop.1]
  | mark _ c => c.flatten loop base

/-- The basic instructions of code, in order. -/
def basics : Code ι μ → List ι
  | done => []
  | basic i => [i]
  | seq a b => a.basics ++ b.basics
  | branch a b => a.basics ++ b.basics
  | loop body => body.basics
  | breakLoop => []
  | continueLoop => []
  | mark _ c => c.basics

/-- The marked parts of code that stands at `base`, with where they start and end. -/
def spans (base : Nat) : Code ι μ → List (μ × Nat × Nat)
  | done => []
  | basic _ => []
  | seq a b => a.spans base ++ b.spans (base + a.size)
  | branch a b => a.spans (base + 1) ++ b.spans (base + a.size + 2)
  | loop body => body.spans base
  | breakLoop => []
  | continueLoop => []
  | mark m c => (m, base, base + c.size) :: c.spans base

@[simp] theorem length_flatten (c : Code ι μ) {loop base} : (c.flatten loop base).length = c.size := by
  induction c generalizing loop base with
  | seq a b iha ihb => simp [flatten, size, iha, ihb]
  | branch a b iha ihb =>
      simp only [flatten, size, List.length_cons, List.length_append, iha, ihb]
      omega
  | loop body ih => simp [flatten, size, ih]
  | mark m c ih => simp [flatten, size, ih]
  | _ => simp [flatten, size]

end Code

/-- The address that an instruction may jump to. -/
def Slot.target : Slot ι → Option Nat
  | .basic _ => none
  | .jump t => some t
  | .skipUnless t => some t

/-- Jumps stay inside the code, but for those of the loop around it. -/
theorem Code.target_mem {c : Code ι μ} {loop : Nat × Nat} {base t : Nat} {s : Slot ι} (hs : s ∈ c.flatten loop base)
    (ht : s.target = some t) : (base ≤ t ∧ t ≤ base + c.size) ∨ t = loop.1 ∨ t = loop.2 := by
  induction c generalizing loop base with
  | done => cases hs
  | basic i =>
      rw [List.mem_singleton.1 hs] at ht
      cases ht
  | seq a b iha ihb =>
      simp only [flatten, List.mem_append] at hs
      simp only [size]
      rcases hs with hs | hs
      · have := iha hs
        omega
      · have := ihb hs
        omega
  | branch a b iha ihb =>
      simp only [flatten, List.mem_cons, List.mem_append] at hs
      simp only [size]
      rcases hs with rfl | hs | rfl | hs
      · cases ht
        omega
      · have := iha hs
        omega
      · cases ht
        omega
      · have := ihb hs
        omega
  | loop body ih =>
      simp only [flatten, List.mem_append, List.mem_singleton] at hs
      simp only [size]
      rcases hs with hs | rfl
      · have := ih hs
        simp only at this
        omega
      · cases ht
        omega
  | breakLoop =>
      rw [List.mem_singleton.1 hs] at ht
      cases ht
      simp
  | continueLoop =>
      rw [List.mem_singleton.1 hs] at ht
      cases ht
      simp
  | mark m c ih =>
      simp only [flatten] at hs
      simp only [size]
      exact ih hs

/-! ## Where instructions stand -/

/-- The addresses from `base` on hold instructions that resolve the slots. -/
def Stands (R : Nat → Slot ι → Prop) (base : Nat) : List (Slot ι) → Prop
  | [] => True
  | s :: ss => R base s ∧ Stands R (base + 1) ss

variable {R : Nat → Slot ι → Prop} {base : Nat}

theorem stands_append {ss ts : List (Slot ι)} :
    Stands R base (ss ++ ts) ↔ Stands R base ss ∧ Stands R (base + ss.length) ts := by
  induction ss generalizing base with
  | nil => simp [Stands]
  | cons s ss ih =>
      simp only [List.cons_append, Stands, ih, List.length_cons]
      rw [Nat.add_assoc, Nat.add_comm 1, and_assoc]

theorem stands_iff {ss : List (Slot ι)} : Stands R base ss ↔ ∀ k s, ss[k]? = some s → R (base + k) s := by
  induction ss generalizing base with
  | nil => simp [Stands]
  | cons s ss ih =>
      simp only [Stands, ih]
      constructor
      · rintro ⟨hs, hss⟩ k t ht
        cases k with
        | zero =>
            simp only [List.getElem?_cons_zero, Option.some.injEq] at ht
            exact ht ▸ hs
        | succ k =>
            have := hss k t (by simpa using ht)
            rwa [Nat.add_assoc, Nat.add_comm 1] at this
      · intro h
        refine ⟨h 0 s rfl, ?_⟩
        intro k t ht
        have := h (k + 1) t (by simpa using ht)
        rwa [Nat.add_assoc, Nat.add_comm 1]

theorem Stands.mono {R' : Nat → Slot ι → Prop} (h : ∀ i s, R i s → R' i s) {ss : List (Slot ι)}
    (hs : Stands R base ss) : Stands R' base ss :=
  stands_iff.2 fun k s hk => h _ _ (stands_iff.1 hs k s hk)

end StructuredCode
