import Mathlib

/-!
# Memory as separate blocks

A memory maps addresses to the blocks that start there; an address without a block is free. Memory grows by blocks at
free addresses, and freeing these leads back.
-/

namespace Blocks

variable {β : Type}

abbrev Memory (β : Type) := Nat → Option β

/-- A block is written. -/
def set (m : Memory β) (a : Nat) (b : β) : Memory β := fun x => if x = a then some b else m x

/-- Blocks are given back. -/
def free (as : List Nat) (m : Memory β) : Memory β := fun x => if x ∈ as then none else m x

variable {m m' m'' : Memory β} {a x : Nat} {b : β} {as bs : List Nat}

@[simp] theorem set_self : set m a b a = some b := by simp [set]

theorem set_ne (h : x ≠ a) : set m a b x = m x := by simp [set, h]

theorem free_mem (h : x ∈ as) : free as m x = none := by simp [free, h]

theorem free_not_mem (h : x ∉ as) : free as m x = m x := by simp [free, h]

/-- Every block is still there. -/
def Extends (m m' : Memory β) : Prop := ∀ a b, m a = some b → m' a = some b

theorem Extends.refl (m : Memory β) : Extends m m := fun _ _ h => h

theorem Extends.trans (h : Extends m m') (h' : Extends m' m'') : Extends m m'' := fun a b hb => h' a b (h a b hb)

/-- The memories differ at the addresses of `as` only, which were free. -/
structure Grown (as : List Nat) (m m' : Memory β) : Prop where
  fresh : ∀ a ∈ as, m a = none
  same : ∀ a, a ∉ as → m' a = m a

namespace Grown

theorem refl (m : Memory β) : Grown [] m m := ⟨nofun, fun _ _ => rfl⟩

/-- Nothing has been written yet. -/
theorem start (h : ∀ a ∈ as, m a = none) : Grown as m m := ⟨h, fun _ _ => rfl⟩

theorem extended (h : Grown as m m') : Extends m m' := by
  intro a b hb
  have hn : a ∉ as := fun hm => by simp [h.fresh a hm] at hb
  rw [h.same a hn, hb]

/-- A block at a free address. -/
theorem alloc (h : m a = none) : Grown [a] m (set m a b) where
  fresh := by simpa using h
  same x hx := set_ne (by simpa using hx)

/-- A new block is written again. -/
theorem write (h : Grown as m m') (ha : a ∈ as) : Grown as m (set m' a b) where
  fresh := h.fresh
  same x hx := by
    have hne : x ≠ a := fun he => hx (he ▸ ha)
    rw [set_ne hne, h.same x hx]

/-- New blocks are written again. -/
theorem rewrite (h : Grown as m m') (hb : ∀ x ∈ bs, x ∈ as) (hsame : ∀ x, x ∉ bs → m'' x = m' x) : Grown as m m'' where
  fresh := h.fresh
  same x hx := by rw [hsame x (mt (hb x) hx), h.same x hx]

theorem trans (h : Grown as m m') (h' : Grown bs m' m'') : Grown (as ++ bs) m m'' where
  fresh x hx := by
    by_cases ha : x ∈ as
    · exact h.fresh x ha
    · have hb : x ∈ bs := (List.mem_append.1 hx).resolve_left ha
      rw [← h.same x ha, h'.fresh x hb]
  same x hx := by
    obtain ⟨ha, hb⟩ := not_or.1 (mt List.mem_append.2 hx)
    rw [h'.same x hb, h.same x ha]

/-- The order of the addresses does not matter. -/
theorem perm (h : Grown as m m') (hp : ∀ x, x ∈ bs ↔ x ∈ as) : Grown bs m m' where
  fresh x hx := h.fresh x ((hp x).1 hx)
  same x hx := h.same x fun hm => hx ((hp x).2 hm)

/-- New blocks are given back. -/
theorem free (h : Grown as m m') : free as m' = m := by
  funext x
  by_cases hx : x ∈ as
  · rw [free_mem hx, h.fresh x hx]
  · rw [free_not_mem hx, h.same x hx]

end Grown

end Blocks
