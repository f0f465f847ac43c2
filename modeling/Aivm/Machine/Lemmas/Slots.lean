import Aivm.Machine.Routine

/-!
# Tables of slots

The first free slot of a table, and what a table holds after one of its slots has been written. The record in a slot is
in the host's memory, which may refuse it.
-/

namespace Aivm

open VmM

variable {α : Type}

theorem freeSlot_free (slots : List (Option α)) : (slots[freeSlot slots]?).join = none := by
  unfold freeSlot
  cases hfind : slots.findIdx? Option.isNone with
  | none => simp
  | some i =>
      obtain ⟨hlt, hnone, -⟩ := List.findIdx?_eq_some_iff_getElem.1 hfind
      simp [List.getElem?_eq_getElem hlt, Option.isNone_iff_eq_none.1 hnone]

theorem freeSlot_le (slots : List (Option α)) : freeSlot slots ≤ slots.length := by
  unfold freeSlot
  cases hfind : slots.findIdx? Option.isNone with
  | none => simp
  | some i => simpa using Nat.le_of_lt (List.findIdx?_eq_some_iff_getElem.1 hfind).1

/-- No free slot comes before the first one. -/
theorem freeSlot_first {slots : List (Option α)} {i : Nat} (h : (slots[i]?).join = none) : freeSlot slots ≤ i := by
  by_contra hlt
  have hle := freeSlot_le slots
  have hi : i < slots.length := by omega
  rw [List.getElem?_eq_getElem hi, Option.join_some] at h
  unfold freeSlot at hlt
  cases hfind : slots.findIdx? Option.isNone with
  | none =>
      have hsome := List.findIdx?_eq_none_iff.1 hfind slots[i] (List.getElem_mem hi)
      simp [h] at hsome
  | some k =>
      obtain ⟨_, -, hfirst⟩ := List.findIdx?_eq_some_iff_getElem.1 hfind
      rw [hfind, Option.getD_some] at hlt
      have hsome := hfirst i (by omega)
      simp [h] at hsome

/-- A slot that can be written: one of the table, or the next one. -/
def Writable (capacity slot : Nat) (slots : List (Option α)) : Prop :=
  slot < slots.length ∨ slot = slots.length ∧ slot < capacity

theorem freeSlot_writable {capacity : Nat} {slots : List (Option α)} (h : freeSlot slots < capacity) :
    Writable capacity (freeSlot slots) slots := by
  rcases Nat.lt_or_eq_of_le (freeSlot_le slots) with hlt | heq
  · exact .inl hlt
  · exact .inr ⟨heq, h⟩

/-- A slot that is written holds what is written; the others hold what they did. -/
theorem putSlot_getElem {capacity slot : Nat} {slots : List (Option α)} (hslot : Writable capacity slot slots)
    (a : Option α) (i : Nat) :
    ((putSlot capacity slot a slots)[i]?).join = if i = slot then a else (slots[i]?).join := by
  rw [putSlot]
  rcases hslot with hlt | ⟨rfl, hcapacity⟩
  · rw [if_pos hlt]
    by_cases hi : i = slot
    · rw [if_pos hi, hi, List.getElem?_set_self hlt]
      rfl
    · rw [if_neg hi, List.getElem?_set_ne (Ne.symm hi)]
  · rw [if_neg (by omega), if_pos hcapacity]
    by_cases hi : i < slots.length
    · rw [if_neg (by omega), List.getElem?_append_left hi]
    · rw [List.getElem?_append_right (by omega), List.getElem?_eq_none (Nat.le_of_not_lt hi)]
      by_cases heq : i = slots.length
      · simp [heq]
      · rw [if_neg heq, List.getElem?_eq_none (by simp; omega)]

theorem allocate_cases (env : Env) (f : Fault) (what : String) (hf : f.Regular) (vm : Vm) :
    (Routine.allocate f what hf : Routine env Unit).run vm = .ok () vm ∨
      (Routine.allocate f what hf : Routine env Unit).run vm = .fail (setVmError f vm) := by
  simp only [Routine.allocate, Routine.override, Routine.claim, VmM.override, VmM.onFail, VmM.claim]
  cases env.allocates vm what with
  | true => exact .inl rfl
  | false => exact .inr rfl

theorem allocate_ok {env : Env} {f : Fault} {what : String} {hf : f.Regular} {vm vm' : Vm} {u : Unit}
    (h : (Routine.allocate f what hf : Routine env Unit).run vm = .ok u vm') : vm' = vm := by
  rcases allocate_cases env f what hf vm with hok | hfail
  · rw [hok] at h
    cases h
    rfl
  · rw [hfail] at h
    cases h

end Aivm
