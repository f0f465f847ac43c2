import Mathlib

/-!
# Linear probing

A table of slots, some of them free. An item is looked for from its home slot on, once around, up to the first slot
that is free or holds an item with its key.
-/

namespace Probing

/-- The slots of a table of `n` slots from `home` on, once around. -/
def order (n home : Nat) : List Nat := (List.range n).map fun i => (home + i) % n

/-- Any slot is some steps away from any other. -/
theorem exists_steps {n slot : Nat} (home : Nat) (hslot : slot < n) : ∃ i < n, (home + i) % n = slot := by
  have hn : 0 < n := by omega
  have hhome : home % n < n := Nat.mod_lt _ hn
  by_cases hle : home % n ≤ slot
  · refine ⟨slot - home % n, by omega, ?_⟩
    rw [← Nat.mod_add_mod, Nat.add_sub_cancel' hle, Nat.mod_eq_of_lt hslot]
  · refine ⟨slot + n - home % n, by omega, ?_⟩
    rw [← Nat.mod_add_mod, Nat.add_sub_cancel' (by omega), Nat.add_mod_right, Nat.mod_eq_of_lt hslot]

/-! ## Seeking -/

section Seek

variable {σ : Type*} {stop : σ → Bool} {slots : List σ} {home j : Nat}

/-- The first slot from `home` on at which to stop. -/
def seek (stop : σ → Bool) (slots : List σ) (home : Nat) : Option Nat :=
  (order slots.length home).find? fun slot => slots[slot]?.all stop

/-- A slot is sought past slots at which there is no stop. -/
theorem seek_eq_some : seek stop slots home = some j ↔ ∃ i < slots.length, (home + i) % slots.length = j ∧
    slots[j]?.all stop = true ∧ ∀ i' < i, slots[(home + i') % slots.length]?.all stop = false := by
  simp only [seek, order, List.find?_map, Option.map_eq_some_iff, List.find?_range_eq_some, Function.comp_apply,
    List.mem_range, Bool.not_eq_eq_eq_not, Bool.not_true]
  constructor
  · rintro ⟨i, ⟨hstop, hi, hbefore⟩, rfl⟩
    exact ⟨i, hi, rfl, hstop, hbefore⟩
  · rintro ⟨i, hi, rfl, hstop, hbefore⟩
    exact ⟨i, ⟨hstop, hi, hbefore⟩, rfl⟩

theorem seek_stops (h : seek stop slots home = some j) : ∃ a, slots[j]? = some a ∧ stop a = true := by
  obtain ⟨i, hi, rfl, hstop, -⟩ := seek_eq_some.1 h
  have hlt : (home + i) % slots.length < slots.length := Nat.mod_lt _ (by omega)
  rw [List.getElem?_eq_getElem hlt, Option.all_some] at hstop
  exact ⟨_, List.getElem?_eq_getElem hlt, hstop⟩

theorem seek_lt (h : seek stop slots home = some j) : j < slots.length := by
  obtain ⟨a, ha, -⟩ := seek_stops h
  exact (List.getElem?_eq_some_iff.1 ha).1

/-- Where there is a slot to stop at, one is found. -/
theorem seek_isSome (h : ∃ a ∈ slots, stop a = true) : (seek stop slots home).isSome := by
  obtain ⟨a, ha, hstop⟩ := h
  obtain ⟨slot, hslot, rfl⟩ := List.getElem_of_mem ha
  obtain ⟨i, hi, hsteps⟩ := exists_steps home hslot
  rw [seek, List.find?_isSome]
  refine ⟨slot, List.mem_map.2 ⟨i, List.mem_range.2 hi, hsteps⟩, ?_⟩
  rw [List.getElem?_eq_getElem hslot, Option.all_some]
  exact hstop

end Seek

/-! ## Tables of keyed items -/

variable {α κ : Type*} [DecidableEq κ] (key : α → κ) (hash : κ → Nat)

/-- A search for a key ends at a free slot and at an item with the key. -/
def stops (k : κ) : Option α → Bool
  | none => true
  | some a => key a = k

/-- The slot at which a search for a key ends. -/
def slotFor (k : κ) (slots : List (Option α)) : Option Nat := seek (stops key k) slots (hash k % slots.length)

/-- The item that is found for a key. -/
def lookup (k : κ) (slots : List (Option α)) : Option α := (slotFor key hash k slots).bind fun j => slots[j]?.join

/-- Each item is found where it is. -/
def Tidy (slots : List (Option α)) : Prop := ∀ j a, slots[j]? = some (some a) → slotFor key hash (key a) slots = some j

/-- The number of items. -/
def occupied (slots : List (Option α)) : Nat := slots.countP Option.isSome

variable {key hash} {slots slots' : List (Option α)} {k k' : κ} {a b : α} {j : Nat}

theorem tidy_replicate (n : Nat) : Tidy key hash (List.replicate n (none : Option α)) := by
  intro j a h
  simp [List.getElem?_replicate] at h

theorem occupied_replicate (n : Nat) : occupied (List.replicate n (none : Option α)) = 0 := by
  simp [occupied, List.countP_replicate]

/-- A search ends in a table with fewer items than slots. -/
theorem slotFor_isSome (h : occupied slots < slots.length) : (slotFor key hash k slots).isSome := by
  apply seek_isSome
  have hfree : none ∈ slots := by
    by_contra hnone
    refine absurd (List.countP_eq_length.2 fun o ho => ?_) (Nat.ne_of_lt h)
    cases o with
    | none => exact absurd ho hnone
    | some a => rfl
  exact ⟨none, hfree, rfl⟩

/-- A search ends at a free slot or at an item with the key. -/
theorem slotFor_cases (h : slotFor key hash k slots = some j) :
    slots[j]? = some none ∨ ∃ a, slots[j]? = some (some a) ∧ key a = k := by
  obtain ⟨o, ho, hstop⟩ := seek_stops h
  cases o with
  | none => exact .inl ho
  | some a => exact .inr ⟨a, ho, by simpa [stops] using hstop⟩

/-- In a tidy table a key is found if an item has it. -/
theorem Tidy.lookup_eq_some (h : Tidy key hash slots) : lookup key hash k slots = some a ↔ some a ∈ slots ∧ key a = k := by
  constructor
  · intro hl
    obtain ⟨j, hj, ha⟩ := Option.bind_eq_some_iff.1 hl
    obtain hnone | ⟨b, hb, hk⟩ := slotFor_cases hj
    · simp [hnone] at ha
    · simp only [hb, Option.join_some, Option.some.injEq] at ha
      subst ha
      exact ⟨List.mem_of_getElem? hb, hk⟩
  · rintro ⟨ha, rfl⟩
    obtain ⟨j, hj⟩ := List.mem_iff_getElem?.1 ha
    simp [lookup, h j a hj, hj]

/-! ## Putting an item -/

/-- An item put where the search for its key ends takes the place of one with the same key. -/
theorem Tidy.mem_put (h : Tidy key hash slots) (hj : slotFor key hash k slots = some j) (ha : key a = k) :
    some b ∈ slots.set j (some a) ↔ b = a ∨ some b ∈ slots ∧ key b ≠ k := by
  have hlt : j < slots.length := seek_lt hj
  constructor
  · intro hb
    obtain ⟨i, hi⟩ := List.mem_iff_getElem?.1 hb
    by_cases hij : j = i
    · subst hij
      simp only [List.getElem?_set_self hlt, Option.some.injEq] at hi
      exact .inl hi.symm
    · rw [List.getElem?_set_ne hij] at hi
      refine .inr ⟨List.mem_of_getElem? hi, ?_⟩
      rintro rfl
      exact hij (Option.some.inj (hj.symm.trans (h i b hi)))
  · rintro (rfl | ⟨hb, hk⟩)
    · exact List.mem_iff_getElem?.2 ⟨j, List.getElem?_set_self hlt⟩
    · obtain ⟨i, hi⟩ := List.mem_iff_getElem?.1 hb
      have hij : j ≠ i := by
        rintro rfl
        obtain hnone | ⟨c, hc, hck⟩ := slotFor_cases hj
        · simp [hnone] at hi
        · simp only [hc, Option.some.injEq] at hi
          exact hk (hi ▸ hck)
      exact List.mem_iff_getElem?.2 ⟨i, by rw [List.getElem?_set_ne hij, hi]⟩

/-- A search that ends at an item passes the slot of another key as before. -/
theorem slotFor_put_ne (hj : slotFor key hash k slots = some j) (ha : key a = k) (hne : k' ≠ k) {i : Nat}
    (hi : slotFor key hash k' slots = some i) (hb : slots[i]? = some (some b)) :
    slotFor key hash k' (slots.set j (some a)) = some i := by
  have hlt : j < slots.length := seek_lt hj
  have hkey : key b = k' := by
    obtain hnone | ⟨c, hc, hck⟩ := slotFor_cases hi
    · simp [hnone] at hb
    · simp only [hc, Option.some.injEq] at hb
      exact hb ▸ hck
  have hij : j ≠ i := by
    rintro rfl
    obtain hnone | ⟨c, hc, hck⟩ := slotFor_cases hj
    · simp [hnone] at hb
    · simp only [hc, Option.some.injEq] at hb
      exact hne (by rw [← hkey, ← hb, hck])
  unfold slotFor at hi ⊢
  rw [List.length_set]
  obtain ⟨s, hs, hstep, hstop, hbefore⟩ := seek_eq_some.1 hi
  refine seek_eq_some.2 ⟨s, by rwa [List.length_set], by rwa [List.length_set], ?_, fun s' hs' => ?_⟩
  · rwa [List.getElem?_set_ne hij]
  · rw [List.length_set]
    by_cases hpass : j = (hash k' % slots.length + s') % slots.length
    · rw [← hpass, List.getElem?_set_self hlt]
      simp [stops, ha, Ne.symm hne]
    · rw [List.getElem?_set_ne hpass]
      exact hbefore s' hs'

/-- The search for a key ends at the item just put for it. -/
theorem slotFor_put_self (hj : slotFor key hash k slots = some j) (ha : key a = k) :
    slotFor key hash k (slots.set j (some a)) = some j := by
  have hlt : j < slots.length := seek_lt hj
  unfold slotFor at hj ⊢
  rw [List.length_set]
  obtain ⟨s, hs, hstep, hstop, hbefore⟩ := seek_eq_some.1 hj
  refine seek_eq_some.2 ⟨s, by rwa [List.length_set], by rwa [List.length_set], ?_, fun s' hs' => ?_⟩
  · simp [List.getElem?_set_self hlt, stops, ha]
  · rw [List.length_set]
    have hpass : j ≠ (hash k % slots.length + s') % slots.length := by
      intro heq
      have hfalse := hbefore s' hs'
      rw [← heq, hstop] at hfalse
      cases hfalse
    rw [List.getElem?_set_ne hpass]
    exact hbefore s' hs'

theorem Tidy.put (h : Tidy key hash slots) (hj : slotFor key hash k slots = some j) (ha : key a = k) :
    Tidy key hash (slots.set j (some a)) := by
  have hlt : j < slots.length := seek_lt hj
  intro i b hb
  by_cases hij : j = i
  · subst hij
    simp only [List.getElem?_set_self hlt, Option.some.injEq] at hb
    subst hb
    rw [ha]
    exact slotFor_put_self hj ha
  · rw [List.getElem?_set_ne hij] at hb
    have hi := h i b hb
    have hne : key b ≠ k := by
      rintro rfl
      exact hij (Option.some.inj (hj.symm.trans hi))
    exact slotFor_put_ne hj ha hne hi hb

/-- After an item has been put, it is found for its key, and other keys find what they found. -/
theorem Tidy.lookup_put (h : Tidy key hash slots) (hj : slotFor key hash k slots = some j) (ha : key a = k) (k' : κ) :
    lookup key hash k' (slots.set j (some a)) = if k' = k then some a else lookup key hash k' slots := by
  apply Option.ext
  intro b
  rw [(h.put hj ha).lookup_eq_some, h.mem_put hj ha]
  split
  · rename_i hk
    simp only [Option.some.injEq]
    constructor
    · rintro ⟨rfl | ⟨-, hne⟩, hbk⟩
      · rfl
      · exact absurd (hbk.trans hk) hne
    · rintro rfl
      exact ⟨.inl rfl, ha.trans hk.symm⟩
  · rename_i hk
    rw [h.lookup_eq_some]
    constructor
    · rintro ⟨rfl | ⟨hb, -⟩, hbk⟩
      · exact absurd (hbk.symm.trans ha) hk
      · exact ⟨hb, hbk⟩
    · rintro ⟨hb, hbk⟩
      exact ⟨.inr ⟨hb, fun hne => hk (hbk.symm.trans hne)⟩, hbk⟩

/-- An item in a free slot is one more. -/
theorem occupied_put_free (hj : slots[j]? = some none) : occupied (slots.set j (some a)) = occupied slots + 1 := by
  obtain ⟨hlt, hget⟩ := List.getElem?_eq_some_iff.1 hj
  simp [occupied, List.countP_set hlt, hget]

/-- An item that takes the place of another is none more. -/
theorem occupied_put_taken (hj : slots[j]? = some (some b)) : occupied (slots.set j (some a)) = occupied slots := by
  obtain ⟨hlt, hget⟩ := List.getElem?_eq_some_iff.1 hj
  have hpos : 0 < slots.countP Option.isSome := List.countP_pos_iff.2 ⟨some b, List.mem_of_getElem? hj, rfl⟩
  simp only [occupied, List.countP_set hlt, hget]
  simp
  omega

/-- In a tidy table, the slot at which a search ends is free if the key is not found. -/
theorem lookup_eq_none (hj : slotFor key hash k slots = some j) : lookup key hash k slots = none ↔ slots[j]? = some none := by
  obtain hnone | ⟨b, hb, -⟩ := slotFor_cases hj
  · simp [lookup, hj, hnone]
  · simp [lookup, hj, hb]

/-! ## Filling a table -/

/-- Put items one after the other. -/
def fill (key : α → κ) (hash : κ → Nat) (items : List α) (slots : List (Option α)) : Option (List (Option α)) :=
  items.foldlM (fun slots a => (slotFor key hash (key a) slots).map fun j => slots.set j (some a)) slots

/-- The items of a tidy table have different keys. -/
theorem Tidy.nodup (h : Tidy key hash slots) : (slots.reduceOption.map key).Nodup := by
  rw [List.Nodup, List.pairwise_map, List.reduceOption, List.pairwise_filterMap, List.pairwise_iff_getElem]
  intro i j hi hj hij a ha b hb heq
  simp only [id_eq] at ha hb
  have hfirst := h i a (List.getElem?_eq_some_iff.2 ⟨hi, ha⟩)
  have hsecond := h j b (List.getElem?_eq_some_iff.2 ⟨hj, hb⟩)
  rw [heq, hsecond, Option.some.injEq] at hfirst
  omega

/-- Items with new keys fill up a table that has room for them. -/
theorem Tidy.fill {items : List α} (h : Tidy key hash slots) (hnodup : (items.map key).Nodup)
    (hnew : ∀ a ∈ items, ∀ b, some b ∈ slots → key b ≠ key a) (hroom : occupied slots + items.length < slots.length) :
    ∃ slots', fill key hash items slots = some slots' ∧ Tidy key hash slots' ∧ slots'.length = slots.length ∧
      occupied slots' = occupied slots + items.length ∧ ∀ b, some b ∈ slots' ↔ some b ∈ slots ∨ b ∈ items := by
  induction items generalizing slots with
  | nil => exact ⟨slots, rfl, h, rfl, rfl, by simp⟩
  | cons a items ih =>
      simp only [List.map_cons, List.nodup_cons, List.mem_map, not_exists, not_and, List.length_cons] at hnodup hroom
      obtain ⟨j, hj⟩ := Option.isSome_iff_exists.1 (@slotFor_isSome _ _ _ key hash _ (key a)
        (Nat.lt_of_le_of_lt (Nat.le_add_right _ _) hroom))
      have hfree : slots[j]? = some none := by
        obtain hnone | ⟨b, hb, hk⟩ := slotFor_cases hj
        · exact hnone
        · exact absurd hk (hnew a (List.mem_cons_self ..) b (List.mem_of_getElem? hb))
      have hmem : ∀ b, some b ∈ slots.set j (some a) ↔ some b ∈ slots ∨ b = a := by
        intro b
        rw [h.mem_put hj rfl]
        constructor
        · rintro (rfl | ⟨hb, -⟩)
          · exact .inr rfl
          · exact .inl hb
        · rintro (hb | rfl)
          · exact .inr ⟨hb, hnew a (List.mem_cons_self ..) b hb⟩
          · exact .inl rfl
      obtain ⟨slots', hfill, htidy, hlength, hcount, hitems⟩ := ih (h.put hj rfl) hnodup.2
        (fun c hc b hb => by
          obtain hb | rfl := (hmem b).1 hb
          · exact hnew c (List.mem_cons_of_mem _ hc) b hb
          · exact fun heq => hnodup.1 c hc heq.symm)
        (by rw [occupied_put_free hfree, List.length_set]; omega)
      refine ⟨slots', ?_, htidy, ?_, ?_, fun b => ?_⟩
      · simpa [Probing.fill, hj] using hfill
      · rw [hlength, List.length_set]
      · rw [hcount, occupied_put_free hfree, List.length_cons]
        omega
      · rw [hitems, hmem, List.mem_cons, or_assoc]

theorem length_reduceOption (slots : List (Option α)) : slots.reduceOption.length = occupied slots := by
  induction slots with
  | nil => rfl
  | cons o slots ih =>
      cases o with
      | none => simpa [occupied] using ih
      | some a => simpa [occupied] using ih

/-- The items of a tidy table, put into a larger one that is empty, are found as before. -/
theorem Tidy.rehash (h : Tidy key hash slots) {n : Nat} (hn : occupied slots < n) :
    ∃ slots', Probing.fill key hash slots.reduceOption (List.replicate n none) = some slots' ∧ Tidy key hash slots' ∧
      slots'.length = n ∧ occupied slots' = occupied slots ∧ ∀ k, lookup key hash k slots' = lookup key hash k slots := by
  obtain ⟨slots', hfill, htidy, hlength, hcount, hitems⟩ :=
    Tidy.fill (tidy_replicate n : Tidy key hash _) h.nodup (by simp)
      (by rwa [occupied_replicate, Nat.zero_add, length_reduceOption, List.length_replicate])
  refine ⟨slots', hfill, htidy, ?_, ?_, fun k => Option.ext fun a => ?_⟩
  · rw [hlength, List.length_replicate]
  · rw [hcount, occupied_replicate, Nat.zero_add, length_reduceOption]
  · rw [htidy.lookup_eq_some, h.lookup_eq_some, hitems, List.reduceOption_mem_iff]
    simp

end Probing
