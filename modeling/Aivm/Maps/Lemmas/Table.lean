import Aivm.Lib.Probing
import Aivm.Machine.Builders

/-!
# The table of a map

The slots of a map are a table with linear probing whose items are found by hash and key. It always has a free slot, so
every search in it ends.
-/

namespace Aivm

variable {m m' : MapRecord} {key : List Byte} {hash : UInt64}

/-! ## The table -/

/-- What is compared of a slot. -/
def MapSlot.probed (s : MapSlot) : UInt64 × List Byte := (s.hash, s.key)

/-- Where the search for a key starts. -/
def probedHome (k : UInt64 × List Byte) : Nat := k.1.toNat

/-- A table as the library knows it. -/
abbrev TidyTable (slots : List (Option MapSlot)) : Prop := Probing.Tidy MapSlot.probed probedHome slots

theorem mapSlotFor_eq (slots : List (Option MapSlot)) (key : List Byte) (hash : UInt64) :
    mapSlotFor slots key hash = Probing.slotFor MapSlot.probed probedHome (hash, key) slots := by
  unfold mapSlotFor Probing.slotFor Probing.seek Probing.order probedHome
  dsimp only
  congr 1
  funext slot
  cases slots[slot]? with
  | none => rfl
  | some o =>
      cases o with
      | none => rfl
      | some s => simp [Probing.stops, MapSlot.probed]

theorem rehash_eq (slots old : List (Option MapSlot)) :
    rehash slots old = Probing.fill MapSlot.probed probedHome old.reduceOption slots := by
  unfold rehash Probing.fill
  congr 1
  funext slots s
  rw [mapSlotFor_eq]
  cases h : Probing.slotFor MapSlot.probed probedHome (s.hash, s.key) slots with
  | none => simp [MapSlot.probed, h]
  | some j => simp [MapSlot.probed, h]

/-- The value of a map for a key. -/
def MapRecord.get (m : MapRecord) (key : List Byte) : Option Int :=
  (Probing.lookup MapSlot.probed probedHome (mapHashString key, key) m.slots).map MapSlot.value

/-- The items are found, they have the hash of their key, they are counted, and less than seven tenths of the slots are
taken. -/
structure MapRecord.Sound (m : MapRecord) : Prop where
  tidy : TidyTable m.slots
  hashes : ∀ s, some s ∈ m.slots → s.hash = mapHashString s.key
  count : Probing.occupied m.slots = m.count
  load : m.count * 10 < m.slots.length * 7

theorem MapRecord.Sound.room (h : m.Sound) : Probing.occupied m.slots < m.slots.length := by
  have hload := h.load
  rw [h.count]
  omega

/-- Every search ends. -/
theorem MapRecord.Sound.search (h : m.Sound) (key : List Byte) (hash : UInt64) :
    ∃ slot, mapSlotFor m.slots key hash = some slot := by
  rw [mapSlotFor_eq]
  exact Option.isSome_iff_exists.1 (Probing.slotFor_isSome h.room)

/-- The value that is read from the slot at which a search ends. -/
theorem MapRecord.get_eq {slot : Nat} (hslot : mapSlotFor m.slots key (mapHashString key) = some slot) :
    m.slots[slot]?.join.map MapSlot.value = m.get key := by
  rw [mapSlotFor_eq] at hslot
  simp [MapRecord.get, Probing.lookup, hslot]

/-! ## Growth -/

theorem emptyMap_sound : MapRecord.Sound ⟨false, List.replicate 16 none, 0⟩ :=
  ⟨Probing.tidy_replicate 16, by simp, Probing.occupied_replicate 16, by simp⟩

theorem emptyMap_get (key : List Byte) : MapRecord.get ⟨false, List.replicate 16 none, 0⟩ key = none := by
  have hnone : Probing.lookup MapSlot.probed probedHome (mapHashString key, key) (List.replicate 16 none) = none := by
    apply Option.eq_none_iff_forall_ne_some.2
    intro s hs
    have hmem := ((Probing.tidy_replicate 16).lookup_eq_some.1 hs).1
    simp at hmem
  rw [MapRecord.get, hnone, Option.map_none]

/-- A larger table has the items of the old one. -/
theorem rehash_some {slots : List (Option MapSlot)} (ht : TidyTable slots)
    (hh : ∀ s, some s ∈ slots → s.hash = mapHashString s.key) {n : Nat} (hn : Probing.occupied slots < n) :
    ∃ slots', rehash (List.replicate n none) slots = some slots' ∧ TidyTable slots' ∧
      (∀ s, some s ∈ slots' → s.hash = mapHashString s.key) ∧ slots'.length = n ∧
      Probing.occupied slots' = Probing.occupied slots ∧
      ∀ k, Probing.lookup MapSlot.probed probedHome k slots' = Probing.lookup MapSlot.probed probedHome k slots := by
  obtain ⟨slots', hfill, ht', hlength, hcount, hlookup⟩ := ht.rehash hn
  refine ⟨slots', by rw [rehash_eq, hfill], ht', fun s hs => hh s ?_, hlength, hcount, hlookup⟩
  have hfound := ht'.lookup_eq_some.2 ⟨hs, rfl⟩
  rw [hlookup] at hfound
  exact (ht.lookup_eq_some.1 hfound).1

/-! ## Putting -/

/-- A new key takes a free slot. -/
theorem MapRecord.Sound.insert (h : m.Sound) (hroom : (m.count + 1) * 10 < m.slots.length * 7) {slot : Nat} (value : Int)
    (hslot : mapSlotFor m.slots key (mapHashString key) = some slot) (hfree : m.slots[slot]?.join = none) :
    let m' : MapRecord :=
      { m with slots := m.slots.set slot (some ⟨mapHashString key, key, value⟩), count := m.count + 1 }
    m'.Sound ∧ ∀ k, m'.get k = if k = key then some value else m.get k := by
  rw [mapSlotFor_eq] at hslot
  have hnone : m.slots[slot]? = some none := by
    obtain hnone | ⟨s, hs, -⟩ := Probing.slotFor_cases hslot
    · exact hnone
    · simp [hs] at hfree
  have hput := h.tidy.lookup_put (a := ⟨mapHashString key, key, value⟩) hslot rfl
  refine ⟨⟨h.tidy.put hslot rfl, fun s hs => ?_, ?_, ?_⟩, fun k => ?_⟩
  · rw [h.tidy.mem_put hslot rfl] at hs
    rcases hs with rfl | ⟨hs, -⟩
    · rfl
    · exact h.hashes s hs
  · rw [Probing.occupied_put_free hnone, h.count]
  · rwa [List.length_set]
  · simp only [MapRecord.get, hput, Prod.mk.injEq]
    by_cases hk : k = key
    · simp [hk]
    · simp [hk]

/-- A key that is there gets another value. -/
theorem MapRecord.Sound.replace (h : m.Sound) {slot : Nat} (value : Int) {s : MapSlot}
    (hslot : mapSlotFor m.slots key (mapHashString key) = some slot) (hs : m.slots[slot]?.join = some s) :
    let m' : MapRecord := { m with slots := m.slots.set slot (some { s with value := value }) }
    m'.Sound ∧ ∀ k, m'.get k = if k = key then some value else m.get k := by
  rw [mapSlotFor_eq] at hslot
  have hitem : m.slots[slot]? = some (some s) := by
    cases hget : m.slots[slot]? with
    | none => simp [hget] at hs
    | some o =>
        rw [hget, Option.join_some] at hs
        rw [hs]
  have hkey : s.probed = (mapHashString key, key) := by
    obtain hnone | ⟨s', hs', hk⟩ := Probing.slotFor_cases hslot
    · simp [hnone] at hitem
    · rw [hitem, Option.some.injEq, Option.some.injEq] at hs'
      exact hs' ▸ hk
  have hkey' : MapSlot.probed { s with value := value } = (mapHashString key, key) := hkey
  have hput := h.tidy.lookup_put hslot hkey'
  refine ⟨⟨h.tidy.put hslot hkey', fun s' hs' => ?_, ?_, ?_⟩, fun k => ?_⟩
  · rw [h.tidy.mem_put hslot hkey'] at hs'
    rcases hs' with rfl | ⟨hs', -⟩
    · exact h.hashes s (List.mem_of_getElem? hitem)
    · exact h.hashes s' hs'
  · rw [Probing.occupied_put_taken hitem, h.count]
  · rw [List.length_set]
    exact h.load
  · simp only [MapRecord.get, hput, Prod.mk.injEq]
    by_cases hk : k = key
    · simp [hk]
    · simp [hk]

/-! ## Keys -/

/-- The keys of a map are as many as it counts. -/
theorem MapRecord.Sound.card_keys (h : m.Sound) {keys : Finset (List Byte)} (hk : ∀ k, k ∈ keys ↔ (m.get k).isSome) :
    keys.card = m.count := by
  have hkeys : keys = (m.slots.reduceOption.map MapSlot.key).toFinset := by
    ext k
    rw [hk, List.mem_toFinset, List.mem_map]
    simp only [MapRecord.get, Option.isSome_map, Option.isSome_iff_exists, h.tidy.lookup_eq_some,
      List.reduceOption_mem_iff]
    constructor
    · rintro ⟨s, hs, hp⟩
      exact ⟨s, hs, congrArg Prod.snd hp⟩
    · rintro ⟨s, hs, rfl⟩
      exact ⟨s, hs, by rw [MapSlot.probed, h.hashes s hs]⟩
  have hnodup : (m.slots.reduceOption.map MapSlot.key).Nodup := by
    have hprobed := h.tidy.nodup
    have heq : m.slots.reduceOption.map MapSlot.probed =
        (m.slots.reduceOption.map MapSlot.key).map fun k => (mapHashString k, k) := by
      rw [List.map_map]
      refine List.map_congr_left fun s hs => ?_
      rw [List.reduceOption_mem_iff] at hs
      simp [MapSlot.probed, h.hashes s hs]
    rw [heq] at hprobed
    exact hprobed.of_map _
  rw [hkeys, List.toFinset_card_of_nodup hnodup, List.length_map, Probing.length_reduceOption, h.count]

end Aivm
