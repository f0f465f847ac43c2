import Aivm.Machine.Lemmas.Slots
import Aivm.Maps.Lemmas.Table
import Aivm.Model.Lifecycle
import Aivm.Strings.Lemmas.Arena

/-!
# The operations on maps

An operation on maps is refused and leaves all maps as they were, or it is done and has changed one map.
-/

namespace Aivm

open VmM

variable {env : Env} {vm vm' : Vm} {m : MapRecord} {handle : Nat} {key : List Byte} {value : Int}

/-! ## Records -/

theorem admitGrowth_cases (env : Env) (growth : Nat) (vm : Vm) :
    (∃ vm', admitHostMemoryGrowth env growth vm = .ok () vm' ∧ vm'.maps = vm.maps) ∨
      ∃ vm', admitHostMemoryGrowth env growth vm = .fail vm' ∧ vm'.maps = vm.maps := by
  have hmaps : (askHostMemory env growth vm).2.maps = vm.maps := by rw [askHostMemory_grown]
  unfold admitHostMemoryGrowth
  split
  · split
    · rename_i vm₁ he
      rw [he] at hmaps
      exact .inl ⟨vm₁, rfl, hmaps⟩
    · rename_i vm₁ he
      rw [he] at hmaps
      exact .inr ⟨_, rfl, hmaps⟩
  · exact .inl ⟨vm, rfl, rfl⟩

/-- A map gets a larger table with the same items, or stays as it is. -/
theorem mapResize_cases (env : Env) (ht : TidyTable m.slots) (hh : ∀ s, some s ∈ m.slots → s.hash = mapHashString s.key)
    {n : Nat} (hn : Probing.occupied m.slots < n) (vm : Vm) :
    (∃ vm', (mapResize env m n).run vm = .fail vm' ∧ vm'.maps = vm.maps) ∨
      ∃ slots vm', (mapResize env m n).run vm = .ok { m with slots := slots } vm' ∧ vm'.maps = vm.maps ∧
        rehash (List.replicate n none) m.slots = some slots := by
  obtain ⟨slots, hrehash, -⟩ := rehash_some ht hh hn
  have hrest : ∀ vm₁ : Vm, vm₁.maps = vm.maps → ∀ o,
      ((Routine.allocate ⟨.memoryPressure, "MAP_BUILDER growth failed."⟩ "map slots" >>= fun _ =>
        Routine.deref (rehash (List.replicate n none) m.slots) >>= fun slots =>
          Pure.pure { m with slots := slots } : Routine env MapRecord).run vm₁) = o →
      (∃ vm', o = .fail vm' ∧ vm'.maps = vm.maps) ∨ ∃ slots vm', o = .ok { m with slots := slots } vm' ∧
        vm'.maps = vm.maps ∧ rehash (List.replicate n none) m.slots = some slots := by
    rintro vm₁ hmaps _ rfl
    rw [Routine.bind_run, bind_run]
    rcases allocate_cases env ⟨.memoryPressure, "MAP_BUILDER growth failed."⟩ "map slots" (by
      simp [Fault.Regular, machineDiagnostics]) vm₁ with h | h
    · rw [h]
      exact .inr ⟨slots, vm₁, by simp [Routine.deref, VmM.deref, bind_run, hrehash], hmaps, hrehash⟩
    · rw [h]
      exact .inl ⟨_, rfl, hmaps⟩
  unfold mapResize
  by_cases hlarge : (2 ^ 64 - 1) / mapSlotSize < n
  · rw [if_pos hlarge]
    exact .inl ⟨vm, rfl, rfl⟩
  rw [if_neg hlarge]
  by_cases hgrow : m.slots.length < n
  · rw [if_pos hgrow, Routine.bind_run, bind_run]
    rcases admitGrowth_cases env ((n - m.slots.length) * mapSlotSize) vm with ⟨vm₁, h, hmaps⟩ | ⟨vm₁, h, hmaps⟩
    · simp only [Routine.admitGrowth, h]
      exact hrest vm₁ hmaps _ rfl
    · simp only [Routine.admitGrowth, h]
      exact .inl ⟨vm₁, rfl, hmaps⟩
  · rw [if_neg hgrow]
    exact hrest vm rfl _ rfl

/-! ## The maps of a machine -/

/-- What can be observed of a map. -/
structure MapView where
  finished : Bool
  get : List Byte → Option Int
  count : Nat

def MapRecord.view (m : MapRecord) : MapView := ⟨m.frozen, m.get, m.count⟩

def Vm.mapView (vm : Vm) (handle : Nat) : Option MapView := (mapLookup vm handle).map MapRecord.view

def Vm.MapsSound (vm : Vm) : Prop := ∀ handle m, mapLookup vm handle = some m → m.Sound

/-- The maps look the same. -/
def Vm.SameMaps (vm vm' : Vm) : Prop := vm'.MapsSound ∧ ∀ handle, vm'.mapView handle = vm.mapView handle

theorem mapLookup_congr (h : vm'.maps = vm.maps) (handle : Nat) : mapLookup vm' handle = mapLookup vm handle := by
  simp [mapLookup, h]

theorem Vm.MapsSound.congr (hs : vm.MapsSound) (h : vm'.maps = vm.maps) : vm'.MapsSound := by
  intro k m hk
  rw [mapLookup_congr h] at hk
  exact hs k m hk

theorem Vm.MapsSound.same (hs : vm.MapsSound) (h : vm'.maps = vm.maps) : vm.SameMaps vm' :=
  ⟨hs.congr h, fun k => by rw [Vm.mapView, mapLookup_congr h, Vm.mapView]⟩

/-- The record of an active map is written. -/
theorem mapLookup_put {m' : MapRecord} (hl : mapLookup vm handle = some m) (hm : vm'.maps =
    putSlot mapCapacity (handle - 1) (some m') vm.maps) (k : Nat) :
    mapLookup vm' k = if k = handle then some m' else mapLookup vm k := by
  unfold mapLookup at hl ⊢
  split at hl
  · cases hl
  rename_i hpos
  have hlt : handle - 1 < vm.maps.length := by
    by_contra hge
    rw [List.getElem?_eq_none (by omega)] at hl
    cases hl
  rw [hm, putSlot, if_pos hlt]
  by_cases hk : k = handle
  · subst hk
    rw [if_neg hpos, if_pos rfl, List.getElem?_set_self hlt]
    rfl
  · rw [if_neg hk]
    by_cases hzero : k = 0
    · rw [if_pos hzero, if_pos hzero]
    · rw [if_neg hzero, if_neg hzero, List.getElem?_set_ne (by omega)]

/-- A record that looks the same in the place of another. -/
theorem Vm.MapsSound.put_same {m' : MapRecord} (hs : vm.MapsSound) (hl : mapLookup vm handle = some m)
    (hm : vm'.maps = putSlot mapCapacity (handle - 1) (some m') vm.maps) (hsound : m'.Sound) (hview : m'.view = m.view) :
    vm.SameMaps vm' := by
  have hlookup := mapLookup_put hl hm
  refine ⟨fun k m₁ hk => ?_, fun k => ?_⟩
  · rw [hlookup] at hk
    split at hk
    · cases hk
      exact hsound
    · exact hs k m₁ hk
  · rw [Vm.mapView, hlookup]
    split
    · rename_i hk
      simp [Vm.mapView, hk, hl, hview]
    · rfl

/-! ## Putting -/

/-- A put has changed one map in one key. -/
structure PutDone (handle : Nat) (key : List Byte) (value : Int) (vm vm' : Vm) : Prop where
  sound : vm'.MapsSound
  there : ∃ m m', mapLookup vm handle = some m ∧ m.frozen = false ∧ mapLookup vm' handle = some m' ∧
    m'.frozen = false ∧ ∀ k, m'.get k = if k = key then some value else m.get k
  others : ∀ k, k ≠ handle → mapLookup vm' k = mapLookup vm k

theorem PutDone.of_put {m' : MapRecord} (hs : vm.MapsSound) (hl : mapLookup vm handle = some m)
    (hopen : m.frozen = false) (hm : vm'.maps = putSlot mapCapacity (handle - 1) (some m') vm.maps) (hsound : m'.Sound)
    (hopen' : m'.frozen = false) (hget : ∀ k, m'.get k = if k = key then some value else m.get k) :
    PutDone handle key value vm vm' := by
  have hlookup := mapLookup_put hl hm
  refine ⟨fun k m₁ hk => ?_, ⟨m, m', hl, hopen, by rw [hlookup, if_pos rfl], hopen', hget⟩, fun k hk => ?_⟩
  · rw [hlookup] at hk
    split at hk
    · cases hk
      exact hsound
    · exact hs k m₁ hk
  · rw [hlookup, if_neg hk]

/-- Two writes of a slot are one. -/
theorem putSlot_putSlot {α : Type} (capacity slot : Nat) (a b : α) (slots : List α) (h : slot < slots.length) :
    putSlot capacity slot b (putSlot capacity slot a slots) = putSlot capacity slot b slots := by
  simp [putSlot, h]

theorem mapLookup_lt (hl : mapLookup vm handle = some m) : handle - 1 < vm.maps.length := by
  unfold mapLookup at hl
  split at hl
  · cases hl
  · by_contra hge
    rw [List.getElem?_eq_none (by omega)] at hl
    cases hl

theorem keyFault_regular : Fault.Regular ⟨.memoryPressure, "MAP_BUILDER key allocation failed."⟩ := by
  simp [Fault.Regular, machineDiagnostics]

/-- What a put does once the table has room. -/
def putIntoTable (env : Env) (m : MapRecord) (handle : Nat) (key : List Byte) (value : Int) : Routine env Unit := do
  Routine.putMap (handle - 1) (some m)
  let hash := mapHashString key
  let slot ← Routine.deref (mapSlotFor m.slots key hash)
  match m.slots[slot]?.join with
  | some s => Routine.putMap (handle - 1) (some { m with slots := m.slots.set slot (some { s with value := value }) })
  | none =>
      Routine.allocate ⟨.memoryPressure, "MAP_BUILDER key allocation failed."⟩ "map key" keyFault_regular
      Routine.putMap (handle - 1)
        (some { m with slots := m.slots.set slot (some ⟨hash, key, value⟩), count := m.count + 1 })

/-- The outcome of an operation on maps: refused with the maps as they were, or done. -/
def RefusedOr {α : Type} (vm : Vm) (done : α → Vm → Prop) (o : Outcome α) : Prop :=
  (∃ vm', o = .fail vm' ∧ vm.SameMaps vm') ∨ ∃ a vm', o = .ok a vm' ∧ done a vm'

/-- An operation that is refused leaves the maps as they were. -/
theorem RefusedOr.refused {α : Type} {done : α → Vm → Prop} {o : Outcome α} (h : RefusedOr vm done o)
    (ho : o = .fail vm') : vm.SameMaps vm' := by
  subst ho
  obtain ⟨_, heq, hsame⟩ | ⟨_, _, heq, _⟩ := h
  · cases heq
    exact hsame
  · cases heq

theorem RefusedOr.done {α : Type} {done : α → Vm → Prop} {o : Outcome α} {a : α} (h : RefusedOr vm done o)
    (ho : o = .ok a vm') : done a vm' := by
  subst ho
  obtain ⟨_, heq, _⟩ | ⟨_, _, heq, hdone⟩ := h
  · cases heq
  · cases heq
    exact hdone

theorem putIntoTable_cases (env : Env) {m₁ : MapRecord} {vm₁ : Vm} (hs : vm.MapsSound) (hl : mapLookup vm handle = some m)
    (hopen : m.frozen = false) (hmaps : vm₁.maps = vm.maps) (hsound : m₁.Sound)
    (hroom : (m₁.count + 1) * 10 < m₁.slots.length * 7) (hview : m₁.view = m.view) (key : List Byte) (value : Int) :
    RefusedOr vm (fun _ => PutDone handle key value vm) ((putIntoTable env m₁ handle key value).run vm₁) := by
  have hlt := mapLookup_lt hl
  have hopen₁ : m₁.frozen = false := (congrArg MapView.finished hview).trans hopen
  have hget₁ : m₁.get = m.get := congrArg MapView.get hview
  obtain ⟨slot, hslot⟩ := hsound.search key (mapHashString key)
  have hfirst : vm.SameMaps { vm₁ with maps := putSlot mapCapacity (handle - 1) (some m₁) vm₁.maps } :=
    hs.put_same hl (by rw [hmaps]) hsound hview
  unfold putIntoTable
  simp only [Routine.bind_run, bind_run, Routine.putMap, VmM.putMap, VmM.modify_run, Routine.deref, VmM.deref, hslot]
  cases htaken : m₁.slots[slot]?.join with
  | some s =>
      obtain ⟨hsound', hget⟩ := hsound.replace value hslot htaken
      refine .inr ⟨(), _, rfl, .of_put hs hl hopen ?_ hsound' hopen₁ fun k => ?_⟩
      · simp only [hmaps]
        rw [putSlot_putSlot _ _ _ _ _ hlt]
      · rw [hget, hget₁]
  | none =>
      obtain ⟨hsound', hget⟩ := hsound.insert hroom value hslot htaken
      simp only [Routine.bind_run, bind_run]
      rcases allocate_cases env ⟨.memoryPressure, "MAP_BUILDER key allocation failed."⟩ "map key" keyFault_regular
        { vm₁ with maps := putSlot mapCapacity (handle - 1) (some m₁) vm₁.maps } with h | h
      · rw [h]
        refine .inr ⟨(), _, rfl, .of_put hs hl hopen ?_ hsound' hopen₁ fun k => ?_⟩
        · simp only [hmaps]
          rw [putSlot_putSlot _ _ _ _ _ hlt]
        · rw [hget, hget₁]
      · rw [h]
        exact .inl ⟨_, rfl, hfirst⟩

/-- A put is done, or refused with all maps as they were. -/
theorem mapBuilderPut_cases (hs : vm.MapsSound) (handle : Nat) (key : List Byte) (value : Int) :
    RefusedOr vm (fun _ => PutDone handle key value vm)
      ((mapBuilderPutStringIntRecord env handle key value).run vm) := by
  have hseen : mapLookup vm.seen handle = mapLookup vm handle := rfl
  simp only [mapBuilderPutStringIntRecord, Routine.bind_run, bind_run, Routine.look, VmM.look, hseen]
  cases hl : mapLookup vm handle with
  | none => exact .inl ⟨_, rfl, hs.same rfl⟩
  | some m =>
      cases hopen : m.frozen with
      | true =>
          simp only [hopen, if_true]
          exact .inl ⟨_, rfl, hs.same rfl⟩
      | false =>
          have hsound := hs handle m hl
          simp only [hopen, Bool.false_eq_true, if_false]
          by_cases hfull : m.slots.length * 7 ≤ (m.count + 1) * 10
          · simp only [hfull, if_true, Routine.bind_run, bind_run]
            have hload := hsound.load
            obtain ⟨slots, hrehash, ht, hh, hlength, hcount, hlookup⟩ := rehash_some hsound.tidy hsound.hashes
              (n := m.slots.length * 2) (by rw [hsound.count]; omega)
            rcases mapResize_cases env hsound.tidy hsound.hashes (n := m.slots.length * 2)
              (by rw [hsound.count]; omega) vm with ⟨vm₁, h, hmaps⟩ | ⟨slots', vm₁, h, hmaps, hrehash'⟩
            · rw [h]
              exact .inl ⟨vm₁, rfl, hs.same hmaps⟩
            · rw [hrehash, Option.some.injEq] at hrehash'
              subst hrehash'
              rw [h]
              have hroom : (m.count + 1) * 10 < slots.length * 7 := by
                rcases Nat.lt_or_ge 1 m.slots.length with hlarge | hsmall
                · omega
                · have hone : m.slots.length = 1 := by omega
                  omega
              have hsound₁ : MapRecord.Sound { m with slots := slots } :=
                ⟨ht, hh, hcount.trans hsound.count, Nat.lt_trans (by simp) hroom⟩
              have hget : MapRecord.get { m with slots := slots } = m.get := by
                funext k
                simp [MapRecord.get, hlookup]
              have hview : MapRecord.view { m with slots := slots } = m.view := by rw [MapRecord.view, hget, MapRecord.view]
              exact putIntoTable_cases env hs hl hopen hmaps hsound₁ hroom hview key value
          · simp only [hfull, if_false]
            exact putIntoTable_cases env hs hl hopen rfl hsound (by omega) rfl key value

/-! ## Making and finishing -/

/-- A new map is empty, and has a handle of its own. -/
structure MadeDone (vm : Vm) (handle : Nat) (vm' : Vm) : Prop where
  sound : vm'.MapsSound
  fresh : mapLookup vm handle = none
  there : ∃ m, mapLookup vm' handle = some m ∧ m.frozen = false ∧ ∀ k, m.get k = none
  others : ∀ k, k ≠ handle → mapLookup vm' k = mapLookup vm k

/-- A finished map has what it had. -/
structure FinishDone (handle : Nat) (vm vm' : Vm) : Prop where
  sound : vm'.MapsSound
  there : ∃ m m', mapLookup vm handle = some m ∧ m.frozen = false ∧ mapLookup vm' handle = some m' ∧
    m'.frozen = true ∧ m'.get = m.get
  others : ∀ k, k ≠ handle → mapLookup vm' k = mapLookup vm k

/-- A record in a free slot is found there. -/
theorem mapLookup_new (vm vm' : Vm) (m : MapRecord) (hslot : freeSlot vm.maps < mapCapacity)
    (hm : vm'.maps = putSlot mapCapacity (freeSlot vm.maps) (some m) vm.maps) (k : Nat) :
    mapLookup vm' k = if k = freeSlot vm.maps + 1 then some m else mapLookup vm k := by
  have hput := putSlot_getElem (freeSlot_writable hslot) (some m) (k - 1)
  rw [mapLookup, mapLookup, hm, hput]
  by_cases hzero : k = 0
  · rw [if_pos hzero, if_pos hzero, if_neg (by omega)]
  · rw [if_neg hzero, if_neg hzero]
    by_cases hk : k = freeSlot vm.maps + 1
    · rw [if_pos (by omega), if_pos hk]
    · rw [if_neg (by omega), if_neg hk]

theorem mapBuilderNew_cases (hs : vm.MapsSound) : RefusedOr vm (MadeDone vm) ((mapBuilderNewRecord env).run vm) := by
  have hseen : vm.seen.maps = vm.maps := rfl
  simp only [mapBuilderNewRecord, Routine.bind_run, bind_run, Routine.look, VmM.look, hseen]
  by_cases hfull : mapCapacity ≤ freeSlot vm.maps
  · simp only [hfull, if_true]
    exact .inl ⟨_, rfl, hs.same rfl⟩
  · simp only [hfull, if_false, Routine.bind_run, bind_run]
    have hrehash : rehash (List.replicate 16 none) [] = some (List.replicate 16 none) := rfl
    rcases mapResize_cases env (m := ⟨false, [], 0⟩) (n := 16) (Probing.tidy_replicate 0) (by simp)
      (by decide) vm with ⟨vm₁, h, hmaps⟩ | ⟨slots, vm₁, h, hmaps, hslots⟩
    · rw [h]
      exact .inl ⟨vm₁, rfl, hs.same hmaps⟩
    · rw [hrehash, Option.some.injEq] at hslots
      subst hslots
      rw [h]
      have hlookup := mapLookup_new vm
        { vm₁ with maps := putSlot mapCapacity (freeSlot vm.maps) (some ⟨false, List.replicate 16 none, 0⟩) vm₁.maps }
        ⟨false, List.replicate 16 none, 0⟩ (by omega) (by rw [hmaps])
      refine .inr ⟨_, _, rfl, fun k m hk => ?_, ?_, ⟨_, ?_, rfl, emptyMap_get⟩, fun k hk => ?_⟩
      · rw [hlookup] at hk
        split at hk
        · cases hk
          exact emptyMap_sound
        · exact hs k m hk
      · simp [mapLookup, freeSlot_free]
      · rw [hlookup, if_pos rfl]
      · rw [hlookup, if_neg hk]

theorem mapBuilderFinish_cases (hs : vm.MapsSound) (handle : Nat) :
    RefusedOr vm (fun _ => FinishDone handle vm) ((mapBuilderFinishRecord env handle).run vm) := by
  have hseen : mapLookup vm.seen handle = mapLookup vm handle := rfl
  simp only [mapBuilderFinishRecord, Routine.bind_run, bind_run, Routine.look, VmM.look, hseen]
  cases hl : mapLookup vm handle with
  | none => exact .inl ⟨_, rfl, hs.same rfl⟩
  | some m =>
      cases hopen : m.frozen with
      | true =>
          simp only [hopen, if_true]
          exact .inl ⟨_, rfl, hs.same rfl⟩
      | false =>
          have hsound := hs handle m hl
          have hlookup := @mapLookup_put vm
            { vm with maps := putSlot mapCapacity (handle - 1) (some { m with frozen := true }) vm.maps } m handle
            { m with frozen := true } hl rfl
          simp only [hopen, Bool.false_eq_true, if_false]
          refine .inr ⟨(), _, rfl, fun k m₁ hk => ?_,
            ⟨m, { m with frozen := true }, hl, hopen, by rw [hlookup, if_pos rfl], rfl, rfl⟩, fun k hk => ?_⟩
          · rw [hlookup] at hk
            split at hk
            · cases hk
              exact ⟨hsound.tidy, hsound.hashes, hsound.count, hsound.load⟩
            · exact hs k m₁ hk
          · rw [hlookup, if_neg hk]

end Aivm
