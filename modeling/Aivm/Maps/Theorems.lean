import Aivm.Machine.Lemmas.Text
import Aivm.Maps.History
import Aivm.Maps.Lemmas.Operations

/-!
# Results about maps

A machine's maps hold what was put into them last, whatever the keys, and a finished map can be read but not changed.
-/

namespace Aivm

open VmM

variable {env : Env} {vm vm' : Vm} {m : MapRecord} {handle : Nat} {key : List Byte} {value : Int}
  {history : List MapEvent}

/-! ## Histories -/

theorem entriesOf_append (handle : Nat) (history : List MapEvent) (e : MapEvent) :
    entriesOf handle (history ++ [e]) = entriesOf handle history ++ (e.entry handle).toList := by
  simp only [entriesOf, List.filterMap_append, List.filterMap_cons, List.filterMap_nil]
  cases e.entry handle <;> rfl

/-- What is put last counts. -/
theorem lastPut_append (handle : Nat) (key : List Byte) (history : List MapEvent) (e : MapEvent) :
    lastPut handle key (history ++ [e]) = match e.entry handle with
      | some (k, v) => if key = k then some v else lastPut handle key history
      | none => lastPut handle key history := by
  rw [lastPut, entriesOf_append]
  cases e.entry handle with
  | none => simp [lastPut]
  | some kv =>
      obtain ⟨k, v⟩ := kv
      by_cases hk : key = k
      · simp [hk]
      · simp [hk, beq_false_of_ne hk, List.lookup_cons, lastPut]

theorem mem_keysOf (handle : Nat) (key : List Byte) (history : List MapEvent) :
    key ∈ keysOf handle history ↔ (lastPut handle key history).isSome := by
  rw [keysOf, List.mem_toFinset, lastPut, ← List.mem_reverse, ← List.map_reverse]
  induction (entriesOf handle history).reverse with
  | nil => simp
  | cons kv entries ih =>
      obtain ⟨k, v⟩ := kv
      by_cases hk : key = k
      · simp [hk]
      · rw [List.lookup_cons, beq_false_of_ne hk, List.map_cons, List.mem_cons, ih]
        simp [hk]

/-- The maps hold what their history says. -/
structure HistoryRight (history : List MapEvent) (vm : Vm) : Prop where
  sound : vm.MapsSound
  unused : ∀ handle, mapLookup vm handle = none →
    .finished handle ∉ history ∧ ∀ key, lastPut handle key history = none
  used : ∀ handle m, mapLookup vm handle = some m → (m.frozen = true ↔ .finished handle ∈ history) ∧
    ∀ key, m.get key = lastPut handle key history

/-- What has happened to a map does not depend on an event at another one, or on a map being made. -/
theorem lastPut_other {e : MapEvent} (h : e.entry handle = none) (key : List Byte) :
    lastPut handle key (history ++ [e]) = lastPut handle key history := by
  rw [lastPut_append, h]

theorem HistoryRight.same (h : HistoryRight history vm) (hsame : vm.SameMaps vm') : HistoryRight history vm' := by
  have hview : ∀ k, (mapLookup vm' k).map MapRecord.view = (mapLookup vm k).map MapRecord.view := hsame.2
  refine ⟨hsame.1, fun k hk => h.unused k ?_, fun k m hk => ?_⟩
  · have hnone := hview k
    rw [hk, Option.map_none] at hnone
    exact Option.map_eq_none_iff.1 hnone.symm
  · have hsome := hview k
    rw [hk, Option.map_some] at hsome
    obtain ⟨m₁, hm₁, hv⟩ := Option.map_eq_some_iff.1 hsome.symm
    obtain ⟨hfrozen, hget⟩ := h.used k m₁ hm₁
    have hf : m₁.frozen = m.frozen := congrArg MapView.finished hv
    have hg : m₁.get = m.get := congrArg MapView.get hv
    exact ⟨by rw [← hf, hfrozen], fun key => by rw [← hg, hget]⟩

theorem HistoryRight.made (h : HistoryRight history vm) (hd : MadeDone vm handle vm') :
    HistoryRight (history ++ [.made handle]) vm' := by
  refine ⟨hd.sound, fun k hk => ?_, fun k m hk => ?_⟩
  · by_cases hkh : k = handle
    · obtain ⟨m, hm, -⟩ := hd.there
      rw [hkh, hm] at hk
      cases hk
    · rw [hd.others k hkh] at hk
      obtain ⟨hfinished, hlast⟩ := h.unused k hk
      exact ⟨by simpa using hfinished, fun key => by rw [lastPut_other rfl, hlast]⟩
  · by_cases hkh : k = handle
    · subst hkh
      obtain ⟨m₁, hm₁, hopen, hget⟩ := hd.there
      rw [hm₁, Option.some.injEq] at hk
      subst hk
      obtain ⟨hfinished, hlast⟩ := h.unused k hd.fresh
      exact ⟨by simp [hopen, hfinished], fun key => by rw [lastPut_other rfl, hlast, hget]⟩
    · rw [hd.others k hkh] at hk
      obtain ⟨hfrozen, hget⟩ := h.used k m hk
      exact ⟨by simpa using hfrozen, fun key => by rw [lastPut_other rfl, hget]⟩

theorem HistoryRight.put (h : HistoryRight history vm) (hd : PutDone handle key value vm vm') :
    HistoryRight (history ++ [.put handle key value]) vm' := by
  refine ⟨hd.sound, fun k hk => ?_, fun k m hk => ?_⟩
  · by_cases hkh : k = handle
    · obtain ⟨_, m, _, _, hm, _⟩ := hd.there
      rw [hkh, hm] at hk
      cases hk
    · rw [hd.others k hkh] at hk
      obtain ⟨hfinished, hlast⟩ := h.unused k hk
      exact ⟨by simpa using hfinished, fun key => by rw [lastPut_other (by simp [MapEvent.entry, Ne.symm hkh]), hlast]⟩
  · by_cases hkh : k = handle
    · subst hkh
      obtain ⟨m₁, m₂, hm₁, hopen₁, hm₂, hopen₂, hget₂⟩ := hd.there
      rw [hm₂, Option.some.injEq] at hk
      subst hk
      obtain ⟨hfrozen, hget⟩ := h.used k m₁ hm₁
      refine ⟨?_, fun key' => ?_⟩
      · rw [hopen₁] at hfrozen
        simpa [hopen₂] using hfrozen
      · rw [lastPut_append, hget₂, hget]
        simp [MapEvent.entry]
    · rw [hd.others k hkh] at hk
      obtain ⟨hfrozen, hget⟩ := h.used k m hk
      exact ⟨by simpa using hfrozen, fun key => by rw [lastPut_other (by simp [MapEvent.entry, Ne.symm hkh]), hget]⟩

theorem HistoryRight.finished (h : HistoryRight history vm) (hd : FinishDone handle vm vm') :
    HistoryRight (history ++ [.finished handle]) vm' := by
  refine ⟨hd.sound, fun k hk => ?_, fun k m hk => ?_⟩
  · by_cases hkh : k = handle
    · obtain ⟨_, m, _, _, hm, _⟩ := hd.there
      rw [hkh, hm] at hk
      cases hk
    · rw [hd.others k hkh] at hk
      obtain ⟨hfinished, hlast⟩ := h.unused k hk
      exact ⟨by simpa [hkh] using hfinished, fun key => by rw [lastPut_other rfl, hlast]⟩
  · by_cases hkh : k = handle
    · subst hkh
      obtain ⟨m₁, m₂, hm₁, -, hm₂, hfrozen₂, hget₂⟩ := hd.there
      rw [hm₂, Option.some.injEq] at hk
      subst hk
      exact ⟨by simp [hfrozen₂], fun key => by rw [lastPut_other rfl, hget₂, (h.used k m₁ hm₁).2]⟩
    · rw [hd.others k hkh] at hk
      obtain ⟨hfrozen, hget⟩ := h.used k m hk
      exact ⟨by simpa [hkh] using hfrozen, fun key => by rw [lastPut_other rfl, hget]⟩

/-- In every run the maps hold what their history says. -/
theorem MapRun.right (h : MapRun env history vm) : HistoryRight history vm := by
  induction h with
  | start hm =>
      have hnone : ∀ vm : Vm, vm.maps = [] → ∀ k, mapLookup vm k = none := by
        intro vm hm k
        simp [mapLookup, hm]
      refine ⟨fun k m hk => ?_, fun k _ => ⟨by simp, fun key => rfl⟩, fun k m hk => ?_⟩
      · rw [hnone _ hm] at hk
        cases hk
      · rw [hnone _ hm] at hk
        cases hk
  | made _ hr ih => exact ih.made ((mapBuilderNew_cases ih.sound).done hr)
  | put _ hr ih => exact ih.put ((mapBuilderPut_cases ih.sound _ _ _).done hr)
  | finished _ hr ih => exact ih.finished ((mapBuilderFinish_cases ih.sound _).done hr)
  | notMade _ hr ih => exact ih.same ((mapBuilderNew_cases ih.sound).refused hr)
  | notPut _ hr ih => exact ih.same ((mapBuilderPut_cases ih.sound _ _ _).refused hr)
  | notFinished _ hr ih => exact ih.same ((mapBuilderFinish_cases ih.sound _).refused hr)
  | elsewhere _ hm ih => exact ih.same (ih.sound.same hm)

/-! ## Reading -/

/-- A push says itself what went wrong. -/
theorem orFault_push (f : Fault) (v : Value) (vm : Vm) : VmM.orFault f (stackPush v) vm = stackPush v vm := by
  unfold VmM.orFault VmM.onFail stackPush
  dsimp only
  by_cases hroom : vm.stack.length + 1 ≤ (ensureStackCapacity (vm.stack.length + 1) vm).stackLimit
  · rw [if_pos hroom]
  · rw [if_neg hroom]
    rfl

theorem frozenMap_eq (hl : mapLookup vm handle = some m) (hfrozen : m.frozen = true) :
    frozenMap vm handle = some m := by
  simp [frozenMap, hl, hfrozen]

/-- A key is looked up in a finished map. -/
theorem popMapLookup_run (env : Env) {below : List Value} {p : StrPtr} (hl : mapLookup vm handle = some m) (hsound : m.Sound)
    (hfrozen : m.frozen = true) (hstack : vm.stack = below ++ [.map handle, .string p]) (hp : vm.cstr p = some key) :
    (popMapLookup env).run vm = .ok (m.get key) { vm with stack := below } := by
  obtain ⟨h₁, h₂⟩ := pop_two hstack
  obtain ⟨slot, hslot⟩ := hsound.search key (mapHashString key)
  have hl' : frozenMap (Vm.seen { vm with stack := below }) handle = some m := @frozenMap_eq vm m handle hl hfrozen
  have hp' : Heap.cstr { vm with stack := below }.toHeap p = some key := hp
  simp only [popMapLookup, Routine.bind_run, Routine.pop, bind_run, h₁, h₂, Routine.look, VmM.look,
    stringPtr_of_cstr hp, hl', readText_run hp', Routine.deref, VmM.deref, hslot, Routine.pure_run, pure_run,
    MapRecord.get_eq hslot]

theorem mapGetStringIntOr_run {below : List Value} {p : StrPtr} {fallback : Int} (hl : mapLookup vm handle = some m)
    (hsound : m.Sound) (hfrozen : m.frozen = true)
    (hstack : vm.stack = below ++ [.map handle, .string p, .int fallback]) (hp : vm.cstr p = some key) :
    (mapGetStringIntOr env).run vm = stackPush (.int ((m.get key).getD fallback)) { vm with stack := below } := by
  have hpop : stackPop vm = .ok (.int fallback) { vm with stack := below ++ [.map handle, .string p] } :=
    stackPop_run (by simp [hstack])
  have hlookup := @popMapLookup_run { vm with stack := below ++ [.map handle, .string p] } m handle key env below p hl hsound
    hfrozen rfl hp
  have hpush : VmM.orFault ⟨.typeMismatch, "Map lookup requires (map,string)."⟩ ((popMapLookup env).run >>= fun found =>
        stackPush (.int (found.getD fallback))) { vm with stack := below ++ [.map handle, .string p] } =
      VmM.orFault ⟨.typeMismatch, "Map lookup requires (map,string)."⟩
        (stackPush (.int ((m.get key).getD fallback))) { vm with stack := below } := by
    simp only [VmM.orFault, VmM.onFail, bind_run, hlookup]
  rw [orFault_push] at hpush
  simp only [mapGetStringIntOr, Routine.bind_run, Routine.override, Routine.orFault, Routine.pop, Routine.push, bind_run,
    VmM.override, VmM.onFail, hpop, Routine.pure_run, pure_run]
  exact hpush

theorem mapHasString_run {below : List Value} {p : StrPtr} (hl : mapLookup vm handle = some m) (hsound : m.Sound)
    (hfrozen : m.frozen = true) (hstack : vm.stack = below ++ [.map handle, .string p]) (hp : vm.cstr p = some key) :
    (mapHasString env).run vm = stackPush (.bool (m.get key).isSome) { vm with stack := below } := by
  have hlookup := popMapLookup_run env hl hsound hfrozen hstack hp
  have hpush := orFault_push ⟨.typeMismatch, "Map lookup requires (map,string)."⟩ (.bool (m.get key).isSome)
    { vm with stack := below }
  rw [← hpush]
  simp only [mapHasString, Routine.orFault, Routine.bind_run, Routine.push, VmM.orFault, VmM.onFail, bind_run, hlookup]

theorem mapCount_run {below : List Value} (hl : mapLookup vm handle = some m) (hfrozen : m.frozen = true)
    (hstack : vm.stack = below ++ [.map handle]) :
    (mapCount env).run vm = stackPush (.int m.count) { vm with stack := below } := by
  have hl' : frozenMap (Vm.seen { vm with stack := below }) handle = some m := @frozenMap_eq vm m handle hl hfrozen
  rw [← orFault_push ⟨.typeMismatch, "MAP_COUNT requires map operand."⟩]
  simp only [mapCount, Routine.bind_run, Routine.pop, bind_run, stackPop_run hstack, Routine.look, VmM.look, hl',
    Routine.orFault, Routine.push]

/-! ## What maps do -/

/-- The maps of a machine with a history behave as finite maps in which the last put wins. -/
structure MapsBehave (env : Env) (history : List MapEvent) (vm : Vm) : Prop where
  get : ∀ handle below p key fallback, .finished handle ∈ history →
    vm.stack = below ++ [.map handle, .string p, .int fallback] → vm.cstr p = some key →
    (mapGetStringIntOr env).run vm =
      stackPush (.int ((lastPut handle key history).getD fallback)) { vm with stack := below }
  has : ∀ handle below p key, .finished handle ∈ history → vm.stack = below ++ [.map handle, .string p] →
    vm.cstr p = some key →
    (mapHasString env).run vm = stackPush (.bool (lastPut handle key history).isSome) { vm with stack := below }
  count : ∀ handle below, .finished handle ∈ history → vm.stack = below ++ [.map handle] →
    (mapCount env).run vm = stackPush (.int (keysOf handle history).card) { vm with stack := below }
  frozen : ∀ handle key value, .finished handle ∈ history → ∃ vm',
    (mapBuilderPutStringIntRecord env handle key value).run vm = .fail vm' ∧ vm'.status = .error ∧ vm'.maps = vm.maps
  makes : RefusedOr vm (MadeDone vm) ((mapBuilderNewRecord env).run vm)
  puts : ∀ handle key value, RefusedOr vm (fun _ => PutDone handle key value vm)
    ((mapBuilderPutStringIntRecord env handle key value).run vm)
  finishes : ∀ handle, RefusedOr vm (fun _ => FinishDone handle vm) ((mapBuilderFinishRecord env handle).run vm)
  searches : ∀ handle m, mapLookup vm handle = some m →
    none ∈ m.slots ∧ ∀ key hash, ∃ slot, mapSlotFor m.slots key hash = some slot

/-- After a finish the map is there and frozen. -/
theorem HistoryRight.frozen (h : HistoryRight history vm) (hf : .finished handle ∈ history) :
    ∃ m, mapLookup vm handle = some m ∧ m.frozen = true ∧ m.Sound ∧ m.get = fun key => lastPut handle key history := by
  cases hl : mapLookup vm handle with
  | none => exact absurd hf (h.unused handle hl).1
  | some m =>
      obtain ⟨hfrozen, hget⟩ := h.used handle m hl
      exact ⟨m, rfl, hfrozen.2 hf, h.sound handle m hl, funext hget⟩

theorem MapRecord.Sound.free (h : m.Sound) : none ∈ m.slots := by
  by_contra hnone
  refine absurd (List.countP_eq_length.2 fun o ho => ?_) (Nat.ne_of_lt h.room)
  cases o with
  | none => exact absurd ho hnone
  | some s => rfl

/-- In every run, maps behave as finite maps in which the last put wins. -/
theorem maps_behave (h : MapRun env history vm) : MapsBehave env history vm := by
  have hr := h.right
  constructor
  · intro handle below p key fallback hf hstack hp
    obtain ⟨m, hl, hfrozen, hsound, hget⟩ := hr.frozen hf
    rw [mapGetStringIntOr_run hl hsound hfrozen hstack hp, hget]
  · intro handle below p key hf hstack hp
    obtain ⟨m, hl, hfrozen, hsound, hget⟩ := hr.frozen hf
    rw [mapHasString_run hl hsound hfrozen hstack hp, hget]
  · intro handle below hf hstack
    obtain ⟨m, hl, hfrozen, hsound, hget⟩ := hr.frozen hf
    have hcard : (keysOf handle history).card = m.count := hsound.card_keys fun k => by rw [mem_keysOf, hget]
    rw [mapCount_run hl hfrozen hstack, hcard]
  · intro handle key value hf
    obtain ⟨m, hl, hfrozen, -, -⟩ := hr.frozen hf
    have hseen : mapLookup vm.seen handle = some m := hl
    refine ⟨setVmError ⟨.typeMismatch, "MAP_BUILDER_PUT requires an active builder and string key."⟩ vm, ?_, rfl, rfl⟩
    simp only [mapBuilderPutStringIntRecord, Routine.bind_run, bind_run, Routine.look, VmM.look, hseen, hfrozen, if_true]
    rfl
  · exact mapBuilderNew_cases hr.sound
  · intro handle key value
    exact mapBuilderPut_cases hr.sound handle key value
  · intro handle
    exact mapBuilderFinish_cases hr.sound handle
  · intro handle m hl
    have hsound := hr.sound handle m hl
    exact ⟨hsound.free, hsound.search⟩

/-- Puts two values for one key into a new map. -/
def putTwice : Routine .generous Unit := do
  let handle ← mapBuilderNewRecord .generous
  mapBuilderPutStringIntRecord .generous handle (ascii "key") 5
  mapBuilderPutStringIntRecord .generous handle (ascii "key") 7
  mapBuilderFinishRecord .generous handle

/-- The last value is the one that counts. -/
theorem last_put_wins : ∃ handle vm, MapsBehave .generous
      [.made handle, .put handle (ascii "key") 5, .put handle (ascii "key") 7, .finished handle] vm ∧
    lastPut handle (ascii "key")
      [.made handle, .put handle (ascii "key") 5, .put handle (ascii "key") 7, .finished handle] = some 7 := by
  have hrun : (putTwice.run (zeroedVm ⟨[], [], []⟩)).succeeds = true := by decide +kernel
  obtain ⟨_, vm, h⟩ := Outcome.succeeds_iff.1 hrun
  simp only [putTwice, Routine.bind_run, bind_ok] at h
  obtain ⟨handle, _, hnew, _, _, hput, _, _, hput', hfinish⟩ := h
  refine ⟨handle, vm, maps_behave ((((MapRun.start rfl).made hnew).put hput).put hput' |>.finished hfinish), ?_⟩
  simp [lastPut, entriesOf, List.filterMap_cons, MapEvent.entry]

end Aivm
