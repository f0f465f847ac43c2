import Aivm.Lib.CStrings
import Aivm.Storage.Local

/-!
# What local storage keeps

The path of a key determines its segments. So the storage is a map as long as different keys have different segments, and
not beyond: two keys that differ in replaced bytes only have one file.
-/

namespace Aivm

variable {home : StorageHome} {keys : Set StorageKey} {k k' : StorageKey} {path : Text} {files files' : Files}
  {history : List StoredEvent}

/-! ## Segments and paths -/

theorem sanitizeByte_not_separator (b : Byte) : sanitizeByte b ≠ separator := by
  unfold sanitizeByte
  split
  · rename_i hb
    rintro rfl
    revert hb
    decide
  · decide

theorem sanitizeSegment_some {input out : Text} {outLen : Nat} (h : sanitizeSegment input outLen = some out) :
    out = input.map sanitizeByte ∧ out.length < outLen ∧ IsSegment out := by
  rw [sanitizeSegment] at h
  split at h
  · cases h
  · rename_i hinput
    simp only at h
    split at h
    · cases h
    · rename_i hdots
      simp only [Option.some.injEq] at h
      subst h
      simp only [not_or] at hinput hdots
      refine ⟨rfl, by simp; omega, by simp [hinput.2.1], hdots.1, hdots.2, ?_⟩
      intro hmem
      obtain ⟨b, -, hb⟩ := List.mem_map.1 hmem
      exact sanitizeByte_not_separator b hb

theorem joinPath_some {left right out : Text} {outLen : Nat} (h : joinPath left right outLen = some out) :
    out = left ++ separator :: right := by
  rw [joinPath] at h
  split at h
  · exact (Option.some.inj h).symm
  · cases h

theorem storageLocalDir_some {appId dir : Text} (h : storageLocalDir home appId = some dir) :
    ∃ root app, storageHome home = some root ∧ sanitizeSegment appId 256 = some app ∧
      dir = root ++ separator :: ascii "storage" ++ separator :: ascii "local" ++ separator :: app := by
  simp only [storageLocalDir, Option.bind_eq_bind, Option.bind_eq_some_iff] at h
  obtain ⟨root, hroot, app, happ, storageRoot, hstorage, local_, hlocal, hdir⟩ := h
  refine ⟨root, app, hroot, happ, ?_⟩
  rw [joinPath_some hdir, joinPath_some hlocal, joinPath_some hstorage]

theorem storagePath_some (h : storagePath home k = some path) :
    ∃ root app key, storageHome home = some root ∧ sanitizeSegment k.1.1 256 = some app ∧
      sanitizeSegment k.2.1 256 = some key ∧
      storageLocalDir home k.1.1 = some (root ++ separator :: ascii "storage" ++ separator :: ascii "local" ++
        separator :: app) ∧
      path = root ++ separator :: ascii "storage" ++ separator :: ascii "local" ++ separator :: app ++
        separator :: (key ++ ascii ".txt") := by
  simp only [storagePath, storageLocalPath, Option.bind_eq_bind, Option.bind_eq_some_iff] at h
  obtain ⟨dir, hdir, key, hkey, h⟩ := h
  obtain ⟨root, app, hroot, happ, hdirEq⟩ := storageLocalDir_some hdir
  split at h
  · cases h
  · exact ⟨root, app, key, hroot, happ, hkey, hdirEq ▸ hdir, hdirEq ▸ joinPath_some h⟩

/-- Accepted keys have one path just if they have the same segments. -/
theorem storagePath_eq_iff {path' : Text} (h : storagePath home k = some path) (h' : storagePath home k' = some path') :
    path = path' ↔
      sanitizeSegment k.1.1 256 = sanitizeSegment k'.1.1 256 ∧ sanitizeSegment k.2.1 256 = sanitizeSegment k'.2.1 256 := by
  obtain ⟨root, app, key, hroot, happ, hkey, -, rfl⟩ := storagePath_some h
  obtain ⟨root', app', key', hroot', happ', hkey', -, rfl⟩ := storagePath_some h'
  rw [hroot, Option.some.injEq] at hroot'
  subst hroot'
  rw [happ, happ', hkey, hkey', Option.some.injEq, Option.some.injEq]
  constructor
  · intro heq
    simp only [List.append_assoc, List.cons_append, List.append_cancel_left_eq, List.cons.injEq, true_and] at heq
    obtain ⟨rfl, hfile⟩ := CStrings.append_terminator_inj (sanitizeSegment_some happ).2.2.2.2.2 (sanitizeSegment_some happ').2.2.2.2.2 heq
    exact ⟨rfl, List.append_cancel_right hfile⟩
  · rintro ⟨rfl, rfl⟩
    rfl

theorem storagePath_inside (h : storagePath home k = some path) : DirectChild home k path := by
  obtain ⟨root, app, key, hroot, happ, hkey, hdir, rfl⟩ := storagePath_some h
  obtain ⟨-, -, hne, -, -, hclean⟩ := sanitizeSegment_some hkey
  refine ⟨root, app, key ++ ascii ".txt", hroot, (sanitizeSegment_some happ).2.2, ⟨?_, ?_, ?_, ?_⟩, hdir, rfl⟩
  · simp [hne]
  · intro heq
    have hlength := congrArg List.length heq
    simp [ascii] at hlength
  · intro heq
    have hlength := congrArg List.length heq
    simp [ascii] at hlength
  · rw [List.mem_append, not_or]
    exact ⟨hclean, by decide⟩

/-! ## Runs -/

theorem lastSet_append (k : StorageKey) (history : List StoredEvent) (e : Option StoredEvent) :
    lastSet k (history ++ e.toList) = e.elim (lastSet k history) (StoredEvent.apply k (lastSet k history)) := by
  cases e with
  | none => simp
  | some e => simp [lastSet]

/-- What a call does to the files, and what it adds to the history. -/
theorem storageCall_files {call : StorageCall} {result : StorageResult} {granted : Bool}
    (h : storageCall home files granted call = (result, files')) :
    files' = files ∧ call.event result = none ∨
      ∃ path, storagePath home call.key = some path ∧
        ((∃ value, call.event result = some (.set call.key value) ∧ files' = Function.update files path (some value.1)) ∨
          call.event result = some (.deleted call.key) ∧ files' = Function.update files path none) := by
  cases call with
  | get k =>
      cases h
      exact .inl ⟨rfl, rfl⟩
  | exists_ k =>
      cases h
      exact .inl ⟨rfl, rfl⟩
  | set k value =>
      simp only [storageCall, storageLocalSet] at h
      split at h
      · rename_i path _ hpath
        cases granted with
        | false =>
            cases h
            exact .inl ⟨rfl, rfl⟩
        | true =>
            cases h
            exact .inr ⟨path, hpath, .inl ⟨value, rfl, rfl⟩⟩
      · cases h
        exact .inl ⟨rfl, rfl⟩
  | delete k =>
      simp only [storageCall, storageLocalDelete] at h
      split at h
      · cases h
        exact .inl ⟨rfl, rfl⟩
      · rename_i path hpath
        split at h
        · cases h
          exact .inr ⟨path, hpath, .inr ⟨rfl, rfl⟩⟩
        · cases h
          exact .inl ⟨rfl, rfl⟩

/-- Keys that are apart have paths that are apart. -/
theorem KeysApart.path_ne (h : KeysApart home keys) (hk : k ∈ keys) (hk' : k' ∈ keys) (hne : k ≠ k') {path' : Text}
    (hpath : storagePath home k = some path) (hpath' : storagePath home k' = some path') : path ≠ path' := by
  intro heq
  obtain ⟨happ, hkey⟩ := (storagePath_eq_iff hpath hpath').1 heq
  exact hne (h k hk k' hk' (by simp [hpath]) (by simp [hpath']) happ hkey)

/-- A file holds the last value of its key. -/
theorem StorageRun.holds (r : StorageRun home keys history files) (h : KeysApart home keys) :
    ∀ k ∈ keys, ∀ path, storagePath home k = some path → files path = (lastSet k history).map Subtype.val := by
  induction r with
  | start hnone =>
      intro k hk path hpath
      rw [hnone k hk path hpath]
      rfl
  | @called history files files' call result granted r hmem hcall ih =>
      intro k hk path hpath
      rw [lastSet_append]
      rcases storageCall_files hcall with ⟨rfl, hevent⟩ | ⟨other, hother, hchange⟩
      · rw [hevent]
        exact ih k hk path hpath
      · by_cases hkey : call.key = k
        · have hsame : path = other := by
            rw [hkey, hpath, Option.some.injEq] at hother
            exact hother
          rcases hchange with ⟨value, hevent, rfl⟩ | ⟨hevent, rfl⟩
          · simp [hevent, StoredEvent.apply, hkey, hsame]
          · simp [hevent, StoredEvent.apply, hkey, hsame]
        · have hne : path ≠ other := h.path_ne hk hmem (Ne.symm hkey) hpath hother
          rcases hchange with ⟨value, hevent, rfl⟩ | ⟨hevent, rfl⟩
          · simp [hevent, StoredEvent.apply, hkey, hne, ih k hk path hpath]
          · simp [hevent, StoredEvent.apply, hkey, hne, ih k hk path hpath]

theorem storageLocalGet_congr (h : ∀ path, storagePath home k = some path → files' path = files path) :
    storageLocalGet home files' k = storageLocalGet home files k := by
  rw [storageLocalGet, storageLocalGet]
  cases hpath : storagePath home k with
  | none => rfl
  | some path => simp only [h path hpath]

theorem storageLocalExists_congr (h : ∀ path, storagePath home k = some path → files' path = files path) :
    storageLocalExists home files' k = storageLocalExists home files k := by
  rw [storageLocalExists, storageLocalExists]
  cases hpath : storagePath home k with
  | none => rfl
  | some path => simp only [h path hpath]

/-- A call leaves the files of other keys alone. -/
theorem storageCall_apart (h : KeysApart home keys) {call : StorageCall} {granted : Bool} (hcall : call.key ∈ keys)
    (hk : k ∈ keys) (hne : k ≠ call.key) :
    ∀ path, storagePath home k = some path → (storageCall home files granted call).2 path = files path := by
  intro path hpath
  have hpair : storageCall home files granted call =
      ((storageCall home files granted call).1, (storageCall home files granted call).2) := rfl
  rcases storageCall_files hpair with ⟨hfiles, -⟩ | ⟨other, hother, ⟨value, -, hfiles⟩ | ⟨-, hfiles⟩⟩
  · rw [hfiles]
  · rw [hfiles, Function.update_of_ne (h.path_ne hk hcall hne hpath hother)]
  · rw [hfiles, Function.update_of_ne (h.path_ne hk hcall hne hpath hother)]

/-- Bytes without a NUL are read back as they are. -/
theorem ofBuffer_clean (t : CText) : (CText.ofBuffer t.1).1 = t.1 := by
  have hall : ∀ b ∈ t.1, decide (b ≠ 0) = true := by
    intro b hb
    simp only [ne_eq, decide_eq_true_eq]
    rintro rfl
    exact t.2 hb
  exact List.takeWhile_eq_self_iff.2 hall

theorem StorageRun.isMap (r : StorageRun home keys history files) (h : KeysApart home keys) :
    StorageIsMap home keys history files where
  get k hk hpath := by
    obtain ⟨path, hpath⟩ := Option.ne_none_iff_exists'.1 hpath
    have hfile := r.holds h k hk path hpath
    cases hlast : lastSet k history with
    | none => simp [storageLocalGet, hpath, hfile, hlast]
    | some value => simp [storageLocalGet, hpath, hfile, hlast, ofBuffer_clean]
  exists_ k hk hpath := by
    obtain ⟨path, hpath⟩ := Option.ne_none_iff_exists'.1 hpath
    simp [storageLocalExists, hpath, r.holds h k hk path hpath]
  apart call granted hcall k hk hne := by
    have hfiles := @storageCall_apart _ _ _ files h call granted hcall hk hne
    exact ⟨storageLocalGet_congr hfiles, storageLocalExists_congr hfiles⟩
  inside k _ path hpath := storagePath_inside hpath

/-! ## Exactly when -/

def storedValue : CText := ⟨[120], by decide⟩

/-- Two keys with one file: what is set for one is there for the other. -/
theorem set_shared (h : storagePath home k = some path) (h' : storagePath home k' = some path) :
    ∃ files', storageCall home (fun _ => none) true (.set k storedValue) = (.bool true, files') ∧
      storageLocalGet home files' k' = .string storedValue.1 := by
  obtain ⟨root, app, key, -, -, -, hdir, -⟩ := storagePath_some h
  refine ⟨Function.update (fun _ => none) path (some storedValue.1), ?_, ?_⟩
  · simp [storageCall, storageLocalSet, hdir, h]
  · simp [storageLocalGet, h', ofBuffer_clean]

/-- The storage is a map in every run on some keys exactly if these are kept apart. -/
theorem storage_is_map_iff (home : StorageHome) (keys : Set StorageKey) :
    (∀ history files, StorageRun home keys history files → StorageIsMap home keys history files) ↔
      KeysApart home keys := by
  constructor
  · intro h k hk k' hk' haccepted haccepted' happ hkey
    obtain ⟨path, hpath⟩ := Option.ne_none_iff_exists'.1 haccepted
    obtain ⟨path', hpath'⟩ := Option.ne_none_iff_exists'.1 haccepted'
    obtain rfl := (storagePath_eq_iff hpath hpath').2 ⟨happ, hkey⟩
    by_contra hne
    obtain ⟨files', hset, hget⟩ := set_shared hpath hpath'
    have hstart : StorageRun home keys [] (fun _ => none) := .start fun _ _ _ _ => rfl
    have hrun : StorageRun home keys ([] ++ ((StorageCall.set k storedValue).event (.bool true)).toList) files' :=
      hstart.called true hk hset
    have hmap := h _ _ hrun
    have hnever : lastSet k' ([] ++ ((StorageCall.set k storedValue).event (.bool true)).toList) = none := by
      simp [lastSet, StorageCall.event, StoredEvent.apply, hne]
    have hempty := hmap.get k' hk' haccepted'
    rw [hget, hnever] at hempty
    revert hempty
    decide
  · intro h history files r
    exact r.isMap h

/-- The keys `a/b` and `a_b` of an application have one file. -/
theorem replaced_byte_shares_file :
    ¬ ∀ (home : StorageHome) (history : List StoredEvent) (files : Files),
      StorageRun home Set.univ history files → StorageIsMap home Set.univ history files := by
  intro h
  let app : CText := ⟨ascii "app", by decide⟩
  let slash : CText := ⟨ascii "a/b", by decide⟩
  let line : CText := ⟨ascii "a_b", by decide⟩
  let home : StorageHome := ⟨some (ascii "/h"), none⟩
  have hpath : storagePath home (app, slash) = some (ascii "/h/storage/local/app/a_b.txt") := by decide +kernel
  have hpath' : storagePath home (app, line) = some (ascii "/h/storage/local/app/a_b.txt") := by decide +kernel
  obtain ⟨files', hset, hget⟩ := set_shared hpath hpath'
  have hstart : StorageRun home Set.univ [] (fun _ => none) := .start fun _ _ _ _ => rfl
  have hmap := h home _ _ (hstart.called true (Set.mem_univ _) hset)
  have hempty := hmap.get (app, line) (Set.mem_univ _) (by simp [hpath'])
  have hne : (app, slash) ≠ (app, line) := by decide
  rw [hget] at hempty
  simp [lastSet, StorageCall.event, StoredEvent.apply, hne, storedValue] at hempty

end Aivm
