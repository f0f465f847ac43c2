import Aivm.Lib.Probing
import Aivm.Strings.Lemmas.Arena

/-!
# The content index keeps step with the arena

A row in use names a string of the arena by its start, its length and its hash, whether or not the index is complete.
The rows in use are counted, and the table is never so full that a search for an empty row would fail.
-/

namespace Aivm

open CStrings

variable {env : Env} {vm vm' : Vm}

/-! ## Rows -/

/-- The number of rows in use. -/
def rowsUsed (entries : List StringInternEntry) : Nat := entries.countP (·.hash ≠ 0)

/-- The row names a string of the arena. -/
def StringInternEntry.Names (arena : List Byte) (e : StringInternEntry) : Prop :=
  ∃ text, StartsAt arena text e.offset ∧ e.length = text.length ∧ e.hash = stringHash text

/-- A table has at least 1024 rows, and a power of two of them. -/
def TableSize (n : Nat) : Prop := ∃ k, 10 ≤ k ∧ n = 2 ^ k

/-- The index of an arena: the rows in use name strings, they are counted, and seven tenths of the rows are more. -/
structure StringIntern.Keeps (arena : List Byte) (i : StringIntern) : Prop where
  names : ∀ e ∈ i.entries, e.hash ≠ 0 → e.Names arena
  count : rowsUsed i.entries = i.count
  size : i.entries = [] ∨ TableSize i.entries.length
  load : i.entries = [] ∨ i.count * 10 < i.entries.length * 7

theorem stringHash_ne_zero (text : List Byte) : stringHash text ≠ 0 := by
  unfold stringHash
  simp only
  split
  · decide
  · assumption

theorem StringInternEntry.Names.grows {arena arena' : List Byte} {e : StringInternEntry} (h : e.Names arena)
    (hg : Grows arena arena') : e.Names arena' := by
  obtain ⟨text, hstart, hlength, hhash⟩ := h
  exact ⟨text, hstart.grows hg, hlength, hhash⟩

theorem StringIntern.Keeps.grows {arena arena' : List Byte} {i : StringIntern} (h : i.Keeps arena)
    (hg : Grows arena arena') : i.Keeps arena' :=
  ⟨fun e he h0 => (h.names e he h0).grows hg, h.count, h.size, h.load⟩

theorem StringIntern.Keeps.sound {arena : List Byte} {i : StringIntern} (h : i.Keeps arena) : i.Sound arena := by
  intro _ e he h0
  obtain ⟨text, hstart, hlength, -⟩ := h.names e he h0
  exact ⟨text, hstart.read, hlength.symm⟩

/-! ## Inserting rows -/

/-- A row put into an empty one is one more in use. -/
theorem rowsUsed_set {entries : List StringInternEntry} {e old : StringInternEntry} {j : Nat}
    (hj : entries[j]? = some old) (hold : old.hash = 0) (he : e.hash ≠ 0) :
    rowsUsed (entries.set j e) = rowsUsed entries + 1 := by
  obtain ⟨hlt, hget⟩ := List.getElem?_eq_some_iff.1 hj
  simp [rowsUsed, List.countP_set hlt, hget, hold, he]

/-- A table that is not full has an empty row. -/
theorem exists_empty_row {entries : List StringInternEntry} (h : rowsUsed entries < entries.length) :
    ∃ (slot : Nat) (old : StringInternEntry), entries[slot]? = some old ∧ old.hash = 0 := by
  by_contra hnone
  push Not at hnone
  refine absurd (List.countP_eq_length.2 fun e he => ?_) (Nat.ne_of_lt h)
  obtain ⟨slot, hslot⟩ := List.mem_iff_getElem?.1 he
  simpa using hnone slot e hslot

/-- The next row, around the end of the table. -/
theorem next_row {n : Nat} (hn : TableSize n) (slot : Nat) : (slot + 1) &&& (n - 1) = (slot + 1) % n := by
  obtain ⟨k, -, rfl⟩ := hn
  exact Nat.and_two_pow_sub_one_eq_mod ..

theorem stringInternSlot_lt {hash : UInt64} {n : Nat} (hn : 0 < n) : stringInternSlot hash n < n := by
  have hle : stringInternSlot hash n ≤ (UInt64.ofNat (n - 1)).toNat := by
    simp only [stringInternSlot, UInt64.toNat_and]
    exact Nat.and_le_right
  have hmod : (UInt64.ofNat (n - 1)).toNat ≤ n - 1 := by
    rw [UInt64.toNat_ofNat']
    exact Nat.mod_le ..
  omega

/-- From any row the first empty one is filled. -/
theorem stringInternProbe_some {entries : List StringInternEntry} {e : StringInternEntry} (hn : TableSize entries.length) :
    ∀ {probes slot}, slot < entries.length →
      (∃ i < probes, ∃ old : StringInternEntry, entries[(slot + i) % entries.length]? = some old ∧ old.hash = 0) →
      ∃ (j : Nat) (old : StringInternEntry), stringInternProbe entries e probes slot = some (entries.set j e) ∧ entries[j]? = some old ∧
        old.hash = 0 := by
  intro probes
  induction probes with
  | zero =>
      rintro slot - ⟨i, hi, -⟩
      omega
  | succ probes ih =>
      rintro slot hslot ⟨i, hi, old, hold, h0⟩
      simp only [stringInternProbe, List.getElem?_eq_getElem hslot]
      split
      · rename_i hfree
        exact ⟨slot, _, rfl, List.getElem?_eq_getElem hslot, hfree⟩
      · rename_i hused
        rw [next_row hn]
        apply ih (Nat.mod_lt _ (by omega))
        cases i with
        | zero =>
            rw [Nat.add_zero, Nat.mod_eq_of_lt hslot, List.getElem?_eq_getElem hslot, Option.some.injEq] at hold
            exact absurd (hold ▸ h0) hused
        | succ i =>
            refine ⟨i, by omega, old, ?_, h0⟩
            rwa [Nat.mod_add_mod, Nat.add_assoc, Nat.add_comm 1 i]

/-- A row is inserted into a table that is not full. -/
theorem stringInternInsert_some {entries : List StringInternEntry} {e : StringInternEntry} (hn : TableSize entries.length)
    (hroom : rowsUsed entries < entries.length) (he : e.hash ≠ 0) :
    ∃ entries', stringInternInsert entries e = some entries' ∧ entries'.length = entries.length ∧
      rowsUsed entries' = rowsUsed entries + 1 := by
  obtain ⟨slot, old, hslot, h0⟩ := exists_empty_row hroom
  have hlt : slot < entries.length := (List.getElem?_eq_some_iff.1 hslot).1
  obtain ⟨i, hi, hsteps⟩ := Probing.exists_steps (stringInternSlot e.hash entries.length) hlt
  obtain ⟨j, old', hprobe, hj, h0'⟩ := stringInternProbe_some (e := e) hn (stringInternSlot_lt (by omega))
    ⟨i, hi, old, by rwa [hsteps], h0⟩
  exact ⟨_, hprobe, List.length_set .., rowsUsed_set hj h0' he⟩

theorem stringInternInsertAll_some {new : List StringInternEntry} : ∀ {entries : List StringInternEntry},
    TableSize entries.length → rowsUsed entries + new.length ≤ entries.length → (∀ e ∈ new, e.hash ≠ 0) →
      ∃ entries', stringInternInsertAll entries new = some entries' ∧ entries'.length = entries.length ∧
        rowsUsed entries' = rowsUsed entries + new.length := by
  induction new with
  | nil =>
      intro entries _ _ _
      exact ⟨entries, rfl, rfl, rfl⟩
  | cons e new ih =>
      intro entries hn hroom hnew
      rw [List.length_cons] at hroom
      obtain ⟨entries₁, hinsert, hlength, hused⟩ := stringInternInsert_some hn (by omega) (hnew e (List.mem_cons_self ..))
      obtain ⟨entries₂, hall, hlength', hused'⟩ := @ih entries₁ (by rwa [hlength])
        (by rw [hlength, hused]; omega) fun x hx => hnew x (List.mem_cons_of_mem _ hx)
      refine ⟨entries₂, ?_, hlength'.trans hlength, ?_⟩
      · rw [stringInternInsertAll, hinsert]
        exact hall
      · rw [hused', hused, List.length_cons]
        omega

/-! ## Larger tables -/

theorem stringInternCapacity_some {requested : Nat} : ∀ {fuel capacity c}, TableSize capacity →
    stringInternCapacity requested fuel capacity = some c → requested ≤ c ∧ TableSize c := by
  intro fuel
  induction fuel with
  | zero =>
      intro capacity c _ h
      cases h
  | succ fuel ih =>
      intro capacity c hsize h
      simp only [stringInternCapacity] at h
      split at h
      · rename_i hle
        cases h
        exact ⟨hle, hsize⟩
      split at h
      · cases h
      · obtain ⟨k, hk, rfl⟩ := hsize
        exact ih ⟨k + 1, by omega, by rw [Nat.pow_succ]⟩ h

theorem rowsUsed_replicate (n : Nat) : rowsUsed (List.replicate n ⟨0, 0, 0⟩) = 0 := by
  simp [rowsUsed, List.countP_replicate]

/-- A larger table has the rows of the old one. -/
theorem stringInternResize_some {requested : Nat} {old entries : List StringInternEntry}
    (h : stringInternResize env vm requested old = some entries) (hused : rowsUsed old ≤ requested) :
    TableSize entries.length ∧ requested ≤ entries.length ∧ rowsUsed entries = rowsUsed old := by
  unfold stringInternResize at h
  split at h
  · cases h
  rename_i c hc
  obtain ⟨hle, hsize⟩ := stringInternCapacity_some ⟨10, by omega, rfl⟩ hc
  split at h
  · have hlength : (old.filter (·.hash ≠ 0)).length = rowsUsed old := by rw [rowsUsed, List.countP_eq_length_filter]
    have hempty : (List.replicate c (⟨0, 0, 0⟩ : StringInternEntry)).length = c := List.length_replicate
    obtain ⟨entries', hall, hlen, hcount⟩ := @stringInternInsertAll_some (old.filter (·.hash ≠ 0))
      (List.replicate c ⟨0, 0, 0⟩) (by rwa [hempty]) (by rw [rowsUsed_replicate, hempty, hlength]; omega)
      (by simp)
    rw [hall, Option.some.injEq] at h
    subst h
    rw [hempty] at hlen
    rw [rowsUsed_replicate, hlength, Nat.zero_add] at hcount
    exact ⟨by rwa [hlen], by rwa [hlen], hcount⟩
  · cases h

/-! ## Rebuilding -/

theorem resetStringInternIndex_keeps {arena : List Byte} {i : StringIntern}
    (hsize : i.entries = [] ∨ TableSize i.entries.length) : (resetStringInternIndex i).Keeps arena := by
  have hrows : (resetStringInternIndex i).entries = List.replicate i.entries.length ⟨0, 0, 0⟩ := List.map_const' ..
  refine ⟨fun e he h0 => ?_, ?_, ?_, ?_⟩
  · rw [hrows] at he
    exact absurd (congrArg StringInternEntry.hash (List.eq_of_mem_replicate he)) h0
  · rw [hrows, rowsUsed_replicate]
    rfl
  · rw [hrows, List.length_replicate]
    rcases hsize with hnil | hsize
    · exact .inl (by rw [hnil]; rfl)
    · exact .inr hsize
  · rw [hrows, List.length_replicate]
    rcases hsize with hnil | ⟨k, -, hk⟩
    · exact .inl (by rw [hnil]; rfl)
    · refine .inr ?_
      have hpos : 0 < 2 ^ k := Nat.two_pow_pos k
      have hzero : (resetStringInternIndex i).count = 0 := rfl
      omega

/-- The strings of an arena are listed where they start. -/
theorem arenaStrings_encode {ss : List (List Byte)} : ∀ {fuel : Nat} (offset : Nat), Clean 0 ss → (encode 0 ss).length ≤ fuel →
    ∃ list, arenaStrings fuel (encode 0 ss) offset = some list ∧ list.length = ss.length ∧
      ∀ os ∈ list, ∃ i : Nat, ss[i]? = some os.2 ∧ os.1 = offset + start 0 ss i := by
  induction ss with
  | nil =>
      intro fuel offset _ _
      cases fuel <;> exact ⟨[], by simp [arenaStrings], rfl, by simp⟩
  | cons s ss ih =>
      intro fuel offset hc hfuel
      rw [encode_cons, List.length_append, List.length_cons] at hfuel
      cases fuel with
      | zero => omega
      | succ fuel =>
          obtain ⟨list, hlist, hlength, hstarts⟩ := @ih fuel (offset + s.length + 1) hc.tail (by omega)
          have hread : read 0 (encode 0 (s :: ss)) = some s :=
            read_eq_some.2 ⟨hc.head, encode 0 ss, encode_cons ..⟩
          have hdrop : (encode 0 (s :: ss)).drop (s.length + 1) = encode 0 ss := by
            rw [encode_cons]
            simp [List.drop_append, List.drop_eq_nil_of_le]
          refine ⟨(offset, s) :: list, ?_, by simp [hlength], fun os hos => ?_⟩
          · rw [arenaStrings, if_neg (by simp), hread]
            simp only [hdrop, hlist, Option.map_some]
          · rcases List.mem_cons.1 hos with rfl | hos
            · exact ⟨0, by simp, by simp [start]⟩
            · obtain ⟨i, hi, hoffset⟩ := hstarts os hos
              refine ⟨i + 1, by simpa using hi, ?_⟩
              rw [hoffset]
              simp only [start, List.take_succ_cons, encode_cons, List.length_append, List.length_cons]
              omega

/-- Strings of the arena are entered into an index that has room for them. -/
theorem indexStrings_keeps {arena : List Byte} {strings : List (Nat × List Byte)} : ∀ {i : StringIntern},
    (∀ e ∈ i.entries, e.hash ≠ 0 → e.Names arena) → rowsUsed i.entries = i.count → TableSize i.entries.length →
      (i.count + strings.length) * 10 < i.entries.length * 7 → (∀ os ∈ strings, StartsAt arena os.2 os.1) →
      (indexStrings i strings).Keeps arena := by
  induction strings with
  | nil =>
      intro i hnames hcount hsize hload _
      exact ⟨hnames, hcount, .inr hsize, .inr hload⟩
  | cons os strings ih =>
      obtain ⟨offset, s⟩ := os
      intro i hnames hcount hsize hload hstarts
      rw [List.length_cons] at hload
      obtain ⟨entries, hinsert, hlength, hused⟩ := stringInternInsert_some (e := ⟨stringHash s, offset, s.length⟩) hsize
        (by omega) (stringHash_ne_zero s)
      simp only [indexStrings, hinsert]
      refine ih (fun e he h0 => ?_) ?_ (by rwa [hlength]) ?_ fun os hos => hstarts os (List.mem_cons_of_mem _ hos)
      · rcases stringInternProbe_mem hinsert e he with rfl | he
        · exact ⟨s, hstarts (offset, s) (List.mem_cons_self ..), rfl, rfl⟩
        · exact hnames e he h0
      · rw [hused, hcount]
      · simp only [hlength]
        omega

/-- A rebuilt index names the strings of the arena. -/
theorem rebuildStringInternIndex_keeps (ht : Terminated 0 vm.stringArena)
    (hsize : vm.stringIntern.entries = [] ∨ TableSize vm.stringIntern.entries.length) :
    (rebuildStringInternIndex env vm).Keeps vm.stringArena := by
  obtain ⟨ss, hc, harena⟩ := ht.exists_encode
  obtain ⟨list, hlist, -, hstarts⟩ := arenaStrings_encode 0 hc (Nat.le_refl _)
  rw [← harena] at hlist
  have hreset : (resetStringInternIndex vm.stringIntern).Keeps vm.stringArena := resetStringInternIndex_keeps hsize
  unfold rebuildStringInternIndex
  rw [hlist]
  cases list with
  | nil => exact hreset
  | cons s list =>
      simp only
      split
      · exact ⟨hreset.names, hreset.count, hreset.size, hreset.load⟩
      · rename_i entries hentries
        obtain ⟨hsize', hle, hused⟩ := stringInternResize_some hentries (by rw [hreset.count]; exact Nat.zero_le _)
        rw [hreset.count] at hused
        refine indexStrings_keeps (fun e he h0 => ?_) hused hsize' ?_ fun os hos => ?_
        · exact hreset.names e (stringInternResize_mem hentries he h0) h0
        · have hzero : (resetStringInternIndex vm.stringIntern).count = 0 := rfl
          simp only [hzero]
          have hpos : 0 < (s :: list).length := Nat.succ_pos _
          omega
        · obtain ⟨i, hi, hoffset⟩ := hstarts os hos
          exact ⟨ss, i, hc, harena, hi, by rw [hoffset, Nat.zero_add]⟩

/-- A string just written is entered into the index. -/
theorem rememberStringInIndex_keeps {offset : Nat} {text : List Byte} (hi : vm.stringIntern.Keeps vm.stringArena)
    (hs : StartsAt vm.stringArena text offset) : (rememberStringInIndex env vm offset text).Keeps vm.stringArena := by
  have hfull : ∀ {entries : List StringInternEntry}, (∀ e ∈ entries, e.hash ≠ 0 → e.Names vm.stringArena) →
      rowsUsed entries = vm.stringIntern.count → TableSize entries.length →
      (vm.stringIntern.count + 1) * 10 < entries.length * 7 →
      ∃ entries', stringInternInsert entries ⟨stringHash text, offset, text.length⟩ = some entries' ∧
        ({ vm.stringIntern with entries := entries', count := vm.stringIntern.count + 1 } : StringIntern).Keeps vm.stringArena := by
    intro entries hnames hcount hsize hload
    obtain ⟨entries', hinsert, hlength, hused⟩ := stringInternInsert_some (e := ⟨stringHash text, offset, text.length⟩)
      hsize (by omega) (stringHash_ne_zero text)
    refine ⟨entries', hinsert, fun e he h0 => ?_, by rw [hused, hcount], .inr (by rwa [hlength]), .inr (by rwa [hlength])⟩
    rcases stringInternProbe_mem hinsert e he with rfl | he
    · exact ⟨text, hs, rfl, rfl⟩
    · exact hnames e he h0
  unfold rememberStringInIndex
  simp only
  split
  · split
    · exact ⟨hi.names, hi.count, hi.size, hi.load⟩
    · rename_i entries hentries
      split at hentries
      · rename_i hgrow
        have hused : rowsUsed vm.stringIntern.entries ≤
            if vm.stringIntern.entries.length = 0 then 1024 else vm.stringIntern.entries.length * 2 := by
          split
          · rename_i hzero
            rw [List.length_eq_zero_iff.1 hzero]
            exact Nat.zero_le _
          · have hle : rowsUsed vm.stringIntern.entries ≤ vm.stringIntern.entries.length := List.countP_le_length
            omega
        obtain ⟨hsize, hle, hcount⟩ := stringInternResize_some hentries hused
        have hroom : (vm.stringIntern.count + 1) * 10 < entries.length * 7 := by
          rcases hi.load with hnil | hload
          · have hzero : vm.stringIntern.count = 0 := by rw [← hi.count, hnil]; rfl
            rw [hnil] at hle
            simp only [List.length_nil, if_true] at hle
            omega
          · have hpos : vm.stringIntern.entries.length ≠ 0 := by omega
            rcases hi.size with hnil | ⟨k, hk, hlength⟩
            · exact absurd (by rw [hnil]; rfl) hpos
            · have hmin : 2 ^ 10 ≤ 2 ^ k := Nat.pow_le_pow_right (by omega) hk
              rw [if_neg hpos] at hle
              omega
        obtain ⟨entries', hinsert, hkeeps⟩ := hfull
          (fun e he h0 => hi.names e (stringInternResize_mem hentries he h0) h0) (hcount.trans hi.count) hsize hroom
        rw [hinsert]
        exact hkeeps
      · rename_i hroom
        cases hentries
        rw [not_or] at hroom
        rcases hi.size with hnil | hsize
        · exact absurd (by rw [hnil]; rfl) hroom.1
        · obtain ⟨entries', hinsert, hkeeps⟩ := hfull hi.names hi.count hsize (by omega)
          rw [hinsert]
          exact hkeeps
  · exact hi

/-! ## The machine -/

/-- The arena is terminated, and the index keeps step with it. -/
structure Vm.TextsIndexed (vm : Vm) : Prop where
  terminated : Terminated 0 vm.stringArena
  intern : vm.stringIntern.Keeps vm.stringArena

theorem Vm.TextsIndexed.sound (h : vm.TextsIndexed) : vm.StringsSound := ⟨h.terminated, h.intern.sound⟩

theorem writeString_grows (text : List Byte) (vm : Vm) : Grows vm.stringArena (writeString text vm).stringArena := by
  have hend : Terminated 0 (text ++ [0]) := .inr ⟨text, rfl⟩
  obtain ⟨ss, hc, he⟩ := hend.exists_encode
  exact ⟨ss, hc, by rw [← he, writeString, List.append_assoc]⟩

theorem writeString_indexed (text : List Byte) (h : vm.TextsIndexed) : (writeString text vm).TextsIndexed :=
  ⟨.inr ⟨vm.stringArena ++ text, rfl⟩, h.intern.grows (writeString_grows text vm)⟩

theorem writeString_startsAt {text : List Byte} (ht : (0 : Byte) ∉ text) (h : Terminated 0 vm.stringArena) :
    StartsAt (writeString text vm).stringArena text vm.stringArena.length := by
  obtain ⟨ss, hc, he⟩ := h.exists_encode
  refine ⟨ss ++ [text], ss.length, hc.append fun s hs => ?_, ?_, by simp, by simp [start, he]⟩
  · rw [List.mem_singleton.1 hs]
    exact ht
  · rw [encode_append, ← he]
    simp [writeString]

theorem rememberString_indexed {text : List Byte} (ht : (0 : Byte) ∉ text) (h : vm.TextsIndexed) :
    (rememberString env text (writeString text vm)).TextsIndexed := by
  have hw : (writeString text vm).TextsIndexed := writeString_indexed text h
  have hoffset : (writeString text vm).stringArena.length - (text.length + 1) = vm.stringArena.length := by
    simp only [writeString, List.length_append, List.length_singleton]
    omega
  refine ⟨hw.terminated, ?_⟩
  simp only [rememberString, hoffset]
  exact rememberStringInIndex_keeps hw.intern (writeString_startsAt ht h.terminated)

theorem compactStringArena_indexed {u} (hc : compactStringArena env vm = .ok u vm') (h : vm.TextsIndexed) :
    vm'.TextsIndexed := by
  rcases compactStringArena_ok hc with ⟨-, rfl⟩ | ⟨_, _, c⟩
  · exact h
  · have ht : Terminated 0 vm'.stringArena := c.sound.terminated
    obtain ⟨vm₁, harena, hold, hintern⟩ := c.intern
    refine ⟨ht, ?_⟩
    rw [hintern, ← harena]
    rw [← harena] at ht
    exact rebuildStringInternIndex_keeps ht (by rw [hold]; exact h.intern.size)

end Aivm
