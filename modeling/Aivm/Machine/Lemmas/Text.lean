import Aivm.Machine.Bytes
import Aivm.Strings.Lemmas.Arena
import Aivm.Strings.Lemmas.Find
import Aivm.Workers.Lemmas.BoundaryCopy

/-!
# What the string instructions compute

An instruction that succeeds on strings pushes what the pure text functions compute from the contents of its operands,
provided that the remembered position belongs to the string it is looked up for.
-/

namespace Aivm

open CStrings VmM

variable {env : Env} {vm vm' : Vm} {p q : StrPtr} {text : List Byte}

/-! ## Pointers into a string -/

/-- A pointer into a string reads what is left of it. -/
theorem cstr_advance (h : vm.cstr p = some text) {n : Nat} (hn : n ≤ text.length) :
    vm.cstr (p.advance n) = some (text.drop n) := by
  cases p with
  | null => simp [Heap.cstr] at h
  | lit t =>
      simp only [Heap.cstr, Option.some.injEq, StrPtr.advance] at h ⊢
      have hsplit : t = text ++ t.drop text.length := by
        have := List.takeWhile_append_dropWhile (p := fun b : Byte => decide (b ≠ 0)) (l := t)
        rw [h] at this
        conv_lhs => rw [← this]
        conv_rhs => rw [← this]
        simp
      have hclean : ∀ b ∈ text.drop n, decide (b ≠ 0) = true := by
        intro b hb
        rw [← h] at hb
        exact List.mem_takeWhile_imp (p := fun b : Byte => decide (b ≠ 0)) (List.mem_of_mem_drop hb)
      have hstop : (t.drop text.length).takeWhile (fun b : Byte => decide (b ≠ 0)) = [] := by
        have := h
        rw [hsplit, List.takeWhile_append_of_pos] at this
        · simpa using this
        · intro b hb
          rw [← h] at hb
          exact List.mem_takeWhile_imp (p := fun b : Byte => decide (b ≠ 0)) hb
      rw [hsplit, List.drop_append_of_le_length hn, List.takeWhile_append_of_pos hclean, hstop, List.append_nil]
  | arena block offset =>
      simp only [Heap.cstr] at h
      split at h
      · rename_i hb
        obtain ⟨hclean, rest, hrest⟩ := read_eq_some.1 h
        simp only [Heap.cstr, StrPtr.advance, if_pos hb]
        refine read_eq_some.2 ⟨fun hm => hclean (List.mem_of_mem_drop hm), rest, ?_⟩
        rw [← List.drop_drop, hrest, List.drop_append_of_le_length hn]
      · cases h

theorem zero_notMem_of_cstr (h : vm.cstr p = some text) : (0 : Byte) ∉ text := by
  cases p with
  | null => simp [Heap.cstr] at h
  | lit t =>
      simp only [Heap.cstr, Option.some.injEq] at h
      intro hm
      rw [← h] at hm
      simpa using List.mem_takeWhile_imp hm
  | arena block offset =>
      simp only [Heap.cstr] at h
      split at h
      · exact (read_eq_some.1 h).1
      · cases h

/-! ## The remembered position -/

/-- A position of a text: a rune of it, or its end, and the byte where that starts. -/
def Utf8OffsetCache.IsPosition (cache : Utf8OffsetCache) (text : List Byte) : Prop :=
  cache.rune ≤ (runes text).length ∧ cache.byte = utf8ByteOffset text cache.rune

/-- If a position is remembered for a pointer, it is one of the string there. -/
def Vm.CacheRightAt (vm : Vm) (p : StrPtr) : Prop :=
  vm.utf8OffsetCache.text = p → ∀ text, vm.cstr p = some text → vm.utf8OffsetCache.IsPosition text

theorem utf8ByteOffset_add (text : List Byte) (m n : Nat) :
    utf8ByteOffset text (m + n) = utf8ByteOffset text m + utf8ByteOffset (text.drop (utf8ByteOffset text m)) n := by
  simp only [utf8ByteOffset_eq]
  exact Segments.offset_add runeLength_cuts text m n

theorem utf8ByteOffset_le (text : List Byte) (n : Nat) : utf8ByteOffset text n ≤ text.length := by
  rw [utf8ByteOffset_eq]
  exact Segments.offset_le runeLength_cuts text n

/-- Behind the last rune lies the end of the text. -/
theorem utf8ByteOffset_min (text : List Byte) (n : Nat) :
    utf8ByteOffset text (min n (runes text).length) = utf8ByteOffset text n := by
  rcases Nat.le_total n (runes text).length with h | h
  · rw [Nat.min_eq_left h]
  · rw [Nat.min_eq_right h]
    simp only [utf8ByteOffset_eq]
    have hend : Segments.offset runeLength text (runes text).length = text.length :=
      Segments.offset_of_ge runeLength_cuts (Nat.le_refl _)
    rw [hend, Segments.offset_of_ge runeLength_cuts h]

/-- Walking on from a position. -/
theorem walkRunes_from {cache : Utf8OffsetCache} {rune : Nat} (hc : cache.IsPosition text) (hr : cache.rune ≤ rune) :
    walkRunes (text.drop cache.byte).length (rune - cache.rune) (text.drop cache.byte) =
      (utf8ByteOffset text rune - cache.byte, min rune (runes text).length - cache.rune) := by
  obtain ⟨hrune, hbyte⟩ := hc
  have hadd := utf8ByteOffset_add text cache.rune (rune - cache.rune)
  rw [Nat.add_sub_cancel' hr, ← hbyte, utf8ByteOffset_eq (text.drop cache.byte)] at hadd
  have hlen : (runes (text.drop cache.byte)).length = (runes text).length - cache.rune := by
    rw [hbyte, runes_drop, List.length_drop]
  rw [walkRunes_eq _ _ _ (Nat.le_refl _), hadd, hlen]
  simp only [Prod.mk.injEq]
  omega

/-- With a right memory the byte offset is that of the text, and the memory stays right. -/
theorem utf8ByteOffsetForRune_run (hp : vm.cstr p = some text) (hc : vm.CacheRightAt p) (rune : Nat) :
    utf8ByteOffsetForRune p rune vm = .ok (utf8ByteOffset text rune)
      { vm with utf8OffsetCache := ⟨p, min rune (runes text).length, utf8ByteOffset text rune⟩ } := by
  by_cases hcached : vm.utf8OffsetCache.text = p ∧ vm.utf8OffsetCache.rune ≤ rune
  · have hpos := hc hcached.1 text hp
    have hle : vm.utf8OffsetCache.byte ≤ text.length := hpos.2 ▸ utf8ByteOffset_le text _
    have hmono : vm.utf8OffsetCache.byte ≤ utf8ByteOffset text rune := hpos.2 ▸ utf8ByteOffset_mono text hcached.2
    have hrune := hpos.1
    have hbyte : vm.utf8OffsetCache.byte + (utf8ByteOffset text rune - vm.utf8OffsetCache.byte) =
        utf8ByteOffset text rune := by omega
    have hrunes : vm.utf8OffsetCache.rune + (min rune (runes text).length - vm.utf8OffsetCache.rune) =
        min rune (runes text).length := by omega
    have hrest := cstr_advance hp hle
    simp only [utf8ByteOffsetForRune, bind_run, get_run, hcached, and_self, decide_true, if_true, hrest, deref,
      modify_run, pure_run, walkRunes_from hpos hcached.2, hbyte, hrunes]
  · have hzero : vm.cstr (p.advance 0) = some text := cstr_advance hp (Nat.zero_le _)
    simp only [utf8ByteOffsetForRune, bind_run, get_run, hcached, decide_false, Bool.false_eq_true, if_false, hzero,
      deref, modify_run, pure_run, Nat.sub_zero, Nat.zero_add, walkRunes_eq _ _ _ (Nat.le_refl _), utf8ByteOffset_eq]

/-! ## Operands and results -/

theorem stackPop_run {below : List Value} {v : Value} (h : vm.stack = below ++ [v]) :
    stackPop vm = .ok v { vm with stack := below } := by
  simp [stackPop, h]

theorem stackPush_ok {v : Value} {u} (h : stackPush v vm = .ok u vm') :
    vm'.stack = vm.stack ++ [v] ∧ vm'.toHeap = vm.toHeap := by
  unfold stackPush at h
  by_cases hroom : vm.stack.length + 1 ≤ (ensureStackCapacity (vm.stack.length + 1) vm).stackLimit
  · simp only [hroom, if_true, Outcome.ok.injEq] at h
    rw [← h.2]
    exact ⟨rfl, rfl⟩
  · simp [hroom] at h

/-- The text of the string on top of the stack. -/
def Vm.topText (vm : Vm) : Option (List Byte) :=
  match vm.stack.getLast? with
  | some (.string q) => vm.cstr q
  | _ => none

theorem push_topText {q : StrPtr} {u} (hq : vm.cstr q = some text) (h : stackPush (.string q) vm = .ok u vm') :
    vm'.topText = some text := by
  obtain ⟨hstack, hheap⟩ := stackPush_ok h
  simp [Vm.topText, hstack, hheap, hq]

theorem claim_ok {what : String} {u} (h : VmM.claim env what vm = .ok u vm') : vm' = vm := by
  unfold VmM.claim at h
  split at h
  · cases h
    rfl
  · cases h

theorem stringArenaAlloc_reads (ht : (0 : Byte) ∉ text) (h : stringArenaAlloc env text vm = .ok q vm') :
    vm'.cstr q = some text := by
  simp only [stringArenaAlloc, bind_ok, get_run, modify_run, pure_run, Outcome.ok.injEq] at h
  obtain ⟨_, vm₁, _, _, _, ⟨rfl, rfl⟩, _, _, ⟨_, rfl⟩, rfl, rfl⟩ := h
  have hread := read_written vm₁.stringArena text ht
  have hstored : (writeString text vm₁).Stored text _ := stored_of_read hread
  exact hstored.2

theorem copyStringRangeToArena_reads (ht : (0 : Byte) ∉ text) (hs : vm.StringsSound)
    (h : copyStringRangeToArena env text vm = .ok q vm') : vm'.cstr q = some text := by
  obtain ⟨_, _, _, hstored, _⟩ := copyStringRangeToArena_ok ht hs h
  exact hstored.2

theorem copyStringSpliceToArena_reads (ht : (0 : Byte) ∉ text) (hs : vm.StringsSound)
    (h : copyStringSpliceToArena env text vm = .ok q vm') : vm'.cstr q = some text := by
  simp only [copyStringSpliceToArena, bind_ok, get_run, Outcome.ok.injEq] at h
  obtain ⟨_, _, ⟨rfl, rfl⟩, h⟩ := h
  cases hfind : find 0 text vm.stringArena.length vm.stringArena 0 with
  | some offset =>
      rw [hfind] at h
      cases h
      have hread : find 0 text vm.stringArena.length (vm.stringArena.drop 0) 0 = some offset := hfind
      exact (stored_of_read (find_terminated hs.terminated hread).1).2
  | none =>
      rw [hfind] at h
      obtain ⟨_, _, _, hstored, _⟩ := storeString_ok ht hs h
      exact hstored.2

/-- A copy of a string has its text. -/
theorem copyStringToArena_reads (hs : vm.StringsSound) (hp : vm.cstr p = some text)
    (h : copyStringToArena env p vm = .ok q vm') : vm'.cstr q = some text := by
  obtain ⟨_, ⟨_, rfl, rfl⟩ | ⟨_, text', htext, h⟩⟩ := copyStringToArena_cases h
  · exact hp
  · rw [hp, Option.some.injEq] at htext
    subst htext
    exact copyStringRangeToArena_reads (zero_notMem_of_cstr hp) hs h

/-- A copy of the first bytes of a string is a copy of a range of bytes. -/
theorem copyRange_ok {n : Nat} (hp : vm.cstr p = some text) (h : copyRange env p n vm = .ok q vm') :
    copyStringRangeToArena env (text.take n) vm = .ok q vm' := by
  simp only [copyRange, bind_ok, get_run, deref_ok, Outcome.ok.injEq] at h
  obtain ⟨_, _, ⟨rfl, rfl⟩, text', _, ⟨htext, rfl⟩, h⟩ := h
  rw [hp, Option.some.injEq] at htext
  subst htext
  split at h
  · simp only [bind_ok] at h
    obtain ⟨_, _, hclaim, h⟩ := h
    rwa [claim_ok hclaim] at h
  · exact h

/-- A copy of the first bytes of a string has them as its text. -/
theorem copyRange_reads {n : Nat} (hs : vm.StringsSound) (hp : vm.cstr p = some text)
    (h : copyRange env p n vm = .ok q vm') : vm'.cstr q = some (text.take n) := by
  have ht : (0 : Byte) ∉ text.take n := fun hm => zero_notMem_of_cstr hp (List.mem_of_mem_take hm)
  exact copyStringRangeToArena_reads ht hs (copyRange_ok hp h)

/-- The first bytes of two strings have no zero. -/
theorem splice_clean {first second : List Byte} (hp : vm.cstr p = some first) (hq : vm.cstr q = some second) {m n : Nat} :
    (0 : Byte) ∉ first.take m ++ second.take n := by
  rw [List.mem_append]
  rintro (hm | hm)
  · exact zero_notMem_of_cstr hp (List.mem_of_mem_take hm)
  · exact zero_notMem_of_cstr hq (List.mem_of_mem_take hm)

/-- A copy of the first bytes of two strings is a copy of the bytes joined. -/
theorem copySplice_ok {first second : List Byte} {m n : Nat} {r : StrPtr} (hp : vm.cstr p = some first)
    (hq : vm.cstr q = some second) (h : copySplice env p m q n vm = .ok r vm') :
    copyStringSpliceToArena env (first.take m ++ second.take n) vm = .ok r vm' := by
  simp only [copySplice, bind_ok, get_run, deref_ok, Outcome.ok.injEq] at h
  obtain ⟨_, _, ⟨rfl, rfl⟩, first', _, ⟨hfirst, rfl⟩, second', _, ⟨hsecond, rfl⟩, h⟩ := h
  rw [hp, Option.some.injEq] at hfirst
  rw [hq, Option.some.injEq] at hsecond
  subst hfirst hsecond
  split_ifs at h
  · simp only [bind_ok] at h
    obtain ⟨_, _, hclaim, _, _, hclaim', h⟩ := h
    rwa [claim_ok hclaim', claim_ok hclaim] at h
  · simp only [bind_ok] at h
    obtain ⟨_, _, hclaim, h⟩ := h
    rwa [claim_ok hclaim] at h
  · simp only [bind_ok] at h
    obtain ⟨_, _, hclaim, h⟩ := h
    rwa [claim_ok hclaim] at h
  · exact h
  · exact h

/-- A copy of the first bytes of two strings has them joined as its text. -/
theorem copySplice_reads {first second : List Byte} {m n : Nat} (hs : vm.StringsSound) (hp : vm.cstr p = some first)
    (hq : vm.cstr q = some second) {r : StrPtr} (h : copySplice env p m q n vm = .ok r vm') :
    vm'.cstr r = some (first.take m ++ second.take n) :=
  copyStringSpliceToArena_reads (splice_clean hp hq) hs (copySplice_ok hp hq h)

/-! ## Ranges -/

/-- A string can be read and searched: the arena is sound, the text is there, and so is any remembered position. -/
structure Vm.TextReady (vm : Vm) (p : StrPtr) (text : List Byte) : Prop where
  sound : vm.StringsSound
  reads : vm.cstr p = some text
  cache : vm.CacheRightAt p

/-- What is known of a string does not depend on the stack. -/
theorem Vm.TextReady.pop (h : vm.TextReady p text) (stack : List Value) :
    Vm.TextReady { vm with stack := stack } p text :=
  ⟨⟨h.sound.terminated, h.sound.intern⟩, h.reads, h.cache⟩

theorem Vm.TextReady.ne_null (h : vm.TextReady p text) : p ≠ .null := by
  rintro rfl
  have := h.reads
  simp [Heap.cstr] at this

/-- With a right memory the byte offset is that of the text, and the memory stays right. -/
theorem byteOffset_ok (h : vm.TextReady p text) {rune n : Nat} (hrun : utf8ByteOffsetForRune p rune vm = .ok n vm') :
    n = utf8ByteOffset text rune ∧ vm'.TextReady p text ∧ vm'.toHeap = vm.toHeap ∧ vm'.stack = vm.stack := by
  rw [utf8ByteOffsetForRune_run h.reads h.cache, Outcome.ok.injEq] at hrun
  obtain ⟨rfl, rfl⟩ := hrun
  refine ⟨rfl, ⟨⟨h.sound.terminated, h.sound.intern⟩, h.reads, ?_⟩, rfl, rfl⟩
  intro _ text' htext
  have hsame : some text = some text' := h.reads.symm.trans htext
  cases hsame
  exact ⟨Nat.min_le_right .., (utf8ByteOffset_min text rune).symm⟩

/-- A string is read as it is there. -/
theorem readText_ok {t : List Byte} (hp : vm.cstr p = some text) (h : (readText env p).run vm = .ok t vm') :
    text = t ∧ vm' = vm := by
  simp only [readText, Routine.look, Routine.deref, Routine.bind_run, bind_ok, VmM.look, deref_ok, Outcome.ok.injEq] at h
  obtain ⟨_, _, ⟨rfl, rfl⟩, hread, rfl⟩ := h
  have hsame : some text = some t := hp.symm.trans hread
  cases hsame
  exact ⟨rfl, rfl⟩

theorem readText_run (hp : vm.cstr p = some text) :
    (readText env p).run vm = .ok text vm := by
  have hseen : vm.seen.cstr p = some text := hp
  simp [readText, Routine.look, Routine.deref, VmM.look, VmM.deref, bind_run, hseen]

theorem readText_below {below : List Value} {t : List Byte} (hp : vm.cstr p = some text)
    (h : (readText env p).run { vm with stack := below } = .ok t vm') : text = t ∧ vm' = { vm with stack := below } := by
  have hp' : Heap.cstr { vm with stack := below }.toHeap p = some text := hp
  exact readText_ok hp' h

theorem pushStringCopy_ok {u} (hs : vm.StringsSound) (hp : vm.cstr p = some text)
    (h : (pushStringCopy env p).run vm = .ok u vm') : vm'.topText = some text := by
  simp only [pushStringCopy, Routine.copyString, Routine.push, Routine.bind_run, bind_ok] at h
  obtain ⟨q, _, hcopy, h⟩ := h
  exact push_topText (copyStringToArena_reads hs hp hcopy) h

theorem cstr_litPtr_nil : vm.cstr (litPtr "") = some [] := rfl

/-- `push_substring_by_runes` pushes the range. -/
theorem pushSubstringByRunes_ok {start length : Int} {u} (ht : vm.TextReady p text)
    (h : (pushSubstringByRunes env p start length).run vm = .ok u vm') :
    vm'.topText = some (substringByRunes text start length) := by
  unfold pushSubstringByRunes at h
  by_cases hlength : length ≤ 0
  · rw [if_pos (.inr hlength)] at h
    rw [substringByRunes, if_pos hlength]
    exact pushStringCopy_ok ht.sound cstr_litPtr_nil h
  · rw [if_neg (by simp [ht.ne_null, hlength])] at h
    simp only [Routine.bind_run, bind_ok] at h
    obtain ⟨_, vm₁, hoffset, _, _, hrest, q, vm₂, hcopy, h⟩ := h
    obtain ⟨rfl, ht₁, hheap, -⟩ := byteOffset_ok ht hoffset
    have hdrop := cstr_advance ht₁.reads (utf8ByteOffset_le text start.toNat)
    obtain ⟨rfl, rfl⟩ := readText_ok hdrop hrest
    rw [substringByRunes, if_neg hlength]
    exact push_topText (copyRange_reads ht₁.sound hdrop hcopy) h

/-- `push_remove_by_runes` pushes what is left. -/
theorem pushRemoveByRunes_ok {start length : Int} {u} (ht : vm.TextReady p text)
    (h : (pushRemoveByRunes env p start length).run vm = .ok u vm') :
    vm'.topText = some (removeByRunes text start length) := by
  unfold pushRemoveByRunes at h
  rw [if_neg ht.ne_null] at h
  by_cases hlength : length ≤ 0
  · rw [if_pos hlength] at h
    rw [removeByRunes, if_pos hlength]
    exact pushStringCopy_ok ht.sound ht.reads h
  · rw [if_neg hlength] at h
    simp only [Routine.bind_run, bind_ok] at h
    obtain ⟨_, _, htext, _, vm₁, hstart, _, vm₂, hend, h⟩ := h
    obtain ⟨rfl, rfl⟩ := readText_ok ht.reads htext
    obtain ⟨rfl, ht₁, -, -⟩ := byteOffset_ok ht hstart
    obtain ⟨rfl, ht₂, -, -⟩ := byteOffset_ok ht₁ hend
    have hle := utf8ByteOffset_le text (removedRunes text start length).1
    have hle' := utf8ByteOffset_le text (removedRunes text start length).2
    rw [if_neg (by omega)] at h
    simp only [Routine.bind_run, bind_ok] at h
    obtain ⟨q, vm₃, hcopy, h⟩ := h
    have hdrop := cstr_advance ht₂.reads hle'
    have hreads := copySplice_reads ht₂.sound ht₂.reads hdrop hcopy
    rw [← List.length_drop, List.take_length] at hreads
    rw [removeByRunes, if_neg hlength]
    exact push_topText hreads h

/-- The loop of the search, with right memories throughout. -/
theorem findFrom_ok {pattern : List Byte} {lastRune fuel : Nat} : ∀ {vm vm' candidateRune result}, vm.TextReady p text →
    (findFrom env p text pattern lastRune fuel candidateRune (utf8ByteOffset text candidateRune)).run vm =
      .ok result vm' →
    result = findRunesFrom text pattern lastRune fuel candidateRune (utf8ByteOffset text candidateRune) ∧
      vm'.stack = vm.stack := by
  induction fuel with
  | zero =>
      intro vm vm' c result ht h
      cases h
      exact ⟨rfl, rfl⟩
  | succ fuel ih =>
      intro vm vm' c result ht h
      rw [findFrom] at h
      rw [findRunesFrom]
      split_ifs at h ⊢
      · cases h
        exact ⟨rfl, rfl⟩
      · cases h
        exact ⟨rfl, rfl⟩
      · cases h
        exact ⟨rfl, rfl⟩
      · simp only [Routine.bind_run, bind_ok] at h
        obtain ⟨_, vm₁, hnext, h⟩ := h
        obtain ⟨rfl, ht₁, -, hstack⟩ := byteOffset_ok ht hnext
        obtain ⟨hresult, hstack'⟩ := ih ht₁ h
        exact ⟨hresult, hstack'.trans hstack⟩

/-- `push_find_by_runes` pushes the place found. -/
theorem pushFindByRunes_ok {pattern : List Byte} {start : Int} {u} (ht : vm.TextReady p text)
    (hq : vm.cstr q = some pattern) (h : (pushFindByRunes env p q start).run vm = .ok u vm') :
    vm'.stack = vm.stack ++ [.int (findByRunes text pattern start)] := by
  simp only [pushFindByRunes, Routine.bind_run, bind_ok] at h
  obtain ⟨_, _, htext, _, _, hpattern, h⟩ := h
  obtain ⟨rfl, rfl⟩ := readText_ok ht.reads htext
  obtain ⟨rfl, rfl⟩ := readText_ok hq hpattern
  simp only [findByRunes]
  split_ifs at h ⊢
  · exact (stackPush_ok h).1
  · exact (stackPush_ok h).1
  · simp only [Routine.bind_run, bind_ok] at h
    obtain ⟨_, vm₁, hoffset, found, vm₂, hfind, h⟩ := h
    obtain ⟨rfl, ht₁, -, hstack⟩ := byteOffset_ok ht hoffset
    obtain ⟨rfl, hstack'⟩ := findFrom_ok ht₁ hfind
    rw [(stackPush_ok h).1, hstack', hstack]

/-! ## Instructions -/

/-- Three operands are popped, the last one first. -/
theorem pop_three {below : List Value} {a b c : Value} (h : vm.stack = below ++ [a, b, c]) :
    stackPop vm = .ok c { vm with stack := below ++ [a, b] } ∧
      stackPop { vm with stack := below ++ [a, b] } = .ok b { vm with stack := below ++ [a] } ∧
      stackPop { vm with stack := below ++ [a] } = .ok a { vm with stack := below } := by
  refine ⟨stackPop_run (by simp [h]), ?_, ?_⟩
  · exact stackPop_run (by simp)
  · exact stackPop_run rfl

theorem popRange_run {below : List Value} {start length : Int} {f hf}
    (hstack : vm.stack = below ++ [.string p, .int start, .int length]) :
    (popRange env f hf).run vm = .ok (p, start, length) { vm with stack := below } := by
  obtain ⟨h₁, h₂, h₃⟩ := pop_three hstack
  simp only [popRange, Routine.bind_run, Routine.pop, bind_run, h₁, h₂, h₃, Routine.pure_run, pure_run]

theorem strSubstring_ok {below : List Value} {start length : Int} {u} (ht : vm.TextReady p text)
    (hstack : vm.stack = below ++ [.string p, .int start, .int length])
    (h : (strSubstring env).run vm = .ok u vm') : vm'.topText = some (substringByRunes text start length) := by
  simp only [strSubstring, Routine.bind_run, bind_ok] at h
  obtain ⟨r, vm₁, hpop, h⟩ := h
  cases hpop.symm.trans (popRange_run hstack)
  exact pushSubstringByRunes_ok (ht.pop below) h

theorem strRemove_ok {below : List Value} {start length : Int} {u} (ht : vm.TextReady p text)
    (hstack : vm.stack = below ++ [.string p, .int start, .int length])
    (h : (strRemove env).run vm = .ok u vm') : vm'.topText = some (removeByRunes text start length) := by
  simp only [strRemove, Routine.bind_run, bind_ok] at h
  obtain ⟨r, vm₁, hpop, h⟩ := h
  cases hpop.symm.trans (popRange_run hstack)
  exact pushRemoveByRunes_ok (ht.pop below) h

theorem stringPtr_of_cstr (hp : vm.cstr p = some text) : (Value.string p).stringPtr = some p := by
  cases p with
  | null => simp [Heap.cstr] at hp
  | lit t => rfl
  | arena block offset => rfl

theorem strFind_ok {below : List Value} {pattern : List Byte} {start : Int} {u} (ht : vm.TextReady p text)
    (hq : vm.cstr q = some pattern) (hstack : vm.stack = below ++ [.string p, .string q, .int start])
    (h : (strFind env).run vm = .ok u vm') : vm'.stack = below ++ [.int (findByRunes text pattern start)] := by
  obtain ⟨h₁, h₂, h₃⟩ := pop_three hstack
  simp only [strFind, Routine.bind_run, Routine.pop, bind_run, h₁, h₂, h₃, stringPtr_of_cstr ht.reads,
    stringPtr_of_cstr hq] at h
  exact pushFindByRunes_ok (ht.pop below) hq h

/-! ## Whole strings -/

/-- Two operands are popped, the last one first. -/
theorem pop_two {below : List Value} {a b : Value} (h : vm.stack = below ++ [a, b]) :
    stackPop vm = .ok b { vm with stack := below ++ [a] } ∧
      stackPop { vm with stack := below ++ [a] } = .ok a { vm with stack := below } :=
  ⟨stackPop_run (by simp [h]), stackPop_run rfl⟩

theorem strConcat_ok {below : List Value} {first second : List Byte} {u} (hs : vm.StringsSound)
    (hp : vm.cstr p = some first) (hq : vm.cstr q = some second) (hstack : vm.stack = below ++ [.string p, .string q])
    (h : (strConcat env).run vm = .ok u vm') : vm'.topText = some (first ++ second) := by
  obtain ⟨h₁, h₂⟩ := pop_two hstack
  simp only [strConcat, Routine.bind_run, Routine.pop, bind_run, h₁, h₂, stringPtr_of_cstr hp, stringPtr_of_cstr hq] at h
  have hs₁ : Vm.StringsSound { vm with stack := below } := ⟨hs.terminated, hs.intern⟩
  obtain ⟨_, vm₁, hfirst, h⟩ := bind_ok.1 h
  obtain ⟨rfl, rfl⟩ := readText_below hp hfirst
  obtain ⟨_, vm₂, hsecond, h⟩ := bind_ok.1 h
  obtain ⟨rfl, rfl⟩ := readText_below hq hsecond
  obtain ⟨r, vm₃, hcopy, h⟩ := bind_ok.1 h
  have hreads := copySplice_reads hs₁ hp hq (onFail_ok.1 hcopy)
  rw [List.take_length, List.take_length] at hreads
  exact push_topText hreads h

theorem popText_run {below : List Value} {f hf} (hp : vm.cstr p = some text) (hstack : vm.stack = below ++ [.string p]) :
    (popText env f hf).run vm = .ok p { vm with stack := below } := by
  simp only [popText, Routine.bind_run, Routine.pop, bind_run, stackPop_run hstack, stringPtr_of_cstr hp,
    Routine.pure_run, pure_run]

theorem strScalarLength_ok {below : List Value} {u} (hp : vm.cstr p = some text)
    (hstack : vm.stack = below ++ [.string p]) (h : (strScalarLength env).run vm = .ok u vm') :
    vm'.stack = below ++ [.int (scalarLength text)] := by
  simp only [strScalarLength, Routine.bind_run, bind_ok] at h
  obtain ⟨_, vm₁, hpop, _, vm₂, hread, h⟩ := h
  cases hpop.symm.trans (popText_run hp hstack)
  obtain ⟨rfl, rfl⟩ := readText_below hp hread
  exact (stackPush_ok h).1

/-! ## Strings and bytes -/

/-- The bytes of the view on top of the stack. -/
def Vm.topBytes (vm : Vm) : Option (List Byte) :=
  match vm.stack.getLast? with
  | some (.bytes d n) => vm.bytesAt d n
  | _ => none

theorem bytesFromUtf8String_ok {below : List Value} {u} (hp : vm.cstr p = some text)
    (hstack : vm.stack = below ++ [.string p]) (h : (bytesFromUtf8String env).run vm = .ok u vm') :
    vm'.topBytes = some text := by
  simp only [bytesFromUtf8String, Routine.bind_run, bind_ok] at h
  obtain ⟨_, vm₁, hpop, _, vm₂, hread, h⟩ := h
  cases hpop.symm.trans (popText_run hp hstack)
  obtain ⟨rfl, rfl⟩ := readText_below hp hread
  simp only [pushBytesCopy, Routine.bind_run, bind_ok] at h
  obtain ⟨d, vm₃, halloc, h⟩ := h
  obtain ⟨-, hbytes, -, -⟩ := bytesArenaAlloc_ok halloc
  obtain ⟨hstack', hheap⟩ := stackPush_ok h
  simp [Vm.topBytes, hstack', hheap, hbytes]

/-- Valid bytes become a string with just these bytes. -/
theorem bytesToUtf8String_ok {below : List Value} {d : BytesPtr} {n : Nat} {data : List Byte} {u}
    (hs : vm.StringsSound) (hd : vm.bytesAt d n = some data) (hvalid : bytesIsValidUtf8WithoutNul data = true)
    (hstack : vm.stack = below ++ [.bytes d n]) (h : (bytesToUtf8String env).run vm = .ok u vm') :
    vm'.topText = some data := by
  have hs₁ : Vm.StringsSound { vm with stack := below } := ⟨hs.terminated, hs.intern⟩
  simp only [bytesToUtf8String, popBytes, Routine.bind_run, Routine.pop, bind_run, stackPop_run hstack,
    Routine.pure_run, pure_run] at h
  split_ifs at h with hn hnull
  · have hdata : data = [] := by
      simpa [hn, Heap.bytesAt, eq_comm] using hd
    rw [hdata]
    exact pushStringCopy_ok hs₁ cstr_litPtr_nil h
  · cases h
  · simp only [Routine.bind_run, bind_ok] at h
    obtain ⟨read, vm₁, hread, h⟩ := h
    simp only [readBytesView, Routine.look, Routine.deref, Routine.bind_run, bind_ok, VmM.look, deref_ok,
      Outcome.ok.injEq] at hread
    obtain ⟨_, _, ⟨rfl, rfl⟩, hread, rfl⟩ := hread
    have hsame : some data = some read := hd.symm.trans hread
    cases hsame
    rw [if_neg (by simp [hvalid])] at h
    simp only [Routine.bind_run, Routine.allocString, bind_ok] at h
    obtain ⟨q, vm₂, halloc, h⟩ := h
    exact push_topText (stringArenaAlloc_reads (bytesIsValidUtf8WithoutNul_iff.1 hvalid).zero_notMem halloc) h

end Aivm
