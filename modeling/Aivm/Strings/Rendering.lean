import Aivm.Compiler.Text
import Aivm.Machine.Rendering
import Aivm.Strings.Interning

/-!
# Rendering

What `STR_ESCAPE` and `TO_STRING` write fits the buffer they make for it, and what was rendered can be told from the
result.
-/

namespace Aivm

open ByteReader ByteWriter VmM

variable {ε : Type} {env : Env} {vm vm' : Vm} {p : StrPtr} {text data output : List Byte}

/-! ## Escapes -/

theorem length_escapeText (text : List Byte) : (escapeText text).length = escapedLength text := by
  induction text with
  | nil => rfl
  | cons b rest ih =>
      have hbyte : (escapeByte b).length = if b = 92 ∨ b = 34 ∨ b = 10 ∨ b = 13 ∨ b = 9 then 2 else 1 := by
        unfold escapeByte
        split_ifs <;> simp_all
      rw [escapeText, List.flatMap_cons, List.length_append, hbyte, escapedLength]
      exact congrArg _ ih

theorem escapeLoop_eq (text output : List Byte) (outIndex : Nat) :
    (escapeLoop text output outIndex : Parse ε _) = putAll (escapeText text) output outIndex := by
  induction text generalizing output outIndex with
  | nil => rfl
  | cons b rest ih =>
      rw [escapeText, List.flatMap_cons, putAll_append, escapeLoop]
      simp only [ih]
      rfl

/-- The escaped text and its terminator fill a buffer of the computed length. -/
theorem escapeInto_ok (h : output.length = escapedLength text + 1) :
    (escapeInto text output : Parse ε _) = .ok (escapeText text ++ [0]) := by
  have hfree : (escapeText text).length ≤ output.length := by
    rw [length_escapeText]
    omega
  have hrest : (output.drop (escapeText text).length).length = 1 := by
    rw [List.length_drop, length_escapeText]
    omega
  obtain ⟨x, hx⟩ := List.length_eq_one_iff.1 hrest
  have hloop : (putAll (escapeText text) output 0 : Parse ε _) =
      .ok (escapeText text ++ [x], (escapeText text).length) := by
    have := @putAll_ok ε (escapeText text) [] output hfree
    rw [hx] at this
    simpa using this
  simp only [escapeInto, escapeLoop_eq, hloop, Parse.ok_bind]
  exact put_append

/-- The front end's unescape gives the text back. -/
theorem unescapeText_escapeText (text : List Byte) : unescapeText (escapeText text) = some text := by
  induction text with
  | nil => rfl
  | cons b rest ih =>
      rw [escapeText, List.flatMap_cons, ← escapeText]
      unfold escapeByte
      split_ifs with hslash hquote hn hr ht
      · simp [unescapeText, unescapeByte, backslash, quote, ih, hslash]
      · simp [unescapeText, unescapeByte, backslash, quote, ih, hquote]
      · simp [unescapeText, unescapeByte, backslash, ih, hn]
      · simp [unescapeText, unescapeByte, backslash, ih, hr]
      · simp [unescapeText, unescapeByte, backslash, ih, ht]
      · rw [List.singleton_append, unescapeText.eq_def]
        simp [backslash, hslash, ih]

theorem zero_notMem_escapeText (h : (0 : Byte) ∉ text) : (0 : Byte) ∉ escapeText text := by
  intro hmem
  obtain ⟨b, hb, h0⟩ := List.mem_flatMap.1 hmem
  have hzero : 0 = b := by
    unfold escapeByte at h0
    split_ifs at h0 <;> simp_all
  exact h (hzero ▸ hb)

theorem strEscape_ok {below : List Value} {u} (hp : vm.cstr p = some text) (hstack : vm.stack = below ++ [.string p])
    (h : (strEscape env).run vm = .ok u vm') : vm'.topText = some (escapeText text) := by
  simp only [strEscape, Routine.bind_run, bind_ok] at h
  obtain ⟨_, _, hpop, _, _, hread, _, _, -, h⟩ := h
  cases hpop.symm.trans (popText_run hp hstack)
  obtain ⟨rfl, rfl⟩ := readText_below hp hread
  have hpushed : ∀ {vm₁ : Vm}, (∃ q vm₂, (Routine.allocString (escapeText text) : Routine env StrPtr).run vm₁ = .ok q vm₂ ∧
      (Routine.push (.string q) : Routine env Unit).run vm₂ = .ok u vm') → vm'.topText = some (escapeText text) := by
    rintro vm₁ ⟨q, vm₂, halloc, h⟩
    exact push_topText (stringArenaAlloc_reads (zero_notMem_escapeText (zero_notMem_of_cstr hp)) halloc) h
  split at h
  · simp only [Routine.bind_run, bind_ok] at h
    obtain ⟨_, vm₁, -, h⟩ := h
    exact hpushed h
  · simp only [Routine.bind_run, bind_ok] at h
    exact hpushed h

/-! ## Numerals -/

theorem toNat_magnitude (i : Int64) : (magnitude i).toNat = i.toInt.natAbs := by
  have hbits : i.toInt = if 2 * i.toUInt64.toNat < 2 ^ 64 then (i.toUInt64.toNat : Int) else i.toUInt64.toNat - 2 ^ 64 :=
    BitVec.toInt_eq_toNat_cond i.toBitVec
  have hlt := i.toUInt64.toNat_lt
  have hneg : i < 0 ↔ i.toInt < 0 := Int64.lt_iff_toInt_lt
  unfold magnitude
  split <;> rename_i hsign <;> rw [hneg] at hsign
  · rw [Int64.toUInt64_neg, Int64.toUInt64_add, UInt64.toNat_add, UInt64.toNat_neg, UInt64.toNat_add]
    have hone : (Int64.toUInt64 1).toNat = 1 := rfl
    have hone' : (1 : UInt64).toNat = 1 := rfl
    have hsize : UInt64.size = 2 ^ 64 := rfl
    rw [hone, hone', hsize]
    omega
  · omega

theorem digitChar_byte (d : Fin 10) : UInt8.ofNat (Nat.digitChar d).toNat = UInt8.ofNat (48 + d) := by
  revert d
  decide

/-- The digits of a number, the last one first, are those of its decimal numeral. -/
theorem decimalDigits_eq {fuel n : Nat} (h : n < 10 ^ (fuel + 1)) :
    (decimalDigits (fuel + 1) n).reverse = (Nat.toDigits 10 n).map fun c => UInt8.ofNat c.toNat := by
  induction fuel generalizing n with
  | zero =>
      rw [Nat.toDigits_of_lt_base (by simpa using h), decimalDigits]
      have hsmall : n / 10 = 0 := by omega
      have hdigit := digitChar_byte ⟨n, by simpa using h⟩
      rw [if_pos hsmall, List.reverse_singleton, List.map_singleton, hdigit, Nat.mod_eq_of_lt (by simpa using h)]
  | succ fuel ih =>
      rw [decimalDigits, Nat.toDigits_eq_if (by decide)]
      have hdigit := digitChar_byte ⟨n % 10, Nat.mod_lt _ (by decide)⟩
      simp only at hdigit
      by_cases hsmall : n < 10
      · rw [if_pos (by omega), if_pos hsmall]
        rw [Nat.mod_eq_of_lt hsmall] at hdigit
        rw [List.reverse_singleton, List.map_singleton, hdigit, Nat.mod_eq_of_lt hsmall]
      · rw [Nat.pow_succ] at h
        rw [if_neg (by omega), if_neg hsmall, List.reverse_cons, ih (by omega), List.map_append, List.map_singleton, hdigit]

theorem natDecimal_eq {n : Nat} (h : n < 10 ^ 20) : natDecimal n = ascii (toString n) := by
  rw [natDecimal, decimalDigits_eq h, ascii, Nat.toString_eq_ofList_toDigits, String.toList_ofList]

/-- The numeral of `TO_STRING` is the decimal numeral of the integer. -/
theorem intDecimal_eq (i : Int64) : intDecimal i.toInt = ascii (toString i.toInt) := by
  have hlow := i.le_toInt
  have hhigh := i.toInt_lt
  rw [intDecimal, natDecimal_eq (by omega), Int.toString_eq_repr, Int.repr_eq_if]
  by_cases hneg : i.toInt < 0
  · have habs : (-i.toInt).toNat = i.toInt.natAbs := by omega
    rw [if_pos hneg, if_neg (Int.not_le.2 hneg), habs]
    simp [ascii]
  · have habs : i.toInt.toNat = i.toInt.natAbs := by omega
    rw [if_neg hneg, if_pos (Int.not_lt.1 hneg), habs]
    rfl

/-- A text of one-byte characters can be told from its bytes. -/
theorem detailText_ascii {s : String} (h : ∀ c ∈ s.toList, c.toNat < 256) : detailText (ascii s) = s := by
  have hmap : s.toList.map ((fun b : Byte => Char.ofNat b.toNat) ∘ fun c => UInt8.ofNat c.toNat) = s.toList := by
    refine (List.map_congr_left fun c hc => ?_).trans (List.map_id _)
    rw [Function.comp_apply, UInt8.toNat_ofNat', Nat.mod_eq_of_lt (h c hc), Char.ofNat_toNat]
    rfl
  rw [detailText, ascii, List.map_map, hmap, String.ofList_toList]

theorem repr_small (i : Int) : ∀ c ∈ (toString i).toList, c.toNat < 256 := by
  have hdigit : ∀ n : Nat, ∀ c ∈ n.repr.toList, c.toNat < 256 := by
    intro n c hc
    rw [Nat.toList_repr] at hc
    have hc' := Nat.isDigit_of_mem_toDigits (by decide) (by decide) hc
    simp only [Char.isDigit, ge_iff_le, Bool.and_eq_true, decide_eq_true_eq, UInt32.le_iff_toNat_le] at hc'
    have hlt : c.toNat ≤ 57 := hc'.2
    omega
  intro c hc
  rw [Int.toString_eq_repr, Int.repr_eq_if] at hc
  split at hc
  · exact hdigit _ c hc
  · rw [String.toList_append, List.mem_append] at hc
    rcases hc with hc | hc
    · obtain rfl : c = '-' := by simpa using hc
      decide
    · exact hdigit _ c hc

/-- Different integers have different numerals. -/
theorem numeral_injective {i j : Int} (h : ascii (toString i) = ascii (toString j)) : i = j := by
  have hsame : toString i = toString j := by
    rw [← detailText_ascii (repr_small i), h, detailText_ascii (repr_small j)]
  exact Int.repr_injective hsame

/-- The digits are written before what is kept, and their number is at most the fuel. -/
theorem digitLoop_ok {magnitude : UInt64} {fuel : Nat} {free kept : List Byte} (h : magnitude.toNat < 10 ^ (fuel + 1))
    (hroom : fuel + 1 ≤ free.length) :
    ∃ rest, free.length ≤ rest.length + (fuel + 1) ∧
      (digitLoop magnitude (free ++ kept) free.length (fuel + 1) : Parse ε _) =
        .ok (rest ++ ((decimalDigits (fuel + 1) magnitude.toNat).reverse ++ kept), rest.length) := by
  have hten : (10 : UInt64).toNat = 10 := rfl
  have hdiv : magnitude / 10 = 0 ↔ magnitude.toNat / 10 = 0 := by
    rw [← UInt64.toNat_inj, UInt64.toNat_div, hten]
    rfl
  induction fuel generalizing magnitude free kept with
  | zero =>
      obtain ⟨rest, hrest, hput⟩ := @put_before ε kept free (UInt8.ofNat (48 + (magnitude % 10).toNat)) (free.length - 1)
        (by omega)
      have hstop : magnitude.toNat / 10 = 0 := Nat.div_eq_of_lt (by simpa using h)
      refine ⟨rest, by omega, ?_⟩
      simp only [digitLoop, hput, Parse.ok_bind, hdiv, hstop, if_true, Parse.pure_eq]
      rw [hrest, decimalDigits, if_pos hstop, List.reverse_singleton, List.singleton_append, UInt64.toNat_mod, hten]
  | succ fuel ih =>
      obtain ⟨rest, hrest, hput⟩ := @put_before ε kept free (UInt8.ofNat (48 + (magnitude % 10).toNat)) (free.length - 1)
        (by omega)
      by_cases hstop : magnitude.toNat / 10 = 0
      · refine ⟨rest, by omega, ?_⟩
        rw [digitLoop]
        simp only [hput, Parse.ok_bind, hdiv, hstop, if_true, Parse.pure_eq]
        rw [hrest, decimalDigits, if_pos hstop, List.reverse_singleton, List.singleton_append, UInt64.toNat_mod, hten]
      · have hnext : (magnitude / 10).toNat = magnitude.toNat / 10 := by
          rw [UInt64.toNat_div, hten]
        obtain ⟨rest', hlen, hloop⟩ := @ih (magnitude / 10) rest (UInt8.ofNat (48 + (magnitude % 10).toNat) :: kept)
          (by rw [hnext]; rw [Nat.pow_succ] at h; omega) (by omega) (by
            rw [← UInt64.toNat_inj, UInt64.toNat_div, hten]
            rfl)
        have hdigits : decimalDigits (fuel + 1 + 1) magnitude.toNat =
            UInt8.ofNat (48 + magnitude.toNat % 10) :: decimalDigits (fuel + 1) (magnitude.toNat / 10) := by
          rw [decimalDigits, if_neg hstop]
        refine ⟨rest', by omega, ?_⟩
        rw [digitLoop]
        simp only [hput, Parse.ok_bind, hdiv, hstop, if_false]
        rw [← hrest, hloop, hnext, hdigits, List.reverse_cons, List.append_assoc, List.singleton_append,
          UInt64.toNat_mod, hten]

theorem decimalDigits_clean {fuel n : Nat} : ∀ b ∈ decimalDigits fuel n, b ≠ 0 := by
  induction fuel generalizing n with
  | zero => simp [decimalDigits]
  | succ fuel ih =>
      intro b hb
      rw [decimalDigits, List.mem_cons] at hb
      rcases hb with rfl | hb
      · intro hzero
        have := congrArg UInt8.toNat hzero
        rw [UInt8.toNat_ofNat', UInt8.toNat_zero] at this
        omega
      · split at hb
        · simp at hb
        · exact ih b hb

theorem intDecimal_clean (i : Int) : ∀ b ∈ intDecimal i, b ≠ 0 := by
  have hdigits : ∀ b ∈ natDecimal i.natAbs, b ≠ 0 := by
    intro b hb
    exact decimalDigits_clean b (List.mem_reverse.1 hb)
  unfold intDecimal
  split
  · simpa using hdigits
  · exact hdigits

theorem takeWhile_terminated {bs : List Byte} (h : ∀ b ∈ bs, b ≠ 0) : (bs ++ [0]).takeWhile (· ≠ 0) = bs := by
  rw [List.takeWhile_append_of_pos (by simpa using h)]
  simp

/-- The buffer of `TO_STRING` has room for every numeral. -/
theorem intInto_ok {buffer : List Byte} (i : Int64) (h : buffer.length = 32) :
    (intInto i buffer : Parse ε _) = .ok (intDecimal i.toInt) := by
  obtain ⟨free, hfree, hput⟩ := @put_before ε [] buffer 0 31 h
  rw [List.append_nil] at hput
  have hm : (magnitude i).toNat < 10 ^ (19 + 1) := Nat.lt_of_lt_of_le (magnitude i).toNat_lt (by decide)
  obtain ⟨rest, hlen, hloop⟩ := @digitLoop_ok ε (magnitude i) 19 free [0] hm (by omega)
  rw [hfree, toNat_magnitude, ← natDecimal] at hloop
  have hneg : i < 0 ↔ i.toInt < 0 := Int64.lt_iff_toInt_lt
  have hclean := intDecimal_clean i.toInt
  simp only [intInto, h, hput, Parse.ok_bind, hloop, hneg]
  unfold intDecimal at hclean ⊢
  split <;> rename_i hsign
  · obtain ⟨rest', hrest', hminus⟩ := @put_before ε (natDecimal i.toInt.natAbs ++ [0]) rest 45 (rest.length - 1) (by omega)
    rw [if_pos hsign] at hclean
    rw [← hrest'] at hminus ⊢
    simp only [hminus, Parse.ok_bind, Parse.pure_eq, List.drop_left]
    rw [← List.cons_append, takeWhile_terminated hclean]
  · rw [if_neg hsign] at hclean
    simp only [Parse.pure_eq, List.drop_left]
    rw [takeWhile_terminated hclean]

/-! ## Hexadecimal -/

/-- The digits of a byte string, two for each byte. -/
def hexDigits (data : List Byte) : List Byte := data.flatMap fun b => [hexDigit (b.toNat / 16), hexDigit (b.toNat % 16)]

theorem length_hexDigits (data : List Byte) : (hexDigits data).length = data.length + data.length := by
  induction data with
  | nil => rfl
  | cons b rest ih =>
      rw [hexDigits, List.flatMap_cons, ← hexDigits, List.length_append, ih]
      simp
      omega

/-- The digits are written where the length of the output leaves room for them. -/
theorem hexLoop_ok {i outLength : Nat} {written free : List Byte} (hw : written.length = 2 + (i + i))
    (hfree : free.length = data.length + data.length + 1)
    (hout : outLength = written.length + (data.length + data.length)) :
    ∃ x, hexLoop outLength data i (written ++ free) = .ok (written ++ hexDigits data ++ [x]) := by
  induction data generalizing i written free with
  | nil =>
      obtain ⟨x, rfl⟩ := List.length_eq_one_iff.1 hfree
      exact ⟨x, by simp [hexLoop, hexDigits]⟩
  | cons b rest ih =>
      rw [List.length_cons] at hfree hout
      rcases free with _ | ⟨x, _ | ⟨y, free⟩⟩
      · simp at hfree
      · simp at hfree
      · simp only [List.length_cons] at hfree
        have hhigh : (put (written ++ x :: y :: free) (2 + (i + i)) (hexDigit (b.toNat / 16)) : Parse Unit _) =
            .ok (written ++ hexDigit (b.toNat / 16) :: y :: free) := by
          rw [← hw]
          exact put_append
        have hlow : (put (written ++ hexDigit (b.toNat / 16) :: y :: free) (2 + (i + i) + 1) (hexDigit (b.toNat % 16)) :
            Parse Unit _) = .ok ((written ++ [hexDigit (b.toNat / 16), hexDigit (b.toNat % 16)]) ++ free) := by
          have := @put_append Unit (written ++ [hexDigit (b.toNat / 16)]) free (hexDigit (b.toNat % 16)) y
          rw [List.length_append, List.length_singleton, hw] at this
          simpa using this
        obtain ⟨z, hloop⟩ := @ih (i + 1) (written ++ [hexDigit (b.toNat / 16), hexDigit (b.toNat % 16)]) free
          (by simp [hw]; omega) (by omega) (by simp; omega)
        refine ⟨z, ?_⟩
        rw [hexLoop]
        simp only [hhigh, hlow, Parse.ok_bind]
        rw [if_neg (by omega), hloop, hexDigits, hexDigits, List.flatMap_cons]
        simp

/-- The digits and the terminator fill a buffer of the computed length. -/
theorem hexInto_ok (h : output.length = hexLength data + 1) : hexInto data output = .ok (hexText data ++ [0]) := by
  unfold hexLength at h
  rcases output with _ | ⟨x, _ | ⟨y, free⟩⟩
  · simp at h
  · simp at h
  · simp only [List.length_cons] at h
    obtain ⟨z, hloop⟩ := @hexLoop_ok data 0 (hexLength data) [48, 120] free rfl (by omega) (by simp [hexLength])
    have hlength : ([48, 120] ++ hexDigits data).length = hexLength data := by
      rw [List.length_append, length_hexDigits]
      rfl
    have h0 : (put (x :: y :: free) 0 48 : Parse Unit _) = .ok (48 :: y :: free) := by simp [put]
    have h1 : (put (48 :: y :: free) 1 120 : Parse Unit _) = .ok ([48, 120] ++ free) := by simp [put]
    simp only [hexInto, h0, h1, hloop, Parse.ok_bind]
    rw [← hlength]
    exact put_append

theorem hexNibble_hexDigit (n : Fin 16) : hexNibble (hexDigit n) = some n.val := by
  revert n
  decide

/-- Different byte strings are rendered differently. -/
theorem hexText_injective {a b : List Byte} (h : hexText a = hexText b) : a = b := by
  have hdigits : ∀ {m n : Nat}, m < 16 → n < 16 → hexDigit m = hexDigit n → m = n := by
    intro m n hm hn heq
    have hsame := congrArg hexNibble heq
    rw [hexNibble_hexDigit ⟨m, hm⟩, hexNibble_hexDigit ⟨n, hn⟩] at hsame
    exact Option.some.inj hsame
  have hpairs : ∀ {a b : List Byte}, hexDigits a = hexDigits b → a = b := by
    intro a
    induction a with
    | nil =>
        intro b h
        cases b with
        | nil => rfl
        | cons y b => simp [hexDigits] at h
    | cons x a ih =>
        intro b h
        cases b with
        | nil => simp [hexDigits] at h
        | cons y b =>
            have hx := x.toNat_lt
            have hy := y.toNat_lt
            simp only [hexDigits, List.flatMap_cons, List.cons_append, List.nil_append, List.cons.injEq] at h
            obtain ⟨hhigh, hlow, hrest⟩ := h
            have h₁ := hdigits (by omega) (by omega) hhigh
            have h₂ := hdigits (by omega) (by omega) hlow
            rw [ih hrest, UInt8.toNat_inj.1 (by omega : x.toNat = y.toNat)]
  exact hpairs (List.append_cancel_left h)

theorem hexText_clean (data : List Byte) : (0 : Byte) ∉ hexText data := by
  have hdigit : ∀ n : Fin 16, (0 : Byte) ≠ hexDigit n := by decide
  intro h
  simp only [hexText, List.mem_append, List.mem_flatMap, List.mem_cons, List.not_mem_nil, or_false] at h
  rcases h with (h | h) | ⟨b, -, h | h⟩
  · cases h
  · cases h
  · exact hdigit ⟨b.toNat / 16, by have := b.toNat_lt; omega⟩ h
  · exact hdigit ⟨b.toNat % 16, by omega⟩ h

/-! ## The instruction -/

theorem cstr_intDecimal (i : Int) : vm.cstr (.lit (intDecimal i)) = some (intDecimal i) := by
  have htake : (intDecimal i).takeWhile (· ≠ 0) = intDecimal i :=
    List.takeWhile_eq_self_iff.2 (by simpa using intDecimal_clean i)
  rw [Heap.cstr, htake]

theorem toStringOp_int {below : List Value} {i : Int} {u} (hs : vm.StringsSound) (hstack : vm.stack = below ++ [.int i])
    (h : (toStringOp env).run vm = .ok u vm') : vm'.topText = some (intDecimal i) := by
  simp only [toStringOp, Routine.bind_run, Routine.pop, bind_run, stackPop_run hstack] at h
  have hs' : Vm.StringsSound { vm with stack := below } := ⟨hs.terminated, hs.intern⟩
  exact pushStringCopy_ok hs' (cstr_intDecimal i) h

theorem toStringOp_bytes {below : List Value} {d : BytesPtr} {n : Nat} {u} (hd : vm.bytesAt d n = some data)
    (hstack : vm.stack = below ++ [.bytes d n]) (h : (toStringOp env).run vm = .ok u vm') :
    vm'.topText = some (hexText data) := by
  simp only [toStringOp, Routine.bind_run, Routine.pop, bind_run, stackPop_run hstack] at h
  split at h
  · cases h
  · have hseen : (Vm.seen { vm with stack := below }).bytesAt d n = some data := hd
    simp only [Routine.bind_run, Routine.look, VmM.look, bind_run, hseen, Routine.deref, VmM.deref] at h
    simp only [← bind_run, bind_ok] at h
    obtain ⟨q, vm₂, halloc, h⟩ := h
    exact push_topText (stringArenaAlloc_reads (hexText_clean data) halloc) h

/-! ## Everything that is rendered -/

/-- Renderings fit their buffers, can be undone, and are what the instructions push. -/
structure RendersExactly (env : Env) : Prop where
  escapeSized : ∀ text output, output.length = escapedLength text + 1 →
    (escapeInto text output : Parse Unit _) = .ok (escapeText text ++ [0])
  unescapes : ∀ text, unescapeText (escapeText text) = some text
  escape : ∀ (vm vm' : Vm) below p text, vm.cstr p = some text → vm.stack = below ++ [.string p] →
    (strEscape env).run vm = .ok () vm' → vm'.topText = some (escapeText text)
  intSized : ∀ (i : Int64) buffer, buffer.length = 32 →
    (intInto i buffer : Parse Unit _) = .ok (ascii (toString i.toInt))
  int : ∀ (vm vm' : Vm) below (i : Int64), Midway env vm → vm.stack = below ++ [.int i.toInt] →
    (toStringOp env).run vm = .ok () vm' → vm'.topText = some (ascii (toString i.toInt))
  intInjective : ∀ i j : Int64, ascii (toString i.toInt) = ascii (toString j.toInt) → i = j
  bytesSized : ∀ data output, output.length = hexLength data + 1 → hexInto data output = .ok (hexText data ++ [0])
  bytes : ∀ (vm vm' : Vm) below d n data, vm.bytesAt d n = some data → vm.stack = below ++ [.bytes d n] →
    (toStringOp env).run vm = .ok () vm' → vm'.topText = some (hexText data)
  bytesInjective : ∀ a b, hexText a = hexText b → a = b

end Aivm
