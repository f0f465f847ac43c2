import Aivm.Bytes.Lemmas.Views
import Aivm.Machine.Base64
import Aivm.Strings.Interning

/-!
# Base64

Encoding and decoding give the bytes back. A text that is accepted comes back with the bits cleared that its last group
does not use.
-/

namespace Aivm

open ByteReader ByteWriter VmM

variable {env : Env} {vm vm' : Vm} {d : BytesPtr} {n : Nat} {data text output : List Byte} {below : List Value}

/-! ## Characters -/

theorem decodeChar_base64Char (n : Fin 64) : bytesBase64DecodeChar (base64Char n) = some n.val := by
  revert n
  decide

theorem base64Char_ne_pad (n : Fin 64) : base64Char n ≠ 61 := by
  revert n
  decide

theorem decodeChar_eq_some {b : Byte} {n : Nat} (h : bytesBase64DecodeChar b = some n) : n < 64 ∧ base64Char n = b := by
  have hall : ∀ b : Fin 256, (bytesBase64DecodeChar (UInt8.ofNat b)).all
      (fun n => decide (n < 64 ∧ base64Char n = UInt8.ofNat b)) = true := by
    decide +kernel
  have hb := hall ⟨b.toNat, b.toNat_lt⟩
  simpa [UInt8.ofNat_toNat, h] using hb

/-! ## Decoding what was encoded -/

theorem ofNat_eq {b : Byte} {n : Nat} (h : n % 256 = b.toNat) : UInt8.ofNat n = b := by
  apply UInt8.toNat_inj.1
  rw [UInt8.toNat_ofNat']
  exact h

theorem bytesFromBase64_bytesToBase64 (data : List Byte) : bytesFromBase64 (bytesToBase64 data) = some data := by
  have hdecode : ∀ {n : Nat}, n < 64 → bytesBase64DecodeChar (base64Char n) = some n := fun h => decodeChar_base64Char ⟨_, h⟩
  have hpad : ∀ {n : Nat}, n < 64 → base64Char n ≠ 61 := fun h => base64Char_ne_pad ⟨_, h⟩
  induction data using bytesToBase64.induct with
  | case1 => rfl
  | case2 x =>
      have hx := x.toNat_lt
      have hbyte : UInt8.ofNat ((x.toNat / 4 * 262144 + x.toNat % 4 * 16 * 4096) / 65536) = x := ofNat_eq (by omega)
      simp [bytesToBase64, bytesFromBase64, base64Group, hdecode (show x.toNat / 4 < 64 by omega),
        hdecode (show x.toNat % 4 * 16 < 64 by omega), hbyte]
  | case3 x y =>
      have hx := x.toNat_lt
      have hy := y.toNat_lt
      have hbyte : UInt8.ofNat ((x.toNat / 4 * 262144 + (x.toNat % 4 * 16 + y.toNat / 16) * 4096 +
          y.toNat % 16 * 4 * 64) / 65536) = x := ofNat_eq (by omega)
      have hbyte' : UInt8.ofNat ((x.toNat / 4 * 262144 + (x.toNat % 4 * 16 + y.toNat / 16) * 4096 +
          y.toNat % 16 * 4 * 64) / 256) = y := ofNat_eq (by omega)
      simp [bytesToBase64, bytesFromBase64, base64Group, hdecode (show x.toNat / 4 < 64 by omega),
        hdecode (show x.toNat % 4 * 16 + y.toNat / 16 < 64 by omega), hdecode (show y.toNat % 16 * 4 < 64 by omega),
        hpad (show y.toNat % 16 * 4 < 64 by omega), hbyte, hbyte']
  | case4 x y z rest ih =>
      have hx := x.toNat_lt
      have hy := y.toNat_lt
      have hz := z.toNat_lt
      have hbyte : UInt8.ofNat ((x.toNat / 4 * 262144 + (x.toNat % 4 * 16 + y.toNat / 16) * 4096 +
          (y.toNat % 16 * 4 + z.toNat / 64) * 64 + z.toNat % 64) / 65536) = x := ofNat_eq (by omega)
      have hbyte' : UInt8.ofNat ((x.toNat / 4 * 262144 + (x.toNat % 4 * 16 + y.toNat / 16) * 4096 +
          (y.toNat % 16 * 4 + z.toNat / 64) * 64 + z.toNat % 64) / 256) = y := ofNat_eq (by omega)
      have hbyte'' : UInt8.ofNat (x.toNat / 4 * 262144 + (x.toNat % 4 * 16 + y.toNat / 16) * 4096 +
          (y.toNat % 16 * 4 + z.toNat / 64) * 64 + z.toNat % 64) = z := ofNat_eq (by omega)
      simp only [bytesToBase64, bytesFromBase64, base64Group, hdecode (show x.toNat / 4 < 64 by omega),
        hdecode (show x.toNat % 4 * 16 + y.toNat / 16 < 64 by omega),
        hdecode (show y.toNat % 16 * 4 + z.toNat / 64 < 64 by omega), hdecode (show z.toNat % 64 < 64 by omega),
        hpad (show y.toNat % 16 * 4 + z.toNat / 64 < 64 by omega), hpad (show z.toNat % 64 < 64 by omega), ih]
      simp [-UInt8.ofNat_add, -UInt8.ofNat_mul, hbyte, hbyte', hbyte'']

/-! ## Encoding what was decoded -/

/-- The bits of the last group that no byte is made of. -/
def unusedBits : List Byte → Nat
  | [_, b, c, d] =>
      if c = 61 then ((bytesBase64DecodeChar b).getD 0) % 16
      else if d = 61 then ((bytesBase64DecodeChar c).getD 0) % 4
      else 0
  | _ :: _ :: _ :: _ :: rest => unusedBits rest
  | _ => 0

/-- A text with these bits cleared. -/
def clearUnused : List Byte → List Byte
  | [a, b, c, d] =>
      if c = 61 then [a, base64Char ((bytesBase64DecodeChar b).getD 0 / 16 * 16), c, d]
      else if d = 61 then [a, b, base64Char ((bytesBase64DecodeChar c).getD 0 / 4 * 4), d]
      else [a, b, c, d]
  | a :: b :: c :: d :: rest => a :: b :: c :: d :: clearUnused rest
  | text => text

/-- The three kinds of groups, with the values of their characters. -/
theorem base64Group_cases {last : Bool} {a b c d : Byte} {group : List Byte} (h : base64Group last a b c d = some group) :
    ∃ c0 c1, bytesBase64DecodeChar a = some c0 ∧ bytesBase64DecodeChar b = some c1 ∧
      ((c = 61 ∧ d = 61 ∧ last = true ∧ group = [UInt8.ofNat ((c0 * 262144 + c1 * 4096) / 65536)]) ∨
      ∃ c2, c ≠ 61 ∧ bytesBase64DecodeChar c = some c2 ∧
        ((d = 61 ∧ last = true ∧ group = [UInt8.ofNat ((c0 * 262144 + c1 * 4096 + c2 * 64) / 65536),
          UInt8.ofNat ((c0 * 262144 + c1 * 4096 + c2 * 64) / 256)]) ∨
        ∃ c3, d ≠ 61 ∧ bytesBase64DecodeChar d = some c3 ∧
          group = [UInt8.ofNat ((c0 * 262144 + c1 * 4096 + c2 * 64 + c3) / 65536),
            UInt8.ofNat ((c0 * 262144 + c1 * 4096 + c2 * 64 + c3) / 256),
            UInt8.ofNat (c0 * 262144 + c1 * 4096 + c2 * 64 + c3)])) := by
  simp only [base64Group, Option.bind_eq_bind, Option.bind_eq_some_iff] at h
  obtain ⟨c0, h0, c1, h1, h⟩ := h
  refine ⟨c0, c1, h0, h1, ?_⟩
  by_cases hc : c = 61
  · rw [if_pos hc] at h
    split at h
    · rename_i hd
      exact .inl ⟨hc, hd.1, hd.2, (Option.some.inj h).symm⟩
    · cases h
  · rw [if_neg hc, Option.bind_eq_some_iff] at h
    obtain ⟨c2, h2, h⟩ := h
    refine .inr ⟨c2, hc, h2, ?_⟩
    by_cases hd : d = 61
    · rw [if_pos hd] at h
      split at h
      · rename_i hlast
        exact .inl ⟨hd, hlast, (Option.some.inj h).symm⟩
      · cases h
    · rw [if_neg hd, Option.bind_eq_some_iff] at h
      obtain ⟨c3, h3, h⟩ := h
      exact .inr ⟨c3, hd, h3, (Option.some.inj h).symm⟩

theorem clearUnused_full {a b c d : Byte} {rest : List Byte} (hc : c ≠ 61) (hd : d ≠ 61) :
    clearUnused (a :: b :: c :: d :: rest) = a :: b :: c :: d :: clearUnused rest := by
  cases rest <;> simp [clearUnused, hc, hd]

theorem unusedBits_full {a b c d : Byte} {rest : List Byte} (hc : c ≠ 61) (hd : d ≠ 61) :
    unusedBits (a :: b :: c :: d :: rest) = unusedBits rest := by
  cases rest <;> simp [unusedBits, hc, hd]

/-- What is accepted comes back with its unused bits cleared. -/
theorem bytesToBase64_of_decoded (h : bytesFromBase64 text = some data) : bytesToBase64 data = clearUnused text := by
  induction text using bytesFromBase64.induct generalizing data with
  | case1 =>
      cases h
      rfl
  | case2 a b c d rest ih =>
      simp only [bytesFromBase64, Option.bind_eq_bind, Option.bind_eq_some_iff] at h
      obtain ⟨group, hgroup, tail, htail, hdata⟩ := h
      obtain rfl := Option.some.inj hdata
      obtain ⟨c0, c1, h0, h1, hrest⟩ := base64Group_cases hgroup
      obtain ⟨hlt0, rfl⟩ := decodeChar_eq_some h0
      obtain ⟨hlt1, rfl⟩ := decodeChar_eq_some h1
      rcases hrest with ⟨rfl, rfl, hlast, rfl⟩ | ⟨c2, hc, h2, ⟨rfl, hlast, rfl⟩ | ⟨c3, hd, h3, rfl⟩⟩
      · obtain rfl : rest = [] := by simpa using hlast
        cases htail
        have hfirst : (c0 * 262144 + c1 * 4096) / 65536 % 2 ^ 8 / 4 = c0 := by omega
        have hsecond : (c0 * 262144 + c1 * 4096) / 65536 % 2 ^ 8 % 4 * 16 = c1 / 16 * 16 := by omega
        simp only [List.append_nil, bytesToBase64, clearUnused, if_true, h1, Option.getD_some, UInt8.toNat_ofNat', hfirst,
          hsecond]
      · obtain rfl : rest = [] := by simpa using hlast
        cases htail
        obtain ⟨hlt2, rfl⟩ := decodeChar_eq_some h2
        have hfirst : (c0 * 262144 + c1 * 4096 + c2 * 64) / 65536 % 2 ^ 8 / 4 = c0 := by omega
        have hsecond : (c0 * 262144 + c1 * 4096 + c2 * 64) / 65536 % 2 ^ 8 % 4 * 16 +
            (c0 * 262144 + c1 * 4096 + c2 * 64) / 256 % 2 ^ 8 / 16 = c1 := by omega
        have hthird : (c0 * 262144 + c1 * 4096 + c2 * 64) / 256 % 2 ^ 8 % 16 * 4 = c2 / 4 * 4 := by omega
        simp only [List.append_nil, bytesToBase64, clearUnused, if_neg hc, if_true, h2, Option.getD_some,
          UInt8.toNat_ofNat', hfirst, hsecond, hthird]
      · obtain ⟨hlt2, rfl⟩ := decodeChar_eq_some h2
        obtain ⟨hlt3, rfl⟩ := decodeChar_eq_some h3
        have hfirst : (c0 * 262144 + c1 * 4096 + c2 * 64 + c3) / 65536 % 2 ^ 8 / 4 = c0 := by omega
        have hsecond : (c0 * 262144 + c1 * 4096 + c2 * 64 + c3) / 65536 % 2 ^ 8 % 4 * 16 +
            (c0 * 262144 + c1 * 4096 + c2 * 64 + c3) / 256 % 2 ^ 8 / 16 = c1 := by omega
        have hthird : (c0 * 262144 + c1 * 4096 + c2 * 64 + c3) / 256 % 2 ^ 8 % 16 * 4 +
            (c0 * 262144 + c1 * 4096 + c2 * 64 + c3) % 2 ^ 8 / 64 = c2 := by omega
        have hfourth : (c0 * 262144 + c1 * 4096 + c2 * 64 + c3) % 2 ^ 8 % 64 = c3 := by omega
        rw [clearUnused_full hc hd, ← ih htail]
        simp only [List.cons_append, List.nil_append, bytesToBase64, UInt8.toNat_ofNat', hfirst, hsecond, hthird, hfourth]
  | case3 text hnil hgroup =>
      rcases text with _ | ⟨a, _ | ⟨b, _ | ⟨c, _ | ⟨d, rest⟩⟩⟩⟩
      · exact absurd rfl hnil
      · simp [bytesFromBase64] at h
      · simp [bytesFromBase64] at h
      · simp [bytesFromBase64] at h
      · exact absurd rfl (hgroup a b c d rest)

/-- The unused bits are cleared already exactly where they are zero. -/
theorem clearUnused_eq_iff (h : bytesFromBase64 text = some data) : clearUnused text = text ↔ unusedBits text = 0 := by
  have hinj : ∀ {m n : Nat}, m < 64 → n < 64 → (base64Char m = base64Char n ↔ m = n) := by
    intro m n hm hn
    constructor
    · intro heq
      have hsame := congrArg bytesBase64DecodeChar heq
      rw [decodeChar_base64Char ⟨m, hm⟩, decodeChar_base64Char ⟨n, hn⟩] at hsame
      exact Option.some.inj hsame
    · rintro rfl
      rfl
  induction text using bytesFromBase64.induct generalizing data with
  | case1 => simp [clearUnused, unusedBits]
  | case2 a b c d rest ih =>
      simp only [bytesFromBase64, Option.bind_eq_bind, Option.bind_eq_some_iff] at h
      obtain ⟨group, hgroup, tail, htail, -⟩ := h
      obtain ⟨c0, c1, h0, h1, hrest⟩ := base64Group_cases hgroup
      obtain ⟨hlt1, rfl⟩ := decodeChar_eq_some h1
      rcases hrest with ⟨rfl, rfl, hlast, -⟩ | ⟨c2, hc, h2, ⟨rfl, hlast, -⟩ | ⟨c3, hd, h3, -⟩⟩
      · obtain rfl : rest = [] := by simpa using hlast
        simp only [clearUnused, unusedBits, if_true, h1, Option.getD_some, List.cons.injEq, true_and, and_true]
        rw [hinj (by omega) hlt1]
        omega
      · obtain rfl : rest = [] := by simpa using hlast
        obtain ⟨hlt2, rfl⟩ := decodeChar_eq_some h2
        simp only [clearUnused, unusedBits, if_neg hc, if_true, h2, Option.getD_some, List.cons.injEq, true_and, and_true]
        rw [hinj (by omega) hlt2]
        omega
      · rw [clearUnused_full hc hd, unusedBits_full hc hd]
        simp only [List.cons.injEq, true_and]
        exact ih htail
  | case3 text hnil hgroup =>
      rcases text with _ | ⟨a, _ | ⟨b, _ | ⟨c, _ | ⟨d, rest⟩⟩⟩⟩
      · exact absurd rfl hnil
      · simp [bytesFromBase64] at h
      · simp [bytesFromBase64] at h
      · simp [bytesFromBase64] at h
      · exact absurd rfl (hgroup a b c d rest)

/-! ## The encoder's buffer -/

theorem length_bytesToBase64 (data : List Byte) : (bytesToBase64 data).length + 1 = base64Capacity data.length := by
  unfold base64Capacity
  induction data using bytesToBase64.induct with
  | case1 => rfl
  | case2 x => simp [bytesToBase64]
  | case3 x y => simp [bytesToBase64]
  | case4 x y z rest ih =>
      simp only [bytesToBase64, List.length_cons] at ih ⊢
      omega

/-- The characters of a chunk are those of the encoding. -/
theorem bytesToBase64_chunks (x : Byte) : bytesToBase64 [x] = base64Chars x none none ∧
    (∀ y, bytesToBase64 [x, y] = base64Chars x (some y) none) ∧
    ∀ y z rest, bytesToBase64 (x :: y :: z :: rest) = base64Chars x (some y) (some z) ++ bytesToBase64 rest := by
  have hx := x.toNat_lt
  refine ⟨?_, fun y => ?_, fun y z rest => ?_⟩
  · have hfirst : x.toNat * 65536 / 262144 % 64 = x.toNat / 4 := by omega
    have hsecond : x.toNat * 65536 / 4096 % 64 = x.toNat % 4 * 16 := by omega
    simp [bytesToBase64, base64Chars, hfirst, hsecond]
  · have hy := y.toNat_lt
    have hfirst : (x.toNat * 65536 + y.toNat * 256) / 262144 % 64 = x.toNat / 4 := by omega
    have hsecond : (x.toNat * 65536 + y.toNat * 256) / 4096 % 64 = x.toNat % 4 * 16 + y.toNat / 16 := by omega
    have hthird : (x.toNat * 65536 + y.toNat * 256) / 64 % 64 = y.toNat % 16 * 4 := by omega
    simp [bytesToBase64, base64Chars, hfirst, hsecond, hthird]
  · have hy := y.toNat_lt
    have hz := z.toNat_lt
    have hfirst : (x.toNat * 65536 + y.toNat * 256 + z.toNat) / 262144 % 64 = x.toNat / 4 := by omega
    have hsecond : (x.toNat * 65536 + y.toNat * 256 + z.toNat) / 4096 % 64 = x.toNat % 4 * 16 + y.toNat / 16 := by omega
    have hthird : (x.toNat * 65536 + y.toNat * 256 + z.toNat) / 64 % 64 = y.toNat % 16 * 4 + z.toNat / 64 := by omega
    have hfourth : (x.toNat * 65536 + y.toNat * 256 + z.toNat) % 64 = z.toNat % 64 := by omega
    simp [bytesToBase64, base64Chars, hfirst, hsecond, hthird, hfourth]

/-- Where there is room, the loop writes the encoding. -/
theorem encodeLoop_ok {written free : List Byte} (h : (bytesToBase64 data).length < free.length) :
    encodeLoop (written.length + free.length) data (written ++ free) written.length =
      .ok (written ++ bytesToBase64 data ++ free.drop (bytesToBase64 data).length, (written ++ bytesToBase64 data).length) := by
  induction data using bytesToBase64.induct generalizing written free with
  | case1 => simp [encodeLoop, bytesToBase64]
  | case2 x =>
      have hroom : ¬ written.length + free.length ≤ written.length + 4 := by
        simp only [bytesToBase64, List.length_cons, List.length_nil] at h
        omega
      rw [encodeLoop, if_neg hroom, ← (bytesToBase64_chunks x).1]
      exact putAll_ok (Nat.le_of_lt h)
  | case3 x y =>
      have hroom : ¬ written.length + free.length ≤ written.length + 4 := by
        simp only [bytesToBase64, List.length_cons, List.length_nil] at h
        omega
      rw [encodeLoop, if_neg hroom, ← (bytesToBase64_chunks x).2.1]
      exact putAll_ok (Nat.le_of_lt h)
  | case4 x y z rest ih =>
      rw [(bytesToBase64_chunks x).2.2] at h ⊢
      have hfour : (base64Chars x (some y) (some z)).length = 4 := rfl
      rw [List.length_append, hfour] at h
      have hput := @putAll_ok Unit (base64Chars x (some y) (some z)) written free (by rw [hfour]; omega)
      have hrest : (free.drop 4).length = free.length - 4 := List.length_drop
      have hnext := @ih (written ++ base64Chars x (some y) (some z)) (free.drop 4) (by omega)
      rw [List.length_append, hfour, hrest, show written.length + 4 + (free.length - 4) = written.length + free.length by
        omega] at hnext
      rw [encodeLoop, if_neg (by omega), hput]
      simp only [Parse.ok_bind, List.length_append, hfour, hnext]
      simp [List.append_assoc, Nat.add_assoc]

/-- The encoder fills the buffer that is made for it. -/
theorem toBase64Into_ok (h : output.length = base64Capacity data.length) :
    toBase64Into data output = .ok (bytesToBase64 data ++ [0]) := by
  rw [← length_bytesToBase64] at h
  have hloop := @encodeLoop_ok data [] output (by omega)
  have hrest : (output.drop (bytesToBase64 data).length).length = 1 := by
    rw [List.length_drop]
    omega
  obtain ⟨x, hx⟩ := List.length_eq_one_iff.1 hrest
  rw [hx] at hloop
  simp only [List.length_nil, Nat.zero_add, List.nil_append] at hloop
  unfold toBase64Into
  rw [if_neg (by omega), hloop]
  exact put_append

/-! ## The decoder's passes -/

theorem base64Group_eq (last : Bool) (a b c d : Byte) :
    base64Group last a b c d = (decodeGroup last a b c d).map fun g => groupBytes g.1 g.2 := by
  unfold base64Group decodeGroup decodeTail
  cases bytesBase64DecodeChar a with
  | none => rfl
  | some c0 =>
      cases bytesBase64DecodeChar b with
      | none => rfl
      | some c1 =>
          by_cases hc : c = 61
          · by_cases hd : d = 61
            · cases last <;> simp [hc, hd, groupBytes]
            · simp [hc, hd]
          · cases bytesBase64DecodeChar c with
            | none => simp [hc]
            | some c2 =>
                by_cases hd : d = 61
                · cases last <;> simp [hc, hd, groupBytes]
                · cases bytesBase64DecodeChar d with
                  | none => simp [hc, hd]
                  | some c3 => simp [hc, hd, groupBytes]

theorem putWithin_none {capacity i : Nat} (bs : List Byte) :
    putWithin capacity bs none i = .ok (none, i + bs.length) := by
  induction bs generalizing i with
  | nil => rfl
  | cons b bs ih =>
      rw [putWithin, ih, List.length_cons]
      congr 2
      omega

theorem putWithin_ok {capacity : Nat} {bs written free : List Byte} (hfree : bs.length ≤ free.length)
    (h : (written ++ bs).length ≤ capacity) :
    putWithin capacity bs (some (written ++ free)) written.length =
      .ok (some (written ++ bs ++ free.drop bs.length), (written ++ bs).length) := by
  induction bs generalizing written free with
  | nil => simp [putWithin]
  | cons b bs ih =>
      rw [List.length_append, List.length_cons] at h
      cases free with
      | nil => simp at hfree
      | cons x free =>
          have hnext := @ih (written ++ [b]) free (by simpa using hfree) (by
            simp only [List.length_append, List.length_singleton]
            omega)
          rw [List.append_assoc, List.singleton_append, List.length_append, List.length_singleton] at hnext
          rw [putWithin, if_pos (by omega), put_append, Parse.ok_bind, hnext]
          simp

/-- The loop without a buffer counts the bytes, and fails where the text is not accepted. -/
theorem decodeLoop_none {capacity i : Nat} (htext : text.length % 4 = 0) : decodeLoop capacity text none i =
    (bytesFromBase64 text).elim (.fail ()) fun data => .ok (none, i + data.length) := by
  induction text using bytesFromBase64.induct generalizing i with
  | case1 => rfl
  | case2 a b c d rest ih =>
      simp only [List.length_cons] at htext
      rw [decodeLoop, bytesFromBase64, base64Group_eq]
      cases decodeGroup rest.isEmpty a b c d with
      | none => rfl
      | some g =>
          simp only [putWithin_none, Parse.ok_bind]
          rw [ih (by omega)]
          cases bytesFromBase64 rest with
          | none => rfl
          | some tail => simp [Nat.add_assoc]
  | case3 text hnil hgroup =>
      rcases text with _ | ⟨a, _ | ⟨b, _ | ⟨c, _ | ⟨d, rest⟩⟩⟩⟩
      · exact absurd rfl hnil
      · simp at htext
      · simp at htext
      · simp at htext
      · exact absurd rfl (hgroup a b c d rest)

theorem length_of_decoded (h : bytesFromBase64 text = some data) : text.length % 4 = 0 := by
  induction text using bytesFromBase64.induct generalizing data with
  | case1 => rfl
  | case2 a b c d rest ih =>
      simp only [bytesFromBase64, Option.bind_eq_bind, Option.bind_eq_some_iff] at h
      obtain ⟨-, -, tail, htail, -⟩ := h
      have := ih htail
      simp only [List.length_cons]
      omega
  | case3 text hnil hgroup =>
      rcases text with _ | ⟨a, _ | ⟨b, _ | ⟨c, _ | ⟨d, rest⟩⟩⟩⟩
      · exact absurd rfl hnil
      · simp [bytesFromBase64] at h
      · simp [bytesFromBase64] at h
      · simp [bytesFromBase64] at h
      · exact absurd rfl (hgroup a b c d rest)

/-- The loop with room for an accepted text writes its bytes. -/
theorem decodeLoop_ok {written free : List Byte} (h : bytesFromBase64 text = some data) (hfree : data.length ≤ free.length) :
    decodeLoop (written.length + free.length) text (some (written ++ free)) written.length =
      .ok (some (written ++ data ++ free.drop data.length), (written ++ data).length) := by
  induction text using bytesFromBase64.induct generalizing data written free with
  | case1 =>
      cases h
      simp [decodeLoop]
  | case2 a b c d rest ih =>
      simp only [bytesFromBase64, Option.bind_eq_bind, Option.bind_eq_some_iff, base64Group_eq, Option.map_eq_some_iff] at h
      obtain ⟨_, ⟨⟨chunk, pad⟩, hgroup, rfl⟩, tail, htail, hdata⟩ := h
      obtain rfl := Option.some.inj hdata
      simp only [List.length_append] at hfree
      have hput := @putWithin_ok (written.length + free.length) (groupBytes chunk pad) written free (by omega) (by
        rw [List.length_append]
        omega)
      have hrest : (free.drop (groupBytes chunk pad).length).length = free.length - (groupBytes chunk pad).length :=
        List.length_drop
      have hnext := @ih tail (written ++ groupBytes chunk pad) (free.drop (groupBytes chunk pad).length) htail (by omega)
      rw [List.length_append, hrest, show written.length + (groupBytes chunk pad).length +
        (free.length - (groupBytes chunk pad).length) = written.length + free.length by omega] at hnext
      rw [decodeLoop, hgroup]
      simp only [hput, Parse.ok_bind, List.length_append, hnext]
      simp [List.append_assoc, Nat.add_assoc]
  | case3 text hnil hgroup =>
      rcases text with _ | ⟨a, _ | ⟨b, _ | ⟨c, _ | ⟨d, rest⟩⟩⟩⟩
      · exact absurd rfl hnil
      · simp [bytesFromBase64] at h
      · simp [bytesFromBase64] at h
      · simp [bytesFromBase64] at h
      · exact absurd rfl (hgroup a b c d rest)

/-- The pass without a buffer counts the bytes of an accepted text, and fails on every other one. -/
theorem sizingPass (text : List Byte) : fromBase64Into text none 0 =
    (bytesFromBase64 text).elim (.fail ()) fun data => .ok (none, data.length) := by
  unfold fromBase64Into
  by_cases htext : text.length % 4 = 0
  · rw [if_neg (by simpa using htext), decodeLoop_none htext]
    cases bytesFromBase64 text with
    | none => rfl
    | some data => simp
  · rw [if_pos htext]
    cases h : bytesFromBase64 text with
    | none => rfl
    | some data => exact absurd (length_of_decoded h) htext

/-- The pass with a buffer of that size fills it. -/
theorem writingPass (h : bytesFromBase64 text = some data) (hout : output.length = data.length) :
    fromBase64Into text (some output) data.length = .ok (some data, data.length) := by
  have hloop := @decodeLoop_ok data text [] output h (Nat.le_of_eq hout.symm)
  simp only [List.length_nil, Nat.zero_add, List.nil_append, hout] at hloop
  have hnone : output.drop data.length = [] := List.drop_of_length_le (Nat.le_of_eq hout)
  rw [hnone, List.append_nil] at hloop
  unfold fromBase64Into
  rw [if_neg (by simpa using length_of_decoded h), hloop]
  simp

/-! ## The instructions -/

theorem zero_notMem_bytesToBase64 (data : List Byte) : (0 : Byte) ∉ bytesToBase64 data := by
  have hchar : ∀ {n : Nat}, n < 64 → (0 : Byte) ≠ base64Char n := by
    intro n hn
    have hall : ∀ n : Fin 64, (0 : Byte) ≠ base64Char n := by decide
    exact hall ⟨n, hn⟩
  induction data using bytesToBase64.induct with
  | case1 => simp [bytesToBase64]
  | case2 x =>
      have hx := x.toNat_lt
      simp [bytesToBase64, hchar (show x.toNat / 4 < 64 by omega), hchar (show x.toNat % 4 * 16 < 64 by omega)]
  | case3 x y =>
      have hx := x.toNat_lt
      have hy := y.toNat_lt
      simp [bytesToBase64, hchar (show x.toNat / 4 < 64 by omega),
        hchar (show x.toNat % 4 * 16 + y.toNat / 16 < 64 by omega), hchar (show y.toNat % 16 * 4 < 64 by omega)]
  | case4 x y z rest ih =>
      have hx := x.toNat_lt
      have hy := y.toNat_lt
      have hz := z.toNat_lt
      simp [bytesToBase64, hchar (show x.toNat / 4 < 64 by omega),
        hchar (show x.toNat % 4 * 16 + y.toNat / 16 < 64 by omega),
        hchar (show y.toNat % 16 * 4 + z.toNat / 64 < 64 by omega), hchar (show z.toNat % 64 < 64 by omega), ih]

theorem bytesToBase64Op_ok {u} (hd : vm.bytesAt d n = some data) (hstack : vm.stack = below ++ [.bytes d n])
    (h : (bytesToBase64Op env).run vm = .ok u vm') : vm'.topText = some (bytesToBase64 data) := by
  simp only [bytesToBase64Op, popBytes, Routine.bind_run, Routine.pop, bind_run, stackPop_run hstack, Routine.pure_run,
    pure_run] at h
  have hd' : Heap.bytesAt { vm with stack := below }.toHeap d n = some data := hd
  split at h
  · cases h
  · simp only [Routine.bind_run, bind_run, readBytesView_run hd'] at h
    simp only [← bind_run, bind_ok] at h
    obtain ⟨q, vm₂, halloc, h⟩ := h
    exact push_topText (stringArenaAlloc_reads (zero_notMem_bytesToBase64 data) halloc) h

theorem bytesFromBase64Op_pushes {p : StrPtr} (hp : vm.cstr p = some text) (htext : bytesFromBase64 text = some data)
    (hstack : vm.stack = below ++ [.string p]) : PushesBytes vm below data ((bytesFromBase64Op env).run vm) := by
  have hp' : Heap.cstr { vm with stack := below }.toHeap p = some text := hp
  simp only [bytesFromBase64Op, popText, Routine.bind_run, Routine.pop, bind_run, stackPop_run hstack, stringPtr_of_cstr hp,
    Routine.pure_run, pure_run, readText_run hp', htext]
  exact pushBytesCopy_pushes env data { vm with stack := below }

/-! ## Round trips -/

/-- Encodings fit their buffers and decode to what they were made of; what is accepted comes back, except for bits that
its last group does not use. -/
structure Base64RoundTrips (env : Env) : Prop where
  sized : ∀ data output, output.length = base64Capacity data.length →
    toBase64Into data output = .ok (bytesToBase64 data ++ [0])
  encode : ∀ (vm vm' : Vm) below d n data, vm.bytesAt d n = some data → vm.stack = below ++ [.bytes d n] →
    (bytesToBase64Op env).run vm = .ok () vm' → vm'.topText = some (bytesToBase64 data)
  decodeEncoded : ∀ data, bytesFromBase64 (bytesToBase64 data) = some data
  sizing : ∀ text, fromBase64Into text none 0 =
    (bytesFromBase64 text).elim (.fail ()) fun data => .ok (none, data.length)
  writing : ∀ text data output, bytesFromBase64 text = some data → output.length = data.length →
    fromBase64Into text (some output) data.length = .ok (some data, data.length)
  decode : ∀ (vm : Vm) below p text data, vm.cstr p = some text → bytesFromBase64 text = some data →
    vm.stack = below ++ [.string p] → PushesBytes vm below data ((bytesFromBase64Op env).run vm)
  encodeDecoded : ∀ text data, bytesFromBase64 text = some data →
    bytesToBase64 data = clearUnused text ∧ (bytesToBase64 data = text ↔ unusedBits text = 0)

/-- Base64 round-trips, up to the unused bits of a text. -/
theorem base64_round_trips (env : Env) : Base64RoundTrips env where
  sized _ _ h := toBase64Into_ok h
  encode _ _ _ _ _ _ hd hstack h := bytesToBase64Op_ok hd hstack h
  decodeEncoded := bytesFromBase64_bytesToBase64
  sizing := sizingPass
  writing _ _ _ h hout := writingPass h hout
  decode _ _ _ _ _ hp htext hstack := bytesFromBase64Op_pushes hp htext hstack
  encodeDecoded _ _ h := by
    rw [bytesToBase64_of_decoded h]
    exact ⟨rfl, clearUnused_eq_iff h⟩

/-- Two texts are accepted for one byte string, and only one of them comes back. -/
theorem loose_encoding : bytesFromBase64 (ascii "QR==") = some (ascii "A") ∧ bytesFromBase64 (ascii "QQ==") = some (ascii "A") ∧
    ((aivmInit .generous
      ⟨[⟨.const, 0⟩, ⟨.bytesFromBase64, 0⟩, ⟨.bytesToBase64, 0⟩], [.string (.lit (ascii "QR=="))], []⟩ 0).bind
      (Trails.iterate (step .generous 0) 3)).bind Vm.topText = some (ascii "QQ==") := by
  refine ⟨by decide, by decide, by decide +kernel⟩

end Aivm
