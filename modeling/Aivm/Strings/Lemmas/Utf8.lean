import Aivm.Strings.Lemmas.Runes

/-!
# Well-formed UTF-8

The encoding of a scalar value other than zero is one of four shapes of byte strings. The validator reads one after the
other, `utf8_next_index` cuts the same ones off, and every one has a single byte that is no continuation byte.
-/

namespace Aivm

open Segments

/-! ## Characters -/

/-- The bytes of a character, in shortest form and without surrogates and zero. -/
inductive Utf8Char : List Byte → Prop where
  | one {a : Byte} : 0 < a.toNat → a.toNat ≤ 0x7F → Utf8Char [a]
  | two {a b : Byte} : 0xC2 ≤ a.toNat → a.toNat ≤ 0xDF → Tail b → Utf8Char [a, b]
  | three {a b c : Byte} : 0xE0 ≤ a.toNat → a.toNat ≤ 0xEF → Tail b → Tail c →
      (a.toNat = 0xE0 → 0xA0 ≤ b.toNat) → (a.toNat = 0xED → b.toNat ≤ 0x9F) → Utf8Char [a, b, c]
  | four {a b c d : Byte} : 0xF0 ≤ a.toNat → a.toNat ≤ 0xF4 → Tail b → Tail c → Tail d →
      (a.toNat = 0xF0 → 0x90 ≤ b.toNat) → (a.toNat = 0xF4 → b.toNat ≤ 0x8F) → Utf8Char [a, b, c, d]

/-- A scalar value other than zero is written as a character. -/
theorem utf8Char_encode {c : Char} (hc : c ≠ '\x00') : Utf8Char (String.utf8EncodeChar c) := by
  have hv : c.val.toNat < 0xD800 ∨ 0xDFFF < c.val.toNat ∧ c.val.toNat < 0x110000 := c.valid
  have h0 : c.val.toNat ≠ 0 := by
    intro h
    exact hc (Char.ext (UInt32.toNat_inj.1 h))
  simp only [String.utf8EncodeChar]
  split_ifs with h₁ h₂ h₃
  · refine .one ?_ ?_ <;> simp only [UInt8.toNat_ofNat'] <;> omega
  · refine .two ?_ ?_ ⟨?_, ?_⟩ <;> simp only [UInt8.toNat_ofNat'] <;> omega
  · refine .three ?_ ?_ ⟨?_, ?_⟩ ⟨?_, ?_⟩ ?_ ?_ <;> simp only [UInt8.toNat_ofNat'] <;> omega
  · refine .four ?_ ?_ ⟨?_, ?_⟩ ⟨?_, ?_⟩ ⟨?_, ?_⟩ ?_ ?_ <;> simp only [UInt8.toNat_ofNat'] <;> omega

/-- Every character is a scalar value as it is written. -/
theorem Utf8Char.decode {w : List Byte} (h : Utf8Char w) : ∃ c : Char, c ≠ '\x00' ∧ String.utf8EncodeChar c = w := by
  have key : ∀ v, 0 < v → (v < 0xD800 ∨ 0xDFFF < v ∧ v < 0x110000) → ∃ c : Char, c ≠ '\x00' ∧ c.val.toNat = v := by
    intro v h0 hv
    have hlt : v < 0x110000 := by omega
    have hv' : (UInt32.ofNat v).toNat = v := UInt32.toNat_ofNat_of_lt' (Nat.lt_of_lt_of_le hlt (by decide))
    refine ⟨⟨.ofNat v, ?_⟩, ?_, hv'⟩
    · show (UInt32.ofNat v).toNat.isValidChar
      rw [hv']
      exact hv
    · intro h
      have := congrArg (·.val.toNat) h
      simp only [hv'] at this
      exact absurd this (by simp; omega)
  have hbyte : ∀ {b : Byte} {n}, n = b.toNat → UInt8.ofNat n = b := by
    rintro b _ rfl
    exact UInt8.ofNat_toNat
  cases h with
  | @one a h₀ h₁ =>
      obtain ⟨c, hc, hv⟩ := key a.toNat h₀ (by omega)
      refine ⟨c, hc, ?_⟩
      simp only [String.utf8EncodeChar, hv, if_pos h₁, UInt8.ofNat_toNat]
  | @two a b h₀ h₁ hb =>
      obtain ⟨hb₀, hb₁⟩ := hb
      obtain ⟨c, hc, hv⟩ := key ((a.toNat - 0xC0) * 64 + (b.toNat - 0x80)) (by omega) (by omega)
      refine ⟨c, hc, ?_⟩
      simp only [String.utf8EncodeChar, hv]
      rw [if_neg (by omega), if_pos (by omega), hbyte (b := a) (by omega), hbyte (b := b) (by omega)]
  | @three a b c h₀ h₁ hb hc he hd =>
      obtain ⟨hb₀, hb₁⟩ := hb
      obtain ⟨hc₀, hc₁⟩ := hc
      obtain ⟨x, hx, hv⟩ := key ((a.toNat - 0xE0) * 4096 + (b.toNat - 0x80) * 64 + (c.toNat - 0x80)) (by omega) (by omega)
      refine ⟨x, hx, ?_⟩
      simp only [String.utf8EncodeChar, hv]
      rw [if_neg (by omega), if_neg (by omega), if_pos (by omega), hbyte (b := a) (by omega), hbyte (b := b) (by omega),
        hbyte (b := c) (by omega)]
  | @four a b c d h₀ h₁ hb hc hd hf hr =>
      obtain ⟨hb₀, hb₁⟩ := hb
      obtain ⟨hc₀, hc₁⟩ := hc
      obtain ⟨hd₀, hd₁⟩ := hd
      obtain ⟨x, hx, hv⟩ := key ((a.toNat - 0xF0) * 262144 + (b.toNat - 0x80) * 4096 + (c.toNat - 0x80) * 64 +
        (d.toNat - 0x80)) (by omega) (by omega)
      refine ⟨x, hx, ?_⟩
      simp only [String.utf8EncodeChar, hv]
      rw [if_neg (by omega), if_neg (by omega), if_neg (by omega), hbyte (b := a) (by omega), hbyte (b := b) (by omega),
        hbyte (b := c) (by omega), hbyte (b := d) (by omega)]

theorem Utf8Char.ne_nil {w : List Byte} (h : Utf8Char w) : w ≠ [] := by
  cases h <;> simp

/-! ## What is cut off -/

/-- `utf8_next_index` cuts a character off whole. -/
theorem runeLength_char {w : List Byte} (h : Utf8Char w) (rest : List Byte) : runeLength (w ++ rest) = w.length := by
  cases h with
  | @one a h₀ h₁ =>
      have h := (and_one a).2 h₁
      simp [runeLength, h]
  | @two a b h₀ h₁ hb =>
      have hn := mt (and_one a).1 (by omega)
      have h := (and_two a).2 (by omega)
      simp [runeLength, h, hn, hb]
  | @three a b c h₀ h₁ hb hc he hd =>
      have hn := mt (and_one a).1 (by omega)
      have hn₂ := mt (and_two a).1 (by omega)
      have h := (and_three a).2 (by omega)
      simp [runeLength, h, hn, hn₂, hb, hc]
  | @four a b c d h₀ h₁ hb hc hd hf hr =>
      have hn := mt (and_one a).1 (by omega)
      have hn₂ := mt (and_two a).1 (by omega)
      have hn₃ := mt (and_three a).1 (by omega)
      have h := (and_four a).2 (by omega)
      simp [runeLength, h, hn, hn₂, hn₃, hb, hc, hd]

theorem runeLength_reads : Reads runeLength Utf8Char where
  ne_nil h := h.ne_nil
  len h rest := runeLength_char h rest

theorem byteIn_some {lo hi b : Byte} : byteIn lo hi (some b) = true ↔ lo.toNat ≤ b.toNat ∧ b.toNat ≤ hi.toNat := by
  simp [byteIn, UInt8.le_iff_toNat_le]

/-- The validator cuts a character off whole. -/
theorem validUtf8Length_char {w : List Byte} (h : Utf8Char w) (rest : List Byte) :
    validUtf8Length (w ++ rest) = w.length := by
  cases h with
  | @one a h₀ h₁ =>
      have h0 : a ≠ 0 := fun h => by simp [h] at h₀
      have h : a ≤ 0x7F := UInt8.le_iff_toNat_le.2 h₁
      simp [validUtf8Length, h0, h]
  | @two a b h₀ h₁ hb =>
      have hn : ¬ a.toNat ≤ 0x7F := by omega
      have h0 : a ≠ 0 := fun h => by simp [h] at h₀
      simp [validUtf8Length, UInt8.le_iff_toNat_le, h0, hn, h₀, h₁, hb]
  | @three a b c h₀ h₁ hb hc he hd =>
      have h0 : a ≠ 0 := fun h => by simp [h] at h₀
      simp only [validUtf8Length, UInt8.le_iff_toNat_le, ← UInt8.toNat_inj, List.cons_append, List.nil_append,
        List.getElem?_cons_succ, List.getElem?_cons_zero, isContinuation_some, byteIn_some, hb, hc, and_true, h0,
        if_false]
      obtain ⟨hb₀, hb₁⟩ := hb
      simp
      split_ifs <;> omega
  | @four a b c d h₀ h₁ hb hc hd hf hr =>
      have h0 : a ≠ 0 := fun h => by simp [h] at h₀
      simp only [validUtf8Length, UInt8.le_iff_toNat_le, ← UInt8.toNat_inj, List.cons_append, List.nil_append,
        List.getElem?_cons_succ, List.getElem?_cons_zero, isContinuation_some, byteIn_some, hb, hc, hd, and_true, h0,
        if_false]
      obtain ⟨hb₀, hb₁⟩ := hb
      simp
      split_ifs <;> omega

/-- The byte a check reads, and the rest. -/
theorem cons_of_check {check : Option Byte → Bool} {data : List Byte} (hn : check none = false)
    (h : check data[0]? = true) : ∃ b rest, data = b :: rest ∧ check (some b) = true := by
  cases data with
  | nil => simp [hn] at h
  | cons b rest => exact ⟨b, rest, rfl, by simpa using h⟩

/-- Two checked bytes and the rest. -/
theorem cons_cons_of_check {check : Option Byte → Bool} {data : List Byte} (hn : check none = false)
    (h : check data[0]? = true ∧ isContinuation data[1]? = true) :
    ∃ b c rest, data = b :: c :: rest ∧ check (some b) = true ∧ Tail c := by
  obtain ⟨b, data, rfl, hb⟩ := cons_of_check hn h.1
  obtain ⟨c, data, rfl, hc⟩ := cons_of_check isContinuation_none (by simpa using h.2)
  exact ⟨b, c, data, rfl, hb, (isContinuation_some c).1 hc⟩

/-- Three checked bytes and the rest. -/
theorem cons_cons_cons_of_check {check : Option Byte → Bool} {data : List Byte} (hn : check none = false)
    (h : check data[0]? = true ∧ isContinuation data[1]? = true ∧ isContinuation data[2]? = true) :
    ∃ b c d rest, data = b :: c :: d :: rest ∧ check (some b) = true ∧ Tail c ∧ Tail d := by
  obtain ⟨b, c, data, rfl, hb, hc⟩ := cons_cons_of_check hn ⟨h.1, h.2.1⟩
  obtain ⟨d, data, rfl, hd⟩ := cons_of_check isContinuation_none (by simpa using h.2.2)
  exact ⟨b, c, d, data, rfl, hb, hc, (isContinuation_some d).1 hd⟩

/-- What the validator cuts off is a character. -/
theorem char_of_validUtf8Length {data : List Byte} (h : validUtf8Length data ≠ 0) :
    ∃ w rest, data = w ++ rest ∧ Utf8Char w := by
  cases data with
  | nil => exact absurd rfl h
  | cons a data =>
      simp only [validUtf8Length] at h
      have hb₀ : ∀ lo hi, byteIn lo hi none = false := fun _ _ => rfl
      split_ifs at h with h0 h₁ h₂ ht he ht he₃ ht hs ht hf ht hf₄ ht hr ht
      · exact absurd rfl h
      · exact ⟨[a], data, rfl, .one (UInt8.lt_iff_toNat_lt.1 (UInt8.pos_iff_ne_zero.2 h0)) (UInt8.le_iff_toNat_le.1 h₁)⟩
      · obtain ⟨b, data, rfl, hb⟩ := cons_of_check isContinuation_none ht
        simp only [UInt8.le_iff_toNat_le] at h₂
        exact ⟨[a, b], data, rfl, .two h₂.1 h₂.2 (by simpa using hb)⟩
      · exact absurd rfl h
      · obtain ⟨b, c, data, rfl, hb, hc⟩ := cons_cons_of_check (hb₀ _ _) ht
        obtain ⟨hb, hb'⟩ := byteIn_some.1 hb
        subst he
        refine ⟨[0xE0, b, c], data, rfl, .three (by decide) (by decide) ⟨Nat.le_trans (by decide) hb, hb'⟩ hc ?_ ?_⟩
        · exact fun _ => hb
        · exact fun h => absurd h (by decide)
      · exact absurd rfl h
      · obtain ⟨b, c, data, rfl, hb, hc⟩ := cons_cons_of_check isContinuation_none ht
        have ha : 0xE1 ≤ a.toNat ∧ a.toNat ≤ 0xEC ∨ 0xEE ≤ a.toNat ∧ a.toNat ≤ 0xEF := by
          simp only [UInt8.le_iff_toNat_le] at he₃
          exact he₃
        refine ⟨[a, b, c], data, rfl, .three ?_ ?_ ((isContinuation_some b).1 hb) hc ?_ ?_⟩ <;> omega
      · exact absurd rfl h
      · obtain ⟨b, c, data, rfl, hb, hc⟩ := cons_cons_of_check (hb₀ _ _) ht
        obtain ⟨hb, hb'⟩ := byteIn_some.1 hb
        subst hs
        refine ⟨[0xED, b, c], data, rfl, .three (by decide) (by decide) ⟨hb, Nat.le_trans hb' (by decide)⟩ hc ?_ ?_⟩
        · exact fun h => absurd h (by decide)
        · exact fun _ => hb'
      · exact absurd rfl h
      · obtain ⟨b, c, d, data, rfl, hb, hc, hd⟩ := cons_cons_cons_of_check (hb₀ _ _) ht
        obtain ⟨hb, hb'⟩ := byteIn_some.1 hb
        subst hf
        refine ⟨[0xF0, b, c, d], data, rfl, .four (by decide) (by decide) ⟨Nat.le_trans (by decide) hb, hb'⟩ hc hd ?_ ?_⟩
        · exact fun _ => hb
        · exact fun h => absurd h (by decide)
      · exact absurd rfl h
      · obtain ⟨b, c, d, data, rfl, hb, hc, hd⟩ := cons_cons_cons_of_check isContinuation_none ht
        have ha : 0xF1 ≤ a.toNat ∧ a.toNat ≤ 0xF3 := by
          simp only [UInt8.le_iff_toNat_le] at hf₄
          exact hf₄
        refine ⟨[a, b, c, d], data, rfl, .four ?_ ?_ ((isContinuation_some b).1 hb) hc hd ?_ ?_⟩ <;> omega
      · exact absurd rfl h
      · obtain ⟨b, c, d, data, rfl, hb, hc, hd⟩ := cons_cons_cons_of_check (hb₀ _ _) ht
        obtain ⟨hb, hb'⟩ := byteIn_some.1 hb
        subst hr
        refine ⟨[0xF4, b, c, d], data, rfl, .four (by decide) (by decide) ⟨hb, Nat.le_trans hb' (by decide)⟩ hc hd ?_ ?_⟩
        · exact fun h => absurd h (by decide)
        · exact fun _ => hb'
      · exact absurd rfl h
      · exact absurd rfl h

/-! ## Whole texts -/

/-- A text that encodes scalar values other than zero. -/
def WellFormedUtf8 (text : List Byte) : Prop := ∃ cs : List Char, '\x00' ∉ cs ∧ text = cs.flatMap String.utf8EncodeChar

/-- A text is well formed if and only if it is made of characters. -/
theorem wellFormedUtf8_iff {text : List Byte} : WellFormedUtf8 text ↔ ∃ ws : List (List Byte), (∀ w ∈ ws, Utf8Char w) ∧
    text = ws.flatten := by
  constructor
  · rintro ⟨cs, h0, rfl⟩
    refine ⟨cs.map String.utf8EncodeChar, ?_, rfl⟩
    intro w hw
    obtain ⟨c, hc, rfl⟩ := List.mem_map.1 hw
    exact utf8Char_encode fun h => h0 (h ▸ hc)
  · rintro ⟨ws, hws, rfl⟩
    induction ws with
    | nil => exact ⟨[], by simp, rfl⟩
    | cons w ws ih =>
        simp only [List.mem_cons, forall_eq_or_imp] at hws
        obtain ⟨c, hc, rfl⟩ := hws.1.decode
        obtain ⟨cs, h0, hcs⟩ := ih hws.2
        exact ⟨c :: cs, by simp [h0, hc.symm], by simp [hcs]⟩

/-- A text is well formed if and only if all its runes are characters. -/
theorem wellFormedUtf8_runes {text : List Byte} : WellFormedUtf8 text ↔ ∀ w ∈ runes text, Utf8Char w := by
  rw [wellFormedUtf8_iff]
  constructor
  · rintro ⟨ws, hws, rfl⟩
    rwa [runes, segments_flatten runeLength_cuts runeLength_reads hws]
  · intro h
    exact ⟨runes text, h, (flatten_runes text).symm⟩

/-- The runes of encoded scalar values are their encodings. -/
theorem runes_encode {cs : List Char} (h : '\x00' ∉ cs) :
    runes (cs.flatMap String.utf8EncodeChar) = cs.map String.utf8EncodeChar := by
  refine segments_flatten runeLength_cuts runeLength_reads fun w hw => ?_
  obtain ⟨c, hc, rfl⟩ := List.mem_map.1 hw
  exact utf8Char_encode fun he => h (he ▸ hc)

/-- The validator accepts exactly the well-formed texts. -/
theorem validUtf8WithoutNul_iff {fuel : Nat} : ∀ {data : List Byte}, data.length ≤ fuel →
    (validUtf8WithoutNul fuel data = true ↔ WellFormedUtf8 data) := by
  induction fuel with
  | zero =>
      intro data hf
      have hnil : data = [] := List.eq_nil_of_length_eq_zero (by omega)
      subst hnil
      simp only [validUtf8WithoutNul, true_iff]
      exact ⟨[], by simp, rfl⟩
  | succ fuel ih =>
      intro data hf
      by_cases hd : data = []
      · subst hd
        simp only [validUtf8WithoutNul, true_iff]
        exact ⟨[], by simp, rfl⟩
      have hrun : validUtf8WithoutNul (fuel + 1) data =
          if validUtf8Length data = 0 then false else validUtf8WithoutNul fuel (data.drop (validUtf8Length data)) := by
        cases data with
        | nil => exact absurd rfl hd
        | cons b rest => rfl
      rw [hrun]
      by_cases hn : validUtf8Length data = 0
      · simp only [if_pos hn, Bool.false_eq_true, false_iff]
        intro hw
        obtain ⟨ws, hws, rfl⟩ := wellFormedUtf8_iff.1 hw
        cases ws with
        | nil => exact hd rfl
        | cons w ws =>
            simp only [List.mem_cons, forall_eq_or_imp] at hws
            rw [List.flatten_cons, validUtf8Length_char hws.1] at hn
            exact hws.1.ne_nil (List.eq_nil_of_length_eq_zero hn)
      · obtain ⟨w, rest, rfl, hw⟩ := char_of_validUtf8Length hn
        have hpos := List.length_pos_of_ne_nil hw.ne_nil
        simp only [List.length_append] at hf
        rw [if_neg hn, validUtf8Length_char hw, List.drop_left, ih (by omega), wellFormedUtf8_runes, wellFormedUtf8_runes]
        have hsplit : runes (w ++ rest) = w :: runes rest := by
          have h := segments_words runeLength_cuts runeLength_reads (by simpa using hw : ∀ v ∈ [w], Utf8Char v) rest
          simpa [runes] using h
        simp [hsplit, hw]

theorem bytesIsValidUtf8WithoutNul_iff {data : List Byte} :
    bytesIsValidUtf8WithoutNul data = true ↔ WellFormedUtf8 data := validUtf8WithoutNul_iff (Nat.le_refl _)

/-- Every character has one byte that is no continuation byte. -/
theorem scalarLength_char {w : List Byte} (h : Utf8Char w) : scalarLength w = 1 := by
  have hlead : ∀ {a : Byte}, a.toNat ≤ 0x7F ∨ 0xC0 ≤ a.toNat → ¬ (a &&& 0xC0 = 0x80) := by
    intro a ha h
    have := (and_tail a).1 h
    omega
  cases h with
  | one h₀ h₁ => simp [scalarLength, hlead (.inl h₁)]
  | two h₀ h₁ hb => simp [scalarLength, hlead (.inr (Nat.le_trans (by decide) h₀)), (and_tail _).2 hb]
  | three h₀ h₁ hb hc => simp [scalarLength, hlead (.inr (Nat.le_trans (by decide) h₀)), (and_tail _).2 hb, (and_tail _).2 hc]
  | four h₀ h₁ hb hc hd =>
      simp [scalarLength, hlead (.inr (Nat.le_trans (by decide) h₀)), (and_tail _).2 hb, (and_tail _).2 hc, (and_tail _).2 hd]

theorem scalarLength_flatten {ws : List (List Byte)} (h : ∀ w ∈ ws, Utf8Char w) : scalarLength ws.flatten = ws.length := by
  induction ws with
  | nil => rfl
  | cons w ws ih =>
      simp only [List.mem_cons, forall_eq_or_imp] at h
      have hsplit : scalarLength (w ++ ws.flatten) = scalarLength w + scalarLength ws.flatten := by
        simp [scalarLength]
      rw [List.flatten_cons, hsplit, scalarLength_char h.1, ih h.2, List.length_cons, Nat.add_comm]

/-- The scalars of a well-formed text are counted as its runes. -/
theorem scalarLength_eq {text : List Byte} (h : WellFormedUtf8 text) : scalarLength text = (runes text).length := by
  conv_lhs => rw [← flatten_runes text]
  exact scalarLength_flatten (wellFormedUtf8_runes.1 h)

/-! ## Texts made of parts -/

theorem WellFormedUtf8.append {s t : List Byte} (hs : WellFormedUtf8 s) (ht : WellFormedUtf8 t) :
    WellFormedUtf8 (s ++ t) := by
  obtain ⟨cs, hcs, rfl⟩ := hs
  obtain ⟨ds, hds, rfl⟩ := ht
  exact ⟨cs ++ ds, by simp [hcs, hds], by simp⟩

/-- Any selection of the runes of a well-formed text is well formed. -/
theorem WellFormedUtf8.sublist {t : List Byte} (ht : WellFormedUtf8 t) {ws : List (List Byte)}
    (h : ws.Sublist (runes t)) : WellFormedUtf8 ws.flatten :=
  wellFormedUtf8_iff.2 ⟨ws, fun w hw => wellFormedUtf8_runes.1 ht w (h.subset hw), rfl⟩

theorem WellFormedUtf8.take {t : List Byte} (ht : WellFormedUtf8 t) (n : Nat) :
    WellFormedUtf8 (t.take (utf8ByteOffset t n)) := by
  rw [take_utf8ByteOffset]
  exact ht.sublist (List.take_sublist _ _)

theorem WellFormedUtf8.drop {t : List Byte} (ht : WellFormedUtf8 t) (n : Nat) :
    WellFormedUtf8 (t.drop (utf8ByteOffset t n)) := by
  rw [drop_utf8ByteOffset]
  exact ht.sublist (List.drop_sublist _ _)

theorem WellFormedUtf8.substring {t : List Byte} (ht : WellFormedUtf8 t) (start length : Int) :
    WellFormedUtf8 (substringByRunes t start length) := by
  rw [substringByRunes_eq]
  exact ht.sublist ((List.take_sublist _ _).trans (List.drop_sublist _ _))

theorem WellFormedUtf8.remove {t : List Byte} (ht : WellFormedUtf8 t) (start length : Int) :
    WellFormedUtf8 (removeByRunes t start length) := by
  unfold removeByRunes
  split
  · exact ht
  · exact (ht.take _).append (ht.drop _)

theorem WellFormedUtf8.zero_notMem {t : List Byte} (ht : WellFormedUtf8 t) : (0 : Byte) ∉ t := by
  obtain ⟨ws, hws, rfl⟩ := wellFormedUtf8_iff.1 ht
  intro h
  obtain ⟨w, hw, h0⟩ := List.mem_flatten.1 h
  have hne : ∀ {b : Byte}, 0 < b.toNat → (0 : Byte) ≠ b := by
    rintro b hb rfl
    exact absurd hb (by decide)
  cases hws w hw with
  | one h₀ h₁ => simp [hne h₀] at h0
  | two h₀ h₁ hb => simp [hne (Nat.lt_of_lt_of_le (by decide) h₀), hne (Nat.lt_of_lt_of_le (by decide) hb.1)] at h0
  | three h₀ h₁ hb hc =>
      simp [hne (Nat.lt_of_lt_of_le (by decide) h₀), hne (Nat.lt_of_lt_of_le (by decide) hb.1),
        hne (Nat.lt_of_lt_of_le (by decide) hc.1)] at h0
  | four h₀ h₁ hb hc hd =>
      simp [hne (Nat.lt_of_lt_of_le (by decide) h₀), hne (Nat.lt_of_lt_of_le (by decide) hb.1),
        hne (Nat.lt_of_lt_of_le (by decide) hc.1), hne (Nat.lt_of_lt_of_le (by decide) hd.1)] at h0

end Aivm
