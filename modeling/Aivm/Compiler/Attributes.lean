import Aivm.Strings.Rendering

/-!
# Attribute lists

Attributes as they are written, and what the readers of attributes find in them. A value is a bare word or an escaped
string in quotes; the readers agree on where it ends.
-/

namespace Aivm

variable {text rest key : Text}

/-! ## Attributes as written -/

/-- A value: a string that is escaped and quoted, or a bare word. -/
inductive TextValue where
  | quoted (text : CText)
  | bare (word : Text)

/-- What stands for the value, without its quotes. -/
def TextValue.raw : TextValue → Text
  | .quoted text => escapeText text.1
  | .bare word => word

def TextValue.render : TextValue → Text
  | .quoted text => quote :: escapeText text.1 ++ [quote]
  | .bare word => word

/-- An attribute with the blanks before it. -/
structure TextAttr where
  gap : Text
  key : Text
  value : TextValue

def TextAttr.render (a : TextAttr) : Text := a.gap ++ (a.key ++ equals :: a.value.render)

/-- The text of an attribute list. -/
def attrsText (attrs : List TextAttr) : Text := attrs.flatMap TextAttr.render

/-- The bytes of keys. -/
def isKeyByte (b : Byte) : Bool :=
  ¬ isSpace b ∧ b ≠ quote ∧ b ≠ comma ∧ b ≠ equals ∧ b ≠ openParen ∧ b ≠ closeParen ∧ b ≠ openBrace ∧ b ≠ closeBrace

/-- The bytes of bare words. -/
def isWordByte (b : Byte) : Bool := ¬ isSpace b ∧ b ≠ quote ∧ b ≠ comma ∧ b ≠ openParen ∧ b ≠ closeParen

def IsKey (key : Text) : Prop := key ≠ [] ∧ ∀ b ∈ key, isKeyByte b = true

def TextValue.Wf : TextValue → Prop
  | .quoted _ => True
  | .bare word => word ≠ [] ∧ ∀ b ∈ word, isWordByte b = true

structure TextAttr.Wf (a : TextAttr) : Prop where
  gap : ∀ b ∈ a.gap, isBlank b = true
  key : IsKey a.key
  value : a.value.Wf

/-- Attributes of different keys, with blanks between them. -/
structure AttrsWf (attrs : List TextAttr) : Prop where
  each : ∀ a ∈ attrs, a.Wf
  gaps : ∀ a ∈ attrs.tail, a.gap ≠ []
  keys : (attrs.map TextAttr.key).Nodup

theorem attrsWf_nil : AttrsWf [] := ⟨by simp, by simp, by simp⟩

/-- A list of one attribute. -/
theorem attrsWf_single {key : Text} {value : TextValue} (hkey : key ≠ [] ∧ key.all isKeyByte = true)
    (hvalue : value.Wf) : AttrsWf [⟨[], key, value⟩] where
  each a ha := by
    rw [List.mem_singleton.1 ha]
    exact ⟨by simp, ⟨hkey.1, List.all_eq_true.1 hkey.2⟩, hvalue⟩
  gaps := by simp
  keys := by simp

/-- A list of two attributes. -/
theorem attrsWf_pair {key other : Text} {value last : TextValue} (hkey : key ≠ [] ∧ key.all isKeyByte = true)
    (hother : other ≠ [] ∧ other.all isKeyByte = true) (hne : key ≠ other) (hvalue : value.Wf) (hlast : last.Wf) :
    AttrsWf [⟨[], key, value⟩, ⟨[32], other, last⟩] where
  each a ha := by
    simp only [List.mem_cons, List.not_mem_nil, or_false] at ha
    rcases ha with rfl | rfl
    · exact ⟨by simp, ⟨hkey.1, List.all_eq_true.1 hkey.2⟩, hvalue⟩
    · exact ⟨by simp [isBlank], ⟨hother.1, List.all_eq_true.1 hother.2⟩, hlast⟩
  gaps := by simp
  keys := by simpa using hne

/-! ## Bytes -/

theorem isSpace_of_isBlank {b : Byte} (h : isBlank b = true) : isSpace b = true := by
  simp only [isBlank, decide_eq_true_eq] at h
  rcases h with rfl | rfl | rfl | rfl <;> decide

theorem not_isBlank {b : Byte} (h : isSpace b = false) : isBlank b = false := by
  cases hblank : isBlank b with
  | false => rfl
  | true => simp [isSpace_of_isBlank hblank] at h

theorem isKeyByte_iff {b : Byte} : isKeyByte b = true ↔ isSpace b = false ∧ b ≠ quote ∧ b ≠ comma ∧ b ≠ equals ∧
    b ≠ openParen ∧ b ≠ closeParen ∧ b ≠ openBrace ∧ b ≠ closeBrace := by
  simp [isKeyByte]

theorem isWordByte_iff {b : Byte} : isWordByte b = true ↔ isSpace b = false ∧ b ≠ quote ∧ b ≠ comma ∧
    b ≠ openParen ∧ b ≠ closeParen := by
  simp [isWordByte]

/-- The head of what follows a value: nothing, or a blank. -/
def EndsValue (rest : Text) : Prop := ∀ b r, rest = b :: r → isBlank b = true

theorem endsValue_nil : EndsValue [] := by
  intro b r h
  cases h

theorem dropWhile_append_all {p : Byte → Bool} {text rest : Text} (h : ∀ b ∈ text, p b = true) :
    (text ++ rest).dropWhile p = rest.dropWhile p := by
  induction text with
  | nil => rfl
  | cons b text ih =>
      rw [List.cons_append, List.dropWhile_cons_of_pos (h b List.mem_cons_self)]
      exact ih fun b hb => h b (List.mem_cons_of_mem _ hb)

theorem takeWhile_append_stop {p : Byte → Bool} {text rest : Text} (h : ∀ b ∈ text, p b = true)
    (hstop : ∀ b r, rest = b :: r → p b = false) : (text ++ rest).takeWhile p = text := by
  induction text with
  | nil =>
      cases rest with
      | nil => rfl
      | cons b r => simp [hstop b r rfl]
  | cons b text ih =>
      rw [List.cons_append, List.takeWhile_cons_of_pos (h b List.mem_cons_self)]
      rw [ih fun b hb => h b (List.mem_cons_of_mem _ hb)]

theorem dropWhile_append_stop {p : Byte → Bool} {text rest : Text} (h : ∀ b ∈ text, p b = true)
    (hstop : ∀ b r, rest = b :: r → p b = false) : (text ++ rest).dropWhile p = rest := by
  rw [dropWhile_append_all h]
  cases rest with
  | nil => rfl
  | cons b r => rw [List.dropWhile_cons_of_neg (by simp [hstop b r rfl])]

/-! ## Escaped strings -/

theorem escapeText_cons (b : Byte) (text : Text) : escapeText (b :: text) = escapeByte b ++ escapeText text := rfl

/-- A byte that is not escaped stands for itself; the others stand behind a backslash. -/
theorem escapeByte_cases (b : Byte) :
    (escapeByte b = [b] ∧ b ≠ backslash ∧ b ≠ quote) ∨ ∃ e, escapeByte b = [backslash, e] := by
  unfold escapeByte
  split_ifs with hslash hquote hn hr ht
  · exact .inr ⟨_, rfl⟩
  · exact .inr ⟨_, rfl⟩
  · exact .inr ⟨_, rfl⟩
  · exact .inr ⟨_, rfl⟩
  · exact .inr ⟨_, rfl⟩
  · exact .inl ⟨rfl, hslash, hquote⟩

theorem quotedSpan_quote (rest : Text) : quotedSpan false (quote :: rest) = [] := by
  simp [quotedSpan]

theorem quotedSpan_plain {b : Byte} (hslash : b ≠ backslash) (hquote : b ≠ quote) (rest : Text) :
    quotedSpan false (b :: rest) = b :: quotedSpan false rest := by
  simp [quotedSpan, hslash, hquote]

theorem quotedSpan_escape (e : Byte) (rest : Text) :
    quotedSpan false (backslash :: e :: rest) = backslash :: e :: quotedSpan false rest := by
  have hslash : backslash ≠ quote := by decide
  simp [quotedSpan, hslash]

/-- The quote that closes an escaped string is found. -/
theorem quotedSpan_escapeText (text rest : Text) :
    quotedSpan false (escapeText text ++ quote :: rest) = escapeText text := by
  induction text with
  | nil => exact quotedSpan_quote rest
  | cons b text ih =>
      rw [escapeText_cons, List.append_assoc]
      rcases escapeByte_cases b with ⟨hplain, hslash, hquote⟩ | ⟨e, hescape⟩
      · rw [hplain, List.singleton_append, List.singleton_append, quotedSpan_plain hslash hquote, ih]
      · rw [hescape, List.cons_append, List.singleton_append, List.cons_append, List.singleton_append,
          quotedSpan_escape, ih]

theorem skipToken_quote (rest : Text) : skipToken (some false) (quote :: rest) = skipToken none rest := by
  simp [skipToken]

theorem skipToken_plain {b : Byte} (hslash : b ≠ backslash) (hquote : b ≠ quote) (rest : Text) :
    skipToken (some false) (b :: rest) = skipToken (some false) rest := by
  simp [skipToken, hslash, hquote]

theorem skipToken_escape (e : Byte) (rest : Text) :
    skipToken (some false) (backslash :: e :: rest) = skipToken (some false) rest := by
  have hslash : backslash ≠ quote := by decide
  simp [skipToken, hslash]

theorem skipToken_escapeText (text rest : Text) :
    skipToken (some false) (escapeText text ++ quote :: rest) = skipToken none rest := by
  induction text with
  | nil => exact skipToken_quote rest
  | cons b text ih =>
      rw [escapeText_cons, List.append_assoc]
      rcases escapeByte_cases b with ⟨hplain, hslash, hquote⟩ | ⟨e, hescape⟩
      · rw [hplain, List.singleton_append, skipToken_plain hslash hquote, ih]
      · rw [hescape, List.cons_append, List.singleton_append, skipToken_escape, ih]

theorem skipToken_bare {text : Text} (h : ∀ b ∈ text, isBlank b = false ∧ b ≠ comma ∧ b ≠ quote) (rest : Text) :
    skipToken none (text ++ rest) = skipToken none rest := by
  induction text with
  | nil => rfl
  | cons b text ih =>
      obtain ⟨hblank, hcomma, hquote⟩ := h b List.mem_cons_self
      rw [List.cons_append, skipToken]
      simp only [hblank, hcomma, hquote, Bool.false_eq_true, or_self, if_false]
      exact ih fun b hb => h b (List.mem_cons_of_mem _ hb)

theorem skipToken_end (h : EndsValue rest) : skipToken none rest = rest := by
  cases rest with
  | nil => rfl
  | cons b r => simp [skipToken, h b r rfl]

/-! ## Values -/

theorem TextValue.render_ne_nil {v : TextValue} (h : v.Wf) : v.render ≠ [] := by
  cases v with
  | quoted text => simp [render]
  | bare word => exact h.1

theorem TextValue.head_not_blank {v : TextValue} (h : v.Wf) {b : Byte} {r : Text} (heq : v.render = b :: r) :
    isBlank b = false := by
  cases v with
  | quoted text =>
      simp only [render, List.cons_append, List.cons.injEq] at heq
      rw [← heq.1]
      decide
  | bare word =>
      simp only [render] at heq
      exact not_isBlank (isWordByte_iff.1 (h.2 b (by simp [heq]))).1

theorem TextValue.dropWhile_blank {v : TextValue} (h : v.Wf) (rest : Text) :
    (v.render ++ rest).dropWhile isBlank = v.render ++ rest := by
  cases hrender : v.render with
  | nil => exact absurd hrender (render_ne_nil h)
  | cons b r => rw [List.cons_append, List.dropWhile_cons_of_neg (by simp [head_not_blank h hrender])]

/-- A value is read as it stands. -/
theorem TextValue.valueSpan {v : TextValue} (h : v.Wf) (hrest : EndsValue rest) :
    valueSpan (v.render ++ rest) = v.raw := by
  cases v with
  | quoted text =>
      rw [render, List.cons_append, List.cons_append, List.append_assoc, List.singleton_append, Aivm.valueSpan,
        if_pos rfl]
      exact quotedSpan_escapeText text.1 rest
  | bare word =>
      obtain ⟨hne, hbytes⟩ := h
      have hstop : (word ++ rest).takeWhile (fun b => ¬ isBlank b) = word := by
        apply takeWhile_append_stop
        · intro b hb
          simp [not_isBlank (isWordByte_iff.1 (hbytes b hb)).1]
        · intro b r hr
          simp [hrest b r hr]
      cases word with
      | nil => exact absurd rfl hne
      | cons b word =>
          have hquote := (isWordByte_iff.1 (hbytes b List.mem_cons_self)).2.1
          rw [render, raw, List.cons_append, Aivm.valueSpan, if_neg hquote]
          exact hstop

theorem TextValue.skipToken {v : TextValue} (h : v.Wf) (rest : Text) :
    Aivm.skipToken none (v.render ++ rest) = Aivm.skipToken none rest := by
  cases v with
  | quoted text =>
      have hblank : ¬ (isBlank quote = true ∨ quote = comma) := by decide
      rw [render, List.cons_append, List.cons_append, List.append_assoc, List.singleton_append, Aivm.skipToken,
        if_neg hblank, if_pos rfl]
      exact skipToken_escapeText text.1 rest
  | bare word =>
      apply skipToken_bare
      intro b hb
      obtain ⟨hspace, hquote, hcomma, -⟩ := isWordByte_iff.1 (h.2 b hb)
      exact ⟨not_isBlank hspace, hcomma, hquote⟩

/-! ## Lookup -/

theorem keyedValue_self (key value : Text) :
    keyedValue key (key ++ equals :: value) = some (value.dropWhile isBlank) := by
  have hequals : isBlank equals = false := by decide
  rw [keyedValue, if_pos (List.isPrefixOf_iff_prefix.2 ⟨_, rfl⟩), List.drop_left,
    List.dropWhile_cons_of_neg (by simp [hequals])]
  simp

/-- A key does not stand at the head of another attribute. -/
theorem keyedValue_other {other : Text} (hkey : IsKey key) (hother : IsKey other) (hne : key ≠ other) (rest : Text) :
    keyedValue key (other ++ equals :: rest) = none := by
  rw [keyedValue]
  by_cases hstart : key.isPrefixOf (other ++ equals :: rest)
  · rw [if_pos hstart]
    obtain ⟨t, ht⟩ := List.isPrefixOf_iff_prefix.1 hstart
    rcases List.append_eq_append_iff.1 ht with ⟨more, hmore, htail⟩ | ⟨more, hmore, htail⟩
    · rw [hmore, List.append_assoc, List.drop_left]
      cases more with
      | nil => exact absurd (by simpa using hmore.symm) hne
      | cons b more =>
          obtain ⟨hspace, -, -, hequals, -⟩ := isKeyByte_iff.1 (hother.2 b (by simp [hmore]))
          rw [List.cons_append, List.dropWhile_cons_of_neg (by simp [not_isBlank hspace])]
          simp [hequals]
    · cases more with
      | nil => exact absurd (by simpa using hmore) hne
      | cons b more =>
          simp only [List.cons_append, List.cons.injEq] at htail
          have hequals := (isKeyByte_iff.1 (hkey.2 b (by simp [hmore]))).2.2.2.1
          exact absurd htail.1.symm hequals
  · rw [if_neg hstart]

/-- One attribute is the one looked for, or is passed over. -/
theorem attrValueStartFrom_attr {a : TextAttr} (ha : a.Wf) (hkey : IsKey key) (hrest : EndsValue rest) (fuel : Nat) :
    attrValueStartFrom key (fuel + 1) (a.render ++ rest) =
      if a.key = key then some (a.value.render ++ rest) else attrValueStartFrom key fuel rest := by
  have hhead : (a.render ++ rest).dropWhile (fun b => decide (isBlank b = true ∨ b = comma)) =
      a.key ++ equals :: (a.value.render ++ rest) := by
    rw [TextAttr.render, List.append_assoc, List.append_assoc, List.cons_append]
    apply dropWhile_append_stop
    · intro b hb
      simp [ha.gap b hb]
    · intro b r heq
      cases hchars : a.key with
      | nil => exact absurd hchars ha.key.1
      | cons c chars =>
          rw [hchars, List.cons_append, List.cons.injEq] at heq
          obtain ⟨hspace, -, hcomma, -⟩ := isKeyByte_iff.1 (ha.key.2 b (by simp [hchars, heq.1]))
          simp [not_isBlank hspace, hcomma]
  have hne : a.render ++ rest ≠ [] := by
    intro hnil
    rw [hnil] at hhead
    simp at hhead
  rw [attrValueStartFrom, if_neg hne]
  simp only [hhead]
  by_cases hsame : a.key = key
  · rw [if_pos hsame, ← hsame, keyedValue_self, TextValue.dropWhile_blank ha.value]
  · have hskip : skipToken none (a.key ++ equals :: (a.value.render ++ rest)) = rest := by
      have hequals : ∀ b ∈ a.key ++ [equals], isBlank b = false ∧ b ≠ comma ∧ b ≠ quote := by
        intro b hb
        rcases List.mem_append.1 hb with hb | hb
        · obtain ⟨hspace, hquote, hcomma, -⟩ := isKeyByte_iff.1 (ha.key.2 b hb)
          exact ⟨not_isBlank hspace, hcomma, hquote⟩
        · rw [List.mem_singleton.1 hb]
          decide
      rw [← List.singleton_append, ← List.append_assoc, skipToken_bare hequals, TextValue.skipToken ha.value,
        skipToken_end hrest]
    rw [if_neg hsame, keyedValue_other hkey ha.key (Ne.symm hsame), hskip]

theorem attrsText_cons (a : TextAttr) (attrs : List TextAttr) :
    attrsText (a :: attrs) = a.render ++ attrsText attrs := rfl

/-- Behind an attribute its list ends or goes on with a blank. -/
theorem endsValue_attrsText {attrs : List TextAttr} (hwf : ∀ a ∈ attrs, a.Wf) (hgaps : ∀ a ∈ attrs, a.gap ≠ []) :
    EndsValue (attrsText attrs) := by
  cases attrs with
  | nil => exact endsValue_nil
  | cons a attrs =>
      intro b r heq
      cases hgap : a.gap with
      | nil => exact absurd hgap (hgaps a List.mem_cons_self)
      | cons c gap =>
          rw [attrsText_cons, TextAttr.render, hgap, List.cons_append, List.cons_append, List.cons.injEq] at heq
          exact heq.1 ▸ (hwf a List.mem_cons_self).gap c (by simp [hgap])

theorem AttrsWf.tail {a : TextAttr} {attrs : List TextAttr} (h : AttrsWf (a :: attrs)) : AttrsWf attrs where
  each b hb := h.each b (List.mem_cons_of_mem _ hb)
  gaps b hb := h.gaps b (List.mem_of_mem_tail hb)
  keys := (List.nodup_cons.1 h.keys).2

theorem AttrsWf.ends {a : TextAttr} {attrs : List TextAttr} (h : AttrsWf (a :: attrs)) : EndsValue (attrsText attrs) :=
  endsValue_attrsText h.tail.each fun b hb => h.gaps b hb

/-- The first attribute of a key is found. -/
theorem attrValueStartFrom_found : ∀ {before after : List TextAttr} {a : TextAttr} {fuel : Nat},
    AttrsWf (before ++ a :: after) → IsKey a.key → (∀ b ∈ before, b.key ≠ a.key) → before.length < fuel →
    attrValueStartFrom a.key fuel (attrsText (before ++ a :: after)) = some (a.value.render ++ attrsText after) := by
  intro before
  induction before with
  | nil =>
      intro after a fuel hwf hkey _ hfuel
      cases fuel with
      | zero => omega
      | succ fuel =>
          rw [List.nil_append] at hwf ⊢
          rw [attrsText_cons, attrValueStartFrom_attr (hwf.each a List.mem_cons_self) hkey hwf.ends, if_pos rfl]
  | cons first before ih =>
      intro after a fuel hwf hkey hbefore hfuel
      cases fuel with
      | zero => omega
      | succ fuel =>
          rw [List.length_cons] at hfuel
          rw [List.cons_append] at hwf ⊢
          rw [attrsText_cons, attrValueStartFrom_attr (hwf.each first List.mem_cons_self) hkey hwf.ends,
            if_neg (hbefore first List.mem_cons_self)]
          exact ih hwf.tail hkey (fun b hb => hbefore b (List.mem_cons_of_mem _ hb)) (by omega)

/-- A key that no attribute has is not found. -/
theorem attrValueStartFrom_absent (hkey : IsKey key) : ∀ {attrs : List TextAttr} {fuel : Nat}, AttrsWf attrs →
    (∀ a ∈ attrs, a.key ≠ key) → attrValueStartFrom key fuel (attrsText attrs) = none := by
  intro attrs
  induction attrs with
  | nil =>
      intro fuel _ _
      cases fuel with
      | zero => rfl
      | succ fuel => rw [attrValueStartFrom, attrsText, List.flatMap_nil, if_pos rfl]
  | cons a attrs ih =>
      intro fuel hwf hother
      cases fuel with
      | zero => rfl
      | succ fuel =>
          rw [attrsText_cons, attrValueStartFrom_attr (hwf.each a List.mem_cons_self) hkey hwf.ends,
            if_neg (hother a List.mem_cons_self)]
          exact ih hwf.tail fun b hb => hother b (List.mem_cons_of_mem _ hb)

theorem length_le_attrsText {attrs : List TextAttr} (h : ∀ a ∈ attrs, a.Wf) :
    attrs.length ≤ (attrsText attrs).length := by
  induction attrs with
  | nil => simp
  | cons a attrs ih =>
      have htail := ih fun b hb => h b (List.mem_cons_of_mem _ hb)
      rw [attrsText_cons, List.length_append, List.length_cons, TextAttr.render]
      simp only [List.length_append, List.length_cons]
      omega

/-- The value of an attribute starts where it is written, and the rest of the list follows it. -/
theorem attrValueStart_found {before after : List TextAttr} {a : TextAttr} (hwf : AttrsWf (before ++ a :: after)) :
    attrValueStart (attrsText (before ++ a :: after)) a.key = some (a.value.render ++ attrsText after) := by
  have ha := hwf.each a (by simp)
  have hkeys := hwf.keys
  rw [List.map_append, List.map_cons, List.nodup_append] at hkeys
  have hlength := length_le_attrsText hwf.each
  rw [List.length_append] at hlength
  rw [attrValueStart, if_neg ha.key.1]
  apply attrValueStartFrom_found hwf ha.key
  · intro b hb
    exact hkeys.2.2 b.key (List.mem_map_of_mem hb) a.key List.mem_cons_self
  · omega

theorem attrValueStart_absent {attrs : List TextAttr} (hkey : IsKey key) (hwf : AttrsWf attrs)
    (habsent : ∀ a ∈ attrs, a.key ≠ key) : attrValueStart (attrsText attrs) key = none := by
  rw [attrValueStart, if_neg hkey.1]
  exact attrValueStartFrom_absent hkey hwf habsent

theorem ends_after {before after : List TextAttr} {a : TextAttr} (hwf : AttrsWf (before ++ a :: after)) :
    EndsValue (attrsText after) := by
  induction before with
  | nil => exact hwf.ends
  | cons first before ih => exact ih hwf.tail

/-- The value that is found is the value as it is written. -/
theorem attrValue_found {attrs : List TextAttr} {a : TextAttr} (hwf : AttrsWf attrs) (ha : a ∈ attrs) :
    (attrValueStart (attrsText attrs) a.key).map valueSpan = some a.value.raw := by
  obtain ⟨before, after, rfl⟩ := List.append_of_mem ha
  rw [attrValueStart_found hwf, Option.map_some, TextValue.valueSpan (hwf.each a ha).value (ends_after hwf)]

/-! ## Reading back -/

/-- `parse_attr_span`, for any key. -/
def keySpan (attrs key : Text) (outLen : Nat) : Option Text := do
  let value := valueSpan (← attrValueStart attrs key)
  if outLen < value.length + 1 then none else some value

theorem attrSpan_eq (attrs : Text) (key : String) (outLen : Nat) :
    attrSpan attrs key outLen = keySpan attrs (ascii key) outLen := rfl

/-- An attribute is read back from a list: its value as it stands, and the string that a quoted value is of. -/
structure TextAttr.ReadsBack (a : TextAttr) (attrs : Text) : Prop where
  span : ∀ outLen, a.value.raw.length < outLen → keySpan attrs a.key outLen = some a.value.raw
  string : ∀ t, a.value = .quoted t → ∀ outLen, t.1.length < outLen → unescapeString a.value.raw outLen = some t.1

theorem AttrsWf.readsBack {attrs : List TextAttr} {a : TextAttr} (hwf : AttrsWf attrs) (ha : a ∈ attrs) :
    a.ReadsBack (attrsText attrs) where
  span outLen hlength := by
    have hvalue := attrValue_found hwf ha
    obtain ⟨start, hstart, hspan⟩ := Option.map_eq_some_iff.1 hvalue
    rw [keySpan, hstart]
    simp only [Option.bind_eq_bind, Option.bind_some, hspan]
    rw [if_neg (by omega)]
  string t ht outLen hlength := by
    rw [ht, TextValue.raw, unescapeString, unescapeText_escapeText]
    simp only [Option.bind_eq_bind, Option.bind_some]
    rw [if_neg (by omega)]

end Aivm
