import Aivm.Compiler.Attributes
import Aivm.Compiler.Nodes

/-!
# Nodes as written

Trees of nodes and their text: `Kind#id(attrs) { children }`, with blanks between siblings. `parseNextNode` finds the
brackets that close a node when everything between them is balanced.
-/

namespace Aivm

/-! ## Balanced text -/

/-- A scan for the closing bracket goes through the text and comes out at the same depth. -/
def Balanced (opening closing : Byte) (text : Text) : Prop :=
  ∀ depth rest, 0 < depth → scanClose opening closing depth false (text ++ rest) =
    (scanClose opening closing depth false rest).map fun r => (text ++ r.1, r.2)

/-- Two different brackets, neither of them the quote or the backslash. -/
structure IsBrackets (opening closing : Byte) : Prop where
  different : opening ≠ closing
  openingByte : opening ≠ quote ∧ opening ≠ backslash
  closingByte : closing ≠ quote ∧ closing ≠ backslash

theorem parens_isBrackets : IsBrackets openParen closeParen := ⟨by decide, by decide, by decide⟩

theorem braces_isBrackets : IsBrackets openBrace closeBrace := ⟨by decide, by decide, by decide⟩

section Balanced

variable {opening closing : Byte} {text more : Text}

theorem balanced_nil : Balanced opening closing [] := by
  intro depth rest _
  simp

theorem Balanced.append (htext : Balanced opening closing text) (hmore : Balanced opening closing more) :
    Balanced opening closing (text ++ more) := by
  intro depth rest hdepth
  rw [List.append_assoc, htext depth _ hdepth, hmore depth rest hdepth, Option.map_map]
  apply congrArg (fun f => Option.map f _)
  funext r
  simp

theorem balanced_byte {b : Byte} (hquote : b ≠ quote) (hopening : b ≠ opening) (hclosing : b ≠ closing) :
    Balanced opening closing [b] := by
  intro depth rest _
  rw [List.singleton_append, scanClose]
  simp only [hquote, hopening, hclosing, false_and, if_false, decide_false]
  cases scanClose opening closing depth false rest <;> rfl

theorem balanced_of_bytes (h : ∀ b ∈ text, b ≠ quote ∧ b ≠ opening ∧ b ≠ closing) : Balanced opening closing text := by
  induction text with
  | nil => exact balanced_nil
  | cons b text ih =>
      obtain ⟨hquote, hopening, hclosing⟩ := h b List.mem_cons_self
      exact (balanced_byte hquote hopening hclosing).append (ih fun b hb => h b (List.mem_cons_of_mem _ hb))

theorem scanClose_quote (depth : Nat) (rest : Text) (hbrackets : IsBrackets opening closing) :
    scanClose opening closing depth false (quote :: rest) =
      (scanClose opening closing depth true rest).map fun r => (quote :: r.1, r.2) := by
  rw [scanClose]
  simp only [hbrackets.openingByte.1.symm, hbrackets.closingByte.1.symm, false_and, if_false, decide_true]
  cases scanClose opening closing depth true rest <;> rfl

/-- The quote that ends a string is found. -/
theorem scanClose_escapeText (depth : Nat) (t rest : Text) :
    scanClose opening closing depth true (escapeText t ++ quote :: rest) =
      (scanClose opening closing depth false rest).map fun r => (escapeText t ++ quote :: r.1, r.2) := by
  induction t with
  | nil =>
      cases rest with
      | nil => simp [escapeText, scanClose]
      | cons e rest =>
          have hslash : quote ≠ backslash := by decide
          simp only [escapeText, List.flatMap_nil, List.nil_append]
          rw [scanClose, if_neg hslash]
          simp only [ne_eq, not_true_eq_false, decide_false]
          cases scanClose opening closing depth false (e :: rest) <;> rfl
  | cons b t ih =>
      rw [escapeText_cons, List.append_assoc]
      rcases escapeByte_cases b with ⟨hplain, hslash, hquote⟩ | ⟨e, hescape⟩
      · rw [hplain, List.singleton_append]
        cases htail : escapeText t ++ quote :: rest with
        | nil => simp at htail
        | cons c tail =>
            rw [scanClose, if_neg hslash]
            simp only [ne_eq, hquote, not_false_eq_true, decide_true]
            rw [← htail, ih]
            cases scanClose opening closing depth false rest <;> simp
      · rw [hescape, List.cons_append, List.singleton_append, scanClose, if_pos rfl, ih]
        cases scanClose opening closing depth false rest <;> simp

theorem balanced_quoted (hbrackets : IsBrackets opening closing) (t : Text) :
    Balanced opening closing (quote :: escapeText t ++ [quote]) := by
  intro depth rest _
  rw [List.cons_append, List.cons_append, List.append_assoc, List.singleton_append, scanClose_quote _ _ hbrackets,
    scanClose_escapeText, Option.map_map]
  apply congrArg (fun f => Option.map f _)
  funext r
  simp

theorem scanClose_close {depth : Nat} (hbrackets : IsBrackets opening closing) (rest : Text) :
    scanClose opening closing (depth + 2) false (closing :: rest) =
      (scanClose opening closing (depth + 1) false rest).map fun r => (closing :: r.1, r.2) := by
  rw [scanClose]
  simp only [hbrackets.different.symm, hbrackets.closingByte.1, if_false, if_true, decide_false, true_and,
    show ¬ depth + 2 = 1 by omega, show depth + 2 - 1 = depth + 1 by omega]
  cases scanClose opening closing (depth + 1) false rest <;> rfl

theorem scanClose_open {depth : Nat} (hbrackets : IsBrackets opening closing) (rest : Text) :
    scanClose opening closing depth false (opening :: rest) =
      (scanClose opening closing (depth + 1) false rest).map fun r => (opening :: r.1, r.2) := by
  rw [scanClose]
  simp only [hbrackets.different, hbrackets.openingByte.1, if_false, if_true, decide_false, false_and]
  cases scanClose opening closing (depth + 1) false rest <;> rfl

/-- What is put in brackets is balanced again. -/
theorem Balanced.bracketed (hbrackets : IsBrackets opening closing) (h : Balanced opening closing text) :
    Balanced opening closing (opening :: text ++ [closing]) := by
  intro depth rest hdepth
  obtain ⟨depth, rfl⟩ := Nat.exists_eq_succ_of_ne_zero (Nat.pos_iff_ne_zero.1 hdepth)
  rw [List.cons_append, List.cons_append, List.append_assoc, List.singleton_append, scanClose_open hbrackets,
    h _ _ (by omega), scanClose_close hbrackets, Option.map_map, Option.map_map]
  apply congrArg (fun f => Option.map f _)
  funext r
  simp

/-- The bracket behind balanced text closes it. -/
theorem Balanced.findMatching (h : Balanced opening closing text) (rest : Text) :
    findMatching opening closing (text ++ closing :: rest) = some (text, rest) := by
  rw [Aivm.findMatching, h 1 _ (by omega), scanClose]
  simp

end Balanced

/-! ## Trees -/

/-- What a node consists of but for its children: `lead` stands before it, `gap` before its body and `trail` behind its
children. -/
structure NodeHead where
  lead : Text
  kind : Text
  id : Text
  attrs : List TextAttr
  parens : Bool
  gap : Text
  braces : Bool
  trail : Text

inductive TextNode where
  | mk (head : NodeHead) (children : List TextNode)

namespace TextNode

def head : TextNode → NodeHead
  | mk head _ => head

def children : TextNode → List TextNode
  | mk _ children => children

end TextNode

namespace NodeHead

/-- The text of the attributes, in parentheses. -/
def attrsPart (h : NodeHead) : Text :=
  if h.parens then openParen :: attrsText h.attrs ++ [closeParen] else []

/-- The text of the body, in braces. -/
def bodyPart (h : NodeHead) (inside : Text) : Text :=
  if h.braces then h.gap ++ (openBrace :: (inside ++ h.trail) ++ [closeBrace]) else []

/-- The text that stands in the body. -/
def body (h : NodeHead) (inside : Text) : Text := if h.braces then inside ++ h.trail else []

def render (h : NodeHead) (inside : Text) : Text :=
  h.lead ++ (h.kind ++ (hash :: h.id ++ (h.attrsPart ++ h.bodyPart inside)))

end NodeHead

mutual
def TextNode.render : TextNode → Text
  | .mk head children => head.render (renderAll children)

/-- The text of siblings. -/
def renderAll : List TextNode → Text
  | [] => []
  | n :: nodes => n.render ++ renderAll nodes
end

/-! ## Well-formed trees -/

/-- The bytes of kinds and identifiers. -/
def isNameByte (b : Byte) : Bool :=
  ¬ isSpace b ∧ b ≠ openParen ∧ b ≠ closeParen ∧ b ≠ openBrace ∧ b ≠ closeBrace

def IsBlankText (text : Text) : Prop := ∀ b ∈ text, isSpace b = true

structure NodeHead.Wf (h : NodeHead) : Prop where
  lead : IsBlankText h.lead
  kind : h.kind ≠ [] ∧ ∀ b ∈ h.kind, isNameByte b = true ∧ b ≠ hash
  kindLength : h.kind.length < 32
  id : ∀ b ∈ h.id, isNameByte b = true
  attrs : AttrsWf h.attrs
  attrsLength : (attrsText h.attrs).length < 512
  parens : h.attrs ≠ [] → h.parens = true
  gap : IsBlankText h.gap
  trail : IsBlankText h.trail

mutual
/-- A tree whose parts are well formed, with blanks between siblings. -/
def TextNode.Wf : TextNode → Prop
  | .mk head children => head.Wf ∧ (children ≠ [] → head.braces = true) ∧ AllWf children

def AllWf : List TextNode → Prop
  | [] => True
  | n :: nodes => n.Wf ∧ (∀ m ∈ nodes.head?, m.head.lead ≠ []) ∧ AllWf nodes
end

/-- A value that can stand in a body. -/
def TextValue.Plain : TextValue → Prop
  | .quoted _ => True
  | .bare word => ∀ b ∈ word, b ≠ openBrace ∧ b ≠ closeBrace

/-- A node that can stand in a body. -/
structure NodeHead.Plain (h : NodeHead) : Prop where
  kind : quote ∉ h.kind
  id : quote ∉ h.id
  attrs : ∀ a ∈ h.attrs, a.value.Plain

mutual
/-- The nodes in the body of a node are plain. -/
def TextNode.PlainBody : TextNode → Prop
  | .mk _ children => AllPlain children

def AllPlain : List TextNode → Prop
  | [] => True
  | n :: nodes => n.head.Plain ∧ n.PlainBody ∧ AllPlain nodes
end

/-! ## What is balanced -/

theorem isNameByte_iff {b : Byte} : isNameByte b = true ↔ isSpace b = false ∧ b ≠ openParen ∧ b ≠ closeParen ∧
    b ≠ openBrace ∧ b ≠ closeBrace := by
  simp [isNameByte]

theorem isSpace_not_bracket {b : Byte} (h : isSpace b = true) : b ≠ quote ∧ b ≠ openParen ∧ b ≠ closeParen ∧
    b ≠ openBrace ∧ b ≠ closeBrace ∧ b ≠ hash := by
  refine ⟨?_, ?_, ?_, ?_, ?_, ?_⟩ <;> intro heq <;> rw [heq] at h <;> revert h <;> decide

/-- Brackets that no key and no blank is; a bare word may have them. -/
structure IsAttrBrackets (opening closing : Byte) : Prop extends IsBrackets opening closing where
  key : ∀ b, isKeyByte b = true → b ≠ opening ∧ b ≠ closing
  equals : equals ≠ opening ∧ equals ≠ closing
  blank : ∀ b, isSpace b = true → b ≠ opening ∧ b ≠ closing

theorem parens_isAttrBrackets : IsAttrBrackets openParen closeParen where
  toIsBrackets := parens_isBrackets
  key b hb := by
    obtain ⟨-, -, -, -, hopen, hclose, -⟩ := isKeyByte_iff.1 hb
    exact ⟨hopen, hclose⟩
  equals := by decide
  blank b hb := by
    obtain ⟨-, hopen, hclose, -⟩ := isSpace_not_bracket hb
    exact ⟨hopen, hclose⟩

theorem braces_isAttrBrackets : IsAttrBrackets openBrace closeBrace where
  toIsBrackets := braces_isBrackets
  key b hb := by
    obtain ⟨-, -, -, -, -, -, hopen, hclose⟩ := isKeyByte_iff.1 hb
    exact ⟨hopen, hclose⟩
  equals := by decide
  blank b hb := by
    obtain ⟨-, -, -, hopen, hclose, -⟩ := isSpace_not_bracket hb
    exact ⟨hopen, hclose⟩

section Attributes

variable {opening closing : Byte}

/-- An attribute is balanced when its bare word has no brackets. -/
theorem TextAttr.balanced (hbrackets : IsAttrBrackets opening closing) {a : TextAttr} (ha : a.Wf)
    (hword : ∀ word, a.value = .bare word → ∀ b ∈ word, b ≠ opening ∧ b ≠ closing) :
    Balanced opening closing a.render := by
  have hgap : Balanced opening closing a.gap := by
    apply balanced_of_bytes
    intro b hb
    have hspace := isSpace_of_isBlank (ha.gap b hb)
    exact ⟨(isSpace_not_bracket hspace).1, hbrackets.blank b hspace⟩
  have hkey : Balanced opening closing a.key := by
    apply balanced_of_bytes
    intro b hb
    exact ⟨(isKeyByte_iff.1 (ha.key.2 b hb)).2.1, hbrackets.key b (ha.key.2 b hb)⟩
  have hequals : Balanced opening closing [equals] :=
    balanced_byte (by decide) hbrackets.equals.1 hbrackets.equals.2
  have hvalue : Balanced opening closing a.value.render := by
    have hwf := ha.value
    cases hcase : a.value with
    | quoted t => exact balanced_quoted hbrackets.toIsBrackets t.1
    | bare word =>
        rw [hcase] at hwf
        apply balanced_of_bytes
        intro b hb
        exact ⟨(isWordByte_iff.1 (hwf.2 b hb)).2.1, hword word hcase b hb⟩
  exact hgap.append (hkey.append (hequals.append hvalue))

theorem attrsText_balanced (hbrackets : IsAttrBrackets opening closing) {attrs : List TextAttr}
    (hwf : ∀ a ∈ attrs, a.Wf)
    (hword : ∀ a ∈ attrs, ∀ word, a.value = .bare word → ∀ b ∈ word, b ≠ opening ∧ b ≠ closing) :
    Balanced opening closing (attrsText attrs) := by
  induction attrs with
  | nil => exact balanced_nil
  | cons a attrs ih =>
      rw [attrsText_cons]
      apply Balanced.append
      · exact TextAttr.balanced hbrackets (hwf a List.mem_cons_self) (hword a List.mem_cons_self)
      · apply ih
        · exact fun b hb => hwf b (List.mem_cons_of_mem _ hb)
        · exact fun b hb => hword b (List.mem_cons_of_mem _ hb)

end Attributes

/-- Attributes are balanced in parentheses. -/
theorem AttrsWf.balanced {attrs : List TextAttr} (h : AttrsWf attrs) :
    Balanced openParen closeParen (attrsText attrs) := by
  apply attrsText_balanced parens_isAttrBrackets h.each
  intro a ha word hword b hb
  have hwf := (h.each a ha).value
  rw [hword] at hwf
  obtain ⟨-, -, -, hopen, hclose⟩ := isWordByte_iff.1 (hwf.2 b hb)
  exact ⟨hopen, hclose⟩

theorem IsBlankText.balanced {text : Text} (h : IsBlankText text) : Balanced openBrace closeBrace text := by
  apply balanced_of_bytes
  intro b hb
  obtain ⟨hquote, -, -, hopen, hclose, -⟩ := isSpace_not_bracket (h b hb)
  exact ⟨hquote, hopen, hclose⟩

theorem balanced_name {name : Text} (hname : ∀ b ∈ name, isNameByte b = true) (hquote : quote ∉ name) :
    Balanced openBrace closeBrace name := by
  apply balanced_of_bytes
  intro b hb
  obtain ⟨-, -, -, hopen, hclose⟩ := isNameByte_iff.1 (hname b hb)
  exact ⟨fun heq => hquote (heq ▸ hb), hopen, hclose⟩

/-- A plain node is balanced in braces. -/
theorem NodeHead.balanced {h : NodeHead} {inside : Text} (hwf : h.Wf) (hplain : h.Plain)
    (hinside : Balanced openBrace closeBrace inside) : Balanced openBrace closeBrace (h.render inside) := by
  have hkind := balanced_name (fun b hb => (hwf.kind.2 b hb).1) hplain.kind
  have hhash : Balanced openBrace closeBrace [hash] := balanced_byte (by decide) (by decide) (by decide)
  have hid := balanced_name hwf.id hplain.id
  have hattrs : Balanced openBrace closeBrace h.attrsPart := by
    unfold attrsPart
    split_ifs with hparens
    · have hopen : Balanced openBrace closeBrace [openParen] := balanced_byte (by decide) (by decide) (by decide)
      have hclose : Balanced openBrace closeBrace [closeParen] := balanced_byte (by decide) (by decide) (by decide)
      have hwords : Balanced openBrace closeBrace (attrsText h.attrs) := by
        apply attrsText_balanced braces_isAttrBrackets hwf.attrs.each
        intro a ha word hword b hb
        have hvalue := hplain.attrs a ha
        rw [hword] at hvalue
        exact hvalue b hb
      exact (hopen.append hwords).append hclose
    · exact balanced_nil
  have hbody : Balanced openBrace closeBrace (h.bodyPart inside) := by
    unfold bodyPart
    split_ifs with hbraces
    · exact hwf.gap.balanced.append ((hinside.append hwf.trail.balanced).bracketed braces_isBrackets)
    · exact balanced_nil
  exact hwf.lead.balanced.append (hkind.append ((hhash.append hid).append (hattrs.append hbody)))

mutual
theorem TextNode.balanced : (n : TextNode) → n.Wf → n.head.Plain → n.PlainBody → Balanced openBrace closeBrace n.render
  | .mk head children, hwf, hplain, hbody => by
      rw [TextNode.render]
      exact NodeHead.balanced hwf.1 hplain (renderAll_balanced children hwf.2.2 hbody)

/-- What stands in a body is balanced in braces. -/
theorem renderAll_balanced : (nodes : List TextNode) → AllWf nodes → AllPlain nodes →
    Balanced openBrace closeBrace (renderAll nodes)
  | [], _, _ => balanced_nil
  | n :: nodes, hwf, hplain => by
      rw [renderAll]
      exact (TextNode.balanced n hwf.1 hplain.1 hplain.2.1).append (renderAll_balanced nodes hwf.2.2 hplain.2.2)
end

end Aivm
