import Aivm.Packages.Declarations

/-!
# Additions to manifests

An addition is a line between two texts that are searched one after the other. It is one declaration, and a removal of its
package takes this line away again.
-/

namespace Aivm

variable {package text out rest cursor before after line white : Text} {manifest : Text} {lines others : List Text}
  {record : PackageRecord} {i : Insertion} {b left right : Byte}

/-! ## The place of an addition -/

/-- The matching delimiter starts a text that ends the given one. -/
theorem matchFrom_some {depth : Nat} {inString : Bool} {previous : Option Byte}
    (h : matchFrom left right depth inString previous text = some rest) : rest <:+ text ∧ rest.head? = some right := by
  induction text generalizing depth inString previous with
  | nil => cases h
  | cons b text ih =>
      have hnext : ∀ {depth inString}, matchFrom left right depth inString (some b) text = some rest →
          rest <:+ b :: text ∧ rest.head? = some right := by
        intro depth inString hfound
        exact ⟨(ih hfound).1.trans (List.suffix_cons b text), (ih hfound).2⟩
      simp only [matchFrom] at h
      generalize (if b = quote ∧ previous ≠ some backslash then !inString else inString) = quoted at h
      split at h
      · exact hnext h
      · split at h
        · exact hnext h
        · split at h
          · rename_i hright
            split at h
            · cases h
              exact ⟨List.suffix_refl _, by rw [hright]; rfl⟩
            · exact hnext h
          · exact hnext h

theorem findMatchingDelim_some (h : findMatchingDelim text left right = some rest) :
    rest <:+ text ∧ rest.head? = some right := by
  rw [findMatchingDelim] at h
  split at h
  · exact matchFrom_some h
  · cases h

theorem textBefore_append (h : rest <:+ manifest) : textBefore manifest rest ++ rest = manifest := by
  obtain ⟨start, rfl⟩ := h
  simp [textBefore]

/-- The two kinds of places: before the brace that ends the block, and behind the attributes. -/
inductive Insertion.Placed (manifest : Text) : Insertion → Prop
  | block (before tail : Text) (h : manifest = before ++ closeBrace :: tail) :
      Placed manifest ⟨before, if before ≠ [] ∧ before.getLast? ≠ some 10 then [10] else [], [], closeBrace :: tail, 0⟩
  | attrs (start white after : Text) (h : manifest = start ++ [closeParen] ++ white ++ after) :
      Placed manifest ⟨start ++ [closeParen], ascii " \x7b\n", ascii "  \x7d\n", after, 7⟩

theorem insertionPoint_placed (h : insertionPoint manifest = some i) : i.Placed manifest := by
  rw [insertionPoint] at h
  cases hclose : findProjectAttrClose manifest with
  | none =>
      rw [hclose] at h
      cases h
  | some attrClose =>
      have hattrs : attrClose <:+ manifest ∧ attrClose.head? = some closeParen := by
        rw [findProjectAttrClose] at hclose
        split at hclose
        · cases hclose
        · rename_i project hproject
          have hfound := findMatchingDelim_some hclose
          exact ⟨hfound.1.trans ((List.dropWhile_suffix _).trans (strstr_some hproject).1), hfound.2⟩
      obtain ⟨attrsEnd, rfl⟩ := List.head?_eq_some_iff.1 hattrs.2
      have hend : attrsEnd <:+ manifest := (List.suffix_cons _ _).trans hattrs.1
      rw [hclose] at h
      simp only [List.drop_one, List.tail_cons] at h
      split at h
      · split at h
        · cases h
        · rename_i projectEnd hproject
          have hfound := findMatchingDelim_some hproject
          obtain ⟨tail, rfl⟩ := List.head?_eq_some_iff.1 hfound.2
          have htail : closeBrace :: tail <:+ manifest := hfound.1.trans ((List.dropWhile_suffix _).trans hend)
          cases h
          exact .block _ tail (textBefore_append htail).symm
      · cases h
        obtain ⟨start, hstart⟩ := hattrs.1
        have hbefore : textBefore manifest attrsEnd = start ++ [closeParen] := by
          apply (List.append_left_inj attrsEnd).1
          rw [textBefore_append hend, ← hstart, List.append_assoc, List.singleton_append]
        rw [hbefore]
        apply Insertion.Placed.attrs start (attrsEnd.takeWhile isSpace)
        rw [List.append_assoc, List.takeWhile_append_dropWhile, ← hstart]
        simp

/-- The text before the new line is empty or ends in a line break. -/
theorem Insertion.Placed.head (h : i.Placed manifest) :
    i.before ++ i.opening = [] ∨ (i.before ++ i.opening).getLast? = some 10 := by
  cases h with
  | block before tail h =>
      simp only
      split
      · exact Or.inr (by simp)
      · rename_i hlast
        by_cases hnil : before = []
        · exact Or.inl (by simp [hnil])
        · have hbreak : before.getLast? = some 10 := by
            by_contra hother
            exact hlast ⟨hnil, hother⟩
          exact Or.inr (by rw [List.append_nil]; exact hbreak)
  | attrs start white after h => exact Or.inr (by simp [ascii])

theorem Insertion.Placed.fits (h : i.Placed manifest) :
    (i.before ++ i.opening ++ line ++ i.closing ++ i.after).length + 1 ≤ manifest.length + line.length + i.extra + 2 := by
  cases h with
  | block before tail h =>
      subst h
      simp only [List.length_append, List.length_cons, List.length_nil]
      split
      · simp only [List.length_cons, List.length_nil]
        omega
      · simp only [List.length_nil]
        omega
  | attrs start white after h =>
      subst h
      have hopening : (ascii " \x7b\n").length = 3 := by decide
      have hclosing : (ascii "  \x7d\n").length = 4 := by decide
      simp only [List.length_append, List.length_cons, List.length_nil, hopening, hclosing]
      omega

/-- With little white space behind the attributes, the rest of the text is unchanged. -/
theorem Insertion.Placed.unchanged (h : i.Placed manifest) (hwhite : white ∈ whiteKept)
    (hsplit : manifest = i.before ++ white ++ i.after) :
    ∃ before inserted after, manifest = before ++ after ∧
      i.before ++ i.opening ++ line ++ i.closing ++ i.after = before ++ inserted ++ after := by
  cases h with
  | block before tail h =>
      simp only
      generalize (if before ≠ [] ∧ before.getLast? ≠ some 10 then ([10] : Text) else []) = opening
      exact ⟨before, opening ++ line, closeBrace :: tail, h, by simp⟩
  | attrs start white' after h =>
      have hopening : ascii " \x7b\n" = 32 :: ascii "\x7b\n" := by decide
      have hclosing : ascii "  \x7d\n" = ascii "  \x7d" ++ [10] := by decide
      simp only [whiteKept, List.mem_cons, List.not_mem_nil, or_false] at hwhite
      simp only at hsplit ⊢
      rcases hwhite with rfl | rfl | rfl | rfl
      · exact ⟨start ++ [closeParen], ascii " \x7b\n" ++ line ++ ascii "  \x7d\n", after, by simpa using hsplit, by simp⟩
      · exact ⟨start ++ [closeParen] ++ [32], ascii "\x7b\n" ++ line ++ ascii "  \x7d\n", after, hsplit,
          by simp [hopening]⟩
      · exact ⟨start ++ [closeParen], ascii " \x7b\n" ++ line ++ ascii "  \x7d", 10 :: after, by simpa using hsplit,
          by simp [hclosing]⟩
      · exact ⟨start ++ [closeParen] ++ [32], ascii "\x7b\n" ++ line ++ ascii "  \x7d", 10 :: after,
          by simpa using hsplit, by simp [hopening, hclosing]⟩

/-! ## The new line -/

/-- The start of the new declaration, up to its first quote. -/
def includeHead (id : Text) : Text := includeWord ++ (ascii "#dep_" ++ id ++ ascii "(name=")

/-- The new declaration. -/
def includeDeclaration (id : Text) (record : PackageRecord) : Text :=
  joinStops quote [includeHead id, record.name, ascii " version=", record.version] []

theorem includeLine_eq (id : Text) (record : PackageRecord) :
    includeLine id record = ascii "    " ++ (includeDeclaration id record ++ closeParen :: [10]) := by
  have hstart : ascii "    Include#dep_" = ascii "    " ++ (includeWord ++ ascii "#dep_") := by decide
  have hname : ascii "(name=\"" = ascii "(name=" ++ [quote] := by decide
  have hversion : ascii "\" version=\"" = quote :: ascii " version=" ++ [quote] := by decide
  have hend : ascii "\")\n" = [quote, closeParen, 10] := by decide
  rw [includeLine, hstart, hname, hversion, hend]
  simp [includeDeclaration, joinStops, includeHead]

/-- An identifier has small letters, digits and underscores. -/
theorem sanitizeIdByte_range (b : Byte) :
    (48 ≤ sanitizeIdByte b ∧ sanitizeIdByte b ≤ 57) ∨ (95 ≤ sanitizeIdByte b ∧ sanitizeIdByte b ≤ 122) := by
  rw [sanitizeIdByte]
  split
  · rename_i hupper
    rw [isUpper, decide_eq_true_eq] at hupper
    right
    grind
  · split
    · rename_i hkept
      rw [isDigit, decide_eq_true_eq] at hkept
      grind
    · decide

theorem sanitizeId_not_mem {input id : Text} {outLen : Nat} (h : sanitizeId input outLen = some id)
    (hb : ¬ (48 ≤ b ∧ b ≤ 57) ∧ ¬ (95 ≤ b ∧ b ≤ 122)) : b ∉ id := by
  rw [sanitizeId] at h
  split at h
  · cases h
  · cases h
    intro hmem
    obtain ⟨c, -, rfl⟩ := List.mem_map.1 hmem
    exact (sanitizeIdByte_range c).elim hb.1 hb.2

theorem Quotable.clean (h : Quotable record) {id : Text} (hid : sanitizeId record.name 160 = some id) :
    ∀ a ∈ [includeHead id, record.name, ascii " version=", record.version], quote ∉ a ∧ closeParen ∉ a := by
  have hquote : quote ∉ id := sanitizeId_not_mem hid (by decide)
  have hclose : closeParen ∉ id := sanitizeId_not_mem hid (by decide)
  have hword : quote ∉ includeWord ∧ closeParen ∉ includeWord := by decide
  have hdep : quote ∉ ascii "#dep_" ∧ closeParen ∉ ascii "#dep_" := by decide
  have hname : quote ∉ ascii "(name=" ∧ closeParen ∉ ascii "(name=" := by decide
  have hversion : quote ∉ ascii " version=" ∧ closeParen ∉ ascii " version=" := by decide
  simp only [List.mem_cons, List.not_mem_nil, or_false, forall_eq_or_imp, forall_eq]
  refine ⟨?_, ⟨h.name.1, h.name.2.2⟩, hversion, h.version.1, h.version.2.2⟩
  simp only [includeHead, List.mem_append, not_or]
  exact ⟨⟨hword.1, ⟨hdep.1, hquote⟩, hname.1⟩, ⟨hword.2, ⟨hdep.2, hclose⟩, hname.2⟩⟩

/-- A text that ends in another one ends in what that one ends in, and in nothing else of its length. -/
theorem not_suffix_append {long short start : Text} (hlength : short.length ≤ long.length) (h : ¬ short <:+ long) :
    ¬ long <:+ start ++ short := by
  intro hsuffix
  exact h (List.suffix_of_suffix_length_le (List.suffix_append start short) hsuffix hlength)

theorem attributeOf_segments {key : String} {segments : List Text} {v : Text} {outLen : Nat}
    (hkey : quote ∉ ascii key ++ ascii "=") (hclean : ∀ a ∈ segments, quote ∉ a)
    (h : segmentAfter (ascii key ++ ascii "=") segments = some v) (hlength : v.length < outLen) :
    attributeOf (joinStops quote segments []) key outLen = some v := by
  obtain ⟨after, hafter⟩ := @nextValue_segments _ [] v quote hkey segments hclean h
  rw [attributeOf, hafter]
  exact if_neg (by omega)

/-- The new declaration says the name and the version of the record, also with blanks before it. -/
theorem readDeclaration_include {id : Text} (h : Quotable record) (hversion : OwnVersion record)
    (hid : sanitizeId record.name 160 = some id) (hbefore : quote ∉ before) :
    readDeclaration (before ++ includeDeclaration id record) = some ⟨record.name, record.version⟩ := by
  have hclean : ∀ a ∈ [before ++ includeHead id, record.name, ascii " version=", record.version], quote ∉ a := by
    have hown := h.clean hid
    simp only [List.mem_cons, List.not_mem_nil, or_false, forall_eq_or_imp, forall_eq] at hown ⊢
    refine ⟨?_, hown.2.1.1, hown.2.2.1.1, hown.2.2.2.1⟩
    rw [List.mem_append, not_or]
    exact ⟨hbefore, hown.1.1⟩
  have hsegments : before ++ includeDeclaration id record =
      joinStops quote [before ++ includeHead id, record.name, ascii " version=", record.version] [] :=
    (List.append_assoc _ _ _).symm
  have hnameKey : ascii "name" ++ ascii "=" = ascii "name=" := by decide
  have hversionKey : ascii "version" ++ ascii "=" = ascii "version=" := by decide
  have hname : attributeOf (before ++ includeDeclaration id record) "name" 128 = some record.name := by
    rw [hsegments]
    apply attributeOf_segments (by decide) hclean _ h.nameFits
    have hend : ascii "name=" <:+ before ++ includeHead id := by
      have hlast : ascii "(name=" = [openParen] ++ ascii "name=" := by decide
      rw [includeHead, hlast]
      exact ⟨before ++ (includeWord ++ (ascii "#dep_" ++ id ++ [openParen])), by simp⟩
    rw [hnameKey, segmentAfter, if_pos hend]
  have hown : attributeOf (before ++ includeDeclaration id record) "version" 64 = some record.version := by
    rw [hsegments]
    apply attributeOf_segments (by decide) hclean _ h.versionFits
    have hhead : ¬ ascii "version=" <:+ before ++ includeHead id := by
      rw [includeHead, ← List.append_assoc, ← List.append_assoc]
      exact not_suffix_append (by decide) (by decide)
    have hlast : ascii "version=" <:+ ascii " version=" := by decide
    rw [hversionKey, segmentAfter, if_neg hhead, segmentAfter]
    by_cases hname : ascii "version=" <:+ record.name
    · rw [if_pos hname, hversion hname]
    · rw [if_neg hname, segmentAfter, if_pos hlast]
  rw [readDeclaration, hname, hown]
  rfl

theorem includeDeclaration_declares {id : Text} (h : Quotable record) (hversion : OwnVersion record)
    (hid : sanitizeId record.name 160 = some id) : Declares record.name (includeDeclaration id record) := by
  refine ⟨?_, ?_, _, @readDeclaration_include [] record id h hversion hid (by simp), rfl⟩
  · exact ⟨_, (List.append_assoc includeWord _ _).symm⟩
  · have hclean := h.clean hid
    simp only [List.mem_cons, List.not_mem_nil, or_false, forall_eq_or_imp, forall_eq] at hclean
    have hquote : closeParen ≠ quote := by decide
    simp only [includeDeclaration, joinStops, List.foldr_cons, List.foldr_nil, List.mem_append, List.mem_cons,
      List.not_mem_nil, not_or, hquote, not_false_eq_true, and_true, true_and]
    exact ⟨hclean.1.2, hclean.2.1.2, hclean.2.2.1.2, hclean.2.2.2.2⟩

/-- A word in the name or in the version of the record does not read as a declaration. -/
theorem readDeclaration_later (hclean : ∀ a ∈ [cursor, ascii " version=", text], quote ∉ a)
    (hcursor : ¬ ascii "name=" <:+ cursor) :
    readDeclaration (joinStops quote [cursor, ascii " version=", text] []) = none := by
  have hkey : ascii "name" ++ ascii "=" = ascii "name=" := by decide
  have hversion : ¬ ascii "name=" <:+ ascii " version=" := by decide
  simp only [List.mem_cons, List.not_mem_nil, or_false, forall_eq_or_imp, forall_eq] at hclean
  have hattribute : attributeOf (joinStops quote [cursor, ascii " version=", text] []) "name" 128 = none := by
    rw [attributeOf, hkey, joinStops, List.foldr_cons, List.foldr_cons, List.foldr_cons, List.foldr_nil,
      nextValue_later (by decide) hclean.1 hcursor, nextValue_later (by decide) hclean.2.1 hversion]
    split
    · rename_i v after hvalue
      exact (nextValue_last hclean.2.2 hvalue).elim
    · rfl
  rw [readDeclaration, hattribute]

theorem readDeclaration_last (hclean : quote ∉ cursor) : readDeclaration (cursor ++ [quote]) = none := by
  have hkey : ascii "name" ++ ascii "=" = ascii "name=" := by decide
  have hattribute : attributeOf (cursor ++ [quote]) "name" 128 = none := by
    rw [attributeOf, hkey]
    split
    · rename_i v after hvalue
      exact (nextValue_last hclean hvalue).elim
    · rfl
  rw [readDeclaration, hattribute]

/-- The words of the new declaration: its own, and those in the name and in the version. -/
theorem occurrences_includeDeclaration {id : Text} (hid : sanitizeId record.name 160 = some id) :
    occurrences includeWord (includeDeclaration id record) = includeDeclaration id record ::
      ((occurrences includeWord record.name).map (fun c => joinStops quote [c, ascii " version=", record.version] []) ++
        (occurrences includeWord record.version).map (fun c => c ++ [quote])) := by
  have hquote : quote ∉ includeWord := by decide
  have hword : (73 : Byte) ∈ includeWord := by decide
  have hversion : occurrences includeWord (ascii " version=") = [] := occurrences_absent hword (by decide)
  have hhead : occurrences includeWord (includeHead id) = [includeHead id] := by
    have hrest : occurrences includeWord (ascii "#dep_" ++ id ++ ascii "(name=") = [] := by
      have hid' : (73 : Byte) ∉ id := sanitizeId_not_mem hid (by decide)
      have hdep : (73 : Byte) ∉ ascii "#dep_" ∧ (73 : Byte) ∉ ascii "(name=" := by decide
      exact occurrences_absent hword (by simp [hid', hdep])
    rw [includeHead, occurrences_some includeWord_ne_nil (strstr_start (List.prefix_append _ _)), List.drop_left, hrest]
  simp only [includeDeclaration, joinStops, List.foldr_cons, List.foldr_nil]
  rw [occurrences_past hquote includeWord_ne_nil, occurrences_past hquote includeWord_ne_nil,
    occurrences_past hquote includeWord_ne_nil, occurrences_past hquote includeWord_ne_nil, hhead, hversion,
    occurrences_nil includeWord_ne_nil]
  simp

/-- The new line is one declaration. -/
theorem declarations_includeLine {id : Text} (h : Quotable record) (hversion : OwnVersion record)
    (hname : ¬ (includeWord <:+: record.name ∧ ascii "name=" <:+ record.name))
    (hid : sanitizeId record.name 160 = some id) :
    declarations (includeLine id record) = [(includeDeclaration id record, ⟨record.name, record.version⟩)] := by
  have hdeclares := includeDeclaration_declares h hversion hid
  have hclean := h.clean hid
  simp only [List.mem_cons, List.not_mem_nil, or_false, forall_eq_or_imp, forall_eq] at hclean
  have hblanks : ∀ b ∈ ascii "    ", b ∉ includeWord := by decide +kernel
  have hbreak : occurrences includeWord [10] = [] :=
    occurrences_absent (by decide : (73 : Byte) ∈ includeWord) (by decide)
  have hread : ∀ c, closeParen ∉ c → readAt (c ++ closeParen :: [10]) = (readDeclaration c).map fun d => (c, d) := by
    intro c hc
    have hclose : declarationAt (closeParen :: [10]) = some [] := by decide
    rw [readAt, declarationAt_open hc, hclose]
    simp
  have htells : readDeclaration (includeDeclaration id record) = some ⟨record.name, record.version⟩ :=
    @readDeclaration_include [] record id h hversion hid (by simp)
  have hother : ∀ c ∈ (occurrences includeWord record.name).map
        (fun c => joinStops quote [c, ascii " version=", record.version] []) ++
      (occurrences includeWord record.version).map (fun c => c ++ [quote]), readAt (c ++ closeParen :: [10]) = none := by
    have hquote : closeParen ≠ quote := by decide
    intro c hc
    rcases List.mem_append.1 hc with hmem | hmem
    · obtain ⟨cursor, hcursor, rfl⟩ := List.mem_map.1 hmem
      obtain ⟨hsuffix, hstart⟩ := occurrences_suffix includeWord_ne_nil hcursor
      have hclose : closeParen ∉ joinStops quote [cursor, ascii " version=", record.version] [] := by
        simp only [joinStops, List.foldr_cons, List.foldr_nil, List.mem_append, List.mem_cons, List.not_mem_nil, not_or,
          hquote, not_false_eq_true, and_true, true_and]
        exact ⟨fun hmem => hclean.2.1.2 (hsuffix.subset hmem), hclean.2.2.1.2, hclean.2.2.2.2⟩
      have hend : ¬ ascii "name=" <:+ cursor := fun hend =>
        hname ⟨hstart.isInfix.trans hsuffix.isInfix, hend.trans hsuffix⟩
      have hquotes : ∀ a ∈ [cursor, ascii " version=", record.version], quote ∉ a := by
        simp only [List.mem_cons, List.not_mem_nil, or_false, forall_eq_or_imp, forall_eq]
        exact ⟨fun hmem => hclean.2.1.1 (hsuffix.subset hmem), hclean.2.2.1.1, hclean.2.2.2.1⟩
      rw [hread _ hclose, readDeclaration_later hquotes hend]
      rfl
    · obtain ⟨cursor, hcursor, rfl⟩ := List.mem_map.1 hmem
      have hsuffix := (occurrences_suffix includeWord_ne_nil hcursor).1
      have hclose : closeParen ∉ cursor ++ [quote] := by
        simp only [List.mem_append, List.mem_singleton, not_or, hquote, not_false_eq_true, and_true]
        exact fun hmem => hclean.2.2.2.2 (hsuffix.subset hmem)
      rw [hread _ hclose, readDeclaration_last fun hmem => hclean.2.2.2.1 (hsuffix.subset hmem)]
      rfl
  rw [declarations, includeLine_eq, occurrences_pass includeWord_ne_nil hblanks,
    occurrences_past closeParen_not_mem includeWord_ne_nil, hbreak, List.append_nil, occurrences_includeDeclaration hid,
    List.map_cons, List.filterMap_cons, List.filterMap_map, hread _ hdeclares.single, htells]
  simp only [Option.map_some, List.cons.injEq, true_and, List.filterMap_eq_nil_iff]
  exact hother

theorem includeLine_deletes {id : Text} (h : Quotable record) (hversion : OwnVersion record)
    (hid : sanitizeId record.name 160 = some id) : OnlyDeletes record.name (includeLine id record) [] := by
  have hblanks : ascii "    " = [32, 32, 32, 32] := by decide
  rw [includeLine_eq, hblanks]
  apply OnlyDeletes.white 32 (by decide)
  apply OnlyDeletes.white 32 (by decide)
  apply OnlyDeletes.white 32 (by decide)
  apply OnlyDeletes.white 32 (by decide)
  apply OnlyDeletes.declaration (includeDeclaration_declares h hversion hid)
  exact OnlyDeletes.white 10 (by decide) .done

/-! ## Adding -/

/-- The texts before and behind the new line are searched one after the other. -/
theorem Insertion.Placed.cut (h : i.Placed manifest) :
    ∃ b, b ∉ includeWord ∧ (i.before.getLast? = some b ∨ i.after.head? = some b) := by
  cases h with
  | block before tail h => exact ⟨closeBrace, by decide, Or.inr rfl⟩
  | attrs start white after h => exact ⟨closeParen, closeParen_not_mem, Or.inl (by simp)⟩

theorem Insertion.Placed.plain (h : i.Placed manifest) :
    (∀ b ∈ i.opening, b ∉ includeWord) ∧ ∀ b ∈ i.closing, b ∉ includeWord := by
  cases h with
  | block before tail h =>
      have hbreak : ∀ b ∈ ([10] : Text), b ∉ includeWord := by simp [break_not_mem]
      constructor
      · intro b hb
        simp only at hb
        split at hb
        · exact hbreak b hb
        · cases hb
      · simp
  | attrs start white after h =>
      have hopening : ∀ b ∈ ascii " \x7b\n", b ∉ includeWord := by decide +kernel
      have hclosing : ∀ b ∈ ascii "  \x7d\n", b ∉ includeWord := by decide +kernel
      exact ⟨hopening, hclosing⟩

theorem whiteKept_plain (h : white ∈ whiteKept) : ∀ b ∈ white, b ∉ includeWord := by
  have hall : ∀ white ∈ whiteKept, ∀ b ∈ white, b ∉ includeWord := by decide +kernel
  exact hall white h

/-- The declarations of a manifest are those before the new line and those behind it. -/
theorem Addable.split (h : Addable manifest record i) (hplaced : i.Placed manifest) :
    declarations manifest = declarations i.before ++ declarations i.after := by
  obtain ⟨white, hwhite, hsplit⟩ := h.white
  obtain ⟨b, hb, hcut⟩ := hplaced.cut
  have hcut' : ∃ b, b ∉ includeWord ∧ (i.before.getLast? = some b ∨ (white ++ i.after).head? = some b) := by
    cases white with
    | nil => exact ⟨b, hb, hcut⟩
    | cons c white => exact ⟨c, whiteKept_plain hwhite c List.mem_cons_self, Or.inr rfl⟩
  obtain ⟨c, hc, hcut'⟩ := hcut'
  rw [hsplit, List.append_assoc, declarations_append hc hcut' h.closed, declarations_pass (whiteKept_plain hwhite)]

theorem includeLine_last (id : Text) (record : PackageRecord) : (includeLine id record).getLast? = some 10 := by
  rw [includeLine_eq]
  simp

/-- The new declaration stands between the others. -/
theorem Addable.added {id : Text} (h : Addable manifest record i) (hplaced : i.Placed manifest)
    (hrecord : Quotable record) (hid : sanitizeId record.name 160 = some id) :
    declarations (i.before ++ i.opening ++ includeLine id record ++ i.closing ++ i.after) =
      declarations i.before ++ (includeDeclaration id record, ⟨record.name, record.version⟩) ::
        declarations i.after := by
  have hclosed : ∀ cursor ∈ occurrences includeWord (i.before ++ i.opening), closeParen ∈ cursor := by
    rw [occurrences_trail includeWord_ne_nil hplaced.plain.1]
    intro cursor hcursor
    obtain ⟨c, hc, rfl⟩ := List.mem_map.1 hcursor
    exact List.mem_append_left i.opening (h.closed c hc)
  have hline : declarations (includeLine id record ++ (i.closing ++ i.after)) =
      declarations (includeLine id record) ++ declarations (i.closing ++ i.after) :=
    declarations_append break_not_mem (Or.inl (includeLine_last id record))
      (includeLine_deletes hrecord h.ownVersion hid).closed
  have hhead : declarations (i.before ++ i.opening ++ (includeLine id record ++ (i.closing ++ i.after))) =
      declarations (i.before ++ i.opening) ++ declarations (includeLine id record ++ (i.closing ++ i.after)) := by
    rcases hplaced.head with hnil | hlast
    · rw [hnil, List.nil_append, declarations, declarations, occurrences_nil includeWord_ne_nil]
      rfl
    · exact declarations_append break_not_mem (Or.inl hlast) hclosed
  rw [List.append_assoc, List.append_assoc, hhead, hline, declarations_trail hplaced.plain.1 h.closed,
    declarations_pass hplaced.plain.2, declarations_includeLine hrecord h.ownVersion h.oneName hid]
  rfl

theorem Insertion.Placed.keptAfter (h : i.Placed manifest) (hkept : AllKept package [] (textLines i.after)) :
    AllKept package [] (textLines (i.closing ++ i.after)) := by
  cases h with
  | block before tail h => exact hkept
  | attrs start white after h =>
      have hclosing : textLines (ascii "  \x7d\n") = [ascii "  \x7d\n"] := by decide
      have hnone : closeParen ∉ (ascii "  \x7d\n").take 1023 := by decide
      simp only
      rw [textLines_append (by decide), hclosing]
      exact ⟨fun hdropped => not_names hnone hdropped.2, hkept⟩

/-- The new line is one line. -/
theorem textLines_includeLine {id : Text} (hid : sanitizeId record.name 160 = some id)
    (hline : 10 ∉ record.name ∧ 10 ∉ record.version) : textLines (includeLine id record) = [includeLine id record] := by
  have hbody : includeLine id record = (ascii "    " ++ includeDeclaration id record ++ [closeParen]) ++ [10] := by
    rw [includeLine_eq]
    simp
  have hbreak : (10 : Byte) ∉ id := sanitizeId_not_mem hid (by decide)
  have hconst : (10 : Byte) ∉ ascii "    " ∧ (10 : Byte) ∉ ascii "#dep_" ∧ (10 : Byte) ∉ ascii "(name=" ∧
      (10 : Byte) ∉ ascii " version=" ∧ (10 : Byte) ≠ quote ∧ (10 : Byte) ≠ closeParen := by decide
  rw [hbody]
  apply textLines_line
  simp only [includeDeclaration, includeHead, joinStops, List.foldr_cons, List.foldr_nil, List.mem_append, List.mem_cons,
    List.not_mem_nil, or_false, not_or]
  simp [hconst, hbreak, hline, break_not_mem]

/-- The new line reads as a declaration of the package. -/
theorem includeLine_dropped {id : Text} (h : Quotable record) (hversion : OwnVersion record)
    (hid : sanitizeId record.name 160 = some id) (hshort : (includeLine id record).length < 384)
    (hdeclared : declarations (includeLine id record) ≠ []) : Dropped record.name (includeLine id record) lines := by
  constructor
  · cases hfound : strstr includeWord (includeLine id record) with
    | none =>
        rw [declarations, occurrences_none hfound] at hdeclared
        exact absurd rfl hdeclared
    | some found =>
        rw [strstr_found hfound]
        rfl
  · have hopen : closeParen ∉ ascii "    " ++ includeDeclaration id record := by
      have hblanks : closeParen ∉ ascii "    " := by decide
      rw [List.mem_append, not_or]
      exact ⟨hblanks, (includeDeclaration_declares h hversion hid).single⟩
    have hclose : declarationAt (closeParen :: [10]) = some [] := by decide
    have htells := @readDeclaration_include (ascii "    ") record id h hversion hid (by decide)
    rw [List.take_of_length_le (by omega), names_iff, readAt, includeLine_eq, ← List.append_assoc,
      declarationAt_open hopen, hclose]
    simp [htells]

/-- The new line is removed again, and nothing else is. -/
theorem Addable.removable {id : Text} (h : Addable manifest record i) (hplaced : i.Placed manifest)
    (hrecord : Quotable record) (hfresh : manifestHasInclude manifest record.name = false)
    (hid : sanitizeId record.name 160 = some id) (hshort : (includeLine id record).length < 384) :
    Removable record.name (textLines (i.before ++ i.opening ++ includeLine id record ++ i.closing ++ i.after)) := by
  have hother := manifestHasInclude_false hfresh
  rw [h.split hplaced] at hother
  have hdeclared := declarations_includeLine hrecord h.ownVersion h.oneName hid
  have hafter : Removable record.name (textLines (i.closing ++ i.after)) := by
    have hall := @removable_append record.name _ [] textLines_broken (hplaced.keptAfter h.keptAfter)
    rw [List.append_nil] at hall
    apply hall _ trivial
    rw [textLines_flatten, occurrences_pass includeWord_ne_nil hplaced.plain.2]
    intro cursor hcursor
    refine ⟨fun hnames => ?_, Or.inr trivial⟩
    rw [List.flatten_nil, List.append_nil] at hnames
    obtain ⟨d, hd, hname⟩ := names_mem hcursor hnames
    exact hother d (List.mem_append_right _ hd) hname
  have hline : Removable record.name (includeLine id record :: textLines (i.closing ++ i.after)) := by
    have hdropped : Dropped record.name (includeLine id record) (textLines (i.closing ++ i.after)) :=
      includeLine_dropped hrecord h.ownVersion hid hshort (by simp [hdeclared])
    rw [Removable, if_pos hdropped]
    exact ⟨⟨includeLine_deletes hrecord h.ownVersion hid, by simp [hdeclared]⟩, hafter⟩
  have hlines : textLines (i.before ++ i.opening ++ includeLine id record ++ i.closing ++ i.after) =
      textLines (i.before ++ i.opening) ++ includeLine id record :: textLines (i.closing ++ i.after) := by
    have hnew : textLines (includeLine id record ++ (i.closing ++ i.after)) =
        includeLine id record :: textLines (i.closing ++ i.after) := by
      rw [textLines_append (includeLine_last id record), textLines_includeLine hid h.oneLine]
      rfl
    rw [List.append_assoc, List.append_assoc, ← hnew]
    rcases hplaced.head with hnil | hlast
    · rw [hnil]
      rfl
    · exact textLines_append hlast
  rw [hlines]
  apply removable_append textLines_broken (allKept_of h.keptBefore) _ hline
  rw [textLines_flatten, occurrences_trail includeWord_ne_nil hplaced.plain.1]
  intro cursor hcursor
  obtain ⟨c, hc, rfl⟩ := List.mem_map.1 hcursor
  have hclose := h.closed c hc
  refine ⟨fun hnames => ?_, Or.inl (List.mem_append_left _ hclose)⟩
  rw [List.append_assoc, names_closed hclose] at hnames
  obtain ⟨d, hd, hname⟩ := names_mem hc hnames
  exact hother d (List.mem_append_left _ hd) hname

/-- A record whose texts fit its buffers has a short line. -/
theorem includeLine_short (h : Quotable record) (hne : record.name ≠ []) :
    ∃ id, sanitizeId record.name 160 = some id ∧ (includeLine id record).length < 384 := by
  have hname := h.nameFits
  have hversion := h.versionFits
  refine ⟨record.name.map sanitizeIdByte, ?_, ?_⟩
  · rw [sanitizeId, if_neg]
    rw [not_or]
    exact ⟨hne, by omega⟩
  · have hstart : (ascii "    Include#dep_").length = 16 := by decide
    have hkey : (ascii "(name=\"").length = 7 := by decide
    have hown : (ascii "\" version=\"").length = 11 := by decide
    have hend : (ascii "\")\n").length = 3 := by decide
    simp only [includeLine, List.length_append, List.length_map, hstart, hkey, hown, hend]
    omega

/-- A project of this name with one included package. -/
def appManifest (name : String) : Text :=
  ascii "Project#app(name=\"" ++ ascii name ++ ascii "\") \x7b\n  Include#d(name=\"q\" version=\"1\")\n\x7d\n"

def appPlace (name : String) : Insertion :=
  ⟨ascii "Project#app(name=\"" ++ ascii name ++ ascii "\") \x7b\n  Include#d(name=\"q\" version=\"1\")\n", [], [],
    ascii "\x7d\n", 0⟩

def coreRecord : PackageRecord := ⟨ascii "core", ascii "1.0", ascii "/srv/core", [], ascii "main", ascii "9f3c", []⟩

theorem coreRecord_quotable : Quotable coreRecord := ⟨by decide, by decide, by decide, by decide⟩

theorem OnlyDeletes.starts (hb : isSpace b = false) (hword : includeWord.head? ≠ some b)
    (h : OnlyDeletes package (b :: text) out) : out.head? = some b := by
  generalize hwhole : b :: text = whole at h
  cases h with
  | done => cases hwhole
  | keep c h =>
      cases hwhole
      rfl
  | white c hc h =>
      cases hwhole
      rw [hb] at hc
      cases hc
  | declaration hd h =>
      obtain ⟨tail, rfl⟩ := hd.start
      have hhead := congrArg List.head? hwhole
      rw [List.append_assoc, List.head?_append, List.head?_cons] at hhead
      cases hcase : includeWord.head? with
      | none => exact absurd (List.head?_eq_none_iff.1 hcase) includeWord_ne_nil
      | some c =>
          rw [hcase] at hhead hword
          exact absurd hhead.symm hword

end Aivm
