import Aivm.Packages.Manifest

/-!
# Removals from manifests

A text is searched for declarations line by line, since the word does not go across a line break, and a removal is
followed over the lines.
-/

namespace Aivm

variable {package text out rest cursor before line manifest : Text} {lines others : List Text}
  {b : Byte}

/-! ## Declarations -/

theorem includeWord_ne_nil : includeWord ≠ [] := by decide

theorem closeParen_not_mem : closeParen ∉ includeWord := by decide

theorem break_not_mem : (10 : Byte) ∉ includeWord := by decide

theorem readAt_some {declaration : Text} {d : Dependency} :
    readAt cursor = some (declaration, d) ↔
      declarationAt cursor = some declaration ∧ readDeclaration declaration = some d := by
  rw [readAt, Option.bind_eq_some_iff]
  simp only [Option.map_eq_some_iff, Prod.mk.injEq]
  constructor
  · rintro ⟨t, ht, e, he, rfl, rfl⟩
    exact ⟨ht, he⟩
  · intro h
    exact ⟨declaration, h.1, d, h.2, rfl, rfl⟩

/-- Parsing reads the declaration at the cursor. -/
theorem parseInclude_eq : parseInclude cursor = (declarationAt cursor).bind readDeclaration := by
  rw [parseInclude, parseIncludeAttr, parseIncludeAttr]
  cases declarationAt cursor with
  | none => rfl
  | some declaration => rfl

theorem names_iff : Names package cursor ↔ ∃ d, readAt cursor = some d ∧ d.2.name = package := by
  rw [Names, parseInclude_eq, readAt]
  cases declarationAt cursor with
  | none => simp
  | some declaration => simp

/-- A closed declaration is read without what stands behind it. -/
theorem declarationAt_closed (h : closeParen ∈ cursor) : declarationAt (cursor ++ rest) = declarationAt cursor := by
  rw [declarationAt, declarationAt, if_pos h, if_pos (List.mem_append_left rest h)]
  rw [List.takeWhile_append, if_neg]
  intro hlength
  have hall := List.takeWhile_eq_self_iff.1 ((List.takeWhile_prefix _).eq_of_length hlength)
  simpa using hall closeParen h

theorem declarationAt_open (h : closeParen ∉ cursor) :
    declarationAt (cursor ++ rest) = (declarationAt rest).map (cursor ++ ·) := by
  have hall : ∀ x ∈ cursor, decide (x ≠ closeParen) = true := by
    intro x hx
    exact decide_eq_true fun heq => h (heq ▸ hx)
  have hmem : closeParen ∈ cursor ++ rest ↔ closeParen ∈ rest := by simp [h]
  simp only [declarationAt, hmem]
  by_cases hrest : closeParen ∈ rest
  · rw [if_pos hrest, if_pos hrest, List.takeWhile_append_of_pos hall]
    rfl
  · rw [if_neg hrest, if_neg hrest]
    rfl

theorem readAt_congr (h : declarationAt cursor = declarationAt rest) : readAt cursor = readAt rest := by
  rw [readAt, readAt, h]

theorem readAt_closed (h : closeParen ∈ cursor) : readAt (cursor ++ rest) = readAt cursor :=
  readAt_congr (declarationAt_closed h)

theorem names_closed (h : closeParen ∈ cursor) : Names package (cursor ++ rest) ↔ Names package cursor := by
  rw [names_iff, names_iff, readAt_closed h]

/-- Texts are read one after the other, when each word of the first one is closed there. -/
theorem declarations_append (hb : b ∉ includeWord) (hcut : before.getLast? = some b ∨ rest.head? = some b)
    (hclosed : ∀ cursor ∈ occurrences includeWord before, closeParen ∈ cursor) :
    declarations (before ++ rest) = declarations before ++ declarations rest := by
  rw [declarations, declarations, declarations, occurrences_append includeWord_ne_nil hb hcut, List.filterMap_append,
    List.filterMap_map]
  congr 1
  apply List.filterMap_congr
  intro cursor hcursor
  exact readAt_closed (hclosed cursor hcursor)

theorem not_names (h : closeParen ∉ cursor) : ¬ Names package cursor := by
  rw [names_iff, readAt, declarationAt, if_neg h]
  simp

theorem names_mem (hcursor : cursor ∈ occurrences includeWord text) (h : Names package cursor) :
    ∃ d ∈ declarations text, d.2.name = package := by
  obtain ⟨d, hd, hname⟩ := names_iff.1 h
  exact ⟨d, List.mem_filterMap.2 ⟨cursor, hcursor, hd⟩, hname⟩

theorem manifestHasInclude_false (h : manifestHasInclude manifest package = false) :
    ∀ d ∈ declarations manifest, d.2.name ≠ package := by
  intro d hd hname
  obtain ⟨cursor, hcursor, hread⟩ := List.mem_filterMap.1 hd
  rw [manifestHasInclude, List.any_eq_false] at h
  exact h cursor hcursor (decide_eq_true (names_iff.2 ⟨d, hread, hname⟩))

theorem declarations_pass (h : ∀ b ∈ before, b ∉ includeWord) : declarations (before ++ rest) = declarations rest := by
  rw [declarations, declarations, occurrences_pass includeWord_ne_nil h]

theorem declarations_trail (h : ∀ b ∈ rest, b ∉ includeWord)
    (hclosed : ∀ cursor ∈ occurrences includeWord before, closeParen ∈ cursor) :
    declarations (before ++ rest) = declarations before := by
  rw [declarations, declarations, occurrences_trail includeWord_ne_nil h, List.filterMap_map]
  apply List.filterMap_congr
  intro cursor hcursor
  exact readAt_closed (hclosed cursor hcursor)

/-! ## Lines -/

theorem textLines_flatten : (textLines text).flatten = text := by
  induction text with
  | nil => rfl
  | cons b text ih =>
      rw [textLines]
      split
      · simp [ih]
      · cases hlines : textLines text with
        | nil =>
            rw [hlines] at ih
            simp [← ih]
        | cons line lines =>
            rw [hlines] at ih
            simp [← ih]

/-- Each line but the last one ends in a line break. -/
def Broken : List Text → Prop
  | [] => True
  | line :: lines => (line.getLast? = some 10 ∨ lines = []) ∧ Broken lines

theorem textLines_broken : Broken (textLines text) := by
  induction text with
  | nil => trivial
  | cons b text ih =>
      rw [textLines]
      split
      · rename_i hb
        exact ⟨Or.inl (by simp [hb]), ih⟩
      · cases hlines : textLines text with
        | nil => exact ⟨Or.inr rfl, trivial⟩
        | cons line lines =>
            rw [hlines] at ih
            refine ⟨ih.1.imp (fun hlast => ?_) id, ih.2⟩
            rw [List.getLast?_cons, hlast]
            rfl

/-- Behind a line break the lines start anew. -/
theorem textLines_append (h : before.getLast? = some 10) :
    textLines (before ++ rest) = textLines before ++ textLines rest := by
  induction before with
  | nil => cases h
  | cons b before ih =>
      rw [List.cons_append, textLines, textLines]
      by_cases hb : b = 10
      · rw [if_pos hb, if_pos hb]
        cases before with
        | nil => rfl
        | cons c before =>
            rw [ih (by simpa using h)]
            rfl
      · rw [if_neg hb, if_neg hb]
        cases before with
        | nil =>
            simp only [List.getLast?_singleton, Option.some.injEq] at h
            exact absurd h hb
        | cons c before =>
            rw [ih (by simpa using h)]
            cases hlines : textLines (c :: before) with
            | nil =>
                have hflat := @textLines_flatten (c :: before)
                rw [hlines] at hflat
                cases hflat
            | cons line lines => rfl

theorem textLines_line (h : 10 ∉ line) : textLines (line ++ [10]) = [line ++ [10]] := by
  induction line with
  | nil => rfl
  | cons b line ih =>
      simp only [List.mem_cons, not_or] at h
      rw [List.cons_append, textLines, if_neg (Ne.symm h.1), ih h.2]

/-! ## Removing -/

/-- What a removal keeps. -/
def textKept (package : Text) : List Text → Text
  | [] => []
  | line :: lines => if Dropped package line lines then textKept package lines else line ++ textKept package lines

/-- A removal has room for all lines. -/
theorem removeLines_eq {outputLen removed : Nat} (hroom : out.length + lines.flatten.length + 1 ≤ outputLen) :
    ∃ count, removeLines package outputLen lines out removed = some (out ++ textKept package lines, count) := by
  induction lines generalizing out removed with
  | nil => exact ⟨removed, by simp [removeLines, textKept]⟩
  | cons line lines ih =>
      rw [List.flatten_cons, List.length_append] at hroom
      rw [removeLines, textKept]
      split
      · exact ih (by omega)
      · rw [if_neg (by omega), ← List.append_assoc]
        exact ih (by rw [List.length_append]; omega)

theorem removeInclude_eq :
    ∃ count, removeInclude manifest package = some (textKept package (textLines manifest), count) :=
  removeLines_eq (by rw [textLines_flatten]; simp)

theorem keptToClose_declarationAt (h : KeptToClose package lines) :
    declarationAt (textKept package lines) = declarationAt lines.flatten := by
  induction lines with
  | nil => rfl
  | cons line lines ih =>
      rw [textKept, if_neg h.1, List.flatten_cons]
      by_cases hclose : closeParen ∈ line
      · rw [declarationAt_closed hclose, declarationAt_closed hclose]
      · rw [declarationAt_open hclose, declarationAt_open hclose, ih (h.2.resolve_left hclose)]

theorem OnlyDeletes.append (h : OnlyDeletes package before []) (hrest : OnlyDeletes package text out) :
    OnlyDeletes package (before ++ text) out := by
  generalize hnil : ([] : Text) = none at h
  induction h with
  | done => exact hrest
  | keep b h ih => cases hnil
  | white b hb h ih => exact .white b hb (ih hnil)
  | declaration hd h ih =>
      rw [List.append_assoc, List.cons_append]
      exact .declaration hd (ih hnil)

theorem OnlyDeletes.keepAll (h : OnlyDeletes package text out) :
    OnlyDeletes package (before ++ text) (before ++ out) := by
  induction before with
  | nil => exact h
  | cons b before ih => exact .keep b ih

/-- White space is not part of the word. -/
theorem white_not_mem (hb : isSpace b) : b ∉ includeWord := by
  intro hmem
  have hnone : ∀ c ∈ includeWord, isSpace c = false := by decide +kernel
  rw [hnone b hmem] at hb
  cases hb

/-- Each word of a text that is deleted is closed in it. -/
theorem OnlyDeletes.closed (h : OnlyDeletes package text []) :
    ∀ cursor ∈ occurrences includeWord text, closeParen ∈ cursor := by
  generalize hnil : ([] : Text) = none at h
  induction h with
  | done =>
      rw [occurrences_nil includeWord_ne_nil]
      simp
  | keep b h ih => cases hnil
  | @white b text out hb h ih =>
      have hskip := @occurrences_past includeWord text [] b (white_not_mem hb) includeWord_ne_nil
      rw [occurrences_nil includeWord_ne_nil] at hskip
      rw [show b :: text = [] ++ b :: text from rfl, hskip]
      exact ih hnil
  | @declaration declaration text out hd h ih =>
      rw [occurrences_past closeParen_not_mem includeWord_ne_nil]
      intro cursor hcursor
      rcases List.mem_append.1 hcursor with hown | hother
      · obtain ⟨start, -, rfl⟩ := List.mem_map.1 hown
        simp
      · exact ih hnil cursor hother

theorem textKept_removes (hbroken : Broken lines) (h : Removable package lines) :
    Removes package lines.flatten (textKept package lines) := by
  induction lines with
  | nil => exact ⟨.done, by simp [textKept, declarations, occurrences_nil includeWord_ne_nil]⟩
  | cons line lines ih =>
      obtain ⟨hlast, hrest⟩ := hbroken
      have hnext := ih hrest h.2
      have hline := h.1
      rw [textKept, List.flatten_cons]
      by_cases hdropped : Dropped package line lines
      · rw [if_pos hdropped] at hline ⊢
        obtain ⟨honly, hnamed⟩ := hline
        refine ⟨honly.append hnext.deletes, ?_⟩
        have happend : declarations (line ++ lines.flatten) = declarations line ++ declarations lines.flatten := by
          rcases hlast with hbreak | rfl
          · exact declarations_append break_not_mem (Or.inl hbreak) honly.closed
          · simp [declarations, occurrences_nil includeWord_ne_nil]
        have hnone : (declarations line).filter (fun d => d.2.name ≠ package) = [] := by
          rw [List.filter_eq_nil_iff]
          intro d hd
          simp [hnamed d hd]
        rw [happend, List.filter_append, hnone, List.nil_append]
        exact hnext.others
      · rw [if_neg hdropped] at hline ⊢
        refine ⟨hnext.deletes.keepAll, ?_⟩
        have hafter : ∀ text, (lines = [] → text = []) → declarations (line ++ text) =
            (occurrences includeWord line).filterMap (fun cursor => readAt (cursor ++ text)) ++ declarations text := by
          intro text hnil
          rcases hlast with hbreak | hnone
          · rw [declarations, declarations, occurrences_append includeWord_ne_nil break_not_mem (Or.inl hbreak),
              List.filterMap_append, List.filterMap_map]
            rfl
          · simp [declarations, hnil hnone, occurrences_nil includeWord_ne_nil]
        rw [hafter (textKept package lines) (by rintro rfl; rfl), hafter lines.flatten (by rintro rfl; rfl),
          List.filter_append, hnext.others]
        congr 1
        rw [List.filter_filterMap]
        apply List.filterMap_congr
        intro cursor hcursor
        obtain ⟨hother, hclosed⟩ := hline cursor hcursor
        have hsame : readAt (cursor ++ textKept package lines) = readAt (cursor ++ lines.flatten) := by
          by_cases hclose : closeParen ∈ cursor
          · rw [readAt_closed hclose, readAt_closed hclose]
          · apply readAt_congr
            rw [declarationAt_open hclose, declarationAt_open hclose,
              keptToClose_declarationAt (hclosed.resolve_left hclose)]
        rw [hsame]
        rw [names_iff] at hother
        cases hread : readAt (cursor ++ lines.flatten) with
        | none => rfl
        | some d =>
            have hname : d.2.name ≠ package := fun heq => hother ⟨d, hread, heq⟩
            simp [Option.filter, hname]

theorem allKept_of (h : ∀ line ∈ lines, ¬ Names package (line.take 1023)) : AllKept package others lines := by
  induction lines with
  | nil => trivial
  | cons line lines ih =>
      rw [List.forall_mem_cons] at h
      exact ⟨fun hdropped => h.1 hdropped.2, ih h.2⟩

theorem keptToClose_append (hkept : AllKept package others lines)
    (h : closeParen ∈ lines.flatten ∨ KeptToClose package others) : KeptToClose package (lines ++ others) := by
  induction lines with
  | nil => exact h.resolve_left (by simp)
  | cons line lines ih =>
      refine ⟨hkept.1, ?_⟩
      rw [List.flatten_cons, List.mem_append] at h
      by_cases hclose : closeParen ∈ line
      · exact Or.inl hclose
      · exact Or.inr (ih hkept.2 (h.imp_left fun hor => hor.resolve_left hclose))

/-- Lines that are kept can stand before others. -/
theorem removable_append (hbroken : Broken lines) (hkept : AllKept package others lines)
    (hcursors : ∀ cursor ∈ occurrences includeWord lines.flatten,
      ¬ Names package (cursor ++ others.flatten) ∧ (closeParen ∈ cursor ∨ KeptToClose package others))
    (hrest : Removable package others) : Removable package (lines ++ others) := by
  induction lines with
  | nil => exact hrest
  | cons line lines ih =>
      have hsearch : occurrences includeWord (line ++ lines.flatten) =
          (occurrences includeWord line).map (· ++ lines.flatten) ++ occurrences includeWord lines.flatten := by
        rcases hbroken.1 with hlast | rfl
        · exact occurrences_append includeWord_ne_nil break_not_mem (Or.inl hlast)
        · simp [occurrences_nil includeWord_ne_nil]
      rw [List.flatten_cons, hsearch] at hcursors
      rw [List.cons_append, Removable, if_neg hkept.1]
      refine ⟨?_, ih hbroken.2 hkept.2 fun cursor hcursor => hcursors cursor (List.mem_append_right _ hcursor)⟩
      intro cursor hcursor
      have hown := hcursors (cursor ++ lines.flatten) (List.mem_append_left _ (List.mem_map_of_mem hcursor))
      rw [List.flatten_append, ← List.append_assoc]
      refine ⟨hown.1, ?_⟩
      by_cases hclose : closeParen ∈ cursor
      · exact Or.inl hclose
      · rw [List.mem_append] at hown
        exact Or.inr (keptToClose_append hkept.2 (hown.2.imp_left fun hor => hor.resolve_left hclose))

/-- A removal from a manifest with lines that can be dropped. -/
theorem removeInclude_right (h : Removable package (textLines manifest)) :
    ∃ out removed, removeInclude manifest package = some (out, removed) ∧ Removes package manifest out := by
  obtain ⟨count, hcount⟩ := @removeInclude_eq package manifest
  have hremoves := textKept_removes textLines_broken h
  rw [textLines_flatten] at hremoves
  exact ⟨_, count, hcount, hremoves⟩

end Aivm
