import Aivm.Compiler.BytecodeText
import Aivm.Compiler.Expansion
import Aivm.Compiler.Search

/-!
# What the searches find

The two searches of the parser look for a marker and take the next pair of parentheses behind it. In the text of
declarations they find the declarations, if no string has a closing parenthesis; the search for instructions may find an
entry in a string before them.
-/

namespace Aivm

variable {marker text rest : Text}

/-! ## Entries -/

/-- The entries of a text, however long it is. -/
def searchEntries (marker text : Text) : List Text × Bool := entriesFrom marker (text.length + 1) text

theorem constEntries_eq (source : Text) : constEntries source = searchEntries (ascii "Const#") source := rfl

theorem instEntries_eq (source : Text) : instEntries source = searchEntries (ascii "Inst#") source := rfl

theorem searchEntries_entry {attrs : Text} (h : nextEntry marker text = .entry attrs rest) :
    searchEntries marker text = (attrs :: (searchEntries marker rest).1, (searchEntries marker rest).2) := by
  have hlength := nextEntry_length h
  have hfuel := @entriesFrom_fuel marker text.length (rest.length + 1) rest hlength (by omega)
  simp only [searchEntries, entriesFrom, h, hfuel]

theorem searchEntries_malformed (h : nextEntry marker text = .malformed) : searchEntries marker text = ([], false) := by
  simp [searchEntries, entriesFrom, h]

theorem searchEntries_done (h : nextEntry marker text = .done) : searchEntries marker text = ([], true) := by
  simp [searchEntries, entriesFrom, h]

theorem nextEntry_none (h : strstr marker text = none) : nextEntry marker text = .done := by
  simp [nextEntry, h]

/-- Texts in which the same is found have the same entries. -/
theorem searchEntries_congr {other : Text} (h : strstr marker text = strstr marker other) :
    searchEntries marker text = searchEntries marker other := by
  have hnext : nextEntry marker text = nextEntry marker other := by simp only [nextEntry, h]
  cases hother : nextEntry marker other with
  | done => rw [searchEntries_done hother, searchEntries_done (hnext.trans hother)]
  | malformed => rw [searchEntries_malformed hother, searchEntries_malformed (hnext.trans hother)]
  | entry attrs rest => rw [searchEntries_entry hother, searchEntries_entry (hnext.trans hother)]

/-- An entry has no closing parenthesis. -/
theorem nextEntry_attrs {attrs : Text} (h : nextEntry marker text = .entry attrs rest) : closeParen ∉ attrs := by
  rw [nextEntry] at h
  split at h
  · cases h
  · split at h
    · cases h
    · split at h
      · cases h
      · simp only at h
        split at h
        · cases h
        · cases h
          intro hmem
          simpa using List.mem_takeWhile_imp hmem

theorem entriesFrom_attrs : ∀ {fuel : Nat} {text : Text}, ∀ attrs ∈ (entriesFrom marker fuel text).1,
    closeParen ∉ attrs := by
  intro fuel
  induction fuel with
  | zero => simp [entriesFrom]
  | succ fuel ih =>
      intro text attrs hattrs
      rw [entriesFrom] at hattrs
      cases hnext : nextEntry marker text with
      | done => simp [hnext] at hattrs
      | malformed => simp [hnext] at hattrs
      | entry first rest =>
          simp only [hnext] at hattrs
          rcases List.mem_cons.1 hattrs with rfl | hattrs
          · exact nextEntry_attrs hnext
          · exact ih attrs hattrs

/-- A marker is found, and a pair of parentheses behind it. -/
theorem nextEntry_found {before inside : Text}
    (h : strstr marker text = some (before ++ openParen :: (inside ++ closeParen :: rest)))
    (hbefore : openParen ∉ before) (hinside : closeParen ∉ inside) :
    nextEntry marker text = if 512 < inside.length + 1 then .malformed else .entry inside rest := by
  have hopen : (before ++ openParen :: (inside ++ closeParen :: rest)).dropWhile (fun b => decide (b ≠ openParen)) =
      openParen :: (inside ++ closeParen :: rest) := by
    apply dropWhile_append_stop
    · intro b hb
      have hne : b ≠ openParen := fun heq => hbefore (heq ▸ hb)
      simp [hne]
    · intro b r heq
      rw [List.cons.injEq] at heq
      simp [heq.1]
  have hbytes : ∀ b ∈ inside, decide (b ≠ closeParen) = true := by
    intro b hb
    have hne : b ≠ closeParen := fun heq => hinside (heq ▸ hb)
    simp [hne]
  have hstop : ∀ b r, closeParen :: rest = b :: r → decide (b ≠ closeParen) = false := by
    intro b r heq
    rw [List.cons.injEq] at heq
    simp [heq.1]
  rw [nextEntry, h]
  simp only [hopen, dropWhile_append_stop hbytes hstop, takeWhile_append_stop hbytes hstop]

theorem nextEntry_unopened {found : Text} (h : strstr marker text = some found) (hopen : openParen ∉ found) :
    nextEntry marker text = .malformed := by
  have hnone : found.dropWhile (fun b => decide (b ≠ openParen)) = [] := by
    rw [List.dropWhile_eq_nil_iff]
    intro b hb
    have hne : b ≠ openParen := fun heq => hopen (heq ▸ hb)
    simp [hne]
  simp only [nextEntry, h, hnone]

/-- A marker, or rather two: none of them has a parenthesis. -/
structure IsMarker (marker : Text) : Prop where
  ne_nil : marker ≠ []
  opening : openParen ∉ marker
  closing : closeParen ∉ marker

theorem strstr_declared {head attrs : Text} (hmarker : IsMarker marker) (hhead : strstr marker head = none) :
    strstr marker (declared head attrs rest) = strstr marker (attrs ++ closeParen :: rest) :=
  strstr_skip hmarker.opening hmarker.ne_nil hhead

/-- A declaration without the marker is passed over. -/
theorem searchEntries_skip {head attrs : Text} (hmarker : IsMarker marker) (hhead : strstr marker head = none)
    (hattrs : strstr marker attrs = none) :
    searchEntries marker (declared head attrs rest) = searchEntries marker rest := by
  apply searchEntries_congr
  rw [strstr_declared hmarker hhead]
  exact strstr_skip hmarker.closing hmarker.ne_nil hattrs

/-- A declaration is an entry when its head has the marker. -/
theorem nextEntry_declared {head attrs found : Text} (hhead : strstr marker head = some found)
    (hopen : openParen ∉ head) (hclose : closeParen ∉ attrs) :
    nextEntry marker (declared head attrs rest) = if 512 < attrs.length + 1 then .malformed else .entry attrs rest :=
  nextEntry_found (strstr_found hhead) (fun hmem => hopen ((strstr_some hhead).1.subset hmem)) hclose

/-- An entry that fits its buffer is the first of a complete search. -/
theorem searchEntries_complete {attrs : Text}
    (hnext : nextEntry marker text = if 512 < attrs.length + 1 then .malformed else .entry attrs rest)
    (hcomplete : (searchEntries marker text).2 = true) :
    (searchEntries marker text).1 = attrs :: (searchEntries marker rest).1 ∧ (searchEntries marker rest).2 = true := by
  split_ifs at hnext with hlong
  · rw [searchEntries_malformed hnext] at hcomplete
    cases hcomplete
  · rw [searchEntries_entry hnext] at hcomplete ⊢
    exact ⟨rfl, hcomplete⟩

/-! ## The search for constants -/

theorem const_isMarker : IsMarker (ascii "Const#") := ⟨by decide, by decide, by decide⟩

theorem inst_isMarker : IsMarker (ascii "Inst#") := ⟨by decide, by decide, by decide⟩

/-- There is no constant in the instructions. -/
theorem constEntries_instDecls (insts : List InstText) :
    ∀ i, searchEntries (ascii "Const#") (instDecls i insts) = ([], true) := by
  induction insts with
  | nil =>
      intro i
      have hnone : strstr (ascii "Const#") (instDecls i []) = none := by
        rw [instDecls]
        decide
      exact searchEntries_done (nextEntry_none hnone)
  | cons n insts ih =>
      intro i
      have hhead : strstr (ascii "Const#") (instHead i) = none := by
        have hletter : (67 : Byte) ∉ instHead i := notMem_head i (by decide) (by decide)
        exact strstr_absent (by decide) hletter
      have hattrs : strstr (ascii "Const#") (attrsText n.attrs) = none :=
        strstr_absent (by decide) (n.notMem_attrs (.inr (.inr rfl)))
      rw [instDecls, searchEntries_skip const_isMarker hhead hattrs]
      exact ih (i + 1)

/-- The head of a constant is found. -/
theorem constHead_found (i : Nat) : ∃ found, strstr (ascii "Const#") (constHead i) = some found :=
  ⟨ascii "Const#k" ++ numeral i, strstr_found (by decide)⟩

/-- Without closing parentheses in strings the constants are found. -/
theorem constEntries_constDecls {insts : List InstText} : ∀ {consts : List ConstValue} {i : Nat},
    (∀ t, .string t ∈ consts → closeParen ∉ t.1) →
    (searchEntries (ascii "Const#") (constDecls insts i consts)).2 = true →
    (searchEntries (ascii "Const#") (constDecls insts i consts)).1 = consts.map fun c => attrsText c.attrs := by
  intro consts
  induction consts with
  | nil =>
      intro i _ _
      rw [constDecls, constEntries_instDecls]
      rfl
  | cons c consts ih =>
      intro i hstrings hcomplete
      have hclose : closeParen ∉ attrsText c.attrs :=
        ConstValue.notMem_attrs (.inl rfl) fun t ht => hstrings t (by simp [ht])
      obtain ⟨found, hfound⟩ := constHead_found i
      rw [constDecls] at hcomplete ⊢
      obtain ⟨hentries, hcomplete⟩ :=
        searchEntries_complete (nextEntry_declared hfound (constHead_open i) hclose) hcomplete
      rw [hentries, List.map_cons, ih (fun t ht => hstrings t (List.mem_cons_of_mem _ ht)) hcomplete]

/-! ## The search for instructions -/

theorem instHead_found (i : Nat) : ∃ found, strstr (ascii "Inst#") (instHead i) = some found :=
  ⟨ascii "Inst#i" ++ numeral i, strstr_found (by decide)⟩

theorem instEntries_instDecls : ∀ {insts : List InstText} {i : Nat},
    (searchEntries (ascii "Inst#") (instDecls i insts)).2 = true →
    (searchEntries (ascii "Inst#") (instDecls i insts)).1 = insts.map fun n => attrsText n.attrs := by
  intro insts
  induction insts with
  | nil =>
      intro i _
      have hnone : strstr (ascii "Inst#") (instDecls i []) = none := by
        rw [instDecls]
        decide
      rw [searchEntries_done (nextEntry_none hnone)]
      rfl
  | cons n insts ih =>
      intro i hcomplete
      obtain ⟨found, hfound⟩ := instHead_found i
      rw [instDecls] at hcomplete ⊢
      obtain ⟨hentries, hcomplete⟩ :=
        searchEntries_complete (nextEntry_declared hfound (instHead_open i) (n.notMem_attrs (.inl rfl))) hcomplete
      rw [hentries, List.map_cons, ih hcomplete]

/-- The text has `Inst#` and an opening parenthesis behind it. -/
def baits (text : Text) : Bool :=
  match strstr (ascii "Inst#") text with
  | some found => decide (openParen ∈ found)
  | none => false

/-- The text of a string constant, as it is written, has an entry for the search for instructions. -/
def ConstValue.baits : ConstValue → Bool
  | .string text => Aivm.baits (escapeText text.1)
  | _ => false

/-- `Inst#` can only stand in the string of a constant. -/
theorem ConstValue.strstr_attrs (c : ConstValue) :
    (strstr (ascii "Inst#") (attrsText c.attrs) = none ∧ c.baits = false) ∨
    ∃ found, strstr (ascii "Inst#") (attrsText c.attrs) = some found ∧ c.baits = decide (openParen ∈ found) := by
  have hplain : (∀ t, c ≠ .string t) → strstr (ascii "Inst#") (attrsText c.attrs) = none := by
    intro hne
    exact strstr_absent (by decide) (ConstValue.notMem_attrs (.inr (.inr rfl)) fun t ht => absurd ht (hne t))
  cases c with
  | string t =>
      have htext : attrsText (ConstValue.string t).attrs =
          ascii "kind=string value=" ++ quote :: (escapeText t.1 ++ [quote]) := by
        simp [attrsText, attrs, TextAttr.render, TextValue.render, ascii, equals]
      have hskip : strstr (ascii "Inst#") (attrsText (ConstValue.string t).attrs) =
          strstr (ascii "Inst#") (escapeText t.1 ++ [quote]) := by
        rw [htext]
        exact strstr_skip (by decide) (by decide) (by decide)
      rw [hskip, ConstValue.baits, Aivm.baits]
      cases hfound : strstr (ascii "Inst#") (escapeText t.1) with
      | none =>
          left
          refine ⟨?_, rfl⟩
          rw [strstr_skip (by decide) (by decide) hfound]
          rfl
      | some found =>
          right
          refine ⟨found ++ [quote], strstr_found hfound, ?_⟩
          have hquote : openParen ≠ quote := by decide
          simp [hquote]
  | int i => exact .inl ⟨hplain (by simp), rfl⟩
  | bool b => exact .inl ⟨hplain (by simp), rfl⟩
  | null => exact .inl ⟨hplain (by simp), rfl⟩
  | void => exact .inl ⟨hplain (by simp), rfl⟩

theorem constHead_inst (i : Nat) : strstr (ascii "Inst#") (constHead i) = none := by
  have hletter : (73 : Byte) ∉ constHead i := notMem_head i (by decide) (by decide)
  exact strstr_absent (by decide) hletter

/-- The attributes of a constant name no opcode. -/
theorem ConstValue.no_opcode (c : ConstValue) : entryOpcode (attrsText c.attrs) = none := by
  have habsent : ∀ a ∈ c.attrs, a.key ≠ ascii "op" := by
    intro a ha
    have hkeys : c.attrs.map TextAttr.key = [ascii "kind"] ∨
        c.attrs.map TextAttr.key = [ascii "kind", ascii "value"] := by
      cases c <;> simp [attrs]
    have hkey := List.mem_map_of_mem (f := TextAttr.key) ha
    rcases hkeys with hkeys | hkeys <;> rw [hkeys] at hkey <;> intro heq <;> rw [heq] at hkey <;> revert hkey <;> decide
  have hkey : IsKey (ascii "op") := ⟨by decide, List.all_eq_true.1 (by decide)⟩
  rw [entryOpcode, attrSpan, attrValueStart_absent hkey c.attrs_wf habsent]
  rfl

/-- An open entry in a string reaches to the end of the declaration. -/
theorem nextEntry_bait {head attrs found : Text} (hhead : strstr (ascii "Inst#") head = none)
    (hfound : strstr (ascii "Inst#") attrs = some found) (hopen : openParen ∈ found) (hclose : closeParen ∉ attrs) :
    ∃ inside, nextEntry (ascii "Inst#") (declared head attrs rest) =
      if 512 < inside.length + 1 then .malformed else .entry inside rest := by
  obtain ⟨before, inside, hsplit, hbefore⟩ := List.eq_append_cons_of_mem hopen
  have hinside : closeParen ∉ inside := by
    intro hmem
    exact hclose ((strstr_some hfound).1.subset (by simp [hsplit, hmem]))
  refine ⟨inside, nextEntry_found ?_ hbefore hinside⟩
  rw [strstr_declared inst_isMarker hhead, strstr_found hfound, hsplit, List.append_assoc, List.cons_append]

/-- A marker in a string whose entry is not open takes the attributes of the next declaration. -/
theorem nextEntry_swallow {head attrs found head' attrs' : Text} (hhead : strstr (ascii "Inst#") head = none)
    (hfound : strstr (ascii "Inst#") attrs = some found) (hopen : openParen ∉ found) (hhead' : openParen ∉ head')
    (hclose : closeParen ∉ attrs') :
    nextEntry (ascii "Inst#") (declared head attrs (declared head' attrs' rest)) =
      if 512 < attrs'.length + 1 then .malformed else .entry attrs' rest := by
  have hbefore : openParen ∉ found ++ closeParen :: head' := by
    have hne : openParen ≠ closeParen := by decide
    simp [hopen, hhead', hne]
  apply nextEntry_found _ hbefore hclose
  rw [strstr_declared inst_isMarker hhead, strstr_found hfound, declared, List.append_assoc, List.cons_append]

/-- In a complete search every entry that names an opcode is one of a string or one of an instruction. -/
theorem instEntries_constDecls {insts : List InstText} : ∀ {consts : List ConstValue} {i : Nat},
    (∀ t, .string t ∈ consts → closeParen ∉ t.1) →
    (searchEntries (ascii "Inst#") (constDecls insts i consts)).2 = true →
    (∀ attrs ∈ (searchEntries (ascii "Inst#") (constDecls insts i consts)).1, (entryOpcode attrs).isSome) →
    ∃ strange, (searchEntries (ascii "Inst#") (constDecls insts i consts)).1 =
        strange ++ insts.map (fun n => attrsText n.attrs) ∧ strange.length = consts.countP ConstValue.baits := by
  intro consts
  induction consts with
  | nil =>
      intro i _ hcomplete _
      rw [constDecls] at hcomplete ⊢
      exact ⟨[], instEntries_instDecls hcomplete, rfl⟩
  | cons c consts ih =>
      intro i hstrings hcomplete hopcodes
      have hrest : ∀ t, .string t ∈ consts → closeParen ∉ t.1 := fun t ht => hstrings t (List.mem_cons_of_mem _ ht)
      have hclose : closeParen ∉ attrsText c.attrs :=
        ConstValue.notMem_attrs (.inl rfl) fun t ht => hstrings t (by simp [ht])
      rw [constDecls] at hcomplete hopcodes ⊢
      rcases c.strstr_attrs with ⟨hnone, hbaits⟩ | ⟨found, hfound, hbaits⟩
      · rw [searchEntries_skip inst_isMarker (constHead_inst i) hnone] at hcomplete hopcodes ⊢
        obtain ⟨strange, hentries, hlength⟩ := ih hrest hcomplete hopcodes
        exact ⟨strange, hentries, by simp [hbaits, hlength]⟩
      · by_cases hopen : openParen ∈ found
        · obtain ⟨inside, hnext⟩ := nextEntry_bait (constHead_inst i) hfound hopen hclose
          obtain ⟨hentries, hcomplete⟩ := searchEntries_complete hnext hcomplete
          rw [hentries] at hopcodes ⊢
          obtain ⟨strange, hentries, hlength⟩ :=
            ih hrest hcomplete fun attrs hattrs => hopcodes attrs (List.mem_cons_of_mem _ hattrs)
          rw [hentries]
          exact ⟨inside :: strange, rfl, by simp [hbaits, hopen, hlength]⟩
        · rw [decide_eq_false hopen] at hbaits
          cases consts with
          | cons c' consts =>
              -- the next constant would be an instruction
              have hclose' : closeParen ∉ attrsText c'.attrs :=
                ConstValue.notMem_attrs (.inl rfl) fun t ht => hrest t (by simp [ht])
              rw [constDecls] at hcomplete hopcodes
              obtain ⟨hentries, -⟩ := searchEntries_complete
                (nextEntry_swallow (constHead_inst i) hfound hopen (constHead_open (i + 1)) hclose') hcomplete
              have hopcode := hopcodes (attrsText c'.attrs) (by rw [hentries]; exact List.mem_cons_self)
              rw [c'.no_opcode] at hopcode
              cases hopcode
          | nil =>
              rw [constDecls] at hcomplete ⊢
              cases insts with
              | nil =>
                  have hend : openParen ∉ found ++ closeParen :: instDecls 0 [] := by
                    have hbytes : openParen ∉ closeParen :: instDecls 0 [] := by
                      rw [instDecls]
                      decide
                    simp only [List.mem_append, not_or]
                    exact ⟨hopen, hbytes⟩
                  have hnext := nextEntry_unopened
                    ((strstr_declared inst_isMarker (constHead_inst i)).trans (strstr_found hfound)) hend
                  rw [searchEntries_malformed hnext] at hcomplete
                  cases hcomplete
              | cons n insts =>
                  -- the first instruction is taken as it would be without the marker
                  rw [instDecls] at hcomplete ⊢
                  obtain ⟨hentries, hcomplete⟩ := searchEntries_complete
                    (nextEntry_swallow (constHead_inst i) hfound hopen (instHead_open 0) (n.notMem_attrs (.inl rfl)))
                    hcomplete
                  rw [hentries, instEntries_instDecls hcomplete]
                  exact ⟨[], rfl, by simp [hbaits]⟩

end Aivm
