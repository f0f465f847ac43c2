import Aivm.Lib.CStrings
import Aivm.Packages.Values

/-!
# Lookups in TOML texts

The package manager looks a key up by searching the whole text for the key with an opening quote or bracket behind it. A
text is cut at its quotes here: such a search ends at the first quote that the key stands before.
-/

namespace Aivm

def openBracket : Byte := 91
def closeBracket : Byte := 93

/-- The value between an opening byte behind a key, with blanks around the sign or without, and a stop. -/
def keyValue (text key : Text) (opening stop : Byte) : NextValue :=
  let spaced := key ++ ascii " = " ++ [opening]
  if (strstr spaced text).isSome then nextValue spaced stop text
  else nextValue (key ++ ascii "=" ++ [opening]) stop text

/-- `pm_toml_get_string`, into a buffer of `outLen` bytes. -/
def tomlGetString (text : Text) (key : String) (outLen : Nat) : Option Text :=
  if 128 ≤ (ascii key).length + 4 then none
  else
    match keyValue text (ascii key) quote quote with
    | .value v _ => if outLen < v.length + 1 then none else some v
    | _ => none

/-- `pm_toml_get_array`; a missing key counts as an empty array. -/
def tomlGetArray (text : Text) (key : String) (outLen : Nat) : Option Text :=
  if 128 ≤ (ascii key).length + 4 then none
  else
    match keyValue text (ascii key) openBracket closeBracket with
    | .absent => some []
    | .unterminated => none
    | .value v _ => if outLen < v.length + 1 then none else some v

/-- The texts from the occurrences of a marker on; every round but the last consumes something. -/
def occurrencesFrom (marker : Text) : Nat → Text → List Text
  | 0, _ => []
  | fuel + 1, text =>
      match strstr marker text with
      | none => []
      | some found => found :: occurrencesFrom marker fuel (found.drop marker.length)

/-- All occurrences of a marker. -/
def occurrences (marker text : Text) : List Text := occurrencesFrom marker (text.length + 1) text

variable {marker text rest key before v : Text} {b opening stop : Byte} {outLen : Nat}

/-! ## Sizes -/

theorem tomlGetString_length {key : String} (h : tomlGetString text key outLen = some v) : v.length < outLen := by
  rw [tomlGetString] at h
  split at h
  · cases h
  · split at h
    · split at h
      · cases h
      · cases h
        omega
    · cases h

theorem tomlGetArray_length {key : String} (hpos : 0 < outLen) (h : tomlGetArray text key outLen = some v) :
    v.length < outLen := by
  rw [tomlGetArray] at h
  split at h
  · cases h
  · split at h
    · cases h
      exact hpos
    · cases h
    · split at h
      · cases h
      · cases h
        omega

/-! ## Occurrences -/

theorem occurrencesFrom_fuel (hne : marker ≠ []) : ∀ {fuel other : Nat} {text : Text}, text.length < fuel →
    text.length < other → occurrencesFrom marker fuel text = occurrencesFrom marker other text := by
  intro fuel
  induction fuel with
  | zero =>
      intro other text h
      omega
  | succ fuel ih =>
      intro other text h hother
      cases other with
      | zero => omega
      | succ other =>
          rw [occurrencesFrom, occurrencesFrom]
          cases hfound : strstr marker text with
          | none => rfl
          | some found =>
              have hlength := (strstr_some hfound).1.length_le
              have hmarker := (strstr_some hfound).2.length_le
              have hpos := List.length_pos_iff.2 hne
              have hsame := @ih other (found.drop marker.length) (by rw [List.length_drop]; omega)
                (by rw [List.length_drop]; omega)
              simp only [hsame]

theorem occurrences_none (h : strstr marker text = none) : occurrences marker text = [] := by
  rw [occurrences, occurrencesFrom, h]

theorem occurrences_some {found : Text} (hne : marker ≠ []) (h : strstr marker text = some found) :
    occurrences marker text = found :: occurrences marker (found.drop marker.length) := by
  have hlength := (strstr_some h).1.length_le
  have hmarker := (strstr_some h).2.length_le
  have hpos := List.length_pos_iff.2 hne
  have hfuel : occurrencesFrom marker text.length (found.drop marker.length) =
      occurrences marker (found.drop marker.length) :=
    occurrencesFrom_fuel hne (by rw [List.length_drop]; omega) (Nat.lt_succ_self _)
  rw [occurrences, occurrencesFrom, h]
  simp only [hfuel]

theorem occurrences_congr {other : Text} (hne : marker ≠ []) (h : strstr marker text = strstr marker other) :
    occurrences marker text = occurrences marker other := by
  cases hother : strstr marker other with
  | none => rw [occurrences_none hother, occurrences_none (h.trans hother)]
  | some found => rw [occurrences_some hne hother, occurrences_some hne (h.trans hother)]

/-- A marker does not go across a byte that it does not have. -/
theorem occurrences_past (hb : b ∉ marker) (hne : marker ≠ []) :
    occurrences marker (before ++ b :: rest) =
      (occurrences marker before).map (· ++ b :: rest) ++ occurrences marker rest := by
  induction hlength : before.length using Nat.strong_induction_on generalizing before with
  | h n ih =>
      subst hlength
      have hpast := @strstr_past marker before rest b hb hne
      cases hfound : strstr marker before with
      | none =>
          rw [hfound] at hpast
          rw [occurrences_none hfound]
          exact occurrences_congr hne hpast
      | some found =>
          rw [hfound] at hpast
          have hstart := (strstr_some hfound).2.length_le
          have hshort := (strstr_some hfound).1.length_le
          have hpos := List.length_pos_iff.2 hne
          have hdrop : (found ++ b :: rest).drop marker.length = found.drop marker.length ++ b :: rest :=
            List.drop_append_of_le_length hstart
          have hnext := ih (found.drop marker.length).length (by rw [List.length_drop]; omega) rfl
          rw [occurrences_some hne hfound, occurrences_some hne hpast, hdrop, hnext]
          rfl

theorem occurrences_nil (hne : marker ≠ []) : occurrences marker [] = [] :=
  occurrences_none (by rw [strstr, if_neg hne])

/-- Two texts are searched one after the other, when a byte between them is not of the marker. -/
theorem occurrences_append (hne : marker ≠ []) (hb : b ∉ marker) (h : before.getLast? = some b ∨ rest.head? = some b) :
    occurrences marker (before ++ rest) = (occurrences marker before).map (· ++ rest) ++ occurrences marker rest := by
  rcases h with hlast | hhead
  · obtain ⟨start, rfl⟩ := List.getLast?_eq_some_iff.1 hlast
    rw [List.append_assoc, List.singleton_append, occurrences_past hb hne, occurrences_past hb hne, occurrences_nil hne]
    simp
  · obtain ⟨tail, rfl⟩ := List.head?_eq_some_iff.1 hhead
    have hskip := @occurrences_past marker tail [] b hb hne
    rw [occurrences_nil hne] at hskip
    rw [occurrences_past hb hne, show b :: tail = [] ++ b :: tail from rfl, hskip]
    rfl

theorem occurrences_absent (hb : b ∈ marker) (h : b ∉ text) : occurrences marker text = [] :=
  occurrences_none (strstr_absent hb h)

theorem occurrences_suffix {cursor : Text} (hne : marker ≠ []) (h : cursor ∈ occurrences marker text) :
    cursor <:+ text ∧ marker <+: cursor := by
  induction hlength : text.length using Nat.strong_induction_on generalizing text with
  | h n ih =>
      subst hlength
      cases hfound : strstr marker text with
      | none =>
          rw [occurrences_none hfound] at h
          cases h
      | some found =>
          obtain ⟨hsuffix, hstart⟩ := strstr_some hfound
          rw [occurrences_some hne hfound, List.mem_cons] at h
          rcases h with rfl | hrest
          · exact ⟨hsuffix, hstart⟩
          · have hpos := List.length_pos_iff.2 hne
            have hlength := hstart.length_le
            have hshort := hsuffix.length_le
            have hnext := ih (found.drop marker.length).length (by rw [List.length_drop]; omega) hrest rfl
            exact ⟨hnext.1.trans ((List.drop_suffix _ _).trans hsuffix), hnext.2⟩

/-- Bytes that are not of the marker are passed over. -/
theorem occurrences_pass (hne : marker ≠ []) (h : ∀ b ∈ before, b ∉ marker) :
    occurrences marker (before ++ rest) = occurrences marker rest := by
  induction before with
  | nil => rfl
  | cons b before ih =>
      have hskip := @occurrences_past marker (before ++ rest) [] b (h b List.mem_cons_self) hne
      rw [occurrences_nil hne] at hskip
      rw [List.cons_append, ← ih fun c hc => h c (List.mem_cons_of_mem b hc)]
      exact hskip

theorem occurrences_trail (hne : marker ≠ []) (h : ∀ b ∈ rest, b ∉ marker) :
    occurrences marker (before ++ rest) = (occurrences marker before).map (· ++ rest) := by
  cases rest with
  | nil => simp
  | cons b rest =>
      have hnone := @occurrences_pass marker [] rest hne fun c hc => h c (List.mem_cons_of_mem b hc)
      rw [List.append_nil, occurrences_nil hne] at hnone
      rw [occurrences_past (h b List.mem_cons_self) hne, hnone, List.append_nil]

/-! ## Markers that end in a quote -/

/-- A marker with its only quote at its end is found at the first quote that the rest of it stands before. -/
theorem strstr_upto (hmarker : b ∉ marker) (hbefore : b ∉ before) :
    strstr (marker ++ [b]) (before ++ b :: rest) =
      if marker <:+ before then some (marker ++ b :: rest) else strstr (marker ++ [b]) rest := by
  induction before with
  | nil =>
      by_cases hend : marker <:+ []
      · rw [List.suffix_nil.1 hend]
        simp [strstr, List.isPrefixOf]
      · have hstart : ¬ (marker ++ [b]).isPrefixOf (b :: rest) := by
          rw [List.isPrefixOf_iff_prefix]
          rintro ⟨tail, htail⟩
          cases marker with
          | nil => exact hend (List.suffix_refl [])
          | cons c marker =>
              simp only [List.cons_append, List.cons.injEq] at htail
              exact hmarker (htail.1 ▸ List.mem_cons_self)
        rw [if_neg hend, List.nil_append, strstr, if_neg hstart]
  | cons c before ih =>
      have htail : b ∉ before := fun hmem => hbefore (List.mem_cons_of_mem c hmem)
      by_cases hhere : marker = c :: before
      · rw [if_pos (hhere ▸ List.suffix_refl _), ← hhere]
        have hstart : (marker ++ [b]).isPrefixOf (marker ++ b :: rest) := by
          rw [List.isPrefixOf_iff_prefix]
          exact ⟨rest, by simp⟩
        cases hcase : marker ++ b :: rest with
        | nil => simp at hcase
        | cons x y =>
            rw [hcase] at hstart
            rw [strstr, if_pos hstart]
      · have hstart : ¬ (marker ++ [b]).isPrefixOf (c :: before ++ b :: rest) := by
          rw [List.isPrefixOf_iff_prefix]
          rintro ⟨tail, heq⟩
          rw [List.append_assoc, List.singleton_append] at heq
          exact hhere (CStrings.append_terminator_inj hmarker hbefore heq).1
        rw [List.cons_append] at hstart ⊢
        rw [strstr, if_neg hstart, ih htail]
        have hsuffix : marker <:+ c :: before ↔ marker <:+ before := by
          rw [List.suffix_cons_iff]
          simp [hhere]
        simp only [hsuffix]

/-- Where the text before a quote ends in the marker, the value stands behind it. -/
theorem nextValue_here (hmarker : b ∉ marker) (hbefore : b ∉ before) (hend : marker <:+ before) (hv : stop ∉ v) :
    nextValue (marker ++ [b]) stop (before ++ b :: (v ++ stop :: rest)) = .value v rest := by
  apply nextValue_found _ hv
  rw [strstr_upto hmarker hbefore, if_pos hend]
  simp

theorem nextValue_later (hmarker : b ∉ marker) (hbefore : b ∉ before) (hend : ¬ marker <:+ before) :
    nextValue (marker ++ [b]) stop (before ++ b :: rest) = nextValue (marker ++ [b]) stop rest := by
  rw [nextValue, nextValue, strstr_upto hmarker hbefore, if_neg hend]

/-- No value stands behind the last quote. -/
theorem nextValue_last (hbefore : b ∉ before)
    (h : nextValue (marker ++ [b]) b (before ++ [b]) = .value v rest) : False := by
  have hsuffix := (strstr_some (nextValue_rest h).1).1
  have hcount := hsuffix.sublist.count_le b
  have hnone := List.count_eq_zero.2 hbefore
  simp only [List.count_append, List.count_cons_self, List.count_nil, hnone] at hcount
  omega

/-! ## Texts cut at their quotes -/

/-- Texts with a stop behind each of them. -/
def joinStops (b : Byte) (segments : List Text) (rest : Text) : Text := segments.foldr (fun a text => a ++ b :: text) rest

/-- The segment behind the first one that ends in a marker. -/
def segmentAfter (marker : Text) : List Text → Option Text
  | a :: v :: segments => if marker <:+ a then some v else segmentAfter marker (v :: segments)
  | _ => none

/-- The first quote behind a marker is found, and the value there. -/
theorem nextValue_segments (hmarker : b ∉ marker) : ∀ {segments : List Text}, (∀ a ∈ segments, b ∉ a) →
    segmentAfter marker segments = some v →
    ∃ after, nextValue (marker ++ [b]) b (joinStops b segments rest) = .value v after := by
  intro segments
  induction segments with
  | nil =>
      intro _ h
      cases h
  | cons a segments ih =>
      intro hclean h
      have ha := hclean a List.mem_cons_self
      cases segments with
      | nil => cases h
      | cons u segments =>
          rw [segmentAfter] at h
          by_cases hend : marker <:+ a
          · rw [if_pos hend, Option.some.injEq] at h
            subst h
            have hv := hclean u (List.mem_cons_of_mem a List.mem_cons_self)
            exact ⟨joinStops b segments rest, nextValue_here hmarker ha hend hv⟩
          · rw [if_neg hend] at h
            obtain ⟨after, hafter⟩ := ih (fun w hw => hclean w (List.mem_cons_of_mem a hw)) h
            exact ⟨after, (nextValue_later hmarker ha hend).trans hafter⟩

/-- A key between blanks that has a value somewhere is looked for in this spelling. -/
theorem keyValue_spaced (h : nextValue (key ++ ascii " = " ++ [opening]) stop text = .value v rest) :
    keyValue text key opening stop = .value v rest := by
  have hfound : (strstr (key ++ ascii " = " ++ [opening]) text).isSome = true := by
    rw [(nextValue_rest h).1]
    rfl
  rw [keyValue]
  simp only [hfound, if_true]
  exact h

/-- The string of a key is the segment behind the first one that ends in the key and its sign. -/
theorem tomlGetString_segments {key : String} {segments : List Text} (hkey : quote ∉ ascii key ++ ascii " = ")
    (hsmall : (ascii key).length + 4 < 128) (hclean : ∀ a ∈ segments, quote ∉ a)
    (h : segmentAfter (ascii key ++ ascii " = ") segments = some v) (hlength : v.length < outLen) :
    tomlGetString (joinStops quote segments rest) key outLen = some v := by
  obtain ⟨after, hafter⟩ := @nextValue_segments _ rest v quote hkey segments hclean h
  rw [tomlGetString, if_neg (by omega), keyValue_spaced hafter]
  exact if_neg (by omega)

end Aivm
