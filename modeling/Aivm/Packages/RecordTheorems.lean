import Aivm.Packages.Records

/-!
# Records and the lines of their files

A key is looked up by searching for it with its sign, so it is read at the first line that mentions it so. That is its own
line just if no line before does.
-/

namespace Aivm

variable {lines : List RegistryLine} {text key v version : Text} {opening stop : Byte} {spaced : Bool} {outLen : Nat}
  {name : Text} {record : PackageRecord}

/-! ## Places of keys -/

theorem keyMarker_ne (key : Text) (spaced : Bool) (opening : Byte) : keyMarker key spaced opening ≠ [] := by
  simp [keyMarker]

theorem keyMarker_break (hkey : (10 : Byte) ∉ key) (hopening : (10 : Byte) ≠ opening) :
    (10 : Byte) ∉ keyMarker key spaced opening := by
  have hsign : (10 : Byte) ∉ keySign spaced := by
    cases spaced with
    | true => decide
    | false => decide
  simp [keyMarker, hkey, hsign, hopening]

/-- A line cannot start with a key in both spellings. -/
theorem spellings_differ {line : Text} (h : keyMarker key true opening <+: line) :
    ¬ keyMarker key false opening <+: line := by
  rintro ⟨tail, rfl⟩
  obtain ⟨tail', htail'⟩ := h
  have hsigns : keySign true = [32, 61, 32] ∧ keySign false = [61] := by decide
  rw [keyMarker, keyMarker, hsigns.1, hsigns.2, List.append_assoc, List.append_assoc, List.append_assoc, List.append_assoc,
    List.append_cancel_left_eq] at htail'
  simp at htail'

/-- The place of a key is where the spelling that is looked for first stands, else the other one. -/
theorem keyPosition_some {found : Text} (h : keyPosition text key opening = some found)
    (hfound : keyMarker key spaced opening <+: found) :
    strstr (keyMarker key spaced opening) text = some found ∧
      (spaced = false → strstr (keyMarker key true opening) text = none) := by
  rw [keyPosition] at h
  cases hspaced : strstr (keyMarker key true opening) text with
  | some first =>
      rw [hspaced, Option.some.injEq] at h
      subst h
      cases spaced with
      | true => exact ⟨hspaced, by simp⟩
      | false => exact absurd hfound (spellings_differ (strstr_some hspaced).2)
  | none =>
      rw [hspaced] at h
      simp only at h
      cases spaced with
      | true => exact absurd (strstr_some h).2 (spellings_differ hfound)
      | false => exact ⟨h, fun _ => rfl⟩

theorem keyPosition_of {found : Text} (h : strstr (keyMarker key spaced opening) text = some found)
    (hspaced : spaced = false → strstr (keyMarker key true opening) text = none) :
    keyPosition text key opening = some found := by
  rw [keyPosition]
  cases spaced with
  | true => rw [h]
  | false => rw [hspaced rfl, h]

/-- A key is read at a line of its own just if that line is the first one that mentions it. -/
theorem keyPosition_line {before after : List Text} {line : Text} (hkey : (10 : Byte) ∉ key)
    (hopening : (10 : Byte) ≠ opening) (hline : keyMarker key spaced opening <+: line) :
    keyPosition (linesText (before ++ line :: after)) key opening = some (linesText (line :: after)) ↔
      FirstMention key opening spaced before (before ++ line :: after) := by
  have hbreak : ∀ spaced, (10 : Byte) ∉ keyMarker key spaced opening := fun _ => keyMarker_break hkey hopening
  have hne := fun spaced => keyMarker_ne key spaced opening
  have hstart : keyMarker key spaced opening <+: linesText (line :: after) := by
    rw [linesText_cons]
    exact hline.trans (List.prefix_append line _)
  have hfirst := @strstr_line _ line before after (hbreak spaced) (hne spaced) hline
  have hnone : ∀ texts : List Text, strstr (keyMarker key true opening) (linesText texts) = none ↔
      ∀ l ∈ texts, ¬ keyMarker key true opening <:+: l := by
    intro texts
    rw [strstr_lines (hbreak true) (hne true), Option.map_eq_none_iff, linesFrom_none]
    simp only [strstr_eq_none]
  simp only [strstr_eq_none] at hfirst
  constructor
  · intro h
    obtain ⟨hfound, hspaced⟩ := keyPosition_some h hstart
    exact ⟨hfirst.1 hfound, fun hspelling => (hnone _).1 (hspaced hspelling)⟩
  · rintro ⟨hbefore, hlines⟩
    exact keyPosition_of (hfirst.2 hbefore) fun hspelling => (hnone _).2 (hlines hspelling)

/-- What stands behind the place of a key is its value. -/
theorem keyValue_position {rest : Text} (hstop : stop ∉ v)
    (h : keyPosition text key opening = some (keyMarker key spaced opening ++ (v ++ stop :: rest))) :
    keyValue text key opening stop = .value v rest := by
  obtain ⟨hfound, hspaced⟩ := keyPosition_some h (List.prefix_append _ _)
  have hvalue := nextValue_found hfound hstop
  cases spaced with
  | true =>
      rw [keyValue]
      exact (if_pos (by rw [Option.isSome_iff_ne_none]; exact fun hnone => by cases hnone.symm.trans hfound)).trans hvalue
  | false =>
      rw [keyValue]
      exact (if_neg (by rw [Option.not_isSome_iff_eq_none]; exact hspaced rfl)).trans hvalue

/-! ## Lines of keys -/

theorem lineTexts_append (before after : List RegistryLine) :
    lineTexts (before ++ after) = lineTexts before ++ lineTexts after := List.map_append

theorem registryFileText_cons (line : RegistryLine) (after : List RegistryLine) :
    registryFileText (line :: after) = line.text ++ 10 :: registryFileText after := by
  rw [registryFileText, lineTexts, List.map_cons, linesText_cons]
  rfl

/-- The string that is read at the line of a key is the one in that line. -/
theorem string_read {key : String} {value : Text} {after : List RegistryLine} (hclean : quote ∉ value)
    (hplace : keyPosition text (ascii key) quote = some (registryFileText (.string (ascii key) value spaced :: after)))
    (hread : tomlGetString text key outLen = some v) : value = v := by
  rw [registryFileText_cons, RegistryLine.text, List.append_assoc, List.append_assoc, List.singleton_append] at hplace
  rw [tomlGetString, keyValue_position hclean hplace] at hread
  split at hread
  · cases hread
  · simp only at hread
    split at hread
    · cases hread
    · exact Option.some.inj hread

theorem array_read {key : String} {value : Text} {after : List RegistryLine} (hclean : closeBracket ∉ value)
    (hplace : keyPosition text (ascii key) openBracket = some (registryFileText (.array (ascii key) value spaced :: after)))
    (hread : tomlGetArray text key outLen = some v) : value = v := by
  rw [registryFileText_cons, RegistryLine.text, List.append_assoc, List.append_assoc, List.singleton_append] at hplace
  rw [tomlGetArray, keyValue_position hclean hplace] at hread
  split at hread
  · cases hread
  · simp only at hread
    split at hread
    · cases hread
    · exact Option.some.inj hread

/-- A key is read at a line of the file just if that line is the first one that mentions it. -/
theorem registry_place {before after : List RegistryLine} {line : RegistryLine} (hkey : (10 : Byte) ∉ key)
    (hopening : (10 : Byte) ≠ opening) (hline : keyMarker key spaced opening <+: line.text)
    (hlines : lines = before ++ line :: after) :
    keyPosition (registryFileText lines) key opening = some (registryFileText (line :: after)) ↔
      FirstMention key opening spaced (lineTexts before) (lineTexts lines) := by
  rw [hlines, registryFileText, lineTexts_append]
  exact keyPosition_line hkey hopening hline

theorem topString_iff {key : String} (hkey : (10 : Byte) ∉ ascii key) (hclean : ∀ l ∈ lines, l.Clean)
    (hread : tomlGetString (registryFileText lines) key outLen = some v) : TopString lines key v ↔ TopStringFirst lines key := by
  have hopening : (10 : Byte) ≠ quote := by decide
  constructor
  · rintro ⟨before, spaced, after, hlines, htop, hposition⟩
    exact ⟨before, v, spaced, after, hlines, htop,
      (registry_place hkey hopening (List.prefix_append _ _) hlines).1 hposition⟩
  · rintro ⟨before, value, spaced, after, hlines, htop, hfirst⟩
    have hposition := (registry_place hkey hopening (List.prefix_append _ _) hlines).2 hfirst
    have hvalue : quote ∉ value := hclean (.string (ascii key) value spaced) (by simp [hlines])
    obtain rfl := string_read hvalue hposition hread
    exact ⟨before, spaced, after, hlines, htop, hposition⟩

theorem topArray_iff {key : String} (hkey : (10 : Byte) ∉ ascii key) (hclean : ∀ l ∈ lines, l.Clean)
    (hread : tomlGetArray (registryFileText lines) key outLen = some v) : TopArray lines key v ↔ TopArrayFirst lines key := by
  have hopening : (10 : Byte) ≠ openBracket := by decide
  constructor
  · rintro ⟨before, spaced, after, hlines, htop, hposition⟩
    exact ⟨before, v, spaced, after, hlines, htop,
      (registry_place hkey hopening (List.prefix_append _ _) hlines).1 hposition⟩
  · rintro ⟨before, value, spaced, after, hlines, htop, hfirst⟩
    have hposition := (registry_place hkey hopening (List.prefix_append _ _) hlines).2 hfirst
    have hvalue : closeBracket ∉ value := hclean (.array (ascii key) value spaced) (by simp [hlines])
    obtain rfl := array_read hvalue hposition hread
    exact ⟨before, spaced, after, hlines, htop, hposition⟩

/-- A key that no line mentions is not read, which counts as an empty array. -/
theorem keyPosition_none (hkey : (10 : Byte) ∉ key) (hopening : (10 : Byte) ≠ opening) :
    keyPosition (registryFileText lines) key opening = none ↔
      ∀ l ∈ lines, ∀ spaced, ¬ keyMarker key spaced opening <:+: l.text := by
  have hnone : ∀ spaced, strstr (keyMarker key spaced opening) (registryFileText lines) = none ↔
      ∀ l ∈ lines, ¬ keyMarker key spaced opening <:+: l.text := by
    intro spaced
    rw [registryFileText, strstr_lines (keyMarker_break hkey hopening) (keyMarker_ne key spaced opening),
      Option.map_eq_none_iff, linesFrom_none]
    simp [lineTexts, strstr_eq_none]
  rw [keyPosition]
  constructor
  · intro h
    split at h
    · cases h
    · rename_i hspaced
      intro l hl spaced
      cases spaced with
      | true => exact (hnone true).1 hspaced l hl
      | false => exact (hnone false).1 h l hl
  · intro h
    rw [(hnone true).2 fun l hl => h l hl true]
    exact (hnone false).2 fun l hl => h l hl false

theorem array_absent {key : String} (hplace : keyPosition text (ascii key) openBracket = none)
    (hread : tomlGetArray text key outLen = some v) : v = [] := by
  have habsent : keyValue text (ascii key) openBracket closeBracket = .absent := by
    rw [keyPosition] at hplace
    split at hplace
    · cases hplace
    · rename_i hspaced
      exact (if_neg (by rw [Option.not_isSome_iff_eq_none]; exact hspaced)).trans (nextValue_absent hplace)
  rw [tomlGetArray, habsent] at hread
  split at hread
  · cases hread
  · exact (Option.some.inj hread).symm

/-- The value of a version is read at a line of its section just if that line is the first one behind the header that
mentions its key. -/
theorem sectionString_iff {key : String} (hkey : (10 : Byte) ∉ ascii key) (hclean : ∀ l ∈ lines, l.Clean)
    (hread : tomlGetVersionString (registryFileText lines) version key outLen = some v) :
    SectionString lines version key v ↔ SectionStringFirst lines version key := by
  have hopening : (10 : Byte) ≠ quote := by decide
  constructor
  · rintro ⟨before, between, spaced, after, found, hlines, hsection, hheader, hposition⟩
    -- the lines from the header on, of which the first may have lost its beginning
    obtain ⟨passed, hpassed⟩ : ∃ passed, found =
        linesText (passed ++ lineTexts (.string (ascii key) v spaced :: after)) := by
      have hstart : keyMarker (ascii key) spaced quote <+: registryFileText (.string (ascii key) v spaced :: after) := by
        rw [registryFileText_cons, RegistryLine.text, List.append_assoc]
        exact List.prefix_append _ _
      obtain ⟨front, hfront⟩ := (strstr_some (keyPosition_some hposition hstart).1).1
      have htext : registryFileText lines = registryFileText (before ++ .header (versionName version) :: between) ++
          registryFileText (.string (ascii key) v spaced :: after) := by
        rw [hlines, ← List.cons_append, ← List.append_assoc, registryFileText, lineTexts_append, linesText_append]
        rfl
      have hsuffix := (strstr_some hheader).1
      rw [← hfront, htext, List.suffix_append_self_iff] at hsuffix
      obtain ⟨passed, hpassed⟩ := linesText_suffix hsuffix
      exact ⟨passed, by rw [← hfront, hpassed, linesText_append]; rfl⟩
    rw [hpassed] at hheader hposition
    exact ⟨before, between, v, spaced, after, passed, hlines, hsection, hheader,
      (keyPosition_line hkey hopening (List.prefix_append _ _)).1 hposition⟩
  · rintro ⟨before, between, value, spaced, after, passed, hlines, hsection, hheader, hfirst⟩
    have hposition := (keyPosition_line hkey hopening (List.prefix_append _ _)).2 hfirst
    have hvalue : quote ∉ value := hclean (.string (ascii key) value spaced) (by simp [hlines])
    rw [tomlGetVersionString] at hread
    split at hread
    · cases hread
    · rw [hheader] at hread
      obtain rfl := string_read hvalue hposition hread
      exact ⟨before, between, spaced, after, _, hlines, hsection, hheader, hposition⟩

/-- A record that is loaded has the data of its own lines exactly when each of its keys is first mentioned there. -/
theorem record_from_lines_iff (hclean : ∀ l ∈ lines, l.Clean)
    (h : loadRecord (some (registryFileText lines)) name version = .ok record) :
    RecordFromLines lines record ↔ KeysFirst lines record.version := by
  obtain ⟨text, htext, hfound⟩ := loadRecord_ok.1 h
  rw [Option.some.injEq] at htext
  subst htext
  have hname := topString_iff (by decide) hclean hfound.name
  have hrepo := topString_iff (by decide) hclean hfound.repo
  have hroot := topString_iff (by decide) hclean hfound.packageRoot
  have htypes := topArray_iff (by decide) hclean hfound.types
  have hnone := @keyPosition_none lines (ascii "types") openBracket (by decide) (by decide)
  have href := sectionString_iff (by decide) hclean hfound.ref
  have hcommit := sectionString_iff (by decide) hclean hfound.commit
  constructor
  · intro hright
    refine ⟨hname.1 hright.name, hrepo.1 hright.repo, hroot.1 hright.packageRoot, ?_, href.1 hright.ref,
      hcommit.1 hright.commit⟩
    rcases hright.types with hown | ⟨habsent, _⟩
    · exact .inl (htypes.1 hown)
    · exact .inr (hnone.1 habsent)
  · intro hfirst
    refine ⟨hname.2 hfirst.name, hrepo.2 hfirst.repo, hroot.2 hfirst.packageRoot, ?_, href.2 hfirst.ref,
      hcommit.2 hfirst.commit⟩
    rcases hfirst.types with hown | habsent
    · exact .inl (htypes.2 hown)
    · exact .inr ⟨hnone.2 habsent, array_absent (hnone.2 habsent) hfound.types⟩

/-- The file of a package of two versions, of which the first may lack its commit. -/
def twoVersions (commit : List RegistryLine) : List RegistryLine :=
  [.string (ascii "name") (ascii "core") true, .string (ascii "repo") (ascii "/srv/core") true,
    .string (ascii "packageRoot") (ascii ".") true, .array (ascii "types") [] true, .blank,
    .header (versionName (ascii "1.0")), .string (ascii "ref") (ascii "v1") true] ++ commit ++
  [.header (versionName (ascii "2.0")), .string (ascii "ref") (ascii "v2") true,
    .string (ascii "commit") (ascii "beef") true]

theorem two_versions_from_lines : RecordFromLines (twoVersions [.string (ascii "commit") (ascii "9f3c") true])
    ⟨ascii "core", ascii "1.0", ascii "/srv/core", ascii ".", ascii "v1", ascii "9f3c", []⟩ := by
  have hload : loadRecord (some (registryFileText (twoVersions [.string (ascii "commit") (ascii "9f3c") true]))) (ascii "core")
      (ascii "1.0") = .ok ⟨ascii "core", ascii "1.0", ascii "/srv/core", ascii ".", ascii "v1", ascii "9f3c", []⟩ := by
    decide +kernel
  have hclean : ∀ l ∈ twoVersions [.string (ascii "commit") (ascii "9f3c") true], l.Clean := by decide
  apply (record_from_lines_iff hclean hload).2
  constructor
  · exact ⟨[], _, _, _, rfl, by simp, by decide +kernel⟩
  · exact ⟨[_], _, _, _, rfl, by simp [RegistryLine.IsHeader], by decide +kernel⟩
  · exact ⟨[_, _], _, _, _, rfl, by simp [RegistryLine.IsHeader], by decide +kernel⟩
  · exact .inl ⟨[_, _, _], _, _, _, rfl, by simp [RegistryLine.IsHeader], by decide +kernel⟩
  · exact ⟨[_, _, _, _, _], [], _, _, _, [versionHeader (ascii "1.0")], rfl, by simp, by decide +kernel,
      by decide +kernel⟩
  · exact ⟨[_, _, _, _, _], [_], _, _, _, [versionHeader (ascii "1.0"), ascii "ref = \"v1\""], rfl,
      by simp [RegistryLine.IsHeader], by decide +kernel, by decide +kernel⟩

/-- What stands behind a line that is there once. -/
theorem lines_behind {before after : List RegistryLine} {line : RegistryLine} (hcount : lines.count line = 1)
    (h : lines = before ++ line :: after) : after = (lines.dropWhile fun l => decide (l ≠ line)).drop 1 := by
  have hbefore : line ∉ before := by
    rw [h, List.count_append, List.count_cons_self] at hcount
    exact List.count_eq_zero.1 (by omega)
  have hall : ∀ l ∈ before, decide (l ≠ line) = true := by
    intro l hl
    rw [decide_eq_true_eq]
    rintro rfl
    exact hbefore hl
  rw [h, List.dropWhile_append_of_pos hall]
  simp

/-- A version without a commit gets that of the next one. -/
theorem commit_of_other_version : ¬ ∀ (lines : List RegistryLine) (name version : Text) (record : PackageRecord),
    (∀ l ∈ lines, l.Clean) → loadRecord (some (registryFileText lines)) name version = .ok record →
    RecordFromLines lines record := by
  intro h
  have hclean : ∀ l ∈ twoVersions [], l.Clean := by decide
  have hright := h (twoVersions []) (ascii "core") (ascii "1.0")
    ⟨ascii "core", ascii "1.0", ascii "/srv/core", ascii ".", ascii "v1", ascii "beef", []⟩ hclean (by decide +kernel)
  obtain ⟨before, between, spaced, after, found, hlines, hsection, _⟩ := hright.commit
  have hbehind := lines_behind (by decide +kernel) hlines
  have hrest : ((twoVersions []).dropWhile fun l => decide (l ≠ .header (versionName (ascii "1.0")))).drop 1 =
      [.string (ascii "ref") (ascii "v1") true, .header (versionName (ascii "2.0")),
        .string (ascii "ref") (ascii "v2") true, .string (ascii "commit") (ascii "beef") true] := by decide +kernel
  rw [hrest] at hbehind
  cases between with
  | nil =>
      have hkey := (RegistryLine.string.inj (List.cons.inj hbehind).1).1
      revert hkey
      decide
  | cons first between =>
      cases between with
      | nil => simp at hbehind
      | cons second between =>
          simp only [List.cons_append, List.cons.injEq] at hbehind
          have hheader := hsection second (by simp)
          rw [hbehind.2.1] at hheader
          exact hheader trivial

end Aivm
