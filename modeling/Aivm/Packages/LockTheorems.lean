import Aivm.Packages.LockFile

/-!
# What is read back of a lock file

The header of a package is found where it was written, since values have no brackets. A key is found behind it, unless a
value before it ends in the key and its sign: the quote that closes the value is then taken for the one that opens the
value of the key.
-/

namespace Aivm

variable {p : LockedPackage} {packages : List LockedPackage} {rest text marker line v : Text} {project : Text} {outLen : Nat}

/-! ## Lines without a header -/

/-- A line with one bracket at most has no header. -/
theorem strstr_packageMarker (h : line.count openBracket ≤ 1) : strstr packageMarker line = none := by
  rw [strstr_eq_none]
  intro hinside
  have hcount := hinside.sublist.count_le openBracket
  have htwo : packageMarker.count openBracket = 2 := by decide
  omega

theorem keyLine_count {key : String} (hkey : openBracket ∉ ascii key) (hv : openBracket ∉ v) :
    (keyLine key v).count openBracket = 0 := by
  apply List.count_eq_zero.2
  have hsign : openBracket ∉ ascii " = " ∧ openBracket ≠ quote := by decide
  simp [keyLine, hkey, hv, hsign]

theorem arrayLine_count {key : String} (hkey : openBracket ∉ ascii key) (hv : openBracket ∉ v) :
    (arrayLine key v).count openBracket = 1 := by
  have hsign : openBracket ∉ ascii " = " := by decide
  have hclose : closeBracket ≠ openBracket := by decide
  simp [arrayLine, List.count_eq_zero.2 hkey, List.count_eq_zero.2 hv, List.count_eq_zero.2 hsign, hclose]

theorem strstr_keyLine {key : String} (hkey : openBracket ∉ ascii key) (hv : IsPlain v) :
    strstr packageMarker (keyLine key v) = none := by
  apply strstr_packageMarker
  rw [keyLine_count hkey hv.2.1]
  omega

theorem strstr_arrayLine {key : String} (hkey : openBracket ∉ ascii key) (hv : IsArrayText v) :
    strstr packageMarker (arrayLine key v) = none := by
  apply strstr_packageMarker
  rw [arrayLine_count hkey hv.1]

theorem digits_plain (n : Nat) : openBracket ∉ natDecimal n := by
  have hdigits : ∀ fuel n, openBracket ∉ decimalDigits fuel n := by
    intro fuel
    induction fuel with
    | zero => simp [decimalDigits]
    | succ fuel ih =>
        intro n
        have hdigit : openBracket ≠ UInt8.ofNat (48 + n % 10) := by
          intro heq
          have hnat := congrArg UInt8.toNat heq
          simp only [openBracket, UInt8.toNat_ofNat'] at hnat
          have hbracket : UInt8.toNat 91 = 91 := rfl
          omega
        rw [decimalDigits, List.mem_cons, not_or]
        refine ⟨hdigit, ?_⟩
        split
        · simp
        · exact ih _
  rw [natDecimal, List.mem_reverse]
  exact hdigits 20 n

theorem listText_array {values : List Text} (h : ∀ v ∈ values, IsPlain v) : IsArrayText (listText values) := by
  have hconst : ∀ b : Byte, b ∈ [openBracket, closeBracket, 10] → b ≠ quote ∧ b ≠ comma ∧ b ≠ 32 := by
    intro b hb
    simp only [List.mem_cons, List.not_mem_nil, or_false] at hb
    rcases hb with rfl | rfl | rfl
    · decide
    · decide
    · decide
  have habsent : ∀ b : Byte, b ∈ [openBracket, closeBracket, 10] → (∀ v ∈ values, b ∉ v) → b ∉ listText values := by
    intro b hb hvalues
    obtain ⟨hquote, hcomma, hspace⟩ := hconst b hb
    cases values with
    | nil => simp [listText]
    | cons v values =>
        simp only [List.mem_cons, forall_eq_or_imp] at hvalues
        simp only [listText, List.mem_append, List.mem_cons, List.mem_flatMap, List.not_mem_nil, or_false, not_or,
          not_exists, not_and]
        exact ⟨⟨hquote, hvalues.1, hquote⟩, fun w hw => ⟨hcomma, hspace, hquote, hvalues.2 w hw, hquote⟩⟩
  exact ⟨habsent _ (by simp) fun v hv => (h v hv).2.1, habsent _ (by simp) fun v hv => (h v hv).2.2.1,
    habsent _ (by simp) fun v hv => (h v hv).2.2.2⟩

theorem LockedTarget.Plain.lines {t : LockedTarget} {package : Text} (ht : t.Plain) (hpackage : IsPlain package) :
    ∀ line ∈ t.lines package, strstr packageMarker line = none := by
  have habi : strstr packageMarker (ascii "hostAbi = " ++ natDecimal t.hostAbi) = none := by
    apply strstr_packageMarker
    rw [List.count_append, List.count_eq_zero.2 (digits_plain t.hostAbi)]
    decide
  have hempty : strstr packageMarker [] = none := by decide
  have hheader : strstr packageMarker (ascii "[[target]]") = none := by decide
  simp only [LockedTarget.lines, List.mem_cons, List.not_mem_nil, or_false, forall_eq_or_imp, forall_eq, habi, hempty,
    hheader, true_and, and_true]
  exact ⟨strstr_keyLine (by decide) hpackage, strstr_keyLine (by decide) ht.id, strstr_arrayLine (by decide) ht.aliases,
    strstr_keyLine (by decide) ht.defaultRunner, strstr_arrayLine (by decide) ht.artifactTypes,
    strstr_arrayLine (by decide) ht.options, strstr_arrayLine (by decide) ht.runTools,
    strstr_arrayLine (by decide) ht.publishTools⟩

theorem LockedPackage.Plain.lines (h : p.Plain) : ∀ line ∈ p.entry.lines, strstr packageMarker line = none := by
  have hempty : strstr packageMarker [] = none := by decide
  intro line hline
  rw [LockEntry.lines, List.mem_append] at hline
  rcases hline with hline | hline
  · revert line
    simp only [List.mem_cons, List.not_mem_nil, or_false, forall_eq_or_imp, forall_eq, hempty, and_true]
    exact ⟨strstr_keyLine (by decide) h.name, strstr_keyLine (by decide) h.version, strstr_keyLine (by decide) h.repo,
      strstr_keyLine (by decide) h.packageRoot, strstr_keyLine (by decide) h.commit, strstr_keyLine (by decide) h.path,
      strstr_arrayLine (by decide) h.types, strstr_arrayLine (by decide) (listText_array h.namespaces)⟩
  · obtain ⟨t, ht, hmem⟩ := List.mem_flatMap.1 hline
    exact (h.targets t ht).lines h.name line hmem

/-! ## The headers -/

/-- The texts from the header of each package on. -/
def lockSuffixes : List LockedPackage → List Text
  | [] => []
  | p :: packages => (lockBlock p ++ packages.flatMap lockBlock) :: lockSuffixes packages

theorem occurrences_blocks (h : ∀ p ∈ packages, p.Plain) :
    occurrences packageMarker (packages.flatMap lockBlock) = lockSuffixes packages := by
  have hne : packageMarker ≠ [] := by decide
  induction packages with
  | nil => exact occurrences_none (by decide)
  | cons p packages ih =>
      have hblock : lockBlock p ++ packages.flatMap lockBlock =
          packageMarker ++ 10 :: (linesText p.entry.lines ++ packages.flatMap lockBlock) := by
        simp [lockBlock, LockEntry.block, linesText]
      have hhere : strstr packageMarker (lockBlock p ++ packages.flatMap lockBlock) =
          some (lockBlock p ++ packages.flatMap lockBlock) := by
        rw [hblock]
        rfl
      have hskip : strstr packageMarker (10 :: (linesText p.entry.lines ++ packages.flatMap lockBlock)) =
          strstr packageMarker (packages.flatMap lockBlock) := by
        have hbreak := @strstr_past packageMarker [] (linesText p.entry.lines ++ packages.flatMap lockBlock) 10 (by decide) hne
        rw [List.nil_append] at hbreak
        rw [hbreak, strstr_linesText (by decide) hne (h p List.mem_cons_self).lines]
        rfl
      rw [List.flatMap_cons, occurrences_some hne hhere, hblock, List.drop_left, occurrences_congr hne hskip,
        ih fun other hother => h other (List.mem_cons_of_mem p hother), lockSuffixes, hblock]

/-- The headers that are found in a lock file are those that were written. -/
theorem occurrences_lockText {registry : Text} (hregistry : IsPlain registry) (h : ∀ p ∈ packages, p.Plain) :
    occurrences packageMarker (lockText registry (packages.map LockedPackage.entry)) = lockSuffixes packages := by
  have hne : packageMarker ≠ [] := by decide
  have hheader : ∀ line ∈ [keyLine "schema" (ascii "ailang.lock.v1"), keyLine "registry" registry, []],
      strstr packageMarker line = none := by
    simp only [List.mem_cons, List.not_mem_nil, or_false, forall_eq_or_imp, forall_eq]
    exact ⟨by decide, strstr_keyLine (by decide) hregistry, by decide⟩
  have hblocks : (packages.map LockedPackage.entry).flatMap LockEntry.block = packages.flatMap lockBlock :=
    List.flatMap_map ..
  rw [lockText, lockPart, hblocks, List.append_assoc]
  rw [occurrences_congr hne (strstr_linesText (by decide) hne hheader)]
  cases packages with
  | nil => exact occurrences_none (by decide)
  | cons p packages =>
      rw [if_neg (by simp), List.append_nil]
      exact occurrences_blocks h

/-! ## The keys of a package -/

/-- The values of a package up to its path, each with the text that stands between it and the quote before it. -/
def LockedPackage.fields (p : LockedPackage) : List (Text × Text) :=
  [(ascii "[[package]]\nname = ", p.name.1), (ascii "\nversion = ", p.version.1), (ascii "\nrepo = ", p.repo.1),
    (ascii "\npackageRoot = ", p.packageRoot.1), (ascii "\ncommit = ", p.commit.1), (ascii "\npath = ", p.path.1)]

/-- The texts between quotes. -/
def fieldSegments (fields : List (Text × Text)) : List Text := fields.flatMap fun f => [f.1, f.2]

/-- A key is found in its own place, or at the end of an earlier value. -/
theorem segmentAfter_fields {c : Text} {after : List (Text × Text)} (hown : marker <:+ c) :
    ∀ {before : List (Text × Text)}, (∀ f ∈ before, ¬ marker <:+ f.1) →
      (segmentAfter marker (fieldSegments (before ++ (c, v) :: after)) = some v ∧ ∀ f ∈ before, ¬ marker <:+ f.2) ∨
        (∃ f ∈ before.drop 1 ++ [(c, v)], segmentAfter marker (fieldSegments (before ++ (c, v) :: after)) = some f.1) ∧
          ¬ ∀ f ∈ before, ¬ marker <:+ f.2 := by
  intro before
  induction before with
  | nil =>
      intro _
      left
      simp [fieldSegments, segmentAfter, hown]
  | cons f before ih =>
      intro hbefore
      have hf := hbefore f List.mem_cons_self
      rw [List.cons_append, fieldSegments, List.flatMap_cons, ← fieldSegments]
      -- the text behind the value of the first field
      obtain ⟨g, fields, hg, hmem⟩ : ∃ g fields, before ++ (c, v) :: after = g :: fields ∧ g ∈ before ++ [(c, v)] := by
        cases before with
        | nil => exact ⟨(c, v), after, rfl, by simp⟩
        | cons g before => exact ⟨g, before ++ (c, v) :: after, rfl, by simp⟩
      have hstep : segmentAfter marker ([f.1, f.2] ++ fieldSegments (before ++ (c, v) :: after)) =
          if marker <:+ f.2 then some g.1 else segmentAfter marker (fieldSegments (before ++ (c, v) :: after)) := by
        simp [hg, fieldSegments, segmentAfter, hf]
      rw [hstep]
      by_cases hend : marker <:+ f.2
      · right
        rw [if_pos hend]
        exact ⟨⟨g, by simpa using hmem, rfl⟩, fun hclear => hclear f List.mem_cons_self hend⟩
      · rw [if_neg hend]
        rcases ih fun other hother => hbefore other (List.mem_cons_of_mem f hother) with
          ⟨hfound, hclear⟩ | ⟨⟨other, hother, hfound⟩, hnot⟩
        · left
          refine ⟨hfound, ?_⟩
          simp only [List.mem_cons, forall_eq_or_imp]
          exact ⟨hend, hclear⟩
        · right
          refine ⟨⟨other, ?_, hfound⟩, fun hclear => hnot fun f' hf' => hclear f' (List.mem_cons_of_mem f hf')⟩
          rw [List.drop_one, List.tail_cons]
          rcases List.mem_append.1 hother with hmem' | hmem'
          · exact List.mem_append_left _ (List.mem_of_mem_drop hmem')
          · exact List.mem_append_right _ hmem'

theorem lockBlock_fields (p : LockedPackage) (rest : Text) :
    ∃ tail, lockBlock p ++ rest = joinStops quote (fieldSegments p.fields) tail := by
  have hname : ascii "[[package]]\nname = " = packageMarker ++ 10 :: (ascii "name" ++ ascii " = ") := by decide
  have hversion : ascii "\nversion = " = 10 :: (ascii "version" ++ ascii " = ") := by decide
  have hrepo : ascii "\nrepo = " = 10 :: (ascii "repo" ++ ascii " = ") := by decide
  have hroot : ascii "\npackageRoot = " = 10 :: (ascii "packageRoot" ++ ascii " = ") := by decide
  have hcommit : ascii "\ncommit = " = 10 :: (ascii "commit" ++ ascii " = ") := by decide
  have hpath : ascii "\npath = " = 10 :: (ascii "path" ++ ascii " = ") := by decide
  refine ⟨10 :: (linesText (arrayLine "types" p.types :: arrayLine "namespaces" (listText p.namespaces) :: [] ::
    p.targets.flatMap (LockedTarget.lines p.name.1)) ++ rest), ?_⟩
  simp only [LockedPackage.fields, fieldSegments, hname, hversion, hrepo, hroot, hcommit, hpath, joinStops, lockBlock,
    LockEntry.block, linesText, LockEntry.lines, LockedPackage.entry, keyLine, List.foldr_cons, List.foldr_nil, List.flatMap_cons, List.flatMap_nil,
    List.cons_append, List.append_assoc, List.nil_append]

theorem LockedPackage.Plain.segments (h : p.Plain) : ∀ a ∈ fieldSegments p.fields, quote ∉ a := by
  simp only [LockedPackage.fields, fieldSegments, List.flatMap_cons, List.flatMap_nil, List.cons_append, List.nil_append,
    List.mem_cons, List.not_mem_nil, or_false, forall_eq_or_imp, forall_eq]
  exact ⟨by decide, h.name.1, by decide, h.version.1, by decide, h.repo.1, by decide, h.packageRoot.1, by decide,
    h.commit.1, by decide, h.path.1⟩

/-- The text behind the closing quote of another value. -/
def Misread (found : Option Text) : Prop := ∃ w, found = some (10 :: w)

/-- What is found for a key: its own value, or the text behind an earlier value that ends in the key. -/
theorem lookup_key {key : String} {c : Text} {before after : List (Text × Text)} (h : p.Plain)
    (hfields : p.fields = before ++ (c, v) :: after)
    (hkey : quote ∉ ascii key ++ ascii " = " ∧ (ascii key).length + 4 < 128 ∧ 20 < outLen)
    (hbefore : ∀ f ∈ before, ¬ ascii key ++ ascii " = " <:+ f.1) (hown : ascii key ++ ascii " = " <:+ c)
    (hlines : ∀ f ∈ before.drop 1 ++ [(c, v)], f.1.head? = some 10 ∧ f.1.length ≤ 20) (hlength : v.length < outLen) :
    (tomlGetString (lockBlock p ++ rest) key outLen = some v ∧ ∀ f ∈ before, ¬ ascii key ++ ascii " = " <:+ f.2) ∨
      Misread (tomlGetString (lockBlock p ++ rest) key outLen) ∧
        ¬ ∀ f ∈ before, ¬ ascii key ++ ascii " = " <:+ f.2 := by
  obtain ⟨tail, htail⟩ := lockBlock_fields p rest
  obtain ⟨hquote, hsmall, hroom⟩ := hkey
  have hlookup : ∀ w : Text, segmentAfter (ascii key ++ ascii " = ") (fieldSegments p.fields) = some w →
      w.length < outLen → tomlGetString (lockBlock p ++ rest) key outLen = some w := by
    intro w hw hfits
    rw [htail]
    exact tomlGetString_segments hquote hsmall h.segments hw hfits
  rcases @segmentAfter_fields _ v c after hown before hbefore with ⟨hfound, hclear⟩ | ⟨⟨f, hf, hfound⟩, hnot⟩
  · left
    exact ⟨hlookup v (hfields ▸ hfound) hlength, hclear⟩
  · right
    obtain ⟨hhead, hshort⟩ := hlines f hf
    obtain ⟨w, hw⟩ := List.head?_eq_some_iff.1 hhead
    exact ⟨⟨w, hw ▸ hlookup f.1 (hfields ▸ hfound) (by omega)⟩, hnot⟩

theorem lookup_name (h : p.Plain) : tomlGetString (lockBlock p ++ rest) "name" 128 = some p.name.1 := by
  obtain ⟨tail, htail⟩ := lockBlock_fields p rest
  have hown : ascii "name" ++ ascii " = " <:+ ascii "[[package]]\nname = " := by decide
  rw [htail]
  apply tomlGetString_segments (by decide) (by decide) h.segments _ p.name.2
  simp [LockedPackage.fields, fieldSegments, segmentAfter, hown]

theorem lookup_version (h : p.Plain) :
    (tomlGetString (lockBlock p ++ rest) "version" 64 = some p.version.1 ∧ ¬ ascii "version = " <:+ p.name.1) ∨
      Misread (tomlGetString (lockBlock p ++ rest) "version" 64) ∧ ascii "version = " <:+ p.name.1 := by
  have hkey : ascii "version" ++ ascii " = " = ascii "version = " := by decide
  have hcases := @lookup_key p rest _ 64 "version" _ [_] _ h rfl (by decide) (by simpa using by decide) (by decide)
    (by simpa using by decide) p.version.2
  simpa [hkey] using hcases

theorem lookup_packageRoot (h : p.Plain) :
    (tomlGetString (lockBlock p ++ rest) "packageRoot" pathMax = some p.packageRoot.1 ∧
        ∀ v ∈ [p.name.1, p.version.1, p.repo.1], ¬ ascii "packageRoot = " <:+ v) ∨
      Misread (tomlGetString (lockBlock p ++ rest) "packageRoot" pathMax) ∧
        ¬ ∀ v ∈ [p.name.1, p.version.1, p.repo.1], ¬ ascii "packageRoot = " <:+ v := by
  have hkey : ascii "packageRoot" ++ ascii " = " = ascii "packageRoot = " := by decide
  have hlength : p.packageRoot.1.length < pathMax := Nat.lt_trans p.packageRoot.2 (by decide)
  have hcases := @lookup_key p rest _ pathMax "packageRoot" _ [_, _, _] _ h rfl (by decide) (by simpa using by decide)
    (by decide) (by simpa using by decide) hlength
  simpa [hkey] using hcases

theorem lookup_path (h : p.Plain) :
    (tomlGetString (lockBlock p ++ rest) "path" pathMax = some p.path.1 ∧
        ∀ v ∈ [p.name.1, p.version.1, p.repo.1, p.packageRoot.1, p.commit.1], ¬ ascii "path = " <:+ v) ∨
      Misread (tomlGetString (lockBlock p ++ rest) "path" pathMax) ∧
        ¬ ∀ v ∈ [p.name.1, p.version.1, p.repo.1, p.packageRoot.1, p.commit.1], ¬ ascii "path = " <:+ v := by
  have hkey : ascii "path" ++ ascii " = " = ascii "path = " := by decide
  have hcases := @lookup_key p rest _ pathMax "path" _ [_, _, _, _, _] _ h rfl (by decide) (by simpa using by decide)
    (by decide) (by simpa using by decide) p.path.2
  simpa [hkey] using hcases

/-- The text of an array is found behind its key. -/
theorem lookup_namespaces (h : p.Plain) :
    tomlGetArray (lockBlock p ++ rest) "namespaces" 512 = some (listText p.namespaces) := by
  have hmarker : openBracket ∉ ascii "namespaces" ++ ascii " = " := by decide
  have hlist := listText_array h.namespaces
  have hsmall : (listText p.namespaces).length < 512 := p.list_fits
  have habsent : ∀ key : String, openBracket ∉ ascii key → ∀ v : Text, IsPlain v → openBracket ∉ keyLine key v := by
    intro key hkey v hv
    exact List.count_eq_zero.1 (keyLine_count hkey hv.2.1)
  -- the texts between the brackets, up to the one in front of the list
  have hfields : openBracket ∉ ascii "package]]\n" ++ linesText [keyLine "name" p.name.1, keyLine "version" p.version.1,
      keyLine "repo" p.repo.1, keyLine "packageRoot" p.packageRoot.1, keyLine "commit" p.commit.1,
      keyLine "path" p.path.1] ++ (ascii "types" ++ ascii " = ") := by
    have hconst : openBracket ∉ ascii "package]]\n" ∧ openBracket ∉ ascii "types" ++ ascii " = " ∧
      openBracket ≠ 10 := by decide
    have hname := habsent "name" (by decide) _ h.name
    have hversion := habsent "version" (by decide) _ h.version
    have hrepo := habsent "repo" (by decide) _ h.repo
    have hroot := habsent "packageRoot" (by decide) _ h.packageRoot
    have hcommit := habsent "commit" (by decide) _ h.commit
    have hpath := habsent "path" (by decide) _ h.path
    simp only [linesText, List.flatMap_cons, List.flatMap_nil, List.mem_append, List.mem_singleton, List.not_mem_nil,
      hname, hversion, hrepo, hroot, hcommit, hpath, hconst, or_false, not_false_eq_true]
  have htypes : openBracket ∉ p.types ++ ascii "]\nnamespaces = " := by
    have hconst : openBracket ∉ ascii "]\nnamespaces = " := by decide
    simp [h.types.1, hconst]
  have hheader : ¬ ascii "namespaces" ++ ascii " = " <:+ [] := by decide
  have hlast : ∀ before : Text, ¬ ascii "namespaces" ++ ascii " = " <:+ before ++ (ascii "types" ++ ascii " = ") := by
    intro before hend
    have hother := List.suffix_of_suffix_length_le (List.suffix_append before _) hend (by decide)
    revert hother
    decide
  have hown : ascii "namespaces" ++ ascii " = " <:+ p.types ++ ascii "]\nnamespaces = " := by
    apply List.IsSuffix.trans _ (List.suffix_append p.types _)
    decide
  obtain ⟨tail, htail⟩ : ∃ tail, lockBlock p ++ rest = [] ++ openBracket :: ([] ++ openBracket ::
      (ascii "package]]\n" ++ linesText [keyLine "name" p.name.1, keyLine "version" p.version.1,
      keyLine "repo" p.repo.1, keyLine "packageRoot" p.packageRoot.1, keyLine "commit" p.commit.1,
      keyLine "path" p.path.1] ++ (ascii "types" ++ ascii " = ") ++ openBracket ::
      (p.types ++ ascii "]\nnamespaces = " ++ openBracket :: (listText p.namespaces ++ closeBracket :: tail)))) := by
    have hmarker : packageMarker = openBracket :: openBracket :: ascii "package]]" := by decide
    have hbreak : ascii "package]]\n" = ascii "package]]" ++ [10] := by decide
    have hnext : ascii "]\nnamespaces = " = closeBracket :: 10 :: (ascii "namespaces" ++ ascii " = ") := by decide
    refine ⟨10 :: (linesText ([] :: p.targets.flatMap (LockedTarget.lines p.name.1)) ++ rest), ?_⟩
    simp only [lockBlock, LockEntry.block, linesText, LockEntry.lines, LockedPackage.entry, arrayLine, hmarker, hbreak,
      hnext, List.flatMap_cons,
      List.flatMap_nil, List.cons_append, List.append_assoc, List.nil_append]
  have hvalue : keyValue (lockBlock p ++ rest) (ascii "namespaces") openBracket closeBracket =
      .value (listText p.namespaces) tail := by
    apply keyValue_spaced
    rw [htail, nextValue_later hmarker (by simp) hheader, nextValue_later hmarker (by simp) hheader,
      nextValue_later hmarker hfields (hlast _)]
    exact nextValue_here hmarker htypes hown hlist.2.1
  rw [tomlGetArray, if_neg (by decide), hvalue]
  exact if_neg (by omega)

/-- What is shown of an array of plain values. -/
theorem displayFrom_listText {values : List Text} (h : ∀ v ∈ values, IsPlain v) :
    displayFrom false (listText values) = List.intercalate [comma] values := by
  have hquoted : ∀ {v rest : Text}, quote ∉ v →
      displayFrom false (quote :: (v ++ quote :: rest)) = v ++ displayFrom false rest := by
    intro v rest hv
    have hinside : ∀ w : Text, quote ∉ w → displayFrom true (w ++ quote :: rest) = w ++ displayFrom false rest := by
      intro w
      induction w with
      | nil => simp [displayFrom]
      | cons b w ih =>
          intro hw
          rw [List.mem_cons, not_or] at hw
          have hb : b ≠ quote := fun heq => hw.1 heq.symm
          simp [displayFrom, hb, ih hw.2]
    rw [displayFrom, if_pos rfl]
    exact hinside v hv
  have hmore : ∀ values : List Text, (∀ v ∈ values, IsPlain v) →
      displayFrom false (values.flatMap fun w => comma :: 32 :: quote :: (w ++ [quote])) =
        values.flatMap fun w => comma :: w := by
    intro values
    induction values with
    | nil => simp [displayFrom]
    | cons v values ih =>
        intro hvalues
        have hcomma : comma ≠ quote ∧ isSpace comma = false := by decide
        have hblank : (32 : Byte) ≠ quote ∧ isSpace 32 = true := by decide
        have hv := (hvalues v List.mem_cons_self).1
        have hrest := ih fun w hw => hvalues w (List.mem_cons_of_mem v hw)
        simp only [List.flatMap_cons, List.cons_append, List.append_assoc, List.nil_append]
        rw [displayFrom, if_neg hcomma.1, if_neg (by simp [hcomma.2]), displayFrom, if_neg hblank.1,
          if_pos (by simp [hblank.2]), hquoted hv, hrest]
  cases values with
  | nil => simp [listText, displayFrom, List.intercalate]
  | cons v values =>
      have hv := (h v List.mem_cons_self).1
      have hrest := hmore values fun w hw => h w (List.mem_cons_of_mem v hw)
      have hjoin : List.intercalate [comma] (v :: values) = v ++ values.flatMap fun w => comma :: w := by
        clear hv hrest h
        induction values generalizing v with
        | nil => simp
        | cons w values ih => simp [ih]
      rw [listText, List.cons_append, List.append_assoc, List.singleton_append, hquoted hv, hrest, hjoin]

theorem displayFrom_sublist : ∀ {inQuote : Bool} {v : Text}, (displayFrom inQuote v).Sublist v := by
  intro inQuote v
  induction v generalizing inQuote with
  | nil => simp [displayFrom]
  | cons b v ih =>
      rw [displayFrom]
      split
      · exact List.Sublist.cons b ih
      · split
        · exact List.Sublist.cons b ih
        · exact List.Sublist.cons_cons b ih

/-! ## The root of a package -/

theorem packageRootAt_other {name : Text} (h : p.Plain) (hname : p.name.1 ≠ name) :
    packageRootAt project name outLen (lockBlock p ++ rest) = none := by
  rw [packageRootAt, lookup_name h, if_pos (by simpa using hname)]

theorem packageRootAt_own (h : p.Plain) : packageRootAt project p.name.1 outLen (lockBlock p ++ rest) =
    (do
      let path ← tomlGetString (lockBlock p ++ rest) "path" pathMax
      let root ← tomlGetString (lockBlock p ++ rest) "packageRoot" pathMax
      joinPackageRoot project path root outLen) := by
  rw [packageRootAt, lookup_name h, if_neg (by simp)]

theorem findSome_absent {f : Text → Option Text} (h : ∀ q ∈ packages, ∀ rest, f (lockBlock q ++ rest) = none) :
    (lockSuffixes packages).findSome? f = none := by
  induction packages with
  | nil => rfl
  | cons q packages ih =>
      rw [lockSuffixes, List.findSome?_cons, h q List.mem_cons_self]
      exact ih fun other hother => h other (List.mem_cons_of_mem q hother)

/-- A search that passes all packages with other names ends at the package with this name. -/
theorem findSome_lockSuffixes {f : Text → Option Text} (hnames : (packages.map (fun q => q.name.1)).Nodup)
    (hp : p ∈ packages) (h : ∀ q ∈ packages, q.name.1 ≠ p.name.1 → ∀ rest, f (lockBlock q ++ rest) = none) :
    ∃ rest, (lockSuffixes packages).findSome? f = f (lockBlock p ++ rest) := by
  induction packages with
  | nil => cases hp
  | cons q packages ih =>
      have hothers := fun other hother => h other (List.mem_cons_of_mem q hother)
      rw [List.map_cons, List.nodup_cons] at hnames
      rw [lockSuffixes, List.findSome?_cons]
      cases hp with
      | head =>
          refine ⟨packages.flatMap lockBlock, ?_⟩
          cases hf : f (lockBlock p ++ packages.flatMap lockBlock) with
          | some out => rfl
          | none =>
              apply findSome_absent
              intro other hother
              apply hothers other hother
              intro heq
              exact hnames.1 (heq ▸ List.mem_map_of_mem hother)
      | tail _ hp =>
          have hother : q.name.1 ≠ p.name.1 := by
            intro heq
            exact hnames.1 (heq ▸ List.mem_map_of_mem hp)
          rw [h q List.mem_cons_self hother]
          exact ih hnames.2 hp hothers

/-- The part of the condition that the root of a package needs. -/
def LockedPackage.RootClear (p : LockedPackage) : Prop :=
  (∀ v ∈ [p.name.1, p.version.1, p.repo.1, p.packageRoot.1, p.commit.1], ¬ ascii "path = " <:+ v) ∧
    ∀ v ∈ [p.name.1, p.version.1, p.repo.1], ¬ ascii "packageRoot = " <:+ v

theorem packageRootAt_clear (h : p.Plain) (hclear : p.RootClear) :
    packageRootAt project p.name.1 outLen (lockBlock p ++ rest) = p.root project outLen := by
  have hpath : tomlGetString (lockBlock p ++ rest) "path" pathMax = some p.path.1 := by
    rcases lookup_path h with ⟨hfound, _⟩ | ⟨_, hnot⟩
    · exact hfound
    · exact absurd hclear.1 hnot
  have hroot : tomlGetString (lockBlock p ++ rest) "packageRoot" pathMax = some p.packageRoot.1 := by
    rcases lookup_packageRoot h with ⟨hfound, _⟩ | ⟨_, hnot⟩
    · exact hfound
    · exact absurd hclear.2 hnot
  rw [packageRootAt_own h, hpath, hroot]
  rfl

/-- A project without a path leaves the paths of its packages as they are. -/
theorem joinPackageRoot_nil (path root : Text) :
    joinPackageRoot [] path root outLen = if path.length < pathMax then packageJoinPath path root outLen else none := by
  have hlocal : resolveProjectLocalPath [] path pathMax = if path.length < pathMax then some path else none := by
    rw [resolveProjectLocalPath]
    cases isAbsolutePath path
    · simp [packageJoinPath]
    · simp
  rw [joinPackageRoot, hlocal]
  by_cases hshort : path.length < pathMax
  · rw [if_pos hshort, if_pos hshort]
    rfl
  · rw [if_neg hshort, if_neg hshort]
    rfl

/-- A join has the line breaks of its two sides. -/
theorem packageJoinPath_break {left right out : Text} (h : packageJoinPath left right outLen = some out) :
    (10 : Byte) ∈ out ↔ (10 : Byte) ∈ left ∨ (10 : Byte) ∈ right := by
  rw [packageJoinPath] at h
  simp only [Option.ite_none_right_eq_some, Option.some.injEq] at h
  rw [← h.2]
  cases left with
  | nil => simp
  | cons b left => simp [or_assoc]

/-- The own root of a package is found only where no value ends in the keys of the root. -/
theorem root_clear (h : p.Plain) (hroom : pathMax + 256 < outLen)
    (hfound : ∀ out, p.root [] outLen = some out → packageRootAt [] p.name.1 outLen (lockBlock p ++ rest) = some out) :
    p.RootClear := by
  obtain ⟨out, hout⟩ : ∃ out, packageJoinPath p.path.1 p.packageRoot.1 outLen = some out := by
    have hpath := p.path.2
    have hroot := p.packageRoot.2
    refine ⟨if p.path.1 = [] then p.packageRoot.1 else p.path.1 ++ 47 :: p.packageRoot.1, ?_⟩
    rw [packageJoinPath]
    apply if_pos
    split
    · omega
    · simp only [List.length_append, List.length_cons]
      omega
  have hown : p.root [] outLen = some out := by
    rw [LockedPackage.root, joinPackageRoot_nil, if_pos p.path.2]
    exact hout
  have hplain : (10 : Byte) ∉ out := by
    rw [packageJoinPath_break hout, not_or]
    exact ⟨h.path.2.2.2, h.packageRoot.2.2.2⟩
  have hread := hfound out hown
  rw [packageRootAt_own h] at hread
  simp only [Option.bind_eq_bind, Option.bind_eq_some_iff] at hread
  obtain ⟨path, hpath, root, hroot, hjoin⟩ := hread
  rw [joinPackageRoot_nil, Option.ite_none_right_eq_some] at hjoin
  rw [packageJoinPath_break hjoin.2, not_or] at hplain
  constructor
  · rcases lookup_path h with ⟨_, hclear⟩ | ⟨⟨w, hw⟩, _⟩
    · exact hclear
    · rw [hpath, Option.some.injEq] at hw
      exact absurd (hw ▸ List.mem_cons_self) hplain.1
  · rcases lookup_packageRoot h with ⟨_, hclear⟩ | ⟨⟨w, hw⟩, _⟩
    · exact hclear
    · rw [hroot, Option.some.injEq] at hw
      exact absurd (hw ▸ List.mem_cons_self) hplain.2

/-! ## The list of packages -/

/-- The line of a package with the version that is read. -/
theorem listPackageAt_line (h : p.Plain) : ∃ version, listPackageAt outLen v (lockBlock p ++ rest) =
      (if outLen ≤ (v ++ listLine p.name.1 version (List.intercalate [comma] p.namespaces)).length then none
        else some (v ++ listLine p.name.1 version (List.intercalate [comma] p.namespaces))) ∧
    (version = p.version.1 ∧ ¬ ascii "version = " <:+ p.name.1 ∨
      (10 : Byte) ∈ version ∧ ascii "version = " <:+ p.name.1) := by
  have hdisplay : arrayToDisplay (listText p.namespaces) 512 = some (List.intercalate [comma] p.namespaces) := by
    have hsmall : (listText p.namespaces).length < 512 := p.list_fits
    have hlength := (@displayFrom_sublist false (listText p.namespaces)).length_le
    rw [← displayFrom_listText h.namespaces]
    exact if_neg (by omega)
  have hempty : listText p.namespaces = [] → List.intercalate [comma] p.namespaces = [] := by
    intro hnil
    rw [← displayFrom_listText h.namespaces, hnil]
    rfl
  refine ⟨(tomlGetString (lockBlock p ++ rest) "version" 64).getD [], ?_, ?_⟩
  · rw [listPackageAt, lookup_name h, lookup_namespaces h]
    simp only [Option.getD_some, hdisplay]
    by_cases hnil : listText p.namespaces = []
    · rw [if_pos hnil, hempty hnil]
      rfl
    · rw [if_neg hnil]
      rfl
  · rcases lookup_version h with ⟨hfound, hclear⟩ | ⟨⟨w, hfound⟩, hnot⟩
    · left
      rw [hfound]
      exact ⟨rfl, hclear⟩
    · right
      rw [hfound]
      exact ⟨List.mem_cons_self, hnot⟩

theorem listLine_count (name version namespaces : Text) : (listLine name version namespaces).count 10 =
    name.count 10 + version.count 10 + namespaces.count 10 + 1 := by
  have hsign : List.count (10 : Byte) (ascii " namespaces=") = 0 := by decide
  rw [listLine]
  by_cases hversion : version = []
  · by_cases hnamespaces : namespaces = []
    · simp [hversion, hnamespaces]
    · simp [hversion, hnamespaces, hsign, Nat.add_assoc]
  · by_cases hnamespaces : namespaces = []
    · simp [hversion, hnamespaces, Nat.add_assoc]
    · simp [hversion, hnamespaces, hsign, Nat.add_assoc]

theorem listed_count (h : p.Plain) (version : Text) :
    (listLine p.name.1 version (List.intercalate [comma] p.namespaces)).count 10 = version.count 10 + 1 := by
  have hjoin : List.count (10 : Byte) (List.intercalate [comma] p.namespaces) = 0 := by
    rw [List.count_eq_zero, ← displayFrom_listText h.namespaces]
    intro hmem
    exact (listText_array h.namespaces).2.2 (displayFrom_sublist.subset hmem)
  rw [listLine_count, hjoin, List.count_eq_zero.2 h.name.2.2.2]
  omega

/-- Names without the key of the version give each package its own line. -/
theorem packageList_own (h : ∀ p ∈ packages, p.Plain) (hclear : ∀ p ∈ packages, ¬ ascii "version = " <:+ p.name.1) :
    ∀ {before : Text}, (before ++ packages.flatMap LockedPackage.listed).length < outLen →
      (lockSuffixes packages).foldlM (listPackageAt outLen) before =
        some (before ++ packages.flatMap LockedPackage.listed) := by
  induction packages with
  | nil => simp [lockSuffixes]
  | cons p packages ih =>
      intro before hroom
      have hrest := @ih (fun q hq => h q (List.mem_cons_of_mem p hq)) (fun q hq => hclear q (List.mem_cons_of_mem p hq))
      obtain ⟨version, hline, hversion⟩ := @listPackageAt_line p (packages.flatMap lockBlock) before outLen
        (h p List.mem_cons_self)
      rcases hversion with ⟨rfl, _⟩ | ⟨_, hnot⟩
      · rw [List.flatMap_cons, ← List.append_assoc] at hroom ⊢
        rw [← LockedPackage.listed] at hline
        have hfits : ¬ outLen ≤ (before ++ p.listed).length := by
          rw [List.length_append] at hroom
          omega
        rw [lockSuffixes, List.foldlM_cons, hline, if_neg hfits]
        exact hrest hroom
      · exact absurd hnot (hclear p List.mem_cons_self)

/-- Each package has a line in the list, and more than one where its name ends in the key of the version. -/
theorem packageList_lines (h : ∀ p ∈ packages, p.Plain) : ∀ {before out : Text},
    (lockSuffixes packages).foldlM (listPackageAt outLen) before = some out →
    before.count 10 + packages.length ≤ out.count 10 ∧
      (out.count 10 = before.count 10 + packages.length → ∀ p ∈ packages, ¬ ascii "version = " <:+ p.name.1) := by
  induction packages with
  | nil =>
      intro before out hlist
      simp only [lockSuffixes, List.foldlM_nil, Option.pure_def, Option.some.injEq] at hlist
      simp [hlist]
  | cons p packages ih =>
      intro before out hlist
      obtain ⟨version, hline, hversion⟩ := @listPackageAt_line p (packages.flatMap lockBlock) before outLen
        (h p List.mem_cons_self)
      rw [lockSuffixes, List.foldlM_cons, hline] at hlist
      split at hlist
      · cases hlist
      · obtain ⟨hcount, hequal⟩ := ih (fun q hq => h q (List.mem_cons_of_mem p hq)) hlist
        have hadded := listed_count (h p List.mem_cons_self) version
        rw [List.count_append, hadded] at hcount hequal
        rw [List.length_cons]
        refine ⟨by omega, fun htotal => ?_⟩
        have hclear := hequal (by omega)
        have hnone : version.count 10 = 0 := by omega
        rcases hversion with ⟨_, hown⟩ | ⟨hbreak, _⟩
        · simp only [List.mem_cons, forall_eq_or_imp]
          exact ⟨hown, hclear⟩
        · exact absurd hbreak (List.count_eq_zero.1 hnone)

theorem listed_total (h : ∀ p ∈ packages, p.Plain) :
    (packages.flatMap LockedPackage.listed).count 10 = packages.length := by
  induction packages with
  | nil => simp
  | cons p packages ih =>
      have hp := h p List.mem_cons_self
      have hline := listed_count hp p.version.1
      rw [List.count_eq_zero.2 hp.version.2.2.2, ← LockedPackage.listed] at hline
      rw [List.flatMap_cons, List.count_append, hline, ih fun q hq => h q (List.mem_cons_of_mem p hq), List.length_cons]
      omega

/-! ## Reading back -/

/-- The lock file gives each package its own root and line exactly when no value of it ends in the key of a later one. -/
theorem lock_reads_back_iff {registry : Text} (hplain : ∀ p ∈ packages, p.Plain) (hregistry : IsPlain registry)
    (hnames : (packages.map (fun p => p.name.1)).Nodup) (h : restoreLock registry packages = some text) :
    LockReadsBack text packages ↔ ∀ p ∈ packages, p.KeysClear := by
  have htext : text = lockText registry (packages.map LockedPackage.entry) := by
    rw [restoreLock, Option.ite_none_right_eq_some, Option.some.injEq] at h
    exact h.2.symm
  have hheaders : occurrences packageMarker text = lockSuffixes packages := by
    rw [htext]
    exact occurrences_lockText hregistry hplain
  have hothers : ∀ project outLen name, ∀ q ∈ packages, q.name.1 ≠ name → ∀ rest,
      packageRootAt project name outLen (lockBlock q ++ rest) = none :=
    fun project outLen name q hq hname rest => packageRootAt_other (hplain q hq) hname
  have hroot : ∀ project outLen, ∀ p ∈ packages, ∃ rest, findPackageRoot project text p.name.1 outLen =
      packageRootAt project p.name.1 outLen (lockBlock p ++ rest) := by
    intro project outLen p hp
    rw [findPackageRoot, if_neg p.name_ne, hheaders]
    exact findSome_lockSuffixes hnames hp (hothers project outLen p.name.1)
  constructor
  · intro hread p hp
    have hclear : p.RootClear := by
      obtain ⟨rest, hrest⟩ := hroot [] (pathMax + 257) p hp
      exact root_clear (hplain p hp) (Nat.lt_succ_self _) fun out hout =>
        hrest ▸ hread.found [] (pathMax + 257) p hp out hout
    have hlist := hread.listed ((packages.flatMap LockedPackage.listed).length + 1) (Nat.lt_succ_self _)
    rw [packageList, hheaders] at hlist
    have hversion := (packageList_lines hplain hlist).2 (by simp [listed_total hplain]) p hp
    exact ⟨hclear.1, hclear.2, hversion⟩
  · intro hclear
    constructor
    · intro project outLen p hp out hout
      obtain ⟨rest, hrest⟩ := hroot project outLen p hp
      rw [hrest, packageRootAt_clear (hplain p hp) ⟨(hclear p hp).path, (hclear p hp).packageRoot⟩]
      exact hout
    · intro project outLen name hname
      rw [findPackageRoot]
      split
      · rfl
      · rw [hheaders]
        apply findSome_absent
        intro q hq
        apply hothers project outLen name q hq
        rintro rfl
        exact hname (List.mem_map_of_mem hq)
    · intro outLen hroom
      rw [packageList, hheaders]
      have hlist := @packageList_own packages outLen hplain (fun p hp => (hclear p hp).version) []
      simpa using hlist (by simpa using hroom)

/-- A package from this repository. -/
def packageFrom (repo : Buffer 512) : LockedPackage where
  name := ⟨ascii "core", by decide⟩
  name_ne := by decide
  version := ⟨ascii "1.0", by decide⟩
  repo := repo
  packageRoot := ⟨ascii "packages/core", by decide⟩
  commit := ⟨ascii "9f3c", by decide⟩
  path := ⟨ascii ".aivm/core", by decide⟩
  types := []
  namespaces := [ascii "ui.core"]
  list_fits := by decide
  targets := []

theorem packageFrom_plain {repo : Buffer 512} (hrepo : IsPlain repo.1) : (packageFrom repo).Plain := by
  have hname : IsPlain (ascii "core") := by decide
  have hversion : IsPlain (ascii "1.0") := by decide
  have hroot : IsPlain (ascii "packages/core") := by decide
  have hcommit : IsPlain (ascii "9f3c") := by decide
  have hpath : IsPlain (ascii ".aivm/core") := by decide
  have htypes : IsArrayText [] := by simp [IsArrayText]
  have hnamespaces : ∀ v ∈ [ascii "ui.core"], IsPlain v := by decide
  exact ⟨hname, hversion, hrepo, hroot, hcommit, hpath, htypes, hnamespaces, by simp [packageFrom]⟩

theorem core_reads_back : LockReadsBack (lockText [] [(packageFrom ⟨ascii "/srv/core", by decide⟩).entry])
    [packageFrom ⟨ascii "/srv/core", by decide⟩] := by
  have hplain := @packageFrom_plain ⟨ascii "/srv/core", by decide⟩ (by decide)
  apply (@lock_reads_back_iff _ _ [] (by simpa using hplain) (by decide) (by decide) (by decide +kernel)).2
  simp only [List.mem_singleton, forall_eq]
  exact ⟨by decide, by decide, by decide⟩

/-- A repository that ends in the key of the path: the lines behind it are taken for the path. -/
theorem repository_misread : ¬ ∀ (registry : Text) (packages : List LockedPackage) (text : Text), IsPlain registry →
    (∀ p ∈ packages, p.Plain) → (packages.map (fun p => p.name.1)).Nodup → restoreLock registry packages = some text →
    LockReadsBack text packages := by
  intro h
  have hplain := @packageFrom_plain ⟨ascii "/srv/path = ", by decide⟩ (by decide)
  have hread := h [] [packageFrom ⟨ascii "/srv/path = ", by decide⟩]
    (lockText [] [(packageFrom ⟨ascii "/srv/path = ", by decide⟩).entry]) (by decide)
    (by simpa using hplain) (by decide) (by decide +kernel)
  have hfound := hread.found [] 512 _ List.mem_cons_self (ascii ".aivm/core/packages/core") (by decide +kernel)
  have hmisread : findPackageRoot [] (lockText [] [(packageFrom ⟨ascii "/srv/path = ", by decide⟩).entry]) (ascii "core") 512 =
      some (ascii "\npackageRoot = /packages/core") := by decide +kernel
  have hsame := hmisread.symm.trans hfound
  revert hsame
  decide +kernel

end Aivm
