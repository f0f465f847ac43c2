import Aivm.Lib.CStrings
import Aivm.Packages.Namespaces

/-!
# Duplicate namespaces

The registry of a restore is searched for whole lines, and so exactly. The list of a package is searched for the
namespace alone, which is also found where it is a part of another one.
-/

namespace Aivm

variable {v : Text} {values seen before : List Text} {descriptor : Text}

/-! ## Dotted names -/

theorem dottedFrom_bytes : ∀ {v : Text} {sawDot expectStart : Bool}, dottedFrom sawDot expectStart v = true →
    ∀ b ∈ v, b = 46 ∨ isLower b = true ∨ isDigit b = true := by
  intro v
  induction v with
  | nil =>
      intro _ _ _ b hb
      cases hb
  | cons c v ih =>
      intro sawDot expectStart h b hb
      cases expectStart with
      | true =>
          simp only [dottedFrom, Bool.decide_and, Bool.decide_eq_true, Bool.and_eq_true] at h
          rcases List.mem_cons.1 hb with rfl | hb
          · exact .inr (.inl h.1)
          · exact ih h.2 b hb
      | false =>
          rw [dottedFrom] at h
          split at h
          · rename_i hdot
            rcases List.mem_cons.1 hb with rfl | hb
            · exact .inl hdot
            · exact ih h b hb
          · simp only [Bool.decide_and, Bool.decide_or, Bool.decide_eq_true, Bool.and_eq_true, Bool.or_eq_true] at h
            rcases List.mem_cons.1 hb with rfl | hb
            · exact .inr h.1
            · exact ih h.2 b hb

/-- A dotted name is not empty and has none of the bytes that part names. -/
theorem dotted_clean (h : isDottedNamespace v = true) :
    v ≠ [] ∧ quote ∉ v ∧ comma ∉ v ∧ (32 : Byte) ∉ v ∧ (10 : Byte) ∉ v := by
  simp only [isDottedNamespace, Bool.decide_and, Bool.decide_eq_true, Bool.and_eq_true, decide_eq_true_eq] at h
  have habsent : ∀ b : Byte, ¬ (b = 46 ∨ isLower b = true ∨ isDigit b = true) → b ∉ v :=
    fun b hb hmem => hb (dottedFrom_bytes h.2 b hmem)
  exact ⟨h.1, habsent _ (by decide), habsent _ (by decide), habsent _ (by decide), habsent _ (by decide)⟩

/-! ## The list of a package -/

theorem quotedList_listText (before : List Text) (v : Text) :
    quotedList (listText before) before.length v = listText (before ++ [v]) := by
  cases before with
  | nil => simp [quotedList, listText]
  | cons w before =>
      have hsep : ascii ", " = [comma, 32] := by decide
      simp [quotedList, listText, hsep]

theorem listText_length (values : List Text) : (listText values).length = listLength values := by
  cases values with
  | nil => rfl
  | cons v values =>
      simp only [listText, listLength, List.length_append, List.length_cons, List.length_nil, List.length_flatMap,
        List.map_cons, List.sum_cons]
      have hsum : (values.map fun w => w.length + (0 + 1) + 1 + 1 + 1).sum =
          (values.map fun w => w.length + 2).sum + 2 * values.length := by
        induction values with
        | nil => rfl
        | cons w values ih =>
            simp only [List.map_cons, List.sum_cons, List.length_cons, ih]
            omega
      rw [hsum]
      omega

/-- A name is found in a list just if it is a part of one of the names there. -/
theorem strstr_listText (hv : isDottedNamespace v = true) (values : List Text) :
    (strstr v (listText values)).isSome = true ↔ ∃ w ∈ values, v <:+: w := by
  obtain ⟨hne, hquote, hcomma, hspace, -⟩ := dotted_clean hv
  have hnil : (strstr v []).isSome = false := by simp [strstr, hne]
  have hword : ∀ w rest : Text, (strstr v (quote :: (w ++ quote :: rest))).isSome =
      ((strstr v w).isSome || (strstr v rest).isSome) := by
    intro w rest
    have hopen := @strstr_isSome_past v [] (w ++ quote :: rest) quote hquote hne
    rw [List.nil_append, hnil, Bool.false_or] at hopen
    rw [hopen, strstr_isSome_past hquote hne]
  have hmore : ∀ values : List Text,
      (strstr v (values.flatMap fun w => comma :: 32 :: quote :: (w ++ [quote]))).isSome =
        values.any fun w => (strstr v w).isSome := by
    intro values
    induction values with
    | nil => simpa using hnil
    | cons w values ih =>
        have hsep := @strstr_isSome_past v [] (32 :: quote :: (w ++ quote ::
          values.flatMap fun w => comma :: 32 :: quote :: (w ++ [quote]))) comma hcomma hne
        have hblank := @strstr_isSome_past v [] (quote :: (w ++ quote ::
          values.flatMap fun w => comma :: 32 :: quote :: (w ++ [quote]))) 32 hspace hne
        simp only [List.nil_append, hnil, Bool.false_or] at hsep hblank
        simp only [List.flatMap_cons, List.cons_append, List.append_assoc, List.nil_append, List.any_cons]
        rw [hsep, hblank, hword, ih]
  have hinside : ∀ w : Text, (strstr v w).isSome = true ↔ v <:+: w := by
    intro w
    rw [Option.isSome_iff_ne_none, ne_eq, strstr_eq_none, not_not]
  cases values with
  | nil => simp [listText, hnil]
  | cons w values =>
      simp only [listText, List.cons_append, List.append_assoc, List.nil_append]
      rw [hword, hmore]
      simp [hinside]

/-! ## Collection -/

/-- Names that fit their buffers. -/
structure NamesFit (values : List Text) : Prop where
  dotted : ∀ v ∈ values, isDottedNamespace v = true
  short : ∀ v ∈ values, v.length < 128
  list : listLength values < namespaceListSize

theorem listLength_le {values more : List Text} : listLength values ≤ listLength (values ++ more) := by
  simp only [listLength, List.map_append, List.sum_append, List.length_append]
  omega

theorem addNamespace_part {w : Text} (h : NamesFit (before ++ v :: values)) (hw : w ∈ before) (hpart : v <:+: w) :
    addNamespace (listText before) before.length v = .error (.duplicate v) := by
  have hv : v ∈ before ++ v :: values := by simp
  have hshort := h.short v hv
  have hfound : (strstr v (listText before)).isSome = true := (strstr_listText (h.dotted v hv) before).2 ⟨w, hw, hpart⟩
  have hlist : listText before ≠ [] := by
    cases before with
    | nil => cases hw
    | cons x before => simp [listText]
  rw [addNamespace, if_neg (by omega), if_neg (by simp [h.dotted v hv]), if_pos ⟨hlist, hfound⟩]

theorem addNamespace_fresh (h : NamesFit (before ++ v :: values)) (hnew : ∀ w ∈ before, ¬ v <:+: w) :
    addNamespace (listText before) before.length v = .ok (listText (before ++ [v])) := by
  have hv : v ∈ before ++ v :: values := by simp
  have hshort := h.short v hv
  have hnot : ¬ (listText before ≠ [] ∧ (strstr v (listText before)).isSome = true) := by
    rintro ⟨-, hfound⟩
    obtain ⟨w, hw, hpart⟩ := (strstr_listText (h.dotted v hv) before).1 hfound
    exact hnew w hw hpart
  have hroom : listLength (before ++ [v]) < namespaceListSize := by
    have hle : listLength (before ++ [v]) ≤ listLength ((before ++ [v]) ++ values) := listLength_le
    rw [List.append_assoc, List.singleton_append] at hle
    have hlist := h.list
    omega
  rw [addNamespace, if_neg (by omega), if_neg (by simp [h.dotted v hv]), if_neg hnot, quotedList_listText,
    listText_length, if_neg (by omega)]

/-- The loop collects the names, or it comes to one that is a part of one before it. -/
theorem collectFrom_cases : ∀ {fuel : Nat} {cursor : Text} {before values : List Text},
    valuesFrom namespaceMarker quote fuel cursor = (values, true) → NamesFit (before ++ values) → NoPart before →
    (collectFrom fuel cursor (listText before) before.length =
        .ok (listText (before ++ values), (before ++ values).length) ∧ NoPart (before ++ values)) ∨
      ReportsDuplicate (collectFrom fuel cursor (listText before) before.length) ∧ ¬ NoPart (before ++ values) := by
  intro fuel
  induction fuel with
  | zero =>
      intro cursor before values hvalues _ hbefore
      cases hvalues
      exact .inl ⟨by simp [collectFrom], by simpa using hbefore⟩
  | succ fuel ih =>
      intro cursor before values hvalues hfit hbefore
      rw [valuesFrom] at hvalues
      cases hnext : nextValue namespaceMarker quote cursor with
      | absent =>
          rw [hnext] at hvalues
          cases hvalues
          exact .inl ⟨by simp [collectFrom, hnext], by simpa using hbefore⟩
      | unterminated =>
          rw [hnext] at hvalues
          cases hvalues
      | value v rest =>
          simp only [hnext, Prod.mk.injEq] at hvalues
          obtain ⟨rfl, hrest⟩ := hvalues
          by_cases hpart : ∃ w ∈ before, v <:+: w
          · obtain ⟨w, hw, hinside⟩ := hpart
            right
            refine ⟨⟨v, ?_⟩, fun hno => ?_⟩
            · simp only [collectFrom, hnext, addNamespace_part hfit hw hinside]
              rfl
            · exact (List.pairwise_append.1 hno).2.2 w hw v List.mem_cons_self hinside
          · simp only [not_exists, not_and] at hpart
            have hround : collectFrom (fuel + 1) cursor (listText before) before.length =
                collectFrom fuel rest (listText (before ++ [v])) (before ++ [v]).length := by
              simp only [collectFrom, hnext, addNamespace_fresh hfit hpart, List.length_append]
              rfl
            have hgrown : NoPart (before ++ [v]) := by
              apply List.pairwise_append.2
              refine ⟨hbefore, List.pairwise_singleton _ _, fun w hw u hu => ?_⟩
              rw [List.mem_singleton.1 hu]
              exact hpart w hw
            have hmove : before ++ v :: (valuesFrom namespaceMarker quote fuel rest).1 =
                before ++ [v] ++ (valuesFrom namespaceMarker quote fuel rest).1 := by simp
            rw [hround, hmove]
            exact ih (Prod.ext rfl hrest) (hmove ▸ hfit) hgrown

theorem NamespacesFit.names (h : NamespacesFit descriptor) : NamesFit (declaredNamespaces descriptor) where
  dotted := h.dotted
  short := h.short
  list := h.list

/-- What the collection of the namespaces of a package leads to. -/
theorem collectNamespaces_cases (h : NamespacesFit descriptor) :
    (collectNamespaces descriptor = .ok (listText (declaredNamespaces descriptor)) ∧
        NoPart (declaredNamespaces descriptor)) ∨
      ReportsDuplicate (collectNamespaces descriptor) ∧ ¬ NoPart (declaredNamespaces descriptor) := by
  have hvalues : valuesFrom namespaceMarker quote (descriptor.length + 1) descriptor =
      (declaredNamespaces descriptor, true) := Prod.ext rfl h.terminated
  have hcases := @collectFrom_cases _ _ [] _ hvalues (by simpa using h.names) List.Pairwise.nil
  simp only [List.nil_append, listText, List.length_nil] at hcases
  rcases hcases with ⟨hok, hno⟩ | ⟨⟨v, hduplicate⟩, hpart⟩
  · left
    refine ⟨?_, hno⟩
    have hentries : ¬ (0 < entryCount descriptor ∧ (declaredNamespaces descriptor).length ≠ entryCount descriptor) := by
      rcases h.entries with hzero | hsame
      · omega
      · omega
    simp only [collectNamespaces, hok]
    exact if_neg hentries
  · right
    refine ⟨⟨v, ?_⟩, hpart⟩
    simp only [collectNamespaces, hduplicate]
    rfl

theorem NoPart.nodup (h : NoPart values) : values.Nodup := by
  apply List.Pairwise.imp _ h
  rintro first later hpart rfl
  exact hpart (List.infix_refl first)

/-! ## The registry -/

/-- The registry of some namespaces. -/
def registryText (seen : List Text) : Text := 10 :: seen.flatMap fun v => v ++ [10]

theorem registryText_cons (v : Text) (seen : List Text) : registryText (v :: seen) = 10 :: (v ++ registryText seen) := by
  simp [registryText]

theorem registryText_append (seen : List Text) (v : Text) : registryText (seen ++ [v]) = registryText seen ++ v ++ [10] := by
  simp [registryText]

theorem registryText_length (seen : List Text) : (registryText seen).length = (seen.map fun v => v.length + 1).sum + 1 := by
  simp [registryText, List.length_flatMap]

/-- A whole line is found in the registry just if it is one. -/
theorem strstr_registryText (hv : (10 : Byte) ∉ v) (hseen : ∀ w ∈ seen, (10 : Byte) ∉ w) :
    (strstr (10 :: (v ++ [10])) (registryText seen)).isSome = true ↔ v ∈ seen := by
  induction seen with
  | nil =>
      have hstart : ¬ (10 :: (v ++ [10])).isPrefixOf (registryText []) := by
        rw [List.isPrefixOf_iff_prefix]
        intro hstarts
        have hlength := hstarts.length_le
        simp only [registryText, List.flatMap_nil, List.length_cons, List.length_append, List.length_nil] at hlength
        omega
      have hnone : strstr (10 :: (v ++ [10])) (registryText []) = none := by
        rw [registryText, List.flatMap_nil] at hstart ⊢
        simp [strstr, hstart]
      simp [hnone]
  | cons w seen ih =>
      have hw : (10 : Byte) ∉ w := hseen w List.mem_cons_self
      rw [registryText_cons, strstr]
      by_cases hstart : (10 :: (v ++ [10])).isPrefixOf (10 :: (w ++ registryText seen))
      · rw [if_pos hstart]
        obtain ⟨tail, htail⟩ := List.isPrefixOf_iff_prefix.1 hstart
        simp only [registryText, List.cons_append, List.append_assoc, List.nil_append, List.cons.injEq, true_and] at htail
        obtain ⟨rfl, -⟩ := CStrings.append_terminator_inj hv hw htail
        simp
      · rw [if_neg hstart, strstr_pass hw, ih fun u hu => hseen u (List.mem_cons_of_mem w hu), List.mem_cons]
        constructor
        · exact .inr
        · rintro (rfl | hmem)
          · refine absurd (List.isPrefixOf_iff_prefix.2 ?_) hstart
            simp [registryText]
          · exact hmem

theorem namespaceSeen_iff (hv : isDottedNamespace v = true) (hshort : v.length < 128)
    (hseen : ∀ w ∈ seen, isDottedNamespace w = true) : namespaceSeen (registryText seen) v = true ↔ v ∈ seen := by
  obtain ⟨hne, -, -, -, hclean⟩ := dotted_clean hv
  have hfound := strstr_registryText hclean fun w hw => (dotted_clean (hseen w hw)).2.2.2.2
  simp only [namespaceSeen, Bool.decide_and, Bool.and_eq_true, decide_eq_true_eq, hfound]
  constructor
  · rintro ⟨-, -, hmem⟩
    exact hmem
  · intro hmem
    exact ⟨hne, by omega, hmem⟩

/-- The list of a package is read back. -/
theorem markedValues_listText (h : ∀ v ∈ values, quote ∉ v) : markedValues [quote] quote (listText values) = (values, true) := by
  have hnext : ∀ (v rest : Text), quote ∉ v → nextValue [quote] quote (quote :: (v ++ quote :: rest)) = .value v rest := by
    intro v rest hv
    apply nextValue_found _ hv
    simp [strstr, List.isPrefixOf]
  have hskip : ∀ (v rest : Text), quote ∉ v →
      nextValue [quote] quote (comma :: 32 :: quote :: (v ++ quote :: rest)) = .value v rest := by
    intro v rest hv
    apply nextValue_found _ hv
    have hcomma : (quote == comma) = false := by decide
    have hspace : (quote == (32 : Byte)) = false := by decide
    simp [strstr, List.isPrefixOf, hcomma, hspace]
  have hmore : ∀ values : List Text, (∀ v ∈ values, quote ∉ v) →
      markedValues [quote] quote (values.flatMap fun w => comma :: 32 :: quote :: (w ++ [quote])) = (values, true) := by
    intro values hvalues
    induction values with
    | nil =>
        apply markedValues_absent
        apply nextValue_absent
        rfl
    | cons v values ih =>
        simp only [List.flatMap_cons, List.cons_append, List.append_assoc, List.nil_append]
        rw [markedValues_value (hskip v _ (hvalues v List.mem_cons_self)),
          ih fun w hw => hvalues w (List.mem_cons_of_mem v hw)]
  cases values with
  | nil =>
      apply markedValues_absent
      apply nextValue_absent
      rfl
  | cons v values =>
      simp only [listText, List.cons_append, List.append_assoc, List.nil_append]
      rw [markedValues_value (hnext v _ (h v List.mem_cons_self)),
        hmore values fun w hw => h w (List.mem_cons_of_mem v hw)]

/-! ## Restore -/

/-- Names that fit the registry. -/
structure RegistryNames (seen : List Text) : Prop where
  dotted : ∀ v ∈ seen, isDottedNamespace v = true
  short : ∀ v ∈ seen, v.length < 128
  room : (seen.map fun v => v.length + 1).sum + 1 < namespaceRegistrySize

theorem RegistryNames.left {more : List Text} (h : RegistryNames (seen ++ more)) : RegistryNames seen where
  dotted v hv := h.dotted v (List.mem_append_left more hv)
  short v hv := h.short v (List.mem_append_left more hv)
  room := by
    have hroom := h.room
    rw [List.map_append, List.sum_append] at hroom
    omega

theorem registerNamespace_seen (h : RegistryNames (seen ++ v :: values)) (hmem : v ∈ seen) :
    registerNamespace (registryText seen) v = .error (.duplicate v) := by
  have hv : v ∈ seen ++ v :: values := by simp
  have hshort := h.short v hv
  have hfound := (namespaceSeen_iff (h.dotted v hv) hshort h.left.dotted).2 hmem
  rw [registerNamespace, if_neg (by omega), if_pos hfound]

theorem registerNamespace_fresh (h : RegistryNames (seen ++ v :: values)) (hmem : v ∉ seen) :
    registerNamespace (registryText seen) v = .ok (registryText (seen ++ [v])) := by
  have hv : v ∈ seen ++ v :: values := by simp
  have hshort := h.short v hv
  have hnot : ¬ namespaceSeen (registryText seen) v = true := by
    rw [namespaceSeen_iff (h.dotted v hv) hshort h.left.dotted]
    exact hmem
  have hroom : (registryText (seen ++ [v])).length + 1 ≤ namespaceRegistrySize := by
    have hleft : RegistryNames (seen ++ [v] ++ values) := by simpa using h
    have hroom := hleft.left.room
    rw [registryText_length]
    omega
  rw [registerNamespace, if_neg (by omega), if_neg hnot, ← registryText_append, if_neg (by omega)]

/-- The names of a list are added to the registry, or the loop comes to one that is there. -/
theorem registerFrom_cases : ∀ {fuel : Nat} {cursor : Text} {seen values : List Text},
    valuesFrom [quote] quote fuel cursor = (values, true) → RegistryNames (seen ++ values) → seen.Nodup →
    (registerFrom fuel cursor (registryText seen) = .ok (registryText (seen ++ values)) ∧ (seen ++ values).Nodup) ∨
      ReportsDuplicate (registerFrom fuel cursor (registryText seen)) ∧ ¬ (seen ++ values).Nodup := by
  intro fuel
  induction fuel with
  | zero =>
      intro cursor seen values hvalues _ hseen
      cases hvalues
      exact .inl ⟨by simp [registerFrom], by simpa using hseen⟩
  | succ fuel ih =>
      intro cursor seen values hvalues hfit hseen
      rw [valuesFrom] at hvalues
      cases hnext : nextValue [quote] quote cursor with
      | absent =>
          rw [hnext] at hvalues
          cases hvalues
          exact .inl ⟨by simp [registerFrom, hnext], by simpa using hseen⟩
      | unterminated =>
          rw [hnext] at hvalues
          cases hvalues
      | value v rest =>
          simp only [hnext, Prod.mk.injEq] at hvalues
          obtain ⟨rfl, hrest⟩ := hvalues
          by_cases hmem : v ∈ seen
          · right
            refine ⟨⟨v, ?_⟩, fun hnodup => ?_⟩
            · simp only [registerFrom, hnext, registerNamespace_seen hfit hmem]
              rfl
            · exact (List.nodup_append.1 hnodup).2.2 v hmem v List.mem_cons_self rfl
          · have hround : registerFrom (fuel + 1) cursor (registryText seen) =
                registerFrom fuel rest (registryText (seen ++ [v])) := by
              simp only [registerFrom, hnext, registerNamespace_fresh hfit hmem]
              rfl
            have hgrown : (seen ++ [v]).Nodup := by
              apply List.nodup_append.2
              refine ⟨hseen, List.nodup_singleton v, ?_⟩
              rintro w hw u hu rfl
              exact hmem (List.mem_singleton.1 hu ▸ hw)
            have hmove : seen ++ v :: (valuesFrom [quote] quote fuel rest).1 =
                seen ++ [v] ++ (valuesFrom [quote] quote fuel rest).1 := by simp
            rw [hround, hmove]
            exact ih (Prod.ext rfl hrest) (hmove ▸ hfit) hgrown

/-- What a package adds to the registry. -/
theorem restorePackageNamespaces_cases (hfit : NamespacesFit descriptor)
    (hroom : RegistryNames (seen ++ declaredNamespaces descriptor)) (hseen : seen.Nodup) :
    (restorePackageNamespaces (registryText seen) descriptor =
        .ok (registryText (seen ++ declaredNamespaces descriptor)) ∧
      (seen ++ declaredNamespaces descriptor).Nodup) ∨
    ReportsDuplicate (restorePackageNamespaces (registryText seen) descriptor) ∧
      (¬ NoPart (declaredNamespaces descriptor) ∨ ¬ (seen ++ declaredNamespaces descriptor).Nodup) := by
  rcases collectNamespaces_cases hfit with ⟨hok, hno⟩ | ⟨⟨v, hduplicate⟩, hpart⟩
  · have hclean : ∀ v ∈ declaredNamespaces descriptor, quote ∉ v := fun v hv => (dotted_clean (hfit.dotted v hv)).2.1
    have hround : restorePackageNamespaces (registryText seen) descriptor =
        registerFrom ((listText (declaredNamespaces descriptor)).length + 1) (listText (declaredNamespaces descriptor))
          (registryText seen) := by
      simp only [restorePackageNamespaces, hok]
      rfl
    rw [hround]
    rcases registerFrom_cases (markedValues_listText hclean) hroom hseen with hadded | ⟨hduplicate, hnot⟩
    · exact .inl hadded
    · exact .inr ⟨hduplicate, .inr hnot⟩
  · right
    refine ⟨⟨v, ?_⟩, .inl hpart⟩
    simp only [restorePackageNamespaces, hduplicate]
    rfl

/-- What the packages of a restore add to the registry. -/
theorem restoreFrom_cases : ∀ {descriptors seen : List Text}, (∀ d ∈ descriptors, NamespacesFit d) →
    RegistryNames (seen ++ descriptors.flatMap declaredNamespaces) → seen.Nodup →
    (∃ registry, descriptors.foldlM restorePackageNamespaces (registryText seen) = .ok registry) ∧
        (seen ++ descriptors.flatMap declaredNamespaces).Nodup ∨
      ReportsDuplicate (descriptors.foldlM restorePackageNamespaces (registryText seen)) ∧
        ((∃ d ∈ descriptors, ¬ NoPart (declaredNamespaces d)) ∨
          ¬ (seen ++ descriptors.flatMap declaredNamespaces).Nodup) := by
  intro descriptors
  induction descriptors with
  | nil =>
      intro seen _ _ hseen
      left
      exact ⟨⟨_, rfl⟩, by simpa using hseen⟩
  | cons d descriptors ih =>
      intro seen hfit hroom hseen
      rw [List.flatMap_cons, ← List.append_assoc] at hroom ⊢
      rcases restorePackageNamespaces_cases (hfit d List.mem_cons_self) hroom.left hseen with
        ⟨hok, hnodup⟩ | ⟨⟨v, hduplicate⟩, hcause⟩
      · have hround : (d :: descriptors).foldlM restorePackageNamespaces (registryText seen) =
            descriptors.foldlM restorePackageNamespaces (registryText (seen ++ declaredNamespaces d)) := by
          rw [List.foldlM_cons, hok]
          rfl
        rw [hround]
        rcases ih (fun other hother => hfit other (List.mem_cons_of_mem d hother)) hroom hnodup with
          hall | ⟨hduplicate, ⟨other, hother, hpart⟩ | hnot⟩
        · exact .inl hall
        · exact .inr ⟨hduplicate, .inl ⟨other, List.mem_cons_of_mem d hother, hpart⟩⟩
        · exact .inr ⟨hduplicate, .inr hnot⟩
      · right
        refine ⟨⟨v, ?_⟩, ?_⟩
        · rw [List.foldlM_cons, hduplicate]
          rfl
        · rcases hcause with hpart | hnot
          · exact .inl ⟨d, List.mem_cons_self, hpart⟩
          · exact .inr fun hnodup => hnot (List.Nodup.of_append_left hnodup)

theorem not_reports_ok {α : Type} {a : α} : ¬ ReportsDuplicate (.ok a : Except NamespaceError α) := by
  rintro ⟨v, hv⟩
  cases hv

/-- Duplicates are reported exactly just if no package has a namespace that is only a part of one before it. -/
theorem duplicates_exact_iff {descriptors : List Text} (hfit : ∀ d ∈ descriptors, NamespacesFit d)
    (hroom : RegistryFits descriptors) : DuplicatesExact descriptors ↔ PartsAreDuplicates descriptors := by
  have hcollect : ∀ d ∈ descriptors, ReportsDuplicate (collectNamespaces d) ↔ ¬ NoPart (declaredNamespaces d) := by
    intro d hd
    rcases collectNamespaces_cases (hfit d hd) with ⟨hok, hno⟩ | ⟨hduplicate, hpart⟩
    · rw [hok]
      exact iff_of_false not_reports_ok (not_not.2 hno)
    · exact iff_of_true hduplicate hpart
  constructor
  · intro h d hd hpart
    exact (h.collected d hd).1 ((hcollect d hd).2 hpart)
  · intro h
    constructor
    · intro d hd
      rw [hcollect d hd]
      constructor
      · exact h d hd
      · intro hnot hno
        exact hnot hno.nodup
    · have hnames : RegistryNames ([] ++ descriptors.flatMap declaredNamespaces) := by
        refine ⟨fun v hv => ?_, fun v hv => ?_, hroom⟩
        · obtain ⟨d, hd, hmem⟩ := List.mem_flatMap.1 hv
          exact (hfit d hd).dotted v hmem
        · obtain ⟨d, hd, hmem⟩ := List.mem_flatMap.1 hv
          exact (hfit d hd).short v hmem
      have hstart : restoreNamespaces descriptors = descriptors.foldlM restorePackageNamespaces (registryText []) := rfl
      rw [hstart]
      rcases restoreFrom_cases hfit hnames List.nodup_nil with ⟨⟨registry, hok⟩, hnodup⟩ | ⟨hduplicate, hcause⟩
      · rw [hok]
        exact iff_of_false not_reports_ok (not_not.2 hnodup)
      · apply iff_of_true hduplicate
        rcases hcause with ⟨d, hd, hpart⟩ | hnot
        · intro hnodup
          exact h d hd hpart ((List.nodup_flatMap.1 hnodup).1 d hd)
        · exact hnot

instance : DecidablePred NoPart := fun values =>
  inferInstanceAs (Decidable (values.Pairwise fun first later => ¬ later <:+: first))

theorem fits_of_values {values : List Text} (hvalues : markedValues namespaceMarker quote descriptor = (values, true))
    (h : (values.all fun v => isDottedNamespace v && decide (v.length < 128)) = true ∧
      listLength values < namespaceListSize ∧ (entryCount descriptor = 0 ∨ entryCount descriptor = values.length)) :
    NamespacesFit descriptor := by
  have hdeclared : declaredNamespaces descriptor = values := by rw [declaredNamespaces, hvalues]
  have hall : ∀ v ∈ values, isDottedNamespace v = true ∧ v.length < 128 := by simpa using h.1
  refine ⟨by rw [hvalues], ?_, ?_, ?_, ?_⟩
  · intro v hv
    exact (hall v (hdeclared ▸ hv)).1
  · intro v hv
    exact (hall v (hdeclared ▸ hv)).2
  · rw [hdeclared]
    exact h.2.1
  · rw [hdeclared]
    exact h.2.2

/-- Two packages of which the second declares the namespace of the first. -/
theorem shared_namespace_reported :
    ReportsDuplicate (restoreNamespaces [ascii "namespace = \"ui.core\"", ascii "namespace = \"ui.core\""]) := by
  have hvalues : markedValues namespaceMarker quote (ascii "namespace = \"ui.core\"") = ([ascii "ui.core"], true) := by
    decide +kernel
  have hfit : NamespacesFit (ascii "namespace = \"ui.core\"") := fits_of_values hvalues (by decide +kernel)
  have hdeclared : declaredNamespaces (ascii "namespace = \"ui.core\"") = [ascii "ui.core"] := by
    rw [declaredNamespaces, hvalues]
  have hexact := (@duplicates_exact_iff [ascii "namespace = \"ui.core\"", ascii "namespace = \"ui.core\""]
    (by simpa using hfit) (by rw [RegistryFits]; simp [hdeclared]; decide)).2 (by
      intro d hd hpart
      have hd : d = ascii "namespace = \"ui.core\"" := by simpa using hd
      rw [hd, hdeclared] at hpart
      exact absurd (by decide) hpart)
  apply hexact.restored.2
  simp [hdeclared]

/-- A namespace that is only a part of another one is reported. -/
theorem part_reported :
    ¬ ∀ descriptors : List Text, (∀ d ∈ descriptors, NamespacesFit d) → RegistryFits descriptors →
      DuplicatesExact descriptors := by
  intro h
  have hvalues : markedValues namespaceMarker quote (ascii "namespace = \"ui.core\"\nnamespace = \"ui.co\"") =
      ([ascii "ui.core", ascii "ui.co"], true) := by decide +kernel
  have hdeclared : declaredNamespaces (ascii "namespace = \"ui.core\"\nnamespace = \"ui.co\"") =
      [ascii "ui.core", ascii "ui.co"] := by rw [declaredNamespaces, hvalues]
  have hfit : NamespacesFit (ascii "namespace = \"ui.core\"\nnamespace = \"ui.co\"") :=
    fits_of_values hvalues (by decide +kernel)
  have hexact := h [ascii "namespace = \"ui.core\"\nnamespace = \"ui.co\""] (by simpa using hfit)
    (by rw [RegistryFits]; simp [hdeclared]; decide)
  have hreported : ReportsDuplicate (collectNamespaces (ascii "namespace = \"ui.core\"\nnamespace = \"ui.co\"")) :=
    ⟨ascii "ui.co", by decide +kernel⟩
  have hnot := (hexact.collected _ List.mem_cons_self).1 hreported
  rw [hdeclared] at hnot
  exact hnot (by decide)

end Aivm
