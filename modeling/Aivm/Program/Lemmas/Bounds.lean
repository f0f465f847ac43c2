import Aivm.Program.Lemmas.Sections

/-!
# The loader stays inside its input

Every read of the loader is guarded by a comparison with the length of the input or of its section, and an artifact is
shorter than the catalog that holds it: the recursion over artifacts ends.
-/

namespace Aivm

open ByteReader Parse

variable {host : LoadHost} {bytes : List Byte} {load : List Byte → Parse LoadFailure ProgramRecord}
variable {p q : ProgramRecord} {seen : SeenSections}

theorem loadInstructions_proper {count cursor} (h : cursor + count * 12 ≤ bytes.length) :
    (loadInstructions bytes p count cursor).Proper := by
  induction count generalizing cursor with
  | zero => trivial
  | succ count ih =>
      unfold loadInstructions
      apply (readLe_proper (by omega)).bind
      intro rawOpcode _
      apply (readLe_proper (by omega)).bind
      intro operand _
      apply proper_check
      intro _
      apply (ih (by omega)).bind
      intro rest _
      trivial

theorem loadInstructionSection_proper {start size} (h : start + size ≤ bytes.length) :
    (loadInstructionSection host bytes start size p).Proper := by
  unfold loadInstructionSection
  apply proper_check
  intro hfour
  apply (readLe_proper (by omega)).bind
  intro count _
  apply proper_check
  intro hfill
  cases instructionsReserve host bytes count p with
  | none => trivial
  | some p' =>
      apply (loadInstructions_proper (by omega)).bind
      intro is _
      trivial

theorem constantRoom_proper {sectionEnd cursor count} : (constantRoom sectionEnd cursor count p).Proper := by
  unfold constantRoom
  apply proper_check
  intro _
  trivial

theorem loadConstant_proper {sectionEnd cursor} (h : sectionEnd ≤ bytes.length) :
    (loadConstant bytes sectionEnd cursor p).Proper := by
  have hroom : ∀ {cursor count} u, constantRoom sectionEnd cursor count p = .ok u → cursor + count ≤ bytes.length := by
    intro cursor count u hu
    have := constantRoom_ok.1 hu
    omega
  have hfixed : ∀ {α : Type} (width : Nat) (f : Nat → Parse LoadFailure α), (∀ n, (f n).Proper) →
      (constantRoom sectionEnd (cursor + 1) width p >>= fun _ => readLe bytes width (cursor + 1) >>= f).Proper := by
    intro α width f hf
    apply constantRoom_proper.bind
    intro u hu
    apply (readLe_proper (hroom u hu)).bind
    intro n _
    exact hf n
  have hrun : ∀ {α : Type} (length : Nat) (c : Prop) [Decidable c] (e : LoadFailure) (f : List Byte → α),
      (constantRoom sectionEnd (cursor + 5) length p >>= fun _ =>
        if c then .fail e else readBytes bytes (cursor + 5) length >>= fun data => .ok (f data)).Proper := by
    intro α length c _ e f
    apply constantRoom_proper.bind
    intro u hu
    apply proper_check
    intro _
    apply (readBytes_proper (hroom u hu)).bind
    intro data _
    trivial
  unfold loadConstant
  apply proper_check
  intro hc
  apply (readLe_proper (by omega)).bind
  intro kind _
  split_ifs
  · exact hfixed 8 _ fun _ => trivial
  · exact hfixed 8 _ fun _ => trivial
  · exact hfixed 1 _ fun _ => trivial
  · trivial
  · exact hfixed 4 _ fun length => hrun length _ _ _
  · trivial
  · exact hfixed 4 _ fun length => hrun length _ _ _
  · trivial

theorem loadConstants_proper {sectionEnd count cursor} (h : sectionEnd ≤ bytes.length) :
    (loadConstants bytes sectionEnd count cursor p).Proper := by
  induction count generalizing cursor p with
  | zero => trivial
  | succ count ih =>
      unfold loadConstants
      apply (loadConstant_proper h).bind
      rintro ⟨v, cursor', p'⟩ _
      apply ih.bind
      intro rest _
      trivial

theorem loadConstantSection_proper {start size} (h : start + size ≤ bytes.length) :
    (loadConstantSection host bytes start size p).Proper := by
  unfold loadConstantSection
  apply proper_check
  intro hfour
  apply (readLe_proper (by omega)).bind
  intro count _
  cases constantsReserve host bytes count p with
  | none => trivial
  | some p' =>
      apply (loadConstants_proper h).bind
      rintro ⟨vs, cursor, p''⟩ _
      apply proper_check
      intro _
      trivial

/-! ## Worker catalogs -/

theorem loadCatalogEntry_proper {cursor} (hload : ∀ artifact, artifact.length < bytes.length → (load artifact).Proper) :
    (loadCatalogEntry host bytes load cursor).Proper := by
  unfold loadCatalogEntry
  apply proper_check
  intro hroom
  apply (readLe_proper (by omega)).bind
  intro functionTarget _
  apply (readLe_proper (by omega)).bind
  intro requiredCapabilities _
  apply (readLe_proper (by omega)).bind
  intro transportAbi _
  apply (readLe_proper (by omega)).bind
  intro bytecodeVersion _
  apply (readLe_proper (by omega)).bind
  intro length _
  apply (readBytes_proper (by omega)).bind
  intro identity _
  apply proper_check
  intro hfit
  apply proper_check
  intro _
  apply proper_check
  intro _
  apply (readBytes_proper (by omega)).bind
  intro artifact hartifact
  have hlt : artifact.length < bytes.length := by
    have hlen := (readBytes_ok.1 hartifact).2
    omega
  apply proper_check
  intro _
  apply proper_check
  intro _
  have hproper := hload artifact hlt
  cases hres : load artifact with
  | ok worker =>
      apply proper_check
      intro _
      apply proper_check
      intro _
      trivial
  | fail e => trivial
  | outOfBounds => rw [hres] at hproper; exact hproper
  | outOfFuel => rw [hres] at hproper; exact hproper

theorem loadCatalogEntries_proper {count cursor}
    (hload : ∀ artifact, artifact.length < bytes.length → (load artifact).Proper) :
    (loadCatalogEntries host bytes load count cursor).Proper := by
  induction count generalizing cursor with
  | zero => trivial
  | succ count ih =>
      unfold loadCatalogEntries
      apply (loadCatalogEntry_proper hload).bind
      intro e _
      apply ih.bind
      intro rest _
      trivial

theorem loadWorkerCatalog_proper (hload : ∀ artifact, artifact.length < bytes.length → (load artifact).Proper) :
    (loadWorkerCatalog host bytes load).Proper := by
  unfold loadWorkerCatalog
  apply proper_check
  intro hfour
  apply (readLe_proper (by omega)).bind
  intro count _
  apply proper_check
  intro _
  apply proper_ite
  · intro _
    split
    · trivial
    · trivial
  intro _
  apply proper_check
  intro _
  apply (loadCatalogEntries_proper hload).bind
  rintro ⟨es, cursor⟩ _
  apply proper_check
  intro _
  trivial

theorem loadCatalogSection_proper {start size} (h : start + size ≤ bytes.length)
    (hload : ∀ artifact, artifact.length < bytes.length → (load artifact).Proper) :
    (loadCatalogSection host bytes load start size p).Proper := by
  unfold loadCatalogSection
  apply (readBytes_proper h).bind
  intro payload hpayload
  have hproper : (loadWorkerCatalog host payload load).Proper := by
    apply loadWorkerCatalog_proper
    intro artifact hlt
    have hlen := (readBytes_ok.1 hpayload).2
    exact hload artifact (by omega)
  cases hres : loadWorkerCatalog host payload load with
  | ok es => trivial
  | fail e => trivial
  | outOfBounds => rw [hres] at hproper; exact hproper
  | outOfFuel => rw [hres] at hproper; exact hproper

/-! ## The loader -/

theorem loadSection_proper {t start size} (h : start + size ≤ bytes.length)
    (hload : ∀ artifact, artifact.length < bytes.length → (load artifact).Proper) :
    (loadSection host bytes load seen t start size p).Proper := by
  unfold loadSection
  apply proper_ite
  · intro _
    apply proper_check
    intro _
    apply (loadInstructionSection_proper h).bind
    intro p' _
    trivial
  intro _
  apply proper_ite
  · intro _
    apply proper_check
    intro _
    apply (loadConstantSection_proper h).bind
    intro p' _
    trivial
  intro _
  apply proper_ite
  · intro _
    apply proper_check
    intro _
    apply (loadCatalogSection_proper h hload).bind
    intro p' _
    trivial
  · intro _
    trivial

theorem loadSections_proper {count cursor} (hload : ∀ artifact, artifact.length < bytes.length → (load artifact).Proper) :
    (loadSections host bytes load count seen cursor p).Proper := by
  induction count generalizing seen cursor p with
  | zero => trivial
  | succ count ih =>
      unfold loadSections
      apply proper_check
      intro hhead
      apply (readLe_proper (by omega)).bind
      intro t _
      apply (readLe_proper (by omega)).bind
      intro size _
      apply proper_check
      intro hend
      apply (loadSection_proper (by omega) hload).bind
      rintro ⟨seen', p'⟩ _
      exact ih

theorem loadAibc1_proper {fuel} (hfuel : bytes.length < fuel) : (loadAibc1 host fuel bytes p).Proper := by
  induction fuel generalizing bytes p with
  | zero => omega
  | succ fuel ih =>
      unfold loadAibc1
      apply proper_check
      intro hlen
      apply (readBytes_proper (by omega)).bind
      intro magic _
      apply proper_check
      intro _
      apply (readLe_proper (by omega)).bind
      intro version _
      apply (readLe_proper (by omega)).bind
      intro flags _
      apply (readLe_proper (by omega)).bind
      intro count _
      apply proper_check
      intro _
      apply proper_check
      intro _
      apply loadSections_proper
      intro artifact hlt
      exact ih (by omega)

end Aivm
