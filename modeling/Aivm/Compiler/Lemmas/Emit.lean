import Aivm.Compiler.Lemmas.Steps

/-! # Instructions, constants and locals -/

namespace Aivm

open StructuredCode FrontM CompileM

variable {T : Linked} {H : Nat → Prop} {loop : Nat × Nat} {s s' : CompileState} {sigs : List FnSig}

/-! ## Appending an instruction -/

/-- The state with another program. -/
def CompileState.withProgram (s : CompileState) (d : Draft) : CompileState := { s with program := d }

theorem store_ok {message f u} : store message f s = .ok u s' ↔ ∃ d, f s.program = some d ∧ s' = s.withProgram d := by
  unfold store
  cases f s.program with
  | none => simp [fail_ok]
  | some d => simp [CompileState.withProgram, eq_comm]

theorem Draft.emit_some {d d' : Draft} {opcode operand} (h : d.emit opcode operand = some d') :
    d'.instructions = d.instructions ++ [⟨opcode, operand⟩] ∧ d'.constants = d.constants := by
  unfold Draft.emit at h
  split at h
  · cases h
    exact ⟨rfl, rfl⟩
  · cases h

/-- One instruction was appended, and nothing else changed. -/
structure Appended (s s' : CompileState) (i : Instruction) : Prop where
  instructions : s'.program.instructions = s.program.instructions ++ [i]
  constants : s'.program.constants = s.program.constants
  funcs : s'.funcs = s.funcs
  fixups : s'.fixups = s.fixups
  loopFrames : s'.loopFrames = s.loopFrames
  locals : s'.locals = s.locals

theorem emit_appended {opcode operand u} (h : emit opcode operand s = .ok u s') : Appended s s' ⟨opcode, operand⟩ := by
  obtain ⟨d, hd, rfl⟩ := store_ok.1 h
  obtain ⟨hi, hc⟩ := Draft.emit_some hd
  exact ⟨hi, hc, rfl, rfl, rfl, rfl⟩

namespace Appended

variable {i : Instruction}

theorem len (h : Appended s s' i) : s'.len = s.len + 1 := by
  simp [CompileState.len, h.instructions]

theorem fetch_old (h : Appended s s' i) {k} (hk : k < s.len) : s'.fetch k = s.fetch k := by
  simp only [CompileState.fetch, h.instructions]
  exact List.getElem?_append_left hk

theorem fetch_new (h : Appended s s' i) : s'.fetch s.len = some i := by
  simp [CompileState.fetch, CompileState.len, h.instructions]

theorem fetch_some (h : Appended s s' i) {k j} (hk : s.fetch k = some j) : s'.fetch k = some j := by
  rw [h.fetch_old (CompileState.fetch_lt hk), hk]

theorem grows (h : Appended s s' i) : CodeGrows s s' := by
  refine ⟨h.funcs, ?_, fun k hk => h.fetch_old hk, ?_, ⟨[], by simp [h.fixups]⟩, ?_⟩
  · rw [h.len]
    exact Nat.le_succ _
  · intro k c hk
    rw [h.constants]
    exact hk
  · rw [h.loopFrames]
    exact .refl _ _

theorem wf (h : Appended s s' i) (hs : s.Wf sigs) : s'.Wf sigs := by
  refine ⟨?_, ?_, ?_, ?_, ?_, ?_⟩
  · rw [h.funcs]
    exact hs.sigs
  · intro fx hfx
    rw [h.fixups] at hfx
    obtain ⟨x, hx⟩ := hs.calls fx hfx
    exact ⟨x, h.fetch_some hx⟩
  · intro fr hfr k hk
    rw [h.loopFrames] at hfr
    obtain ⟨x, hx⟩ := hs.sites fr hfr k hk
    exact ⟨x, h.fetch_some hx⟩
  · rw [h.loopFrames]
    exact hs.apart
  · rw [h.constants]
    exact hs.numbers
  · rw [h.fixups]
    exact hs.distinct

theorem pending (h : Appended s s' i) {k} : s'.Pending k ↔ s.Pending k := by
  unfold CompileState.Pending
  rw [h.fixups, h.loopFrames]

end Appended

theorem CompileState.Wf.pending_lt (hs : s.Wf sigs) {k} (h : s.Pending k) : k < s.len := by
  rcases h with ⟨fx, hfx, rfl⟩ | ⟨fr, hfr, hk⟩
  · obtain ⟨x, hx⟩ := hs.calls fx hfx
    exact fetch_lt hx
  · obtain ⟨x, hx⟩ := hs.sites fr hfr k hk
    exact fetch_lt hx

/-- What a completing program has at an address that is not open. -/
theorem Linked.Completes.fetch {k i} (h : T.Completes H loop s) (hk : s.fetch k = some i) (hH : ¬ H k)
    (hp : ¬ s.Pending k) : T.code[k]? = some i := by
  rw [h.code k (CompileState.fetch_lt hk) hH hp, hk]

theorem Appended.fetch_completed {i : Instruction} (h : Appended s s' i) (hs : s.Wf sigs) (hH : ∀ k, H k → k < s.len)
    (hT : T.Completes H loop s') : T.code[s.len]? = some i := by
  refine hT.fetch h.fetch_new (fun hHs => absurd (hH _ hHs) (by omega)) fun hp => ?_
  exact absurd (hs.pending_lt (h.pending.1 hp)) (by omega)

theorem completes_nil {J : List Nat} (hJ : J = []) (h : T.Completes (fun k => H k ∨ k ∈ J) loop s) :
    T.Completes H loop s := by
  subst hJ
  exact h.mono fun k _ hk => hk.resolve_right (by simp)

/-- An appended instruction that resolves a basic instruction. -/
theorem Appended.step {i : Instruction} {b : BasicOp} (h : Appended s s' i) (hs : s.Wf sigs)
    (hb : ∀ {T : Linked} {H : Nat → Prop} {loop : Nat × Nat}, T.Completes H loop s' → T.code[s.len]? = some i →
      T.Resolves s.len (.basic b)) : Step sigs s s' (.basic b) [] := by
  refine ⟨h.wf hs, h.grows, h.len, ?_, .same h.fixups, by simp, ?_⟩
  · rw [h.constants]
    exact fun k hk => .inl hk
  · intro T H loop hH hT _
    have hT := completes_nil rfl hT
    exact ⟨hb hT (h.fetch_completed hs hH hT), trivial⟩

theorem emits_emit {opcode operand} : Emits sigs (emit opcode operand) (.basic (.op opcode operand)) := by
  intro s u s' hs h
  have happ := emit_appended h
  refine ⟨.basic (.op opcode operand), ?_, happ.step hs fun _ hcode => hcode⟩
  simp [Gen.basic, happ.locals]

theorem emits_emitOp {opcode} : Emits sigs (emitOp opcode) (.op opcode) := emits_emit

/-! ## Constants -/

theorem Draft.addConstant_some {d d' : Draft} {c} (h : d.addConstant c = some d') :
    d'.instructions = d.instructions ∧ d'.constants = d.constants ++ [c] := by
  unfold Draft.addConstant at h
  split at h
  · cases h
    exact ⟨rfl, rfl⟩
  · cases h

/-- A constant was added behind the others, or nothing changed. -/
structure ConstAdded (s s' : CompileState) (c : Literal) (index : Nat) : Prop where
  instructions : s'.program.instructions = s.program.instructions
  constants : s'.program.constants = s.program.constants ∨ s'.program.constants = s.program.constants ++ [c]
  funcs : s'.funcs = s.funcs
  fixups : s'.fixups = s.fixups
  loopFrames : s'.loopFrames = s.loopFrames
  locals : s'.locals = s.locals
  found : ∃ k, s'.program.constants[index]? = some k ∧ Serves k c
  fresh : s'.program.constants = s.program.constants ++ [c] → ∀ x y, c = .number y →
    .number x ∈ s.program.constants → doubleEq x y = false

theorem addConst_added {full like c index} (h : addConst full like c s = .ok index s')
    (hserves : ∀ k, like k = true → Serves k c)
    (hlike : ∀ x y, c = .number y → doubleEq x y = true → like (.number x) = true) : ConstAdded s s' c index := by
  cases hk : s.program.findConstant like with
  | some k =>
    have h : (pure k : CompileM Nat) s = .ok index s' := by
      simpa only [addConst, get_bind, hk] using h
    obtain ⟨rfl, rfl⟩ := pure_ok.1 h
    obtain ⟨hlt, hlk, _⟩ := List.findIdx?_eq_some_iff_getElem.1 hk
    refine ⟨rfl, .inl rfl, rfl, rfl, rfl, rfl, ⟨_, List.getElem?_eq_getElem hlt, hserves _ hlk⟩, ?_⟩
    intro happend
    have := congrArg List.length happend
    simp at this
  | none =>
    have h : (do
        store full (·.addConstant c)
        return s.program.constants.length : CompileM Nat) s = .ok index s' := by
      simpa only [addConst, get_bind, hk] using h
    obtain ⟨_, u, hstore, h⟩ := bind_ok.1 h
    obtain ⟨d, hd, rfl⟩ := store_ok.1 hstore
    obtain ⟨hlen, rfl⟩ := pure_ok.1 h
    obtain ⟨hi, hc⟩ := Draft.addConstant_some hd
    refine ⟨hi, .inr hc, rfl, rfl, rfl, rfl, ⟨c, ?_, .inl rfl⟩, ?_⟩
    · rw [← hlen]
      simp [CompileState.withProgram, hc]
    · intro _ x y hy hmem
      by_contra hne
      have hnot := List.findIdx?_eq_none_iff.1 hk _ hmem
      rw [hlike x y hy (by simpa using hne)] at hnot
      cases hnot

namespace ConstAdded

variable {c : Literal} {index : Nat}

theorem len (h : ConstAdded s s' c index) : s'.len = s.len := by
  simp [CompileState.len, h.instructions]

theorem fetch (h : ConstAdded s s' c index) (k : Nat) : s'.fetch k = s.fetch k := by
  simp only [CompileState.fetch, h.instructions]

theorem kept (h : ConstAdded s s' c index) {k : Nat} {l} (hk : s.program.constants[k]? = some l) :
    s'.program.constants[k]? = some l := by
  rcases h.constants with heq | heq
  · rw [heq]
    exact hk
  · rw [heq, List.getElem?_append_left (List.getElem?_eq_some_iff.1 hk).1]
    exact hk

theorem grows (h : ConstAdded s s' c index) : CodeGrows s s' := by
  refine ⟨h.funcs, h.len.ge, fun k _ => h.fetch k, fun k l hk => h.kept hk, ⟨[], by simp [h.fixups]⟩, ?_⟩
  rw [h.loopFrames]
  exact .refl _ _

theorem numbers (h : ConstAdded s s' c index) (hs : CompileState.NumbersDiffer s.program.constants)
    (hsymm : ∀ x y, doubleEq x y = true → doubleEq y x = true) : CompileState.NumbersDiffer s'.program.constants := by
  rcases h.constants with heq | heq
  · rw [heq]
    exact hs
  · have hfresh := h.fresh heq
    rw [heq]
    intro i j x y hi hj hxy
    rw [List.getElem?_append] at hi hj
    split at hi <;> split at hj
    · exact hs i j x y hi hj hxy
    · obtain ⟨hj', hc⟩ := List.getElem?_eq_some_iff.1 hj
      simp only [List.getElem_singleton] at hc
      rw [hfresh x y hc (List.mem_of_getElem? hi)] at hxy
      cases hxy
    · obtain ⟨hi', hc⟩ := List.getElem?_eq_some_iff.1 hi
      simp only [List.getElem_singleton] at hc
      have hyx := hsymm x y hxy
      rw [hfresh y x hc (List.mem_of_getElem? hj)] at hyx
      cases hyx
    · have hi' := (List.getElem?_eq_some_iff.1 hi).1
      have hj' := (List.getElem?_eq_some_iff.1 hj).1
      simp only [List.length_singleton] at hi' hj'
      omega

end ConstAdded

theorem doubleEq_symm {x y : UInt64} (h : doubleEq x y = true) : doubleEq y x = true := by
  simp only [doubleEq, decide_eq_true_eq] at h ⊢
  exact ⟨h.2.1, h.1, h.2.2.imp Eq.symm And.symm⟩

theorem ConstAdded.wf {c : Literal} {index : Nat} (h : ConstAdded s s' c index) (hs : s.Wf sigs) : s'.Wf sigs := by
  refine ⟨?_, ?_, ?_, ?_, h.numbers hs.numbers fun x y => doubleEq_symm, ?_⟩
  · rw [h.funcs]
    exact hs.sigs
  · intro fx hfx
    rw [h.fetch]
    exact hs.calls fx (h.fixups ▸ hfx)
  · intro fr hfr i hi
    rw [h.fetch]
    exact hs.sites fr (h.loopFrames ▸ hfr) i hi
  · rw [h.loopFrames]
    exact hs.apart
  · rw [h.fixups]
    exact hs.distinct

theorem SourceConst.literal_isNode (c : SourceConst) : c.literal.isNode = false := by
  cases c <;> rfl

theorem SourceConst.literal_number {c : SourceConst} {bits} (h : c.literal = .number bits) : c = .number bits := by
  cases c with
  | number b =>
      cases h
      rfl
  | _ => cases h

theorem ConstAdded.consts {c : SourceConst} {index : Nat} {d : SourceCode} (h : ConstAdded s s' c.literal index)
    (hd : ∀ bits, c = .number bits → .const (.number bits) ∈ d.basics) :
    ConstsFrom d s.program.constants s'.program.constants := by
  intro k hk
  rcases h.constants with heq | heq
  · exact .inl (heq ▸ hk)
  · rw [heq] at hk
    rcases List.mem_append.1 hk with hk | hk
    · exact .inl hk
    · rw [List.mem_singleton] at hk
      subst hk
      exact .inr ⟨c.literal_isNode, fun bits hb => hd bits (SourceConst.literal_number hb)⟩

theorem addStringConst_added {t index} (h : addStringConst t s = .ok index s') :
    ConstAdded s s' (SourceConst.string (.ofBuffer t)).literal index := by
  unfold addStringConst at h
  rw [get_bind] at h
  refine addConst_added h (fun k hk => .inl ?_) fun x y hy => ?_
  · simpa [SourceConst.literal] using hk
  · cases hy

theorem addNumberConst_added {bits index} (h : addNumberConst bits s = .ok index s') :
    ConstAdded s s' (SourceConst.number bits).literal index := by
  refine addConst_added h (fun k hk => ?_) fun x y hy hxy => ?_
  · cases k with
    | number other => exact .inr ⟨other, bits, rfl, rfl, hk⟩
    | _ => cases hk
  · cases hy
    exact hxy

theorem addVoidConst_added {index} (h : addVoidConst s = .ok index s') :
    ConstAdded s s' SourceConst.void.literal index := by
  refine addConst_added h (fun k hk => .inl ?_) fun x y hy => ?_
  · simpa [SourceConst.literal] using hk
  · cases hy

/-- A `CONST` of a constant that is in the table. -/
theorem emitConst_step {c : SourceConst} {index : Nat} {u} (hs : s.Wf sigs)
    (hfound : ∃ k, s.program.constants[index]? = some k ∧ Serves k c.literal) (h : emitConst index s = .ok u s') :
    Step sigs s s' (.basic (.const c)) [] := by
  have happ := emit_appended h
  obtain ⟨k, hk, hserves⟩ := hfound
  refine happ.step hs ?_
  intro T H loop hT hcode
  exact ⟨index, k, hcode, hT.table _ _ (by rw [happ.constants]; exact hk), hserves⟩

theorem Step.congr {J : List Nat} {c c' : SourceCode} (h : Step sigs s s' c J) (hsize : c'.size = c.size)
    (hflat : ∀ loop base, c'.flatten loop base = c.flatten loop base) (hbasics : c'.basics = c.basics) :
    Step sigs s s' c' J := by
  refine ⟨h.wf, h.grows, ?_, ?_, ?_, h.opened, ?_⟩
  · rw [hsize]
    exact h.size
  · unfold ConstsFrom
    rw [hbasics]
    exact h.consts
  · exact h.calls.mono fun f hf => hbasics ▸ hf
  · intro T H loop hH hT hJ
    rw [hflat]
    exact h.sound hH hT hJ

theorem Step.after_done {t : CompileState} {J : List Nat} {c : SourceCode} (h : Step sigs s t .done [])
    (h' : Step sigs t s' c J) : Step sigs s s' c J := by
  refine (h.seq h').congr ?_ ?_ ?_ <;> simp [Code.size, Code.flatten, Code.basics]

theorem ConstAdded.step_string {t : CText} {index : Nat} (h : ConstAdded s s' (SourceConst.string t).literal index)
    (hs : s.Wf sigs) : Step sigs s s' .done [] := by
  refine .done (h.wf hs) h.grows h.len (h.consts ?_) h.fixups
  rintro bits ⟨⟩

/-- A constant that is added and at once pushed. -/
theorem emits_addConst {add : CompileM Nat} {c : SourceConst}
    (hadd : ∀ {s index s'}, add s = .ok index s' → ConstAdded s s' c.literal index) :
    Emits sigs (add >>= emitConst) (.const c) := by
  intro s u s'' hs h
  obtain ⟨index, s', hadded, hemit⟩ := bind_ok.1 h
  have hc := hadd hadded
  have hstep := emitConst_step (hc.wf hs) hc.found hemit
  have happ := emit_appended hemit
  refine ⟨.basic (.const c), ?_, ?_⟩
  · rw [happ.locals, hc.locals]
    rfl
  · refine ⟨hstep.wf, hc.grows.trans hstep.grows, ?_, ?_, .same ?_, by simp, ?_⟩
    · rw [hstep.size, hc.len]
    · rw [happ.constants]
      refine hc.consts ?_
      rintro bits rfl
      exact List.mem_singleton_self _
    · rw [happ.fixups, hc.fixups]
    · intro T H loop hH hT hJ
      rw [← hc.len]
      exact hstep.sound (fun i hi => by rw [hc.len]; exact hH i hi) hT hJ

theorem emits_text {t : Text} : Emits sigs (addStringConst t >>= emitConst) (.text t) :=
  emits_addConst addStringConst_added

theorem emits_voidConst : Emits sigs emitVoidConst (.const .void) :=
  emits_addConst fun h => addVoidConst_added (orFail_ok.1 h)

/-! ## Locals -/

theorem Step.locals (hs : s.Wf sigs) (locals : List Text) : Step sigs s { s with locals := locals } .done [] := by
  refine .done ⟨hs.sigs, hs.calls, hs.sites, hs.apart, hs.numbers, hs.distinct⟩ ?_ rfl (fun k hk => .inl hk) rfl
  exact ⟨rfl, Nat.le_refl _, fun _ _ => rfl, fun _ _ h => h, ⟨[], by simp⟩, .refl _ _⟩

theorem emits_allocLocal {name} : Emits sigs (allocLocal name) (.alloc name) := by
  refine emits_get fun {s slot s'} hs h => ?_
  cases hk : s.locals.findIdx? (· = name) with
  | some k =>
      simp only [hk] at h
      obtain ⟨rfl, rfl⟩ := pure_ok.1 h
      exact ⟨.done, by simp [Gen.alloc, hk], .locals hs _⟩
  | none =>
      simp only [hk] at h
      split at h
      · exact absurd h failf_ok
      split at h
      · exact absurd h failf_ok
      split at h
      · exact absurd h failf_ok
      obtain ⟨u, t, hmod, h⟩ := bind_ok.1 h
      rw [modify_ok] at hmod
      obtain ⟨rfl, rfl⟩ := pure_ok.1 h
      subst hmod
      exact ⟨.done, by simp [Gen.alloc, hk], .locals hs _⟩

theorem emits_findLocal {message name} : Emits sigs (findLocal message name) (.find name) := by
  refine emits_get fun {s slot s'} hs h => ?_
  obtain ⟨hk, rfl⟩ := ofOption_ok.1 h
  exact ⟨.done, by simp [Gen.find, hk], .locals hs _⟩

end Aivm
