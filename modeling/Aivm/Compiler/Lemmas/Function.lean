import Aivm.Compiler.Lemmas.Translate

/-! # Functions -/

namespace Aivm

open StructuredCode FrontM CompileM

variable {sigs : List FnSig} {s s' t : CompileState} {T : Linked} {H : Nat → Prop} {loop : Nat × Nat}

/-! ## Bodies -/

theorem emits_allocParams {ps : List Text} : Emits sigs (allocParams ps) (genParams ps) := by
  induction ps with
  | nil => exact emits_pure
  | cons p ps ih => exact emits_allocLocal.orFailf.bind fun _ => ih

theorem emits_storeParams {name : Text} {ps : List Text} : Emits sigs (storeParams name ps) (genPrologue ps) := by
  induction ps with
  | nil => exact emits_pure
  | cons p ps ih =>
      intro s u s' hs hok
      obtain ⟨_, t, h₁, h₂⟩ := bind_ok.1 hok
      obtain ⟨slot, t', h₃, h₄⟩ := bind_ok.1 (orFailf_ok.1 h₁)
      refine Emits.bind (@emits_findLocal sigs [] p) (fun slot => Emits.bind emits_emit fun _ => ih) hs ?_
      exact bind_ok.2 ⟨slot, t', h₃, bind_ok.2 ⟨(), t, h₄, h₂⟩⟩

/-- The part of `compileFnByIndex` that emits code. -/
def compileFnBody (strtod : Text → Option UInt64) (fn : FnDef) : CompileM Unit := do
  let params ← ofOption (ascii "invalid params for function " ++ fn.name) (splitParams fn.paramsRaw)
  allocParams params
  storeParams fn.name params.reverse
  match fn.body with
  | [] => failf (ascii "function " ++ fn.name ++ ascii " missing Block body")
  | body :: _ =>
      if isBlockKind body.kind then do
        if ← (compileNode strtod body).block then pure ()
        else do
          orFailf (ascii "failed implicit void for " ++ fn.name) emitVoidConst
          orFailf (ascii "failed implicit return for " ++ fn.name) (emitOp .return_)
      else failf (ascii "function " ++ fn.name ++ ascii " missing Block body")

theorem emits_fnBody (hn : (sigs.map FnSig.name).Nodup) {strtod} {fn : FnDef} :
    Emits sigs (compileFnBody strtod fn) (genFn sigs strtod fn.paramsRaw fn.body) := by
  unfold compileFnBody genFn
  refine emits_ofOption.bind fun params => emits_allocParams.bind fun _ => emits_storeParams.bind fun _ => ?_
  cases fn.body with
  | nil => exact emits_failf
  | cons body _ =>
      refine emits_ite (fun _ => ?_) fun _ => emits_failf
      refine (compileNode_follows hn strtod body).block.bind fun didReturn => ?_
      exact emits_ite (fun _ => emits_pure) fun _ => emits_voidConst.orFailf.bind fun _ => emits_emitOp.orFailf

/-! ## The table of functions -/

namespace CompileState

/-- The state in which the body of a function is compiled. -/
def enter (s : CompileState) (index : Nat) : CompileState :=
  { s with
    funcs := s.funcs.modify index fun fn => { fn with compiling := true, entryIp := s.len }
    locals := [] }

/-- The state behind the body of a function. -/
def leave (s : CompileState) (index : Nat) : CompileState :=
  { s with funcs := s.funcs.modify index fun fn => { fn with compiled := true, compiling := false } }

end CompileState

theorem map_sig_modify {funcs : List FnDef} {index : Nat} {f : FnDef → FnDef} (h : ∀ fn, (f fn).sig = fn.sig) :
    (funcs.modify index f).map FnDef.sig = funcs.map FnDef.sig := by
  refine List.ext_getElem? fun i => ?_
  rw [List.getElem?_map, List.getElem?_map, List.getElem?_modify]
  cases funcs[i]? with
  | none => rfl
  | some fn =>
      split
      · exact congrArg some (h fn)
      · rfl

/-- Flags and entries do not matter for well-formedness. -/
theorem CompileState.Wf.of_funcs (hs : s.Wf sigs) (hfuncs : s'.funcs.map FnDef.sig = s.funcs.map FnDef.sig)
    (hprogram : s'.program = s.program) (hfixups : s'.fixups = s.fixups) (hframes : s'.loopFrames = s.loopFrames) :
    s'.Wf sigs := by
  refine ⟨hfuncs.trans hs.sigs, ?_, ?_, ?_, ?_, ?_⟩
  · rw [hfixups]
    intro fx hfx
    rw [CompileState.fetch, hprogram]
    exact hs.calls fx hfx
  · rw [hframes]
    intro fr hfr i hi
    rw [CompileState.fetch, hprogram]
    exact hs.sites fr hfr i hi
  · rw [hframes]
    exact hs.apart
  · rw [hprogram]
    exact hs.numbers
  · rw [hfixups]
    exact hs.distinct

/-- A function of the table is not touched by the steps of a body. -/
theorem compileFn_run (hn : (sigs.map FnSig.name).Nodup) {strtod index} {fn : FnDef} {u} (hs : s.Wf sigs)
    (hfn : s.funcs[index]? = some fn) (hnew : ¬ (fn.compiled = true ∨ fn.compiling = true))
    (h : compileFnByIndex strtod index s = .ok u s') : ∃ c t, s' = t.leave index ∧ Step sigs (s.enter index) t c [] ∧
    genFn sigs strtod fn.paramsRaw fn.body [] = some (c, (), t.locals) := by
  unfold compileFnByIndex at h
  rw [get_bind, hfn] at h
  simp only at h
  rw [if_neg hnew] at h
  rw [instructionCount_bind] at h
  obtain ⟨_, s₁, h₁, h⟩ := bind_ok.1 h
  obtain ⟨_, s₂, h₂, h⟩ := bind_ok.1 h
  have henter : s₂ = s.enter index := by
    rw [modify_ok.1 h₂, modify_ok.1 h₁]
    rfl
  suffices hrun : ∃ t, compileFnBody strtod fn s₂ = .ok () t ∧ s' = t.leave index by
    obtain ⟨t, hrun, hleave⟩ := hrun
    have hwf : s₂.Wf sigs := by
      rw [henter]
      exact hs.of_funcs (map_sig_modify fun _ => rfl) rfl rfl rfl
    obtain ⟨c, hg, hstep⟩ := emits_fnBody hn hwf hrun
    rw [henter] at hstep hg
    exact ⟨c, t, hleave, hstep, hg⟩
  unfold compileFnBody
  obtain ⟨params, s₃, h₃, h⟩ := bind_ok.1 h
  obtain ⟨_, s₄, h₄, h⟩ := bind_ok.1 h
  obtain ⟨_, s₅, h₅, h⟩ := bind_ok.1 h
  suffices hlast : ∃ t, (match fn.body with
      | [] => failf (ascii "function " ++ fn.name ++ ascii " missing Block body")
      | body :: _ =>
          if isBlockKind body.kind then do
            if ← (compileNode strtod body).block then pure ()
            else do
              orFailf (ascii "failed implicit void for " ++ fn.name) emitVoidConst
              orFailf (ascii "failed implicit return for " ++ fn.name) (emitOp .return_)
          else failf (ascii "function " ++ fn.name ++ ascii " missing Block body")) s₅ = .ok () t ∧ s' = t.leave index by
    obtain ⟨t, ht, hleave⟩ := hlast
    exact ⟨t, bind_ok.2 ⟨params, s₃, h₃, bind_ok.2 ⟨_, s₄, h₄, bind_ok.2 ⟨_, s₅, h₅, ht⟩⟩⟩, hleave⟩
  cases hbody : fn.body with
  | nil =>
      rw [hbody] at h
      exact absurd h failf_ok
  | cons body rest =>
      rw [hbody] at h
      simp only at h ⊢
      split at h
      · rename_i hblock
        rw [if_pos hblock]
        obtain ⟨didReturn, s₆, h₆, h⟩ := bind_ok.1 h
        cases didReturn with
        | true =>
            rw [if_pos rfl] at h
            exact ⟨s₆, bind_ok.2 ⟨true, s₆, h₆, rfl⟩, modify_ok.1 h⟩
        | false =>
            rw [if_neg Bool.false_ne_true] at h
            obtain ⟨_, s₇, h₇, h⟩ := bind_ok.1 h
            obtain ⟨_, t, h₈, h⟩ := bind_ok.1 h
            exact ⟨t, bind_ok.2 ⟨false, s₆, h₆, bind_ok.2 ⟨_, s₇, h₇, h₈⟩⟩, modify_ok.1 h⟩
      · exact absurd h failf_ok

end Aivm
