import Aivm.Compiler.Lemmas.Loops

/-!
# The compiler follows the translation

Each function of the compiler emits what its translation says, if that holds of the children it is given; so it holds of
every node.
-/

namespace Aivm

open StructuredCode FrontM CompileM

variable {sigs : List FnSig} {s s' : CompileState}

/-! ## Children -/

/-- A child is compiled as its piece says. -/
structure Follows (sigs : List FnSig) (ch : Child) (p : Piece) : Prop where
  kind : ch.kind = p.kind
  expr : Emits sigs ch.expr p.expr
  stmt : Emits sigs ch.stmt p.stmt
  block : Emits sigs ch.block p.block

abbrev FollowsAll (sigs : List FnSig) : List Child → List Piece → Prop := List.Forall₂ (Follows sigs)

variable {attrs : Text} {chs : List Child} {ps : List Piece}

/-- A constant that is added and pushed, and what comes behind it. -/
theorem emits_text_then {α : Type} {t : Text} {add : CompileM Nat} {push : Nat → CompileM Unit} {rest : CompileM α}
    {g : Gen α} (hadd : ∀ {s index s'}, add s = .ok index s' → addStringConst t s = .ok index s')
    (hpush : ∀ {index s u s'}, push index s = .ok u s' → emitConst index s = .ok u s') (h : Emits sigs rest g) :
    Emits sigs (do
      let index ← add
      push index
      rest) (do
      Gen.text t
      g) := by
  intro s a s' hs hok
  obtain ⟨index, s₁, h₁, hok⟩ := bind_ok.1 hok
  obtain ⟨u, s₂, h₂, hok⟩ := bind_ok.1 hok
  refine Emits.bind (m := addStringConst t >>= emitConst) emits_text (fun _ => h) hs (bind_ok.2 ⟨u, s₂, ?_, hok⟩)
  exact bind_ok.2 ⟨index, s₁, hadd h₁, hpush h₂⟩

/-- The arguments of a call, with their number. -/
theorem compileArgs_run (h : FollowsAll sigs chs ps) : ∀ {count n s s'}, s.Wf sigs →
    compileArgs chs count s = .ok n s' →
    n = count + ps.length ∧ ∃ c, genSeq ps s.locals = some (c, (), s'.locals) ∧ Step sigs s s' c [] := by
  induction h with
  | nil =>
      intro count n s s' hs hok
      obtain ⟨rfl, rfl⟩ := pure_ok.1 hok
      exact ⟨rfl, emits_pure hs rfl⟩
  | cons hch _ ih =>
      intro count n s s' hs hok
      unfold compileArgs at hok
      split at hok
      · exact absurd hok fail_ok
      obtain ⟨u, t, h₁, h₂⟩ := bind_ok.1 hok
      obtain ⟨c, hg, hstep⟩ := hch.expr hs h₁
      obtain ⟨hn, c', hg', hstep'⟩ := ih hstep.wf h₂
      refine ⟨?_, .seq c c', Gen.bind_run hg hg', hstep.seq hstep'⟩
      rw [hn, List.length_cons]
      omega

theorem emits_args {α : Type} {f : Nat → CompileM α} {g : Gen α} (h : FollowsAll sigs chs ps)
    (hf : Emits sigs (f ps.length) g) : Emits sigs (compileArgs chs 0 >>= f) (do
      genSeq ps
      g) := by
  intro s a s' hs hok
  obtain ⟨n, t, h₁, h₂⟩ := bind_ok.1 hok
  obtain ⟨hn, c, hg, hstep⟩ := compileArgs_run h hs h₁
  rw [Nat.zero_add] at hn
  subst hn
  obtain ⟨c', hg', hstep'⟩ := hf hstep.wf h₂
  exact ⟨.seq c c', Gen.bind_run hg hg', hstep.seq hstep'⟩

/-! ## Calls -/

theorem emits_popResult {b : Bool} {message} :
    Emits sigs (if b = true then orFail message (emitOp .pop) else pure ()) (if b = true then Gen.op .pop else pure ()) :=
  emits_ite (fun _ => emits_emitOp.orFail) fun _ => emits_pure

theorem emits_call {popResult : Bool} (h : FollowsAll sigs chs ps) :
    Emits sigs (compileCall attrs chs popResult) (genCall sigs attrs ps popResult) := by
  unfold compileCall genCall
  refine Emits.bind emits_ofOption fun target => ?_
  refine emits_ite (fun _ => ?_) (fun _ => ?_)
  · refine emits_text_then (fun h => orFail_ok.1 h) (fun h => orFail_ok.1 h) ?_
    refine emits_args h ?_
    exact Emits.bind emits_emit.orFail fun _ => emits_popResult
  · refine emits_args h ?_
    refine emits_get fun {s a s'} hs hok => ?_
    rw [findFunc_eq, hs.sigs] at hok
    refine emits_ofOption_bind (fun index hindex => ?_) hs hok
    refine Emits.after_check (fun h => (ofOption_ok.1 h).2) fun expected => ?_
    refine emits_check (fun h => ?_) (Emits.bind (emits_emitCall hindex) fun _ => emits_popResult)
    obtain ⟨_, _, h, _⟩ := bind_ok.1 h
    exact absurd h failf_ok

/-! ## Dynamic calls -/

theorem findSig_of_nodup (hn : (sigs.map FnSig.name).Nodup) {i : Nat} {sig : FnSig} (h : sigs[i]? = some sig) :
    findSig sigs sig.name = some i := by
  obtain ⟨hi, rfl⟩ := List.getElem?_eq_some_iff.1 h
  refine List.findIdx?_eq_some_iff_getElem.2 ⟨hi, by simp, ?_⟩
  intro j hj
  have hsigs : j < (sigs.map FnSig.name).length ∧ i < (sigs.map FnSig.name).length := by
    simp only [List.length_map]
    omega
  have hne : (sigs.map FnSig.name).get ⟨j, hsigs.1⟩ ≠ (sigs.map FnSig.name).get ⟨i, hsigs.2⟩ := by
    intro heq
    exact absurd (congrArg Fin.val ((List.nodup_iff_injective_get.1 hn) heq)) (Nat.ne_of_lt hj)
  simpa using hne

theorem emits_dynamicArgs (h : FollowsAll sigs chs ps) : Emits sigs (compileDynamicArgs chs) (genSeq ps) := by
  induction h with
  | nil => exact emits_pure
  | cons hch _ ih => exact hch.expr.orFail.bind fun _ => ih

theorem Step.seq_done {c : SourceCode} {J : List Nat} (h : Step sigs s s' c J) : Step sigs s s' (.seq c .done) J := by
  refine h.congr ?_ ?_ ?_ <;> simp [Code.size, Code.flatten, Code.basics]

theorem Step.done_seq {c : SourceCode} {J : List Nat} (h : Step sigs s s' c J) : Step sigs s s' (.seq .done c) J := by
  refine h.congr ?_ ?_ ?_ <;> simp [Code.size, Code.flatten, Code.basics]

/-- The comparison of a target with the name of a candidate; the name is put in the table first. -/
theorem dynamicCompare_run {name : Text} {slot : Nat} {u : Unit} (hs : s.Wf sigs) (h : (do
      let nameConst ← addStringConst name
      emit .loadLocal (.ofNat slot)
      emitConst nameConst
      emitOp .eq) s = .ok u s') : s'.locals = s.locals ∧
    Step sigs s s' (.seq (.basic (.op .loadLocal (.ofNat slot)))
      (.seq (.basic (.const (.string (.ofBuffer name)))) (.basic (.op .eq (.ofNat 0))))) [] := by
  obtain ⟨index, s₁, h₁, h⟩ := bind_ok.1 h
  obtain ⟨_, s₂, h₂, h⟩ := bind_ok.1 h
  obtain ⟨_, s₃, h₃, h₄⟩ := bind_ok.1 h
  have hadd := addStringConst_added h₁
  have hload := emit_appended h₂
  have hconst := emit_appended h₃
  have heq := emit_appended h₄
  have hwf₁ := hadd.wf hs
  have hstep₂ : Step sigs s₁ s₂ (.basic (.op .loadLocal (.ofNat slot))) [] := hload.step hwf₁ fun _ hcode => hcode
  have hfound : ∃ k, s₂.program.constants[index]? = some k ∧ Serves k (SourceConst.string (.ofBuffer name)).literal := by
    rw [hload.constants]
    exact hadd.found
  have hstep₃ := emitConst_step hstep₂.wf hfound h₃
  have hstep₄ : Step sigs s₃ s' (.basic (.op .eq (.ofNat 0))) [] := heq.step hstep₃.wf fun _ hcode => hcode
  refine ⟨?_, (hadd.step_string hs).after_done (hstep₂.seq (hstep₃.seq hstep₄))⟩
  rw [heq.locals, hconst.locals, hload.locals, hadd.locals]

/-- The branches of a dynamic call and what stands behind them; the end jumps are left open. -/
theorem dynamicBranches_run (hn : (sigs.map FnSig.name).Nodup) (h : FollowsAll sigs chs ps) {candidates slot}
    {fallback : CompileM Unit} (hfallback : Emits sigs fallback (genDynamicBranches candidates slot ps [] 0)) :
    ∀ {fns : List FnDef} {index endJumps endJumps' s s₁ s₂ u}, sigs.drop index = fns.map FnDef.sig → s.Wf sigs →
      compileDynamicBranches candidates slot chs fns index endJumps s = .ok endJumps' s₁ → fallback s₁ = .ok u s₂ →
      ∃ c J, genDynamicBranches candidates slot ps (fns.map FnDef.sig) index s.locals = some (c, (), s₂.locals) ∧
        endJumps' = endJumps ++ J ∧ Step sigs s s₂ c J := by
  intro fns
  induction fns with
  | nil =>
      intro index endJumps endJumps' s s₁ s₂ u _ hs hok hlast
      obtain ⟨rfl, rfl⟩ := pure_ok.1 hok
      obtain ⟨c, hg, hstep⟩ := hfallback hs hlast
      exact ⟨c, [], hg, by simp, hstep⟩
  | cons fn fns ih =>
      intro index endJumps endJumps' s s₁ s₂ u hdrop hs hok hlast
      unfold compileDynamicBranches at hok
      obtain ⟨count, t, hread, hrest⟩ := bind_ok.1 hok
      obtain ⟨hcount, rfl⟩ := ofOption_ok.1 hread
      have hlen : chs.length = ps.length := h.length_eq
      have hnext : sigs.drop (index + 1) = fns.map FnDef.sig := by
        rw [← List.tail_drop, hdrop]
        rfl
      simp only [List.map_cons]
      unfold genDynamicBranches
      have hgcount : (Gen.ofOption (paramCount fn.sig.paramsRaw)) t.locals = some (.done, count, t.locals) := by
        change (Gen.ofOption (paramCount fn.paramsRaw)) _ = _
        rw [hcount]
        rfl
      by_cases hskip : count ≠ chs.length ∨ (candidates.any fun c => ¬ dynamicCandidateAllowed c fn.name) = true
      · rw [if_pos hskip] at hrest
        obtain ⟨c, J, hg, hJ, hstep⟩ := ih hnext hs hrest hlast
        refine ⟨.seq .done c, J, Gen.bind_run hgcount ?_, hJ, hstep.done_seq⟩
        rw [if_pos (hlen ▸ hskip)]
        exact hg
      · rw [if_neg hskip] at hrest
        obtain ⟨endJump, t', hbranch, hnexts⟩ := bind_ok.1 hrest
        unfold compileDynamicBranch at hbranch
        obtain ⟨_, t₁, h₁, hbranch⟩ := bind_ok.1 hbranch
        rw [instructionCount_bind] at hbranch
        obtain ⟨_, t₂, h₂, hbranch⟩ := bind_ok.1 hbranch
        obtain ⟨_, t₃, h₃, hbranch⟩ := bind_ok.1 hbranch
        obtain ⟨_, t₄, h₄, hbranch⟩ := bind_ok.1 hbranch
        split at hbranch
        · exact absurd hbranch fail_ok
        rw [instructionCount_bind] at hbranch
        obtain ⟨_, t₅, h₅, hbranch⟩ := bind_ok.1 hbranch
        rw [instructionCount_bind] at hbranch
        obtain ⟨_, t₆, h₆, hbranch⟩ := bind_ok.1 hbranch
        obtain ⟨rfl, rfl⟩ := pure_ok.1 hbranch
        obtain ⟨hlocals, hcompare⟩ := dynamicCompare_run hs (orFail_ok.1 h₁)
        have hjump := emit_appended (orFail_ok.1 h₂)
        have hindex : findSig sigs fn.sig.name = some index := by
          refine findSig_of_nodup hn ?_
          have := congrArg List.head? hdrop
          rw [List.head?_drop] at this
          exact this
        obtain ⟨ca, hga, hargs⟩ := emits_dynamicArgs h (hjump.wf hcompare.wf) h₃
        obtain ⟨cc, hgc, hcall⟩ := emits_emitCall hindex hargs.wf h₄
        have hend := emit_appended (orFail_ok.1 h₅)
        have hpatch := patch_patched h₆
        obtain ⟨c, J, hg, hJ, hstep⟩ := ih hnext (hpatch.wf (hend.wf hcall.wf)) hnexts hlast
        have hb := Step.branch hcompare.wf hjump (hargs.seq hcall) hend hpatch hstep
        refine ⟨.seq .done (.seq (.basic (.op .loadLocal (.ofNat slot))) (.seq (.basic (.const (.string (.ofBuffer fn.name))))
          (.seq (.basic (.op .eq (.ofNat 0))) (.seq (.branch (.seq ca cc) c) .done)))), t₄.len :: J, ?_, ?_, ?_⟩
        · refine Gen.bind_run hgcount ?_
          rw [if_neg (hlen ▸ hskip)]
          refine Gen.bind_run rfl (Gen.bind_run rfl (Gen.bind_run rfl (Gen.bind_run (a := ((), ())) ?_ rfl)))
          rw [hjump.locals, hlocals] at hga
          rw [hpatch.locals, hend.locals] at hg
          have hfirst := Gen.bind_run (k := fun _ => Gen.basic (.call index)) hga hgc
          change (do
            let (c, a, locals) ← (genSeq ps >>= fun _ => Gen.basic (.call index)) t.locals
            let (c', b, locals) ← genDynamicBranches candidates slot ps (fns.map FnDef.sig) (index + 1) locals
            return (Code.branch c c', (a, b), locals)) = _
          rw [hfirst]
          simp [hg]
        · rw [hJ]
          simp [CompileState.len]
        · refine (hcompare.seq hb).congr ?_ ?_ ?_ <;>
            simp [Code.size, Code.flatten, Code.basics]
          omega

theorem emits_dynamicFallback {message candidates slot} :
    Emits sigs (orFail message (do
      emitConst (← addStringConst (ascii "sys.dynamic.missingFunction"))
      emit .loadLocal (.ofNat slot)
      emit .callSys (.ofNat 1))) (genDynamicBranches candidates slot ps [] 0) := by
  apply Emits.orFail
  exact emits_text_then id id (emits_emit.bind fun _ => emits_emit)

theorem emits_dynamicCall (hn : (sigs.map FnSig.name).Nodup) (h : FollowsAll sigs chs ps) :
    Emits sigs (compileDynamicCall attrs chs) (genDynamicCall sigs attrs ps) := by
  cases h with
  | nil => exact emits_fail
  | @cons target piece args ps hch hargs =>
      refine emits_check fail_ok ?_
      intro s₀ a s' hs hok
      rw [get_bind] at hok
      obtain ⟨slot, s₁, h₁, hok⟩ := bind_ok.1 hok
      rw [get_bind] at hok
      obtain ⟨endJumps, s₂, h₂, hok⟩ := bind_ok.1 hok
      obtain ⟨_, s₃, h₃, hpatch⟩ := bind_ok.1 hok
      rw [instructionCount_bind] at hpatch
      obtain ⟨_, t₁, ht₁, h₁⟩ := bind_ok.1 (orFail_ok.1 h₁)
      obtain ⟨slot', t₂, ht₂, h₁⟩ := bind_ok.1 h₁
      obtain ⟨_, t₃, ht₃, h₁⟩ := bind_ok.1 h₁
      obtain ⟨rfl, rfl⟩ := pure_ok.1 h₁
      obtain ⟨ce, hge, hexpr⟩ := hch.expr hs ht₁
      obtain ⟨ca, hga, halloc⟩ := emits_allocLocal hexpr.wf ht₂
      obtain ⟨cs, hgs, hstore⟩ := emits_emit halloc.wf ht₃
      have hdrop : sigs.drop 0 = t₃.funcs.map FnDef.sig := hstore.wf.sigs.symm
      obtain ⟨c, J, hg, hJ, hstep⟩ :=
        dynamicBranches_run hn hargs emits_dynamicFallback hdrop hstore.wf h₂ h₃
      rw [List.nil_append] at hJ
      subst hJ
      have hclose := patchAll_patched hpatch
      refine ⟨.seq .done (.seq ce (.seq ca (.seq cs c))), ?_, ?_⟩
      · rw [hstore.wf.sigs] at hg
        rw [hclose.locals]
        exact Gen.bind_run rfl (Gen.bind_run hge (Gen.bind_run hga (Gen.bind_run hgs hg)))
      · exact ((hexpr.seq (halloc.seq (hstore.seq hstep))).close hclose).done_seq

/-! ## Expressions -/

theorem emits_var : Emits sigs (compileVar attrs) (genVar attrs) := by
  unfold compileVar genVar
  exact emits_ofOption.bind fun _ => emits_findLocal.bind fun _ => emits_emit

theorem emits_nullConst {message} : Emits sigs (do
    let index := (← get).program.constants.length
    store message (·.addConstant .null)
    emitConst index) (Gen.const .null) := by
  have hadd : ∀ {s index s'}, (do
      let index := (← get).program.constants.length
      store message (·.addConstant .null)
      return index : CompileM Nat) s = .ok index s' → ConstAdded s s' SourceConst.null.literal index := by
    intro s index s' h
    rw [get_bind] at h
    obtain ⟨_, t, h₁, h⟩ := bind_ok.1 h
    obtain ⟨rfl, rfl⟩ := pure_ok.1 h
    obtain ⟨d, hd, rfl⟩ := store_ok.1 h₁
    obtain ⟨hi, hc⟩ := Draft.addConstant_some hd
    refine ⟨hi, .inr hc, rfl, rfl, rfl, rfl, ⟨.null, ?_, .inl rfl⟩, ?_⟩
    · simp [CompileState.withProgram, hc]
    · rintro _ x y ⟨⟩
  intro s u s' hs h
  rw [get_bind] at h
  obtain ⟨v, t, h₁, h₂⟩ := bind_ok.1 h
  refine emits_addConst hadd hs (bind_ok.2 ⟨s.program.constants.length, t, ?_, h₂⟩)
  rw [get_bind]
  exact bind_ok.2 ⟨v, t, h₁, rfl⟩

theorem emits_lit {strtod kind} : Emits sigs (compileLit strtod kind attrs) (genLit strtod kind attrs) := by
  unfold compileLit genLit
  refine emits_ite (fun _ => emits_failf) fun _ => emits_ofOption.bind fun value => ?_
  cases litForm strtod (attrIsQuoted attrs "value") value with
  | bool b => exact emits_emit
  | null => exact emits_nullConst
  | int i => exact emits_emit
  | number bits => exact emits_addConst addNumberConst_added
  | string text => exact emits_text
  | undecodable => exact emits_failf

theorem emits_concat (h : FollowsAll sigs chs ps) {first} :
    Emits sigs (compileConcat chs first) (genConcat ps first) := by
  induction h generalizing first with
  | nil => exact emits_ite (fun _ => emits_giveUp) fun _ => emits_pure
  | cons hch _ ih =>
      refine hch.expr.bind fun _ => ?_
      cases first with
      | true => exact ih
      | false => exact emits_emitOp.orFail.bind fun _ => ih

theorem emits_field (h : FollowsAll sigs chs ps) : Emits sigs (compileField attrs chs) (genField attrs ps) := by
  unfold compileField
  cases h with
  | nil => exact Emits.after_check (fun h => (ofOption_ok.1 h).2) fun _ => emits_fail
  | cons hch _ =>
      refine emits_ofOption.bind fun key => ?_
      exact emits_text_then id id (hch.expr.bind fun _ => emits_emitOp)

theorem emits_fields (h : FollowsAll sigs chs ps) : Emits sigs (compileFields chs) (genSeq ps) := by
  induction h with
  | nil => exact emits_pure
  | cons hch _ ih => exact emits_check failf_ok (hch.expr.bind fun _ => ih)

theorem emits_map (h : FollowsAll sigs chs ps) : Emits sigs (compileMap chs) (genMap ps) := by
  unfold compileMap genMap
  rw [h.length_eq]
  exact (emits_fields h).bind fun _ => emits_emit.bind fun _ => emits_emitOp

theorem emits_operands {o : Operation} (h : FollowsAll sigs chs ps) : Emits sigs (compileOperands o chs) (genSeq ps) := by
  induction h with
  | nil => exact emits_pure
  | cons hch _ ih =>
      unfold compileOperands
      split
      · exact hch.expr.orFailf.bind fun _ => ih
      · exact hch.expr.bind fun _ => ih

theorem emits_operation {o : Operation} (h : FollowsAll sigs chs ps) :
    Emits sigs (compileOperation o chs) (genOperation o ps) := by
  unfold compileOperation genOperation
  rw [h.length_eq]
  refine emits_ite (fun _ => emits_failf) fun _ => ?_
  exact (emits_operands (List.forall₂_take _ h)).bind fun _ => emits_emitOp

theorem emits_ifExpr (h : FollowsAll sigs chs ps) : Emits sigs (compileIfExpr chs) (genIfExpr ps) := by
  cases h with
  | nil => exact emits_fail
  | cons hcond h =>
      cases h with
      | nil => exact emits_fail
      | cons hthen h =>
          cases h with
          | nil => exact emits_fail
          | cons helse _ =>
              refine hcond.expr.bind fun _ => ?_
              intro s u s' hs hok
              rw [instructionCount_bind] at hok
              obtain ⟨_, s₁, h₁, hok⟩ := bind_ok.1 hok
              obtain ⟨_, s₂, h₂, hok⟩ := bind_ok.1 hok
              rw [instructionCount_bind] at hok
              obtain ⟨_, s₃, h₃, hok⟩ := bind_ok.1 hok
              rw [instructionCount_bind] at hok
              obtain ⟨_, s₄, h₄, hok⟩ := bind_ok.1 hok
              obtain ⟨_, s₅, h₅, hok⟩ := bind_ok.1 hok
              rw [instructionCount_bind] at hok
              obtain ⟨c, hg, hstep⟩ := branch_run hs hthen.expr helse.expr (orFail_ok.1 h₁) h₂ (orFail_ok.1 h₃) h₄ h₅ hok
              exact ⟨.seq c .done, Gen.bind_run hg rfl, hstep.seq_done⟩

theorem emits_emptyString : Emits sigs emitEmptyStringConst (Gen.text []) :=
  emits_addConst fun h => addStringConst_added (orFail_ok.1 h)

theorem emits_blockExpr (h : FollowsAll sigs chs ps) : Emits sigs (compileBlockExpr chs) (genBlockExpr ps) := by
  induction h with
  | nil => exact emits_emptyString
  | @cons ch p chs ps hch hrest ih =>
      cases hrest with
      | nil =>
          unfold compileBlockExpr genBlockExpr
          rw [hch.kind]
          refine emits_ite (fun _ => ?_) fun _ => hch.expr
          exact hch.stmt.bind fun _ => emits_ite (fun _ => emits_pure) fun _ => emits_emptyString
      | cons hch' hrest =>
          exact hch.stmt.bind fun _ => emits_ite (fun _ => emits_pure) fun _ => ih

theorem emits_expr (hn : (sigs.map FnSig.name).Nodup) {strtod kind} (h : FollowsAll sigs chs ps) :
    Emits sigs (compileExpr strtod kind attrs chs) (genExpr sigs strtod kind attrs ps) := by
  unfold compileExpr genExpr
  cases exprForm kind with
  | call => exact emits_call h
  | callDynamic => exact emits_dynamicCall hn h
  | var => exact emits_var
  | strConcat => exact emits_concat h
  | field => exact emits_field h
  | map => exact emits_map h
  | operation o => exact emits_operation h
  | conditional => exact emits_ifExpr h
  | block => exact emits_blockExpr h
  | other => exact emits_lit

/-! ## Statements -/

theorem emits_branch {ch : Child} {p : Piece} (h : Follows sigs ch p) : Emits sigs (compileBranch ch) (genBranch p) := by
  unfold compileBranch genBranch
  rw [h.kind]
  exact emits_ite (fun _ => h.block) fun _ => h.expr.bind fun _ => emits_emitOp.bind fun _ => emits_pure

theorem emits_ifStmt (h : FollowsAll sigs chs ps) : Emits sigs (compileIfStmt chs) (genIfStmt ps) := by
  cases h with
  | nil => exact emits_fail
  | cons hcond h =>
      cases h with
      | nil => exact emits_fail
      | cons hthen h =>
          cases h with
          | nil => exact emits_fail
          | cons helse _ =>
              refine hcond.expr.bind fun _ => ?_
              intro s b s' hs hok
              rw [instructionCount_bind] at hok
              obtain ⟨_, s₁, h₁, hok⟩ := bind_ok.1 hok
              obtain ⟨thenReturn, s₂, h₂, hok⟩ := bind_ok.1 hok
              rw [instructionCount_bind] at hok
              obtain ⟨_, s₃, h₃, hok⟩ := bind_ok.1 hok
              rw [instructionCount_bind] at hok
              obtain ⟨_, s₄, h₄, hok⟩ := bind_ok.1 hok
              obtain ⟨elseReturn, s₅, h₅, hok⟩ := bind_ok.1 hok
              rw [instructionCount_bind] at hok
              obtain ⟨_, s₆, h₆, hok⟩ := bind_ok.1 hok
              obtain ⟨rfl, rfl⟩ := pure_ok.1 hok
              obtain ⟨c, hg, hstep⟩ := branch_run hs (emits_branch hthen) (emits_branch helse) h₁ h₂ h₃ h₄ h₅ h₆
              exact ⟨.seq c .done, Gen.bind_run hg rfl, hstep.seq_done⟩

theorem emits_loopStmt (h : FollowsAll sigs chs ps) : Emits sigs (compileLoopStmt chs) (genLoopStmt ps) := by
  cases h with
  | nil => exact emits_fail
  | cons hbody _ => exact emits_loop (emits_branch hbody)

theorem emits_let (h : FollowsAll sigs chs ps) : Emits sigs (compileLet attrs chs) (genLet attrs ps) := by
  unfold compileLet
  cases h with
  | nil =>
      intro s b s' hs hok
      obtain ⟨_, _, _, hok⟩ := bind_ok.1 hok
      obtain ⟨_, _, _, hok⟩ := bind_ok.1 hok
      exact absurd hok fail_ok
  | cons hch _ =>
      refine emits_ofOption.bind fun name => emits_allocLocal.orFailf.bind fun slot => ?_
      exact hch.expr.bind fun _ => emits_emit.orFail.bind fun _ => emits_pure

theorem emits_return (h : FollowsAll sigs chs ps) : Emits sigs (compileReturn chs) (genReturn ps) := by
  unfold compileReturn genReturn
  cases h with
  | nil => exact emits_voidConst.orFail.bind fun _ => emits_emitOp.orFail.bind fun _ => emits_pure
  | cons hch _ => exact hch.expr.bind fun _ => emits_emitOp.orFail.bind fun _ => emits_pure

theorem emits_stmts (h : FollowsAll sigs chs ps) : Emits sigs (compileStmts chs) (genStmts ps) := by
  induction h with
  | nil => exact emits_pure
  | cons hch _ ih => exact hch.stmt.bind fun _ => emits_ite (fun _ => emits_pure) fun _ => ih

theorem emits_block (h : FollowsAll sigs chs ps) : Emits sigs (compileBlock chs) (genBlock ps) := by
  refine emits_get fun {s b s'} hs hok => ?_
  obtain ⟨b', s₁, h₁, hok⟩ := bind_ok.1 hok
  obtain ⟨_, s₂, h₂, hok⟩ := bind_ok.1 hok
  obtain ⟨rfl, rfl⟩ := pure_ok.1 hok
  have h₂ := modify_ok.1 h₂
  subst h₂
  obtain ⟨c, hg, hstep⟩ := emits_stmts h hs h₁
  refine ⟨.seq .done (.seq c (.seq .done .done)), Gen.bind_run rfl (Gen.bind_run hg rfl), ?_⟩
  exact (hstep.seq (Step.locals hstep.wf _).seq_done).done_seq

theorem emits_stmt (hn : (sigs.map FnSig.name).Nodup) {strtod path kind} (h : FollowsAll sigs chs ps) :
    Emits sigs (compileStmt strtod kind attrs chs) (genStmt sigs strtod path kind attrs ps) := by
  unfold compileStmt genStmt
  cases stmtForm kind with
  | letStmt => exact emits_let h
  | call => exact (emits_call h).bind fun _ => emits_pure
  | breakStmt => exact emits_break
  | continueStmt => exact emits_continue
  | returnStmt => exact emits_return h
  | conditional => exact emits_ifStmt h
  | loop => exact emits_loopStmt h
  | block => exact emits_block h
  | other => exact (emits_expr hn h).mark.bind fun _ => emits_emitOp.bind fun _ => emits_pure

/-! ## Nodes -/

mutual

theorem compileNode_follows (hn : (sigs.map FnSig.name).Nodup) (strtod : Text → Option UInt64) :
    ∀ (n : Node) {path}, Follows sigs (compileNode strtod n) (genNode sigs strtod path n)
  | .mk _ _ _ children _, _ =>
      have h := compileNodes_follows hn strtod children 0
      { kind := rfl
        expr := (emits_expr hn h).mark
        stmt := (emits_stmt hn h).mark
        block := (emits_block h).mark }

theorem compileNodes_follows (hn : (sigs.map FnSig.name).Nodup) (strtod : Text → Option UInt64) :
    ∀ (ns : List Node) {path} (i : Nat), FollowsAll sigs (compileNodes strtod ns) (genNodes sigs strtod path i ns)
  | [], _, _ => .nil
  | n :: ns, _, i => .cons (compileNode_follows hn strtod n) (compileNodes_follows hn strtod ns (i + 1))

end

end Aivm
