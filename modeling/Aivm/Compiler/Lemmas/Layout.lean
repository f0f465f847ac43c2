import Aivm.Compiler.Layout
import Aivm.Compiler.Lemmas.Function
import Aivm.Compiler.Lemmas.Answers

/-! # The layout of a program -/

namespace Aivm

open StructuredCode FrontM CompileM

/-! ## Chains -/

theorem chain_concat {L : List FnCode} {F : FnCode} : ∀ {lo}, Chain lo L F.entry → Chain lo (L ++ [F]) F.stop := by
  induction L with
  | nil =>
      intro lo h
      exact ⟨h.symm, rfl⟩
  | cons G L ih =>
      intro lo h
      exact ⟨h.1, ih h.2⟩

theorem Chain.le {L : List FnCode} : ∀ {lo hi}, Chain lo L hi → lo ≤ hi := by
  induction L with
  | nil =>
      intro lo hi h
      exact Nat.le_of_eq h
  | cons F L ih =>
      intro lo hi h
      have := ih h.2
      have := h.1
      unfold FnCode.stop at *
      omega

theorem Chain.bounds {L : List FnCode} {F : FnCode} (hF : F ∈ L) : ∀ {lo hi}, Chain lo L hi →
    lo ≤ F.entry ∧ F.stop ≤ hi := by
  induction L with
  | nil => cases hF
  | cons G L ih =>
      intro lo hi h
      rcases List.mem_cons.1 hF with rfl | hF
      · exact ⟨Nat.le_of_eq h.1.symm, h.2.le⟩
      · have := ih hF h.2
        have := h.1
        unfold FnCode.stop at *
        omega

theorem Chain.disjoint {L : List FnCode} : ∀ {lo hi}, Chain lo L hi → L.Pairwise fun F G => F.stop ≤ G.entry := by
  induction L with
  | nil =>
      intro lo hi _
      exact .nil
  | cons F L ih =>
      intro lo hi h
      exact .cons (fun G hG => (Chain.bounds hG h.2).1) (ih h.2)

/-! ## What has been compiled so far -/

/-- A part that answers and is not rejected succeeds. -/
theorem bind_goes {σ α β : Type} {m : FrontM σ α} {f : α → FrontM σ β} {s : σ} {r : FrontResult σ β} (hm : Answers m)
    (h : (m >>= f) s = r) (hr : ∀ message, r ≠ .rejected message) : ∃ a t, m s = .ok a t ∧ f a t = r := by
  cases hcase : m s with
  | ok a t =>
      simp only [bind, hcase] at h
      exact ⟨a, t, rfl, h⟩
  | rejected message =>
      simp only [bind, hcase] at h
      exact absurd h.symm (hr message)
  | outOfFuel => exact absurd hcase (hm s)

section Laid

variable {strtod : Text → Option UInt64} {fns : List FnDef} {start base : Nat} {L : List FnCode} {s s' : CompileState}

/-- The functions compiled so far stand one behind the other; the calls between them may be open. -/
structure Laid (strtod : Text → Option UInt64) (fns : List FnDef) (start base : Nat) (L : List FnCode)
    (s : CompileState) : Prop where
  wf : s.Wf (fns.map FnDef.sig)
  frames : s.loopFrames = []
  chain : Chain base L s.len
  once : (L.map FnCode.index).Nodup
  translated : ∀ F ∈ L, Translates strtod fns F.index F.code
  reached : ∀ F ∈ L, Reached strtod fns start F.index
  bodies : s.funcs.map FnDef.body = fns.map FnDef.body
  idle : ∀ (f : Nat) fn, s.funcs[f]? = some fn → fn.compiling = false
  entries : ∀ F ∈ L, ∃ fn, s.funcs[F.index]? = some fn ∧ fn.compiled = true ∧ fn.entryIp = F.entry
  compiled : ∀ (f : Nat) fn, s.funcs[f]? = some fn → fn.compiled = true → ∃ F ∈ L, F.index = f
  fixups : ∀ fx ∈ s.fixups, base ≤ fx.instructionIndex ∧
    ∃ f, findSig (fns.map FnDef.sig) fx.target = some f ∧ ∃ F ∈ L, .call f ∈ F.code.basics
  consts : ∀ k ∈ s.program.constants, k.isNode = false ∧
    ∀ bits, k = .number bits → ∃ F ∈ L, .const (.number bits) ∈ F.code.basics
  sound : ∀ {T : Linked} {H : Nat → Prop} {loop}, (∀ i, H i → i < base) → T.Completes H loop s →
    ∀ F ∈ L, Stands T.Resolves F.entry F.slots

/-- Without open loops it does not matter which loop is around. -/
theorem Linked.Completes.any_loop {T : Linked} {H : Nat → Prop} {loop loop' : Nat × Nat} (h : T.Completes H loop s)
    (hs : s.loopFrames = []) : T.Completes H loop' s := by
  refine ⟨h.code, h.calls, h.entries, ?_, ?_, ?_, h.table⟩ <;>
  · intro fr rest hfr
    rw [hs] at hfr
    cases hfr

/-- Of the table of functions only the compiled entries matter. -/
theorem Linked.Completes.of_funcs {T : Linked} {H : Nat → Prop} {loop : Nat × Nat} (h : T.Completes H loop s')
    (hprogram : s'.program = s.program) (hfixups : s'.fixups = s.fixups) (hframes : s'.loopFrames = s.loopFrames)
    (hsigs : s'.funcs.map FnDef.sig = s.funcs.map FnDef.sig)
    (hcompiled : ∀ (f : Nat) fn, s.funcs[f]? = some fn → fn.compiled = true →
      ∃ fn', s'.funcs[f]? = some fn' ∧ fn'.compiled = true ∧ fn'.entryIp = fn.entryIp) : T.Completes H loop s := by
  have hpending : ∀ i, s'.Pending i → s.Pending i := by
    unfold CompileState.Pending
    rw [hfixups, hframes]
    exact fun _ hp => hp
  refine ⟨?_, ?_, ?_, ?_, ?_, ?_, ?_⟩
  · intro i hi hH hp
    have := h.code i (by rw [CompileState.len, hprogram]; exact hi) hH fun hp' => hp (hpending i hp')
    rw [this, CompileState.fetch, hprogram]
    rfl
  · intro fx hfx
    obtain ⟨f, e, hf, he, hcode⟩ := h.calls fx (hfixups ▸ hfx)
    refine ⟨f, e, ?_, he, hcode⟩
    rw [findFunc_eq, ← hsigs, ← findFunc_eq]
    exact hf
  · intro f fn hfn hc
    obtain ⟨fn', hfn', hc', he⟩ := hcompiled f fn hfn hc
    rw [← he]
    exact h.entries f fn' hfn' hc'
  · rw [← hframes]
    exact h.start
  · rw [← hframes]
    exact h.breaks
  · rw [← hframes]
    exact h.continues
  · rw [← hprogram]
    exact h.table

/-- What is the same before and after the compilation of a function. -/
structure Later (s s' : CompileState) : Prop where
  len : s.len ≤ s'.len
  code : ∀ i < s.len, s'.fetch i = s.fetch i
  fixups : s.fixups <+: s'.fixups
  table : ∀ (k : Nat) c, s.program.constants[k]? = some c → s'.program.constants[k]? = some c

theorem Later.refl (s : CompileState) : Later s s := ⟨Nat.le_refl _, fun _ _ => rfl, List.prefix_rfl, fun _ _ hk => hk⟩

/-- A function of the table is the one of the graph, but for its flags and its entry. -/
theorem Laid.origin (h : Laid strtod fns start base L s) {f : Nat} {fn : FnDef} (hfn : s.funcs[f]? = some fn) :
    ∃ fn₀, fns[f]? = some fn₀ ∧ fn₀.sig = fn.sig ∧ fn₀.body = fn.body := by
  have hsig := congrArg (·[f]?) h.wf.sigs
  have hbody := congrArg (·[f]?) h.bodies
  simp only [List.getElem?_map, hfn, Option.map_some] at hsig hbody
  obtain ⟨fn₀, hfn₀, hsig⟩ := Option.map_eq_some_iff.1 hsig.symm
  rw [hfn₀, Option.map_some, Option.some.injEq] at hbody
  exact ⟨fn₀, hfn₀, hsig, hbody.symm⟩

/-- The table behind the compilation of a function. -/
theorem funcs_leave {t : CompileState} {index : Nat} {fn : FnDef} (hfn : s.funcs[index]? = some fn)
    (ht : t.funcs = (s.enter index).funcs) (f : Nat) : (t.leave index).funcs[f]? =
      if f = index then some { fn with compiled := true, compiling := false, entryIp := s.len } else s.funcs[f]? := by
  simp only [CompileState.leave, ht, CompileState.enter, List.getElem?_modify]
  by_cases hf : f = index
  · subst hf
    simp [hfn]
  · rw [if_neg hf]
    simp [Ne.symm hf]

/-- A function is compiled behind the others. -/
theorem Laid.compile (h : Laid strtod fns start base L s) (hn : ((fns.map FnDef.sig).map FnSig.name).Nodup)
    {index : Nat} {fn : FnDef} {u} (hfn : s.funcs[index]? = some fn) (hnew : fn.compiled = false)
    (hreached : Reached strtod fns start index) (hok : compileFnByIndex strtod index s = .ok u s') :
    ∃ F, F.index = index ∧ Laid strtod fns start base (L ++ [F]) s' ∧ Later s s' := by
  have hidle := h.idle index fn hfn
  obtain ⟨c, t, rfl, hstep, hgen⟩ := compileFn_run hn h.wf hfn (by simp [hnew, hidle]) hok
  have hfuncs := funcs_leave hfn hstep.grows.funcs
  have hsize : t.len = s.len + c.size := hstep.size
  have hframes : t.loopFrames = [] := by
    have hgrow := hstep.grows.frames
    change FramesGrow _ s.loopFrames t.loopFrames at hgrow
    rw [h.frames] at hgrow
    generalize t.loopFrames = frames at hgrow
    cases hgrow
    rfl
  have hfresh : ∀ F ∈ L, F.index ≠ index := by
    rintro F hF rfl
    obtain ⟨fn', hfn', hc, _⟩ := h.entries F hF
    rw [hfn, Option.some.injEq] at hfn'
    rw [← hfn', hnew] at hc
    cases hc
  have hsigs : (t.leave index).funcs.map FnDef.sig = t.funcs.map FnDef.sig := map_sig_modify fun _ => rfl
  have hchain : Chain base (L ++ [⟨index, s.len, c⟩]) (s.len + c.size) :=
    chain_concat (F := ⟨index, s.len, c⟩) h.chain
  refine ⟨⟨index, s.len, c⟩, rfl, ⟨?_, hframes, ?_, ?_, ?_, ?_, ?_, ?_, ?_, ?_, ?_, ?_, ?_⟩, ?_⟩
  · exact hstep.wf.of_funcs hsigs rfl rfl rfl
  · change Chain base _ t.len
    rw [hsize]
    exact hchain
  · rw [List.map_append, List.map_singleton]
    refine List.nodup_append.2 ⟨h.once, by simp, ?_⟩
    intro i hi j hj
    obtain ⟨F, hF, rfl⟩ := List.mem_map.1 hi
    rw [List.mem_singleton.1 hj]
    exact hfresh F hF
  · intro F hF
    rcases List.mem_append.1 hF with hF | hF
    · exact h.translated F hF
    · rw [List.mem_singleton.1 hF]
      obtain ⟨fn₀, hfn₀, hsig, hbody⟩ := h.origin hfn
      refine ⟨fn₀, t.locals, hfn₀, ?_⟩
      rw [hbody, show fn₀.paramsRaw = fn.paramsRaw from congrArg FnSig.paramsRaw hsig]
      exact hgen
  · intro F hF
    rcases List.mem_append.1 hF with hF | hF
    · exact h.reached F hF
    · rw [List.mem_singleton.1 hF]
      exact hreached
  · rw [← h.bodies]
    refine List.ext_getElem? fun f => ?_
    rw [List.getElem?_map, List.getElem?_map, hfuncs f]
    split
    · rename_i hf
      rw [hf, hfn]
      rfl
    · rfl
  · intro f g hg
    rw [hfuncs f] at hg
    split at hg
    · cases hg
      rfl
    · exact h.idle f g hg
  · intro F hF
    rw [hfuncs F.index]
    rcases List.mem_append.1 hF with hF | hF
    · rw [if_neg (hfresh F hF)]
      exact h.entries F hF
    · rw [List.mem_singleton.1 hF, if_pos rfl]
      exact ⟨_, rfl, rfl, rfl⟩
  · intro f g hg hc
    rw [hfuncs f] at hg
    split at hg
    · rename_i hf
      exact ⟨_, List.mem_append_right _ (List.mem_singleton_self _), hf.symm⟩
    · obtain ⟨F, hF, hi⟩ := h.compiled f g hg hc
      exact ⟨F, List.mem_append_left _ hF, hi⟩
  · intro fx hfx
    have hold : ∀ fx ∈ s.fixups, base ≤ fx.instructionIndex := fun fx hfx => (h.fixups fx hfx).1
    refine ⟨?_, ?_⟩
    · obtain ⟨new, hnew, hle⟩ := hstep.grows.fixups
      have hfx : fx ∈ s.fixups ++ new := hnew ▸ hfx
      rcases List.mem_append.1 hfx with hfx | hfx
      · exact hold fx hfx
      · exact h.chain.le.trans (hle fx hfx)
    · rcases hstep.calls fx hfx with hfx | ⟨f, hf, hmem⟩
      · obtain ⟨f, hf, F, hF, hmem⟩ := (h.fixups fx hfx).2
        exact ⟨f, hf, F, List.mem_append_left _ hF, hmem⟩
      · exact ⟨f, hf, _, List.mem_append_right _ (List.mem_singleton_self _), hmem⟩
  · intro k hk
    rcases hstep.consts k hk with hk | ⟨hnode, hbits⟩
    · obtain ⟨hnode, hbits⟩ := h.consts k hk
      refine ⟨hnode, fun bits hb => ?_⟩
      obtain ⟨F, hF, hmem⟩ := hbits bits hb
      exact ⟨F, List.mem_append_left _ hF, hmem⟩
    · exact ⟨hnode, fun bits hb => ⟨_, List.mem_append_right _ (List.mem_singleton_self _), hbits bits hb⟩⟩
  · intro T H loop hH hT
    -- a program that completes the new state completes the states before and after the body
    have hT₁ : ∀ {loop}, T.Completes H loop t := by
      intro loop
      refine (hT.any_loop hframes).of_funcs rfl rfl rfl hsigs ?_
      intro f g hg hc
      rw [hfuncs f]
      have hg' : (s.enter index).funcs[f]? = some g := hstep.grows.funcs ▸ hg
      simp only [CompileState.enter, List.getElem?_modify] at hg'
      split at hg'
      · rename_i hf
        rw [← hf, hfn] at hg'
        cases hg'
        rw [hnew] at hc
        cases hc
      · rename_i hf
        rw [if_neg (Ne.symm hf)]
        exact ⟨g, by simpa using hg', hc, rfl⟩
    have hT₀ : T.Completes H loop s := by
      refine (hT₁.back hstep.grows).of_funcs rfl rfl rfl (map_sig_modify fun _ => rfl) ?_
      intro f g hg hc
      have hf : index ≠ f := by
        rintro rfl
        rw [hfn] at hg
        cases hg
        rw [hnew] at hc
        cases hc
      refine ⟨g, ?_, hc, rfl⟩
      simp [CompileState.enter, hf, hg]
    intro F hF
    rcases List.mem_append.1 hF with hF | hF
    · exact h.sound hH hT₀ F hF
    · rw [List.mem_singleton.1 hF]
      refine hstep.sound (fun i hi => ?_) (hT₁.mono fun _ _ hi => .inl hi) (by simp)
      exact Nat.lt_of_lt_of_le (hH i hi) h.chain.le
  · refine ⟨?_, hstep.grows.code, ?_, hstep.grows.table⟩
    · exact hstep.grows.len
    · obtain ⟨new, hnew, _⟩ := hstep.grows.fixups
      exact ⟨new, hnew.symm⟩

/-! ## Fix-ups -/

/-- A call is patched that is open, or that stands in the prologue. -/
theorem Laid.patch (h : Laid strtod fns start base L s) {site target : Nat} (hp : Patched s s' target [site])
    (hsite : s.Pending site ∨ site < base) : Laid strtod fns start base L s' := by
  refine ⟨hp.wf h.wf, ?_, ?_, h.once, h.translated, h.reached, ?_, ?_, ?_, ?_, ?_, ?_, ?_⟩
  · rw [hp.loopFrames]
    exact h.frames
  · rw [hp.len]
    exact h.chain
  · rw [hp.funcs]
    exact h.bodies
  · rw [hp.funcs]
    exact h.idle
  · rw [hp.funcs]
    exact h.entries
  · rw [hp.funcs]
    exact h.compiled
  · rw [hp.fixups]
    exact h.fixups
  · rw [hp.constants]
    exact h.consts
  · intro T H loop hH hT
    have hT := hp.completes hT
    rcases hsite with hsite | hsite
    · refine h.sound hH ⟨?_, hT.calls, hT.entries, hT.start, hT.breaks, hT.continues, hT.table⟩
      intro i hi hHi hpend
      refine hT.code i hi ?_ hpend
      rintro (hi' | hi')
      · exact hHi hi'
      · rw [List.mem_singleton.1 hi'] at hpend
        exact hpend hsite
    · refine h.sound ?_ hT
      rintro i (hi | hi)
      · exact hH i hi
      · rw [List.mem_singleton.1 hi]
        exact hsite

/-- The fix-ups before number `i` are patched. -/
def Resolved (fns : List FnDef) (L : List FnCode) (i : Nat) (s : CompileState) : Prop :=
  ∀ j < i, ∀ fx, s.fixups[j]? = some fx → ∃ F ∈ L, findSig (fns.map FnDef.sig) fx.target = some F.index ∧
    s.fetch fx.instructionIndex = some ⟨.call, Operand.ofNat F.entry⟩

theorem Resolved.later {L' : List FnCode} {i : Nat} (h : Resolved fns L i s) (hlater : Later s s') (hi : i ≤ s.fixups.length)
    (hL : L ⊆ L') : Resolved fns L' i s' := by
  intro j hj fx hfx
  have hold : s.fixups[j]? = some fx := by
    obtain ⟨new, hnew⟩ := hlater.fixups
    rw [← hnew, List.getElem?_append_left (by omega)] at hfx
    exact hfx
  obtain ⟨F, hF, hfind, hcode⟩ := h j hj fx hold
  exact ⟨F, hL hF, hfind, by rw [hlater.code _ (CompileState.fetch_lt hcode), hcode]⟩

/-- The fix-ups stand at different calls, so a patch leaves the others as they are. -/
theorem Resolved.patch {i : Nat} {fx : CallFixup} {F : FnCode} (h : Resolved fns L i s) (hs : s.Wf (fns.map FnDef.sig))
    (hfx : s.fixups[i]? = some fx) (hF : F ∈ L) (hfind : findSig (fns.map FnDef.sig) fx.target = some F.index)
    (hp : Patched s s' F.entry [fx.instructionIndex]) : Resolved fns L (i + 1) s' := by
  intro j hj gx hgx
  rw [hp.fixups] at hgx
  rcases Nat.lt_succ_iff_lt_or_eq.1 hj with hlt | rfl
  · obtain ⟨G, hG, hfind', hcode⟩ := h j hlt gx hgx
    refine ⟨G, hG, hfind', ?_⟩
    rw [hp.others _ ?_, hcode]
    intro heq
    rw [List.mem_singleton] at heq
    have hi := congrArg (Option.map CallFixup.instructionIndex) hfx
    have hj := congrArg (Option.map CallFixup.instructionIndex) hgx
    rw [← List.getElem?_map] at hi hj
    have hlt' : j < (s.fixups.map CallFixup.instructionIndex).length := (List.getElem?_eq_some_iff.1 hj).1
    have := (List.getElem?_inj hlt' hs.distinct).1 (hj.trans (by rw [hi, Option.map_some, Option.map_some, heq]))
    omega
  · rw [hfx, Option.some.injEq] at hgx
    subst hgx
    obtain ⟨x, hx⟩ := hs.calls fx (List.mem_of_getElem? hfx)
    exact ⟨F, hF, hfind, hp.sites _ (List.mem_singleton_self _) _ x hx⟩

/-- A function is compiled unless it has been. -/
theorem Laid.ensure (h : Laid strtod fns start base L s) (hn : ((fns.map FnDef.sig).map FnSig.name).Nodup)
    {index : Nat} {fn : FnDef} {u} (hfn : s.funcs[index]? = some fn) (hreached : Reached strtod fns start index)
    (hok : compileFnByIndex strtod index s = .ok u s') :
    ∃ L', L ⊆ L' ∧ Laid strtod fns start base L' s' ∧ Later s s' ∧ ∃ F ∈ L', F.index = index := by
  cases hnew : fn.compiled with
  | false =>
      obtain ⟨F, hF, hlaid, hlater⟩ := h.compile hn hfn hnew hreached hok
      exact ⟨L ++ [F], List.subset_append_left _ _, hlaid, hlater, F, by simp, hF⟩
  | true =>
      unfold compileFnByIndex at hok
      rw [get_bind, hfn] at hok
      simp only [hnew, true_or, if_true] at hok
      obtain ⟨_, rfl⟩ := pure_ok.1 hok
      exact ⟨L, fun _ hF => hF, h, .refl s, h.compiled index fn hfn hnew⟩

/-- One round of the loop compiles a function and patches one call. -/
theorem resolveFixups_round (hn : ((fns.map FnDef.sig).map FnSig.name).Nodup) {fuel i : Nat} {r : FrontResult CompileState Unit}
    (h : Laid strtod fns start base L s) (hres : Resolved fns L i s) (hbase : base ≤ s.len) (hi : i < s.fixups.length)
    (hround : resolveFixups strtod (fuel + 1) i s = r) (hgoes : ∀ message, r ≠ .rejected message) :
    ∃ L' s', L ⊆ L' ∧ Laid strtod fns start base L' s' ∧ Resolved fns L' (i + 1) s' ∧ i + 1 ≤ s'.fixups.length ∧
      base ≤ s'.len ∧ (∀ k < base, s'.fetch k = s.fetch k) ∧
      (∀ (k : Nat) c, s.program.constants[k]? = some c → s'.program.constants[k]? = some c) ∧
      resolveFixups strtod fuel (i + 1) s' = r := by
  unfold resolveFixups at hround
  rw [get_bind, List.getElem?_eq_getElem hi] at hround
  have hfx : s.fixups[i]? = some s.fixups[i] := List.getElem?_eq_getElem hi
  generalize s.fixups[i] = fx at hround hfx
  simp only at hround
  rw [get_bind] at hround
  obtain ⟨index, s₁, hfind, hround⟩ := bind_goes answers_ofOption hround hgoes
  obtain ⟨hfind, hs₁⟩ := ofOption_ok.1 hfind
  rw [findFunc_eq, h.wf.sigs] at hfind
  obtain ⟨_, s₂, hcompile, hround⟩ := bind_goes answers_compileFnByIndex hround hgoes
  rw [hs₁] at hcompile
  obtain ⟨hle, f, hf, F, hF, hcall⟩ := h.fixups fx (List.mem_of_getElem? hfx)
  rw [hfind, Option.some.injEq] at hf
  subst hf
  have hreached := (h.reached F hF).call (h.translated F hF) hcall
  obtain ⟨fn, hfn⟩ : ∃ fn, s.funcs[index]? = some fn := by
    obtain ⟨hlt, _⟩ := List.findIdx?_eq_some_iff_getElem.1 hfind
    rw [← h.wf.sigs, List.length_map] at hlt
    exact ⟨_, List.getElem?_eq_getElem hlt⟩
  obtain ⟨L', hL, hlaid, hlater, G, hG, hindex⟩ := h.ensure hn hfn hreached hcompile
  rw [instructionCount_bind] at hround
  split at hround
  · exact absurd hround.symm (hgoes _)
  rw [get_bind] at hround
  obtain ⟨fn', hfn', _, hentry⟩ := hlaid.entries G hG
  rw [hindex] at hfn'
  rw [hfn'] at hround
  simp only at hround
  obtain ⟨_, s₃, hpatch, hround⟩ := bind_goes answers_patch hround hgoes
  rw [hentry] at hpatch
  have hp := patch_patched hpatch
  obtain ⟨new, hnew⟩ := hlater.fixups
  have hfx' : s₂.fixups[i]? = some fx := by
    rw [← hnew, List.getElem?_append_left hi]
    exact hfx
  refine ⟨L', s₃, hL, hlaid.patch hp (.inl (.inl ⟨fx, List.mem_of_getElem? hfx', rfl⟩)),
    (hres.later hlater (Nat.le_of_lt hi) hL).patch hlaid.wf hfx' hG (hindex ▸ hfind) hp, ?_, ?_, fun k hk => ?_, fun k c hk => ?_,
    hround⟩
  · rw [hp.fixups, ← hnew, List.length_append]
    omega
  · rw [hp.len]
    exact hbase.trans hlater.len
  · rw [hp.others k (by simp; omega), hlater.code k (by omega)]
  · rw [hp.constants]
    exact hlater.table k c hk

theorem resolveFixups_run (hn : ((fns.map FnDef.sig).map FnSig.name).Nodup) {fuel : Nat} : ∀ {i L s u s'},
    Laid strtod fns start base L s → Resolved fns L i s → i ≤ s.fixups.length → base ≤ s.len →
    resolveFixups strtod fuel i s = .ok u s' → ∃ L', L ⊆ L' ∧ Laid strtod fns start base L' s' ∧
      Resolved fns L' s'.fixups.length s' ∧ (∀ k < base, s'.fetch k = s.fetch k) ∧
      ∀ (k : Nat) c, s.program.constants[k]? = some c → s'.program.constants[k]? = some c := by
  induction fuel with
  | zero =>
      intro i L s u s' _ _ _ _ hok
      cases hok
  | succ fuel ih =>
      intro i L s u s' h hres hi hbase hok
      rcases Nat.lt_or_eq_of_le hi with hlt | rfl
      · obtain ⟨L', s₁, hL, hlaid, hres', hi', hbase', hfetch, htable, hrest⟩ :=
          resolveFixups_round hn h hres hbase hlt hok (fun _ => by simp)
        obtain ⟨L'', hL', hlaid', hres'', hfetch', htable'⟩ := ih hlaid hres' hi' hbase' hrest
        refine ⟨L'', fun _ hF => hL' (hL hF), hlaid', hres'', fun k hk => ?_, fun k c hk => htable' k c (htable k c hk)⟩
        rw [hfetch' k hk, hfetch k hk]
      · unfold resolveFixups at hok
        rw [get_bind, List.getElem?_eq_none_iff.2 (Nat.le_refl _)] at hok
        obtain ⟨_, rfl⟩ := pure_ok.1 hok
        exact ⟨L, fun _ hF => hF, h, hres, fun _ _ => rfl, fun _ _ hk => hk⟩

/-- The fix-ups stand at different instructions, so there are no more of them. -/
theorem fixups_length (hs : s.Wf (fns.map FnDef.sig)) : s.fixups.length ≤ programInlineInstructions := by
  have hsub : s.fixups.map CallFixup.instructionIndex ⊆ List.range s.len := by
    intro k hk
    obtain ⟨fx, hfx, rfl⟩ := List.mem_map.1 hk
    obtain ⟨x, hx⟩ := hs.calls fx hfx
    exact List.mem_range.2 (CompileState.fetch_lt hx)
  have hlength := (hs.distinct.subperm hsub).length_le
  rw [List.length_map, List.length_range] at hlength
  exact hlength.trans s.program.instructions_fit

/-- The loop over the fix-ups ends, whatever functions call each other. -/
theorem resolveFixups_ends (hn : ((fns.map FnDef.sig).map FnSig.name).Nodup) {fuel : Nat} : ∀ {i L s},
    Laid strtod fns start base L s → Resolved fns L i s → i ≤ s.fixups.length → base ≤ s.len →
    programInlineInstructions < fuel + i → resolveFixups strtod fuel i s ≠ .outOfFuel := by
  induction fuel with
  | zero =>
      intro i L s h _ hi _ hfuel
      have hlength := fixups_length h.wf
      omega
  | succ fuel ih =>
      intro i L s h hres hi hbase hfuel hout
      rcases Nat.lt_or_eq_of_le hi with hlt | rfl
      · obtain ⟨L', s', _, hlaid, hres', hi', hbase', _, _, hrest⟩ :=
          resolveFixups_round hn h hres hbase hlt hout (fun _ => by simp)
        exact ih hlaid hres' hi' hbase' (by omega) hrest
      · unfold resolveFixups at hout
        rw [get_bind, List.getElem?_eq_none_iff.2 (Nat.le_refl _)] at hout
        exact answers_pure _ hout

/-! ## The whole program -/

/-- A table of functions of which none has been compiled. -/
def Uncompiled (fns : List FnDef) : Prop := ∀ fn ∈ fns, fn.compiled = false ∧ fn.compiling = false

/-- The state behind the prologue, whose call has no target yet. -/
structure AtPrologue (fns : List FnDef) (start : Nat) (s : CompileState) : Prop where
  wf : s.Wf (fns.map FnDef.sig)
  funcs : s.funcs = fns
  fixups : s.fixups = []
  frames : s.loopFrames = []
  len : s.len = (prologue fns start).length
  consts : ∀ k ∈ s.program.constants, ∃ t, k = .string t
  slots : ∀ i slot, (prologue fns start)[i]? = some slot → (∃ x, slot = .basic (.call start) ∧ s.fetch i = some ⟨.call, x⟩ ∧
    i + 2 = s.len) ∨ i + 2 ≠ s.len ∧ InPlace s.program [] i slot

theorem AtPrologue.laid (h : AtPrologue fns start s) (hnew : Uncompiled fns) :
    Laid strtod fns start (prologue fns start).length [] s := by
  refine ⟨h.wf, h.frames, h.len.symm, .nil, ?_, ?_, by rw [h.funcs], ?_, ?_, ?_, ?_, ?_, ?_⟩
  · intro F hF
    cases hF
  · intro F hF
    cases hF
  · intro f fn hfn
    rw [h.funcs] at hfn
    exact (hnew fn (List.mem_of_getElem? hfn)).2
  · intro F hF
    cases hF
  · intro f fn hfn hc
    rw [h.funcs] at hfn
    rw [(hnew fn (List.mem_of_getElem? hfn)).1] at hc
    cases hc
  · intro fx hfx
    rw [h.fixups] at hfx
    cases hfx
  · intro k hk
    obtain ⟨t, rfl⟩ := h.consts k hk
    exact ⟨rfl, fun bits hb => by cases hb⟩
  · intro T H loop _ _ F hF
    cases hF

/-- The call and the stop that end a prologue. -/
theorem prologue_end {t : CompileState} {u} (h : (do
      emitOp .call
      emitOp .halt) s = .ok u t) : t.len = s.len + 2 ∧ t.program.constants = s.program.constants ∧ t.funcs = s.funcs ∧
    t.fixups = s.fixups ∧ t.loopFrames = s.loopFrames ∧ (∀ i < s.len, t.fetch i = s.fetch i) ∧
    t.fetch s.len = some ⟨.call, Operand.ofNat 0⟩ ∧ t.fetch (s.len + 1) = some ⟨.halt, Operand.ofNat 0⟩ ∧
    ∀ {sigs}, s.Wf sigs → t.Wf sigs := by
  obtain ⟨_, m, h₁, h₂⟩ := bind_ok.1 h
  have hcall := emit_appended h₁
  have hhalt := emit_appended h₂
  have hlen := hcall.len
  refine ⟨?_, hhalt.constants.trans hcall.constants, hhalt.funcs.trans hcall.funcs, hhalt.fixups.trans hcall.fixups,
    hhalt.loopFrames.trans hcall.loopFrames, ?_, ?_, ?_, fun hs => hhalt.wf (hcall.wf hs)⟩
  · rw [hhalt.len, hlen]
  · intro i hi
    rw [hhalt.fetch_old (by omega), hcall.fetch_old hi]
  · rw [hhalt.fetch_old (by omega)]
    exact hcall.fetch_new
  · rw [← hlen]
    exact hhalt.fetch_new

theorem wf_fresh : (⟨.empty, fns, [], [], []⟩ : CompileState).Wf (fns.map FnDef.sig) := by
  refine ⟨rfl, by simp, by simp, by simp, ?_, .nil⟩
  intro i j x y hi
  cases hi

/-- The prologue of an entry function without parameters. -/
theorem atPrologue_plain {u} (hcount : (fns[start]?.bind fun fn => paramCount fn.paramsRaw) = some 0) (h : (do
      emitOp .call
      emitOp .halt) ⟨.empty, fns, [], [], []⟩ = .ok u s) : AtPrologue fns start s := by
  obtain ⟨hlen, hconsts, hfuncs, hfixups, hframes, _, hcall, hhalt, hwf⟩ := prologue_end h
  have hshape : prologue fns start = [.basic (.call start), .basic (.op .halt (.ofNat 0))] := if_pos hcount
  refine ⟨hwf wf_fresh, hfuncs, hfixups, hframes, ?_, ?_, ?_⟩
  · rw [hlen, hshape]
    rfl
  · rw [hconsts]
    intro k hk
    cases hk
  · rw [hshape]
    intro i slot hi
    match i with
    | 0 =>
        cases hi
        exact .inl ⟨_, rfl, hcall, by rw [hlen]; rfl⟩
    | 1 =>
        cases hi
        exact .inr ⟨by rw [hlen, show CompileState.len _ = 0 from rfl]; decide, hhalt⟩

/-- The prologue that fetches the arguments of the process. -/
theorem atPrologue_args {t : CompileState} {u v} (hcount : (fns[start]?.bind fun fn => paramCount fn.paramsRaw) ≠ some 0)
    (h : (do
      emitConst (← addStringConst (ascii "sys.process.args"))
      emitOp .callSys) ⟨.empty, fns, [], [], []⟩ = .ok u t) (h' : (do
      emitOp .call
      emitOp .halt) t = .ok v s) : AtPrologue fns start s := by
  obtain ⟨index, t₁, h₁, h⟩ := bind_ok.1 h
  obtain ⟨_, t₂, h₂, h₃⟩ := bind_ok.1 h
  have hadd := addStringConst_added h₁
  have hconst := emit_appended h₂
  have hsys := emit_appended h₃
  obtain ⟨hlen, hconsts, hfuncs, hfixups, hframes, hold, hcall, hhalt, hwf⟩ := prologue_end h'
  have hlen₁ : t₁.len = 0 := hadd.len
  have hlen₂ := hconst.len
  have hlen₃ := hsys.len
  have hshape : prologue fns start = [.basic (.const (.string (.ofBuffer (ascii "sys.process.args")))),
      .basic (.op .callSys (.ofNat 0)), .basic (.call start), .basic (.op .halt (.ofNat 0))] := if_neg hcount
  have htable : s.program.constants = t₁.program.constants := by rw [hconsts, hsys.constants, hconst.constants]
  have ht : t.len = 2 := by omega
  rw [ht] at hcall hhalt
  refine ⟨hwf (hsys.wf (hconst.wf (hadd.wf wf_fresh))), ?_, ?_, ?_, ?_, ?_, ?_⟩
  · rw [hfuncs, hsys.funcs, hconst.funcs, hadd.funcs]
  · rw [hfixups, hsys.fixups, hconst.fixups, hadd.fixups]
  · rw [hframes, hsys.loopFrames, hconst.loopFrames, hadd.loopFrames]
  · rw [hlen, ht, hshape]
    rfl
  · rw [htable]
    intro k hk
    rcases hadd.constants with heq | heq <;> rw [heq] at hk
    · cases hk
    · exact ⟨_, List.mem_singleton.1 hk⟩
  · rw [hshape]
    intro i slot hi
    match i with
    | 0 =>
        cases hi
        refine .inr ⟨by omega, index, ?_, ?_⟩
        · change s.fetch 0 = _
          rw [hold 0 (by omega), hsys.fetch_old (by omega), ← hlen₁]
          exact hconst.fetch_new
        · obtain ⟨k, hk, hserves⟩ := hadd.found
          rw [htable, hk]
          rcases hserves with rfl | ⟨x, y, _, hy, _⟩
          · rfl
          · cases hy
    | 1 =>
        cases hi
        refine .inr ⟨by omega, ?_⟩
        change s.fetch 1 = _
        rw [hold 1 (by omega), show 1 = t₂.len by omega]
        exact hsys.fetch_new
    | 2 =>
        cases hi
        exact .inl ⟨_, rfl, hcall, by omega⟩
    | 3 =>
        cases hi
        exact .inr ⟨by omega, hhalt⟩

/-- The part of `compileEntry` behind the arguments of the process. -/
def compileFromCall (strtod : Text → Option UInt64) (fuel index : Nat) : CompileM Unit := do
  let bootstrap ← instructionCount
  orFail "graph compile: failed emitting bootstrap call/halt" (do
    emitOp .call
    emitOp .halt)
  compileFnByIndex strtod index
  match (← get).funcs[index]? with
  | none => giveUp
  | some fn => do
      patch fn.entryIp bootstrap
      resolveFixups strtod fuel 0
      if (← instructionCount) = 0 then fail "graph compile: produced empty program"

theorem inPlace_mono {program : Draft} {L' : List FnCode} {i : Nat} {slot : Slot BasicOp} {s : CompileState}
    (h : InPlace s.program [] i slot) (hcode : program.instructions[i]? = s.fetch i)
    (htable : ∀ (k : Nat) c, s.program.constants[k]? = some c → program.constants[k]? = some c) :
    InPlace program L' i slot := by
  cases slot with
  | basic b =>
      cases b with
      | op opcode operand => exact hcode.trans h
      | const c =>
          obtain ⟨k, hk, hc⟩ := h
          exact ⟨k, hcode.trans hk, htable k _ hc⟩
      | call f =>
          obtain ⟨F, hF, _⟩ := h
          cases hF
  | jump t => exact hcode.trans h
  | skipUnless t => exact hcode.trans h

/-- The entry function is compiled, and its call is patched. -/
theorem compileFromCall_start {t : CompileState} {fuel} {r : FrontResult CompileState Unit}
    (hn : ((fns.map FnDef.sig).map FnSig.name).Nodup) (hnew : Uncompiled fns) (hstart : start < fns.length)
    (hat : ∀ {v m}, (do
      emitOp .call
      emitOp .halt) t = .ok v m → AtPrologue fns start m)
    (h : compileFromCall strtod fuel start t = r) (hgoes : ∀ message, r ≠ .rejected message) :
    ∃ F s', Laid strtod fns start (prologue fns start).length [F] s' ∧ F.index = start ∧
      (∀ i slot, (prologue fns start)[i]? = some slot → (slot = .basic (.call start) ∧
        s'.fetch i = some ⟨.call, Operand.ofNat F.entry⟩) ∨ InPlace s'.program [] i slot) ∧
      (do
        resolveFixups strtod fuel 0
        if (← instructionCount) = 0 then fail "graph compile: produced empty program") s' = r := by
  unfold compileFromCall at h
  rw [instructionCount_bind] at h
  obtain ⟨_, s₁, h₁, h⟩ := bind_goes (answers_orFail (answers_bind answers_emitOp fun _ => answers_emitOp)) h hgoes
  obtain ⟨_, s₂, h₂, h⟩ := bind_goes answers_compileFnByIndex h hgoes
  rw [get_bind] at h
  have hp := hat (orFail_ok.1 h₁)
  have hlen := (prologue_end (orFail_ok.1 h₁)).1
  have hfn : s₁.funcs[start]? = some fns[start] := by
    rw [hp.funcs]
    exact List.getElem?_eq_getElem hstart
  have hplain : Laid strtod fns start (prologue fns start).length [] s₁ := hp.laid hnew
  obtain ⟨F, hindex, hlaid, hlater⟩ := hplain.compile hn hfn (hnew _ (List.getElem_mem hstart)).1 .start h₂
  obtain ⟨fn', hfn', _, hentry⟩ := hlaid.entries F (by simp)
  rw [hindex] at hfn'
  rw [hfn'] at h
  simp only at h
  obtain ⟨_, s₃, h₃, h⟩ := bind_goes answers_patch h hgoes
  have hpatch := patch_patched h₃
  have hbase := hp.len
  have hsite : t.len < (prologue fns start).length := by omega
  refine ⟨F, s₃, hlaid.patch hpatch (.inr hsite), hindex, fun i slot hi => ?_, h⟩
  have hlt := (List.getElem?_eq_some_iff.1 hi).1
  rcases hp.slots i slot hi with ⟨x, rfl, hcall, hend⟩ | ⟨hend, hslot⟩
  · left
    refine ⟨rfl, ?_⟩
    rw [← hentry]
    have hi' : i = t.len := by omega
    refine hpatch.sites i (List.mem_singleton.2 hi') .call x ?_
    rw [hlater.code i (by omega), hcall]
  · right
    refine inPlace_mono hslot ?_ fun k c hk => ?_
    · change CompileState.fetch _ i = _
      rw [hpatch.others i (by simp; omega), hlater.code i (by omega)]
    · rw [hpatch.constants]
      exact hlater.table k c hk

/-- The entry function is compiled, its call is patched, and the fix-ups are resolved. -/
theorem compileFromCall_run {t : CompileState} {fuel u} (hn : ((fns.map FnDef.sig).map FnSig.name).Nodup)
    (hnew : Uncompiled fns) (hstart : start < fns.length)
    (hat : ∀ {v m}, (do
      emitOp .call
      emitOp .halt) t = .ok v m → AtPrologue fns start m)
    (h : compileFromCall strtod fuel start t = .ok u s) :
    ∃ L, Laid strtod fns start (prologue fns start).length L s ∧ Resolved fns L s.fixups.length s ∧
      (∃ F ∈ L, F.index = start) ∧ Stands (InPlace s.program L) 0 (prologue fns start) := by
  obtain ⟨F, s₃, hlaid, hindex, hslots, h⟩ := compileFromCall_start hn hnew hstart hat h (fun _ => by simp)
  obtain ⟨_, s₄, h₄, h⟩ := bind_ok.1 h
  rw [instructionCount_bind] at h
  split at h
  · exact absurd h fail_ok
  obtain ⟨_, rfl⟩ := pure_ok.1 h
  have hle := hlaid.chain.le
  obtain ⟨L', hL, hlaid', hres, hfetch, htable⟩ :=
    resolveFixups_run hn hlaid (fun j hj => absurd hj (Nat.not_lt_zero j)) (Nat.zero_le _) hle h₄
  have hF : F ∈ L' := hL List.mem_cons_self
  refine ⟨L', hlaid', hres, ⟨F, hF, hindex⟩, stands_iff.2 fun i slot hi => ?_⟩
  have hlt := (List.getElem?_eq_some_iff.1 hi).1
  rw [Nat.zero_add]
  rcases hslots i slot hi with ⟨rfl, hcall⟩ | hslot
  · exact ⟨F, hF, hindex, (hfetch i hlt).trans hcall⟩
  · exact inPlace_mono hslot (hfetch i hlt) htable

theorem compileFromCall_ends {t : CompileState} {fuel} (hn : ((fns.map FnDef.sig).map FnSig.name).Nodup)
    (hnew : Uncompiled fns) (hstart : start < fns.length)
    (hat : ∀ {v m}, (do
      emitOp .call
      emitOp .halt) t = .ok v m → AtPrologue fns start m)
    (hfuel : programInlineInstructions < fuel) : compileFromCall strtod fuel start t ≠ .outOfFuel := by
  intro h
  obtain ⟨F, s₃, hlaid, _, _, h⟩ := compileFromCall_start hn hnew hstart hat h (fun _ => by simp)
  rcases bind_outOfFuel.1 h with hloop | ⟨_, s₄, _, hcheck⟩
  · exact resolveFixups_ends hn hlaid (fun j hj => absurd hj (Nat.not_lt_zero j)) (Nat.zero_le _) hlaid.chain.le hfuel hloop
  · exact answers_bind answers_instructionCount (fun _ => answers_ite answers_fail answers_pure) s₄ hcheck

/-- In front of the call of the entry function its arguments may be fetched. -/
theorem compileEntry_start {fuel entry} {r : FrontResult CompileState Unit}
    (h : compileEntry strtod fuel entry ⟨.empty, fns, [], [], []⟩ = r) (hgoes : ∀ message, r ≠ .rejected message) :
    ∃ start t, findFunc fns entry = some start ∧ start < fns.length ∧ compileFromCall strtod fuel start t = r ∧
      ∀ {v m}, (do
        emitOp .call
        emitOp .halt) t = .ok v m → AtPrologue fns start m := by
  unfold compileEntry at h
  rw [get_bind] at h
  obtain ⟨start, t₁, h₁, h⟩ := bind_goes answers_ofOption h hgoes
  obtain ⟨hfind, ht₁⟩ := ofOption_ok.1 h₁
  obtain ⟨fn, t₂, h₂, h⟩ := bind_goes answers_ofOption h hgoes
  obtain ⟨hfn, ht₂⟩ := ofOption_ok.1 h₂
  obtain ⟨params, t₃, h₃, h⟩ := bind_goes answers_ofOption h hgoes
  obtain ⟨hparams, ht₃⟩ := ofOption_ok.1 h₃
  have hstart : start < fns.length := (List.getElem?_eq_some_iff.1 hfn).1
  have hcount : (fns[start]?.bind fun fn => paramCount fn.paramsRaw) = some params.length := by
    rw [show fns[start]? = some fn from hfn]
    simp [paramCount, hparams]
  rw [ht₃, ht₂, ht₁] at h
  by_cases hparam : 0 < params.length
  · simp only [if_pos hparam] at h
    have hargs : Answers (do
        emitConst (← addStringConst (ascii "sys.process.args"))
        emitOp .callSys : CompileM Unit) :=
      answers_bind answers_addStringConst fun _ => answers_bind answers_emitConst fun _ => answers_emitOp
    obtain ⟨_, t, h₄, h⟩ := bind_goes (answers_orFail hargs) h hgoes
    refine ⟨start, t, hfind, hstart, h, fun hm => atPrologue_args ?_ (orFail_ok.1 h₄) hm⟩
    rw [hcount]
    simpa using Nat.ne_of_gt hparam
  · simp only [if_neg hparam] at h
    refine ⟨start, _, hfind, hstart, h, fun hm => atPrologue_plain ?_ hm⟩
    rw [hcount]
    simpa using hparam

theorem compileEntry_run (hn : ((fns.map FnDef.sig).map FnSig.name).Nodup) (hnew : Uncompiled fns) {fuel entry u}
    (h : compileEntry strtod fuel entry ⟨.empty, fns, [], [], []⟩ = .ok u s) :
    ∃ start L, findFunc fns entry = some start ∧ Laid strtod fns start (prologue fns start).length L s ∧
      Resolved fns L s.fixups.length s ∧ (∃ F ∈ L, F.index = start) ∧
      Stands (InPlace s.program L) 0 (prologue fns start) := by
  obtain ⟨start, t, hfind, hstart, hrun, hat⟩ := compileEntry_start h (fun _ => by simp)
  obtain ⟨L, hL⟩ := compileFromCall_run hn hnew hstart hat hrun
  exact ⟨start, L, hfind, hL⟩

theorem compileEntry_ends (hn : ((fns.map FnDef.sig).map FnSig.name).Nodup) (hnew : Uncompiled fns) {fuel entry}
    (hfuel : programInlineInstructions < fuel) : compileEntry strtod fuel entry ⟨.empty, fns, [], [], []⟩ ≠ .outOfFuel := by
  intro h
  obtain ⟨start, t, -, hstart, hrun, hat⟩ := compileEntry_start h (fun _ => by simp)
  exact compileFromCall_ends hn hnew hstart hat hfuel hrun

end Laid

end Aivm
