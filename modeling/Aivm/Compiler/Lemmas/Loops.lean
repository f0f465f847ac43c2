import Aivm.Compiler.Lemmas.Control

/-! # Branches, dynamic calls and loops as the compiler runs them -/

namespace Aivm

open StructuredCode FrontM CompileM

variable {s s' : CompileState} {sigs : List FnSig} {c : SourceCode}

theorem instructionCount_bind {α : Type} (f : Nat → CompileM α) (s : CompileState) :
    (instructionCount >>= f) s = f s.len s := rfl

/-! ## Branches -/

section Branch

variable {α β : Type} {m : CompileM α} {m' : CompileM β} {g : Gen α} {g' : Gen β}

/-- The steps that the two forms of `If` share. -/
theorem branch_run {s₀ s₁ s₂ s₃ s₄ s₅ s₆ : CompileState} {a : α} {b : β} {u₁ u₃ u₄ u₆} (hs : s₀.Wf sigs)
    (hm : Emits sigs m g) (hm' : Emits sigs m' g') (h₁ : emitOp .jumpIfFalse s₀ = .ok u₁ s₁) (h₂ : m s₁ = .ok a s₂)
    (h₃ : emitOp .jump s₂ = .ok u₃ s₃) (h₄ : patch s₃.len s₀.len s₃ = .ok u₄ s₄) (h₅ : m' s₄ = .ok b s₅)
    (h₆ : patch s₅.len s₂.len s₅ = .ok u₆ s₆) :
    ∃ c, Gen.branch g g' s₀.locals = some (c, (a, b), s₆.locals) ∧ Step sigs s₀ s₆ c [] := by
  have hjump := emit_appended h₁
  obtain ⟨c, hg, hX⟩ := hm (hjump.wf hs) h₂
  have hend := emit_appended h₃
  have hpatch := patch_patched h₄
  obtain ⟨c', hg', hY⟩ := hm' (hpatch.wf (hend.wf hX.wf)) h₅
  have hclose := patch_patched h₆
  refine ⟨.branch c c', ?_, (Step.branch hs hjump hX hend hpatch hY).close hclose⟩
  rw [hjump.locals] at hg
  rw [hpatch.locals, hend.locals] at hg'
  simp [Gen.branch, hg, hg', hclose.locals]

end Branch

/-! ## Loops -/

theorem LoopFrame.Grows.site_ge {lo : Nat} {fr fr' : LoopFrame} (h : fr.Grows lo fr') (hb : fr.breakSites = [])
    (hc : fr.continueSites = []) {i} (hi : i ∈ fr'.breakSites ∨ i ∈ fr'.continueSites) : lo ≤ i := by
  obtain ⟨bs, hbs, hble⟩ := h.breaks
  obtain ⟨cs, hcs, hcle⟩ := h.continues
  rw [hbs, hcs, hb, hc, List.nil_append, List.nil_append] at hi
  exact hi.elim (hble i) (hcle i)

/-- A loop: its body in a frame of its own, the jump back, and the jumps of the frame patched. -/
theorem Step.loop {s₀ s₁ s₂ s₃ s₄ s₅ s₆ : CompileState} {frames : List LoopFrame} {frame : LoopFrame}
    (hs : s₀.Wf sigs) (hframes : s₀.loopFrames = frames)
    (h₁ : s₁ = { s₀ with loopFrames := ⟨s₀.len, [], []⟩ :: frames }) (hbody : Step sigs s₁ s₂ c [])
    (h₃ : Appended s₂ s₃ ⟨.jump, Operand.ofNat s₀.len⟩) (hframe : s₃.loopFrames = frame :: frames)
    (h₄ : Patched s₃ s₄ s₃.len frame.breakSites) (h₅ : Patched s₄ s₅ s₀.len frame.continueSites)
    (h₆ : s₆ = { s₅ with loopFrames := frames }) : Step sigs s₀ s₆ (.loop c) [] := by
  have hlen₁ : s₁.len = s₀.len := by rw [h₁]; rfl
  have hlen₂ := hbody.size
  have hlen₃ := h₃.len
  have hlen₆ : s₆.len = s₃.len := by
    rw [h₆]
    exact h₅.len.trans h₄.len
  have hfetch₆ : ∀ i, s₆.fetch i = s₅.fetch i := fun i => by rw [h₆]; rfl
  have hwf₃ := h₃.wf hbody.wf
  have hmem : frame ∈ s₃.loopFrames := hframe ▸ List.mem_cons_self
  have hfr : (⟨s₀.len, [], []⟩ : LoopFrame).Grows s₁.len frame := by
    have hgrow := hbody.grows.frames
    rw [← h₃.loopFrames, hframe, hlen₁, h₁] at hgrow
    rw [hlen₁]
    cases hgrow with
    | cons h => exact h
  have hsite : ∀ i, i ∈ frame.breakSites ∨ i ∈ frame.continueSites → s₀.len ≤ i := by
    intro i hi
    have := hfr.site_ge rfl rfl hi
    omega
  have hkept : ∀ i, (¬ i ∈ frame.breakSites) → (¬ i ∈ frame.continueSites) → s₆.fetch i = s₃.fetch i := by
    intro i hb hc
    rw [hfetch₆, h₅.others i hc, h₄.others i hb]
  have hpending₆ : ∀ {i}, s₆.Pending i → s₃.Pending i := by
    rintro i (⟨fx, hfx, rfl⟩ | ⟨fr, hfr', hi⟩)
    · refine .inl ⟨fx, ?_, rfl⟩
      rw [h₆] at hfx
      rw [← h₄.fixups, ← h₅.fixups]
      exact hfx
    · refine .inr ⟨fr, ?_, hi⟩
      rw [h₆] at hfr'
      rw [hframe]
      exact List.mem_cons_of_mem _ hfr'
  have hgrows₁ : CodeGrows s₁ s₃ := hbody.grows.trans h₃.grows
  have hconstants : s₆.program.constants = s₂.program.constants := by
    rw [h₆, ← h₃.constants, ← h₄.constants]
    exact h₅.constants
  have hfuncs : s₆.funcs = s₃.funcs := by
    rw [h₆]
    exact h₅.funcs.trans h₄.funcs
  have hfixups : s₆.fixups = s₃.fixups := by
    rw [h₆]
    exact h₅.fixups.trans h₄.fixups
  have hold : ∀ i < s₀.len, s₆.fetch i = s₀.fetch i := by
    intro i hi
    have hb : ¬ i ∈ frame.breakSites := fun h => absurd (hsite i (.inl h)) (by omega)
    have hc : ¬ i ∈ frame.continueSites := fun h => absurd (hsite i (.inr h)) (by omega)
    rw [hkept i hb hc, hgrows₁.code i (by omega), h₁]
    rfl
  refine ⟨⟨?_, ?_, ?_, ?_, ?_, ?_⟩, ⟨?_, by omega, hold, ?_, ?_, ?_⟩, ?_, ?_, ?_, by simp, ?_⟩
  · rw [hfuncs]
    exact hwf₃.sigs
  · intro fx hfx
    rw [hfixups] at hfx
    obtain ⟨x, hx⟩ := hwf₃.calls fx hfx
    obtain ⟨y, hy⟩ := h₄.keeps hx
    rw [hfetch₆]
    exact h₅.keeps hy
  · intro fr hfr' i hi
    rw [h₆] at hfr'
    obtain ⟨x, hx⟩ := hs.sites fr (by rw [hframes]; exact hfr') i hi
    exact ⟨x, by rw [hold i (CompileState.fetch_lt hx), hx]⟩
  · intro fr hfr'
    rw [h₆] at hfr'
    exact hs.apart fr (by rw [hframes]; exact hfr')
  · rw [hconstants]
    exact hbody.wf.numbers
  · rw [hfixups]
    exact hwf₃.distinct
  · rw [hfuncs, hgrows₁.funcs, h₁]
  · intro k l hk
    rw [hconstants]
    exact hbody.grows.table k l (by rw [h₁]; exact hk)
  · obtain ⟨new, hn, hnew⟩ := hgrows₁.fixups
    refine ⟨new, ?_, fun fx hfx => hlen₁ ▸ hnew fx hfx⟩
    rw [hfixups, hn, h₁]
  · rw [h₆, hframes]
    exact .refl _ _
  · simp only [Code.size]
    omega
  · rw [hconstants]
    intro k hk
    have := hbody.consts k hk
    rw [h₁] at this
    exact this
  · rw [hfixups, h₃.fixups]
    have := hbody.calls
    rw [h₁] at this
    exact this
  · intro T H loop hH hT _
    have hT := completes_nil rfl hT
    have hat : ∀ {i instr}, s₀.len ≤ i → s₆.fetch i = some instr → (¬ ∃ fx ∈ s₃.fixups, fx.instructionIndex = i) →
        T.code[i]? = some instr := by
      intro i instr hle hi hfix
      refine hT.fetch hi (fun hHi => absurd (hH i hHi) (by omega)) ?_
      rintro (⟨fx, hfx, hidx⟩ | ⟨fr, hfr', hi'⟩)
      · exact hfix ⟨fx, hfixups ▸ hfx, hidx⟩
      · rw [h₆] at hfr'
        exact absurd (hs.pending_lt (.inr ⟨fr, by rw [hframes]; exact hfr', hi'⟩)) (by omega)
    have hnofix : ∀ {i x}, s₃.fetch i = some ⟨.jump, x⟩ → ¬ ∃ fx ∈ s₃.fixups, fx.instructionIndex = i := by
      rintro i x hx ⟨fx, hfx, rfl⟩
      obtain ⟨y, hy⟩ := hwf₃.calls fx hfx
      rw [hx] at hy
      cases hy
    have htop : ∀ fr rest, s₃.loopFrames = fr :: rest → fr = frame := by
      intro fr rest heq
      rw [hframe, List.cons.injEq] at heq
      exact heq.1.symm
    have hend : s₃.len = s₀.len + c.size + 1 := by omega
    -- inside the loop, the program has the jumps of its frame right
    have hT₃ : T.Completes H (s₀.len, s₀.len + c.size + 1) s₃ := by
      refine ⟨?_, ?_, ?_, ?_, ?_, ?_, ?_⟩
      · intro i hi hHi hp
        have hb : ¬ i ∈ frame.breakSites := fun h => hp (.inr ⟨frame, hmem, .inl h⟩)
        have hc : ¬ i ∈ frame.continueSites := fun h => hp (.inr ⟨frame, hmem, .inr h⟩)
        rw [← hkept i hb hc]
        exact hT.code i (by omega) hHi fun hp' => hp (hpending₆ hp')
      · rw [← hfixups, ← hfuncs]
        exact hT.calls
      · rw [← hfuncs]
        exact hT.entries
      · intro fr rest heq
        rw [htop fr rest heq]
        exact hfr.start.symm
      · intro fr rest heq i hi
        rw [htop fr rest heq] at hi
        obtain ⟨x, hx⟩ := hwf₃.sites frame hmem i (.inl hi)
        refine hat (hsite i (.inl hi)) ?_ (hnofix hx)
        rw [hfetch₆, h₅.others i (hwf₃.apart frame hmem i hi), ← hend]
        exact h₄.sites i hi _ x hx
      · intro fr rest heq i hi
        rw [htop fr rest heq] at hi
        obtain ⟨x, hx⟩ := hwf₃.sites frame hmem i (.inr hi)
        refine hat (hsite i (.inr hi)) ?_ (hnofix hx)
        obtain ⟨y, hy⟩ := h₄.keeps hx
        rw [hfetch₆]
        exact h₅.sites i hi _ y hy
      · intro k l hk
        refine hT.table k l ?_
        rw [hconstants, ← h₃.constants]
        exact hk
    have hT₂ : T.Completes (fun i => H i ∨ i ∈ ([] : List Nat)) (s₀.len, s₀.len + c.size + 1) s₂ :=
      (hT₃.back h₃.grows).mono fun i _ hi => .inl hi
    simp only [Code.flatten, stands_append, Code.length_flatten]
    refine ⟨?_, ?_, trivial⟩
    · have hstands := hbody.sound (fun i hi => by rw [hlen₁]; exact hH i hi) hT₂ (by simp)
      rwa [hlen₁] at hstands
    · have hback : s₃.fetch s₂.len = some ⟨.jump, Operand.ofNat s₀.len⟩ := h₃.fetch_new
      have hnot : ∀ i, i ∈ frame.breakSites ∨ i ∈ frame.continueSites → i ≠ s₂.len := by
        rintro i hi rfl
        have hp : s₂.Pending s₂.len := .inr ⟨frame, by rw [← h₃.loopFrames]; exact hmem, hi⟩
        exact absurd (hbody.wf.pending_lt hp) (Nat.lt_irrefl _)
      have hfinal : s₆.fetch s₂.len = some ⟨.jump, Operand.ofNat s₀.len⟩ := by
        rw [hkept _ (fun h => hnot _ (.inl h) rfl) (fun h => hnot _ (.inr h) rfl), hback]
      have := hat (by omega) hfinal (hnofix hback)
      rw [hlen₂, hlen₁] at this
      exact this

theorem emits_loop {m : CompileM Bool} {g : Gen Bool} (hm : Emits sigs m g) : Emits sigs (do
    if simpleMaxLoopDepth ≤ (← get).loopFrames.length then fail "loop nesting depth exceeded"
    else
      let loopStart ← instructionCount
      modify fun s => { s with loopFrames := ⟨loopStart, [], []⟩ :: s.loopFrames }
      let _ ← m
      emit .jump (.ofNat loopStart)
      match (← get).loopFrames with
      | [] => giveUp
      | frame :: frames => do
          patchAll (← instructionCount) frame.breakSites
          patchAll loopStart frame.continueSites
          modify fun s => { s with loopFrames := frames }
          return false) (do
    let _ ← Gen.loop g
    return false) := by
  refine emits_get fun {s₀ b s'} hs h => ?_
  split at h
  · exact absurd h fail_ok
  rw [instructionCount_bind] at h
  obtain ⟨_, s₁, h₁, h⟩ := bind_ok.1 h
  have h₁ := modify_ok.1 h₁
  obtain ⟨a, s₂, h₂, h⟩ := bind_ok.1 h
  obtain ⟨_, s₃, h₃, h⟩ := bind_ok.1 h
  rw [get_bind] at h
  have hwf₁ : s₁.Wf sigs := by
    subst h₁
    refine ⟨hs.sigs, hs.calls, ?_, ?_, hs.numbers, hs.distinct⟩
    · intro fr hfr i hi
      rcases List.mem_cons.1 hfr with rfl | hfr
      · simp at hi
      · exact hs.sites fr hfr i hi
    · intro fr hfr
      rcases List.mem_cons.1 hfr with rfl | hfr
      · simp
      · exact hs.apart fr hfr
  obtain ⟨c, hg, hbody⟩ := hm hwf₁ h₂
  have hjump := emit_appended h₃
  have hgrow := hbody.grows.frames
  rw [← hjump.loopFrames, h₁] at hgrow
  generalize hfs : s₃.loopFrames = frs at hgrow h
  cases hgrow with
  | @cons _ frame _ hgrow =>
      simp only at h
      rw [instructionCount_bind] at h
      obtain ⟨_, s₄, h₄, h⟩ := bind_ok.1 h
      obtain ⟨_, s₅, h₅, h⟩ := bind_ok.1 h
      obtain ⟨_, s₆, h₆, h⟩ := bind_ok.1 h
      obtain ⟨rfl, rfl⟩ := pure_ok.1 h
      have hp₄ := patchAll_patched h₄
      have hp₅ := patchAll_patched h₅
      have h₆ := modify_ok.1 h₆
      refine ⟨.seq (.loop c) .done, ?_, ?_⟩
      · have hlocals : s₁.locals = s₀.locals := by rw [h₁]
        have hlocals' : s₂.locals = s₆.locals := by
          rw [h₆]
          exact (hp₅.locals.trans (hp₄.locals.trans hjump.locals)).symm
        rw [hlocals, hlocals'] at hg
        change (do
          let (c, _, locals) ← Gen.loop g s₀.locals
          let (c', b, locals) ← (pure false : Gen Bool) locals
          return (Code.seq c c', b, locals)) = _
        simp only [Gen.loop, hg, Option.bind_eq_bind, Option.bind_some, Option.pure_def]
        rfl
      · have hloop := Step.loop hs rfl h₁ hbody hjump hfs hp₄ hp₅ h₆
        exact hloop.seq (.done hloop.wf (.refl _) rfl (fun k hk => .inl hk) rfl)

/-! ## Jumps of the innermost loop -/

/-- A jump noted in the frame of the innermost loop. -/
theorem Step.loopJump {s₁ : CompileState} {x : Operand} {fr fr' : LoopFrame} {rest : List LoopFrame} (hs : s.Wf sigs)
    (h₁ : Appended s s₁ ⟨.jump, x⟩) (hframes : s.loopFrames = fr :: rest) (hgrows : fr.Grows s.len fr')
    (hsites : ∀ i, i ∈ fr'.breakSites ∨ i ∈ fr'.continueSites →
      i = s.len ∨ i ∈ fr.breakSites ∨ i ∈ fr.continueSites)
    (hapart : ∀ i ∈ fr'.breakSites, i ∉ fr'.continueSites) (hs' : s' = { s₁ with loopFrames := fr' :: rest })
    (hsize : c.size = 1)
    (hsound : ∀ {T : Linked} {loop : Nat × Nat}, (∀ i ∈ fr'.breakSites, T.code[i]? = some ⟨.jump, Operand.ofNat loop.2⟩) →
      (∀ i ∈ fr'.continueSites, T.code[i]? = some ⟨.jump, Operand.ofNat loop.1⟩) →
      Stands T.Resolves s.len (c.flatten loop s.len)) : Step sigs s s' c [] := by
  have hwf := h₁.wf hs
  have hg := h₁.grows
  have hmem : fr ∈ s.loopFrames := hframes ▸ List.mem_cons_self
  subst hs'
  refine ⟨⟨hwf.sigs, hwf.calls, ?_, ?_, hwf.numbers, hwf.distinct⟩,
    ⟨hg.funcs, hg.len, hg.code, hg.table, hg.fixups, ?_⟩, ?_, ?_, .same h₁.fixups, by simp, ?_⟩
  · intro f hf i hi
    rcases List.mem_cons.1 hf with rfl | hf
    · rcases hsites i hi with rfl | hi
      · exact ⟨x, h₁.fetch_new⟩
      · obtain ⟨y, hy⟩ := hs.sites fr hmem i hi
        exact ⟨y, h₁.fetch_some hy⟩
    · obtain ⟨y, hy⟩ := hs.sites f (by rw [hframes]; exact List.mem_cons_of_mem _ hf) i hi
      exact ⟨y, h₁.fetch_some hy⟩
  · intro f hf
    rcases List.mem_cons.1 hf with rfl | hf
    · exact hapart
    · exact hs.apart f (by rw [hframes]; exact List.mem_cons_of_mem _ hf)
  · rw [hframes]
    exact .cons hgrows
  · rw [hsize]
    exact h₁.len
  · intro k hk
    exact .inl (h₁.constants ▸ hk)
  · intro T H loop _ hT _
    exact hsound (hT.breaks fr' rest rfl) (hT.continues fr' rest rfl)

theorem emits_break : Emits sigs compileBreak (do
    Gen.breakLoop
    return false) := by
  refine emits_get fun {s b s'} hs h => ?_
  cases hframes : s.loopFrames with
  | nil =>
      rw [hframes] at h
      exact absurd h fail_ok
  | cons fr rest =>
      rw [hframes] at h
      simp only at h
      split at h
      · exact absurd h fail_ok
      rw [instructionCount_bind] at h
      obtain ⟨_, s₁, h₁, h⟩ := bind_ok.1 h
      obtain ⟨_, s₂, h₂, h⟩ := bind_ok.1 h
      obtain ⟨rfl, rfl⟩ := pure_ok.1 h
      have happ := emit_appended h₁
      have hs₂ := modify_ok.1 h₂
      refine ⟨.seq .breakLoop .done, ?_, ?_⟩
      · rw [hs₂, happ.locals]
        rfl
      · have hjump : Step sigs s s₂ .breakLoop [] := by
          have hgrows : fr.Grows s.len { fr with breakSites := fr.breakSites ++ [s.len] } :=
            ⟨rfl, ⟨[s.len], rfl, by simp⟩, ⟨[], by simp⟩⟩
          refine Step.loopJump hs happ hframes hgrows ?_ ?_ hs₂ rfl ?_
          · intro i hi
            simp only [List.mem_append, List.mem_singleton] at hi
            tauto
          · intro i hi
            rcases List.mem_append.1 hi with hi | hi
            · exact hs.apart fr (hframes ▸ List.mem_cons_self) i hi
            · rw [List.mem_singleton.1 hi]
              intro hc
              exact absurd (hs.pending_lt (.inr ⟨fr, hframes ▸ List.mem_cons_self, .inr hc⟩)) (Nat.lt_irrefl _)
          · intro T loop hb _
            exact ⟨hb s.len (by simp), trivial⟩
        exact hjump.seq (.done hjump.wf (.refl _) rfl (fun k hk => .inl hk) rfl)

theorem emits_continue : Emits sigs compileContinue (do
    Gen.continueLoop
    return false) := by
  refine emits_get fun {s b s'} hs h => ?_
  cases hframes : s.loopFrames with
  | nil =>
      rw [hframes] at h
      exact absurd h fail_ok
  | cons fr rest =>
      rw [hframes] at h
      simp only at h
      split at h
      · exact absurd h fail_ok
      rw [instructionCount_bind] at h
      obtain ⟨_, s₁, h₁, h⟩ := bind_ok.1 h
      obtain ⟨_, s₂, h₂, h⟩ := bind_ok.1 h
      obtain ⟨rfl, rfl⟩ := pure_ok.1 h
      have happ := emit_appended h₁
      have hs₂ := modify_ok.1 h₂
      refine ⟨.seq .continueLoop .done, ?_, ?_⟩
      · rw [hs₂, happ.locals]
        rfl
      · have hjump : Step sigs s s₂ .continueLoop [] := by
          have hgrows : fr.Grows s.len { fr with continueSites := fr.continueSites ++ [s.len] } :=
            ⟨rfl, ⟨[], by simp⟩, ⟨[s.len], rfl, by simp⟩⟩
          refine Step.loopJump hs happ hframes hgrows ?_ ?_ hs₂ rfl ?_
          · intro i hi
            simp only [List.mem_append, List.mem_singleton] at hi
            tauto
          · intro i hi hc
            rcases List.mem_append.1 hc with hc | hc
            · exact hs.apart fr (hframes ▸ List.mem_cons_self) i hi hc
            · rw [List.mem_singleton.1 hc] at hi
              exact absurd (hs.pending_lt (.inr ⟨fr, hframes ▸ List.mem_cons_self, .inl hi⟩)) (Nat.lt_irrefl _)
          · intro T loop _ hc
            exact ⟨hc s.len (by simp), trivial⟩
        exact hjump.seq (.done hjump.wf (.refl _) rfl (fun k hk => .inl hk) rfl)

end Aivm
