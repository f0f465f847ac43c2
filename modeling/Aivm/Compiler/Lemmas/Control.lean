import Aivm.Compiler.Lemmas.Emit

/-! # Patches: calls, branches and loops -/

namespace Aivm

open StructuredCode FrontM CompileM

variable {T : Linked} {H : Nat → Prop} {loop : Nat × Nat} {s s' t : CompileState} {sigs : List FnSig}
variable {c c' : SourceCode} {J : List Nat}

/-! ## Patching -/

/-- The operands at the sites were overwritten, and nothing else changed. -/
structure Patched (s s' : CompileState) (target : Nat) (sites : List Nat) : Prop where
  constants : s'.program.constants = s.program.constants
  funcs : s'.funcs = s.funcs
  fixups : s'.fixups = s.fixups
  loopFrames : s'.loopFrames = s.loopFrames
  locals : s'.locals = s.locals
  len : s'.len = s.len
  others : ∀ i, i ∉ sites → s'.fetch i = s.fetch i
  sites : ∀ i ∈ sites, ∀ opcode x, s.fetch i = some ⟨opcode, x⟩ → s'.fetch i = some ⟨opcode, Operand.ofNat target⟩

theorem patch_patched {target index u} (h : patch target index s = .ok u s') : Patched s s' target [index] := by
  have h := modify_ok.1 h
  subst h
  refine ⟨rfl, rfl, rfl, rfl, rfl, by simp [CompileState.len, Draft.patch], ?_, ?_⟩
  · intro i hi
    have hne : index ≠ i := fun h => hi (h ▸ List.mem_singleton_self _)
    simp [CompileState.fetch, Draft.patch, hne]
  · intro i hi opcode x hx
    rw [List.mem_singleton] at hi
    subst hi
    unfold CompileState.fetch at hx
    simp [CompileState.fetch, Draft.patch, hx]

theorem patchAll_patched {target sites u} : ∀ {s : CompileState}, patchAll target sites s = .ok u s' →
    Patched s s' target sites := by
  induction sites with
  | nil =>
      intro s h
      obtain ⟨_, rfl⟩ := pure_ok.1 h
      exact ⟨rfl, rfl, rfl, rfl, rfl, rfl, fun _ _ => rfl, by simp⟩
  | cons index rest ih =>
      intro s h
      obtain ⟨_, t, h₁, h₂⟩ := bind_ok.1 h
      have p := patch_patched h₁
      have q := ih h₂
      refine ⟨q.constants.trans p.constants, q.funcs.trans p.funcs, q.fixups.trans p.fixups,
        q.loopFrames.trans p.loopFrames, q.locals.trans p.locals, q.len.trans p.len, ?_, ?_⟩
      · intro i hi
        rw [List.mem_cons, not_or] at hi
        rw [q.others i hi.2, p.others i (by simpa using hi.1)]
      · intro i hi opcode x hx
        have hmid : ∃ y, t.fetch i = some ⟨opcode, y⟩ ∧ (i = index → y = Operand.ofNat target) := by
          by_cases hi' : i = index
          · exact ⟨_, p.sites i (by simp [hi']) opcode x hx, fun _ => rfl⟩
          · exact ⟨x, by rw [p.others i (by simpa using hi'), hx], fun h => absurd h hi'⟩
        obtain ⟨y, hy, hindex⟩ := hmid
        by_cases hr : i ∈ rest
        · exact q.sites i hr opcode y hy
        · rw [q.others i hr, hy, hindex ((List.mem_cons.1 hi).resolve_right hr)]

namespace Patched

variable {target : Nat} {sites : List Nat}

theorem keeps (h : Patched s s' target sites) {i opcode x} (hi : s.fetch i = some ⟨opcode, x⟩) :
    ∃ y, s'.fetch i = some ⟨opcode, y⟩ := by
  by_cases hs : i ∈ sites
  · exact ⟨_, h.sites i hs _ _ hi⟩
  · exact ⟨x, by rw [h.others i hs, hi]⟩

theorem pending (h : Patched s s' target sites) {i} : s'.Pending i ↔ s.Pending i := by
  unfold CompileState.Pending
  rw [h.fixups, h.loopFrames]

theorem wf (h : Patched s s' target sites) (hs : s.Wf sigs) : s'.Wf sigs := by
  refine ⟨?_, ?_, ?_, ?_, ?_, ?_⟩
  · rw [h.funcs]
    exact hs.sigs
  · intro fx hfx
    obtain ⟨x, hx⟩ := hs.calls fx (h.fixups ▸ hfx)
    exact h.keeps hx
  · intro fr hfr i hi
    obtain ⟨x, hx⟩ := hs.sites fr (h.loopFrames ▸ hfr) i hi
    exact h.keeps hx
  · rw [h.loopFrames]
    exact hs.apart
  · rw [h.constants]
    exact hs.numbers
  · rw [h.fixups]
    exact hs.distinct

/-- Patches of new code. -/
theorem grows (h : Patched t s' target sites) (hg : CodeGrows s t) (hsites : ∀ i ∈ sites, s.len ≤ i) : CodeGrows s s' := by
  refine ⟨h.funcs.trans hg.funcs, ?_, ?_, ?_, ?_, ?_⟩
  · rw [h.len]
    exact hg.len
  · intro i hi
    rw [h.others i fun hi' => absurd (hsites i hi') (by omega), hg.code i hi]
  · rw [h.constants]
    exact hg.table
  · rw [h.fixups]
    exact hg.fixups
  · rw [h.loopFrames]
    exact hg.frames

/-- What completes the patched state completes the one before, with the sites as holes. -/
theorem completes (h : Patched s s' target sites) (hT : T.Completes H loop s') :
    T.Completes (fun i => H i ∨ i ∈ sites) loop s := by
  refine ⟨?_, ?_, ?_, ?_, ?_, ?_, ?_⟩
  · intro i hi hH hp
    rw [not_or] at hH
    rw [← h.others i hH.2]
    exact hT.code i (by rw [h.len]; exact hi) hH.1 fun hp' => hp (h.pending.1 hp')
  · rw [← h.fixups, ← h.funcs]
    exact hT.calls
  · rw [← h.funcs]
    exact hT.entries
  · rw [← h.loopFrames]
    exact hT.start
  · rw [← h.loopFrames]
    exact hT.breaks
  · rw [← h.loopFrames]
    exact hT.continues
  · rw [← h.constants]
    exact hT.table

end Patched

/-- The jumps left open are patched to the end of the code. -/
theorem Step.close (h : Step sigs s t c J) (hp : Patched t s' t.len J) : Step sigs s s' c [] := by
  refine ⟨hp.wf h.wf, hp.grows h.grows fun j hj => (h.opened j hj).1, ?_, ?_, ?_, by simp, ?_⟩
  · rw [hp.len, h.size]
  · rw [hp.constants]
    exact h.consts
  · rw [hp.fixups]
    exact h.calls
  · intro T H loop hH hT _
    have hT := completes_nil rfl hT
    refine h.sound hH (hp.completes hT) ?_
    intro j hj
    obtain ⟨hle, ⟨x, hx⟩, hframes⟩ := h.opened j hj
    refine hT.fetch (hp.sites j hj _ x hx) (fun hHj => absurd (hH j hHj) (by omega)) ?_
    rw [hp.pending]
    rintro (⟨fx, hfx, rfl⟩ | ⟨fr, hfr, hj'⟩)
    · obtain ⟨y, hy⟩ := h.wf.calls fx hfx
      rw [hx] at hy
      cases hy
    · exact hj'.elim (hframes fr hfr).1 (hframes fr hfr).2

/-! ## Calls -/

theorem findFunc_eq (funcs : List FnDef) (name : Text) : findFunc funcs name = findSig (funcs.map FnDef.sig) name := by
  unfold findFunc findSig
  rw [List.findIdx?_map]
  rfl

theorem emits_emitCall {emitMessage fixupMessage index target} (hindex : findSig sigs target = some index) :
    Emits sigs (emitCall emitMessage fixupMessage index target) (.basic (.call index)) := by
  intro s u s' hs h
  unfold emitCall instructionCount at h
  obtain ⟨site, t₀, hsite, h⟩ := bind_ok.1 h
  rw [get_bind] at hsite
  obtain ⟨rfl, rfl⟩ := pure_ok.1 hsite
  obtain ⟨_, t, hemit, h⟩ := bind_ok.1 h
  have happ := emit_appended (orFail_ok.1 hemit)
  rw [get_bind] at h
  have ht := happ.wf hs
  suffices hstep : s'.locals = t.locals ∧ Step sigs s s' (.basic (.call index)) [] by
    refine ⟨.basic (.call index), ?_, hstep.2⟩
    rw [hstep.1, happ.locals]
    rfl
  cases hfn : t.funcs[index]? with
  | none =>
      rw [hfn] at h
      exact absurd h giveUp_ok
  | some fn =>
    rw [hfn] at h
    simp only at h
    split at h
    · rename_i hcompiled
      -- the entry is known
      have hp := patch_patched h
      refine ⟨hp.locals, hp.wf ht, hp.grows happ.grows (by simp [CompileState.len]), ?_, ?_, .same ?_, by simp, ?_⟩
      · rw [hp.len, happ.len]
        rfl
      · rw [hp.constants, happ.constants]
        exact fun k hk => .inl hk
      · rw [hp.fixups, happ.fixups]
      · intro T H loop hH hT _
        have hT := completes_nil rfl hT
        refine ⟨⟨fn.entryIp, ?_, ?_⟩, trivial⟩
        · refine hT.entries index fn ?_ hcompiled
          rw [hp.funcs]
          exact hfn
        · refine hT.fetch (hp.sites _ (List.mem_singleton_self _) _ _ happ.fetch_new)
            (fun hHs => absurd (hH _ hHs) (Nat.lt_irrefl _)) fun hpend => ?_
          have hlt := hs.pending_lt (happ.pending.1 (hp.pending.1 hpend))
          exact absurd hlt (Nat.lt_irrefl _)
    · -- the entry is left to a fix-up
      have h := orFail_ok.1 h
      unfold addFixup at h
      rw [get_bind] at h
      split at h
      · exact absurd h giveUp_ok
      have h := modify_ok.1 h
      subst h
      refine ⟨rfl, ⟨ht.sigs, ?_, ht.sites, ht.apart, ht.numbers, ?_⟩, ?_, happ.len, ?_, ?_, by simp, ?_⟩
      · intro fx hfx
        rcases List.mem_append.1 hfx with hfx | hfx
        · exact ht.calls fx hfx
        · rw [List.mem_singleton.1 hfx]
          exact ⟨_, happ.fetch_new⟩
      · rw [List.map_append, happ.fixups]
        refine List.nodup_append.2 ⟨hs.distinct, by simp, ?_⟩
        intro i hi j hj
        obtain ⟨fx, hfx, rfl⟩ := List.mem_map.1 hi
        rw [List.map_singleton, List.mem_singleton] at hj
        have := hs.pending_lt (.inl ⟨fx, hfx, rfl⟩)
        rw [hj]
        exact Nat.ne_of_lt this
      · have hg := happ.grows
        refine ⟨hg.funcs, hg.len, hg.code, hg.table, ⟨[⟨s.program.instructions.length, target⟩], ?_, ?_⟩, hg.frames⟩
        · simp [happ.fixups]
        · intro fx hfx
          rw [List.mem_singleton.1 hfx]
          exact Nat.le_refl _
      · intro k hk
        exact .inl (happ.constants ▸ hk)
      · intro fx hfx
        rcases List.mem_append.1 hfx with hfx | hfx
        · exact .inl (happ.fixups ▸ hfx)
        · rw [List.mem_singleton.1 hfx]
          exact .inr ⟨index, hindex, List.mem_singleton_self _⟩
      · intro T H loop hH hT _
        obtain ⟨f, e, hf, he, hcode⟩ := hT.calls ⟨s.program.instructions.length, target⟩ (by simp)
        refine ⟨⟨e, ?_, hcode⟩, trivial⟩
        have hfind : findSig sigs target = some f := by
          rw [← ht.sigs, ← findFunc_eq]
          exact hf
        rw [hindex, Option.some.injEq] at hfind
        rw [hfind]
        exact he

/-! ## Branches -/

/-- A conditional jump over one part and a jump over the other, the second one still open. -/
theorem Step.branch {s₀ s₁ s₂ s₃ s₄ s₅ : CompileState} {x y : Operand} (hs : s₀.Wf sigs)
    (h₁ : Appended s₀ s₁ ⟨.jumpIfFalse, x⟩) (hX : Step sigs s₁ s₂ c []) (h₃ : Appended s₂ s₃ ⟨.jump, y⟩)
    (h₄ : Patched s₃ s₄ s₃.len [s₀.len]) (hY : Step sigs s₄ s₅ c' J) :
    Step sigs s₀ s₅ (.branch c c') (s₂.len :: J) := by
  have hlen₁ := h₁.len
  have hlen₂ := hX.size
  have hlen₃ := h₃.len
  have hlen₄ := h₄.len
  have hlen₅ := hY.size
  have hgrows₂ : CodeGrows s₀ s₂ := h₁.grows.trans hX.grows
  have hgrows₄ : CodeGrows s₀ s₄ := h₄.grows (hgrows₂.trans h₃.grows) (by simp)
  have hpending₄ : ∀ {i}, s₄.Pending i → i < s₂.len := fun hp => hX.wf.pending_lt (h₃.pending.1 (h₄.pending.1 hp))
  have hfetch : s₄.fetch s₂.len = some ⟨.jump, y⟩ := by
    rw [h₄.others _ (by simp; omega)]
    exact h₃.fetch_new
  refine ⟨hY.wf, hgrows₄.trans hY.grows, ?_, ?_, ?_, ?_, ?_⟩
  · simp only [Code.size]
    omega
  · have hold : ConstsFrom (.branch c c') s₀.program.constants s₄.program.constants := by
      rw [h₄.constants, h₃.constants, ← h₁.constants]
      intro k hk
      exact (hX.consts k hk).imp id fun h => ⟨h.1, fun bits hb => List.mem_append_left _ (h.2 bits hb)⟩
    exact hold.trans hY.consts fun i hi => hi.elim id (List.mem_append_right _)
  · have hold : CallsFrom sigs (.branch c c') s₀.fixups s₄.fixups := by
      rw [h₄.fixups, h₃.fixups, ← h₁.fixups]
      exact hX.calls.mono fun f hf => List.mem_append_left _ hf
    exact hold.trans (hY.calls.mono fun f hf => List.mem_append_right _ hf)
  · intro j hj
    rcases List.mem_cons.1 hj with rfl | hj
    · refine ⟨by omega, ⟨y, ?_⟩, ?_⟩
      · rw [hY.grows.code _ (by omega), hfetch]
      · intro fr hfr
        have hnot : ¬ s₅.Pending s₂.len := fun hp =>
          absurd (hpending₄ (hY.grows.pending_old (by omega) hp)) (Nat.lt_irrefl _)
        exact ⟨fun h => hnot (.inr ⟨fr, hfr, .inl h⟩), fun h => hnot (.inr ⟨fr, hfr, .inr h⟩)⟩
    · have hj' := hY.opened j hj
      exact ⟨by omega, hj'.2⟩
  · intro T H loop hH hT hJ
    have hT₄ : T.Completes (fun i => H i ∨ i = s₂.len) loop s₄ := by
      apply (hT.back hY.grows).mono
      rintro i hi (hi' | hi')
      · exact .inl hi'
      · rcases List.mem_cons.1 hi' with rfl | hi'
        · exact .inr rfl
        · exact absurd (hY.opened i hi').1 (by omega)
    -- the first part is compiled while the conditional jump has no target yet
    have hT₂ : T.Completes (fun i => (H i ∨ i = s₀.len) ∨ i ∈ ([] : List Nat)) loop s₂ := by
      apply ((h₄.completes hT₄).back h₃.grows).mono
      rintro i hi ((hi' | rfl) | hi')
      · exact .inl (.inl hi')
      · exact absurd hi (Nat.lt_irrefl _)
      · exact .inl (.inr (List.mem_singleton.1 hi'))
    simp only [Code.flatten, Stands, stands_append, Code.length_flatten]
    refine ⟨?_, ?_, ?_, ?_⟩
    · have hcond : s₄.fetch s₀.len = some ⟨.jumpIfFalse, Operand.ofNat s₃.len⟩ := by
        refine h₄.sites _ (List.mem_singleton_self _) _ x ?_
        rw [h₃.fetch_old (by omega), hX.grows.code _ (by omega)]
        exact h₁.fetch_new
      have htarget : s₃.len = s₀.len + c.size + 2 := by omega
      rw [htarget] at hcond
      refine hT₄.fetch hcond ?_ ?_
      · rintro (h | h)
        · exact absurd (hH _ h) (Nat.lt_irrefl _)
        · omega
      · intro hp
        have hp₁ := hX.grows.pending_old (by omega) (h₃.pending.1 (h₄.pending.1 hp))
        exact absurd (hs.pending_lt (h₁.pending.1 hp₁)) (Nat.lt_irrefl _)
    · rw [← hlen₁]
      refine hX.sound ?_ hT₂ (by simp)
      rintro i (hi | rfl)
      · have := hH i hi
        omega
      · omega
    · have hjump := hJ s₂.len List.mem_cons_self
      have htarget : s₅.len = s₀.len + c.size + c'.size + 2 := by omega
      rw [htarget] at hjump
      rwa [← hlen₁, ← hlen₂]
    · have hbase : s₀.len + 1 + c.size + 1 = s₄.len := by omega
      rw [hbase, show s₀.len + c.size + 2 = s₄.len by omega]
      refine hY.sound (H := fun i => H i ∨ i = s₂.len) ?_ ?_ fun j hj => hJ j (List.mem_cons_of_mem _ hj)
      · rintro i (hi | rfl)
        · have := hH i hi
          omega
        · show s₂.len < s₄.len
          omega
      · apply hT.mono
        rintro i _ (hi | hi)
        · exact .inl (.inl hi)
        · rcases List.mem_cons.1 hi with rfl | hi
          · exact .inl (.inr rfl)
          · exact .inr hi

end Aivm
