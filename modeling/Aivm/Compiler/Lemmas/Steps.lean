import Aivm.Compiler.Translate

/-!
# What a step of the compiler adds

A part of a compilation appends code, and leaves some of it open: the calls of functions that are not compiled yet, the
jumps of the loops around it, and jumps that it patches itself later on. The code stands for structured code in every
program that completes it.
-/

namespace Aivm

open StructuredCode FrontM CompileM

/-! ## States -/

namespace CompileState

def len (s : CompileState) : Nat := s.program.instructions.length

def fetch (s : CompileState) (i : Nat) : Option Instruction := s.program.instructions[i]?

/-- An instruction that is patched later: a call, or a jump of an open loop. -/
def Pending (s : CompileState) (i : Nat) : Prop :=
  (∃ fx ∈ s.fixups, fx.instructionIndex = i) ∨ ∃ fr ∈ s.loopFrames, i ∈ fr.breakSites ∨ i ∈ fr.continueSites

/-- The numbers of the table differ pairwise. -/
def NumbersDiffer (constants : List Literal) : Prop :=
  ∀ (i j : Nat) (x y : UInt64), constants[i]? = some (.number x) → constants[j]? = some (.number y) →
    doubleEq x y → i = j

structure Wf (sigs : List FnSig) (s : CompileState) : Prop where
  sigs : s.funcs.map FnDef.sig = sigs
  calls : ∀ fx ∈ s.fixups, ∃ x, s.fetch fx.instructionIndex = some ⟨.call, x⟩
  sites : ∀ fr ∈ s.loopFrames, ∀ i, i ∈ fr.breakSites ∨ i ∈ fr.continueSites → ∃ x, s.fetch i = some ⟨.jump, x⟩
  apart : ∀ fr ∈ s.loopFrames, ∀ i ∈ fr.breakSites, i ∉ fr.continueSites
  numbers : NumbersDiffer s.program.constants
  distinct : (s.fixups.map CallFixup.instructionIndex).Nodup

theorem fetch_lt {s : CompileState} {i instr} (h : s.fetch i = some instr) : i < s.len :=
  (List.getElem?_eq_some_iff.1 h).1

end CompileState

/-! ## Growth -/

/-- A loop frame that has got more sites, from `lo` on. -/
structure LoopFrame.Grows (lo : Nat) (fr fr' : LoopFrame) : Prop where
  start : fr'.startIp = fr.startIp
  breaks : ∃ new, fr'.breakSites = fr.breakSites ++ new ∧ ∀ i ∈ new, lo ≤ i
  continues : ∃ new, fr'.continueSites = fr.continueSites ++ new ∧ ∀ i ∈ new, lo ≤ i

/-- Only the innermost loop gets more sites. -/
inductive FramesGrow (lo : Nat) : List LoopFrame → List LoopFrame → Prop
  | nil : FramesGrow lo [] []
  | cons {fr fr' rest} (h : fr.Grows lo fr') : FramesGrow lo (fr :: rest) (fr' :: rest)

structure CodeGrows (s s' : CompileState) : Prop where
  funcs : s'.funcs = s.funcs
  len : s.len ≤ s'.len
  code : ∀ i < s.len, s'.fetch i = s.fetch i
  table : ∀ (k : Nat) c, s.program.constants[k]? = some c → s'.program.constants[k]? = some c
  fixups : ∃ new, s'.fixups = s.fixups ++ new ∧ ∀ fx ∈ new, s.len ≤ fx.instructionIndex
  frames : FramesGrow s.len s.loopFrames s'.loopFrames

theorem LoopFrame.Grows.refl (lo : Nat) (fr : LoopFrame) : fr.Grows lo fr :=
  ⟨rfl, ⟨[], by simp⟩, ⟨[], by simp⟩⟩

theorem LoopFrame.Grows.trans {lo mid : Nat} {fr fr' fr'' : LoopFrame} (hlo : lo ≤ mid) (h : fr.Grows lo fr')
    (h' : fr'.Grows mid fr'') : fr.Grows lo fr'' := by
  obtain ⟨bs, hb, hbs⟩ := h.breaks
  obtain ⟨bs', hb', hbs'⟩ := h'.breaks
  obtain ⟨cs, hc, hcs⟩ := h.continues
  obtain ⟨cs', hc', hcs'⟩ := h'.continues
  refine ⟨h'.start.trans h.start, ⟨bs ++ bs', by rw [hb', hb, List.append_assoc], ?_⟩,
    cs ++ cs', by rw [hc', hc, List.append_assoc], ?_⟩
  · intro i hi
    rcases List.mem_append.1 hi with hi | hi
    · exact hbs i hi
    · exact hlo.trans (hbs' i hi)
  · intro i hi
    rcases List.mem_append.1 hi with hi | hi
    · exact hcs i hi
    · exact hlo.trans (hcs' i hi)

theorem FramesGrow.refl (lo : Nat) (frs : List LoopFrame) : FramesGrow lo frs frs := by
  cases frs with
  | nil => exact .nil
  | cons fr rest => exact .cons (.refl lo fr)

theorem FramesGrow.trans {lo mid frs frs' frs''} (hlo : lo ≤ mid) (h : FramesGrow lo frs frs')
    (h' : FramesGrow mid frs' frs'') : FramesGrow lo frs frs'' := by
  cases h with
  | nil => cases h' with
      | nil => exact .nil
  | cons h => cases h' with
      | cons h' => exact .cons (h.trans hlo h')

/-- A site below `lo` was there before. -/
theorem FramesGrow.old {lo frs frs' i} (h : FramesGrow lo frs frs') (hi : i < lo)
    (hs : ∃ fr ∈ frs', i ∈ fr.breakSites ∨ i ∈ fr.continueSites) :
    ∃ fr ∈ frs, i ∈ fr.breakSites ∨ i ∈ fr.continueSites := by
  cases h with
  | nil => exact hs
  | @cons fr fr' rest h =>
      obtain ⟨f, hf, hi'⟩ := hs
      rcases List.mem_cons.1 hf with rfl | hf
      · refine ⟨fr, List.mem_cons_self, ?_⟩
        obtain ⟨bs, hb, hbs⟩ := h.breaks
        obtain ⟨cs, hc, hcs⟩ := h.continues
        rw [hb, hc, List.mem_append, List.mem_append] at hi'
        rcases hi' with (hi' | hi') | (hi' | hi')
        · exact .inl hi'
        · exact absurd (hbs i hi') (by omega)
        · exact .inr hi'
        · exact absurd (hcs i hi') (by omega)
      · exact ⟨f, List.mem_cons_of_mem _ hf, hi'⟩

theorem CodeGrows.refl (s : CompileState) : CodeGrows s s :=
  ⟨rfl, Nat.le_refl _, fun _ _ => rfl, fun _ _ h => h, ⟨[], by simp⟩, .refl _ _⟩

theorem CodeGrows.trans {s s' s'' : CompileState} (h : CodeGrows s s') (h' : CodeGrows s' s'') : CodeGrows s s'' := by
  obtain ⟨new, hn, hnew⟩ := h.fixups
  obtain ⟨new', hn', hnew'⟩ := h'.fixups
  refine ⟨h'.funcs.trans h.funcs, h.len.trans h'.len, ?_, fun k c hk => h'.table k c (h.table k c hk),
    ⟨new ++ new', by rw [hn', hn, List.append_assoc], ?_⟩, h.frames.trans h.len h'.frames⟩
  · intro i hi
    rw [h'.code i (Nat.lt_of_lt_of_le hi h.len), h.code i hi]
  · intro fx hfx
    rcases List.mem_append.1 hfx with hfx | hfx
    · exact hnew fx hfx
    · exact h.len.trans (hnew' fx hfx)

theorem CodeGrows.pending_old {s s' : CompileState} (h : CodeGrows s s') {i} (hi : i < s.len) (hp : s'.Pending i) :
    s.Pending i := by
  rcases hp with ⟨fx, hfx, rfl⟩ | hp
  · obtain ⟨new, hn, hnew⟩ := h.fixups
    rw [hn] at hfx
    rcases List.mem_append.1 hfx with hfx | hfx
    · exact .inl ⟨fx, hfx, rfl⟩
    · exact absurd (hnew fx hfx) (by omega)
  · exact .inr (h.frames.old hi hp)

/-! ## Programs that complete a state -/

/-- A finished program: its code, its constants, and where its functions start. -/
structure Linked where
  code : List Instruction
  table : List Literal
  entry : Nat → Option Nat

/-- An entry of the table serves for a constant; numbers are found by comparing them. -/
def Serves (found wanted : Literal) : Prop :=
  found = wanted ∨ ∃ x y, found = .number x ∧ wanted = .number y ∧ doubleEq x y

/-- What has to stand in a program for a symbolic instruction. -/
def Linked.Resolves (T : Linked) (i : Nat) : Slot BasicOp → Prop
  | .basic (.op opcode operand) => T.code[i]? = some ⟨opcode, operand⟩
  | .basic (.const c) =>
      ∃ (k : Nat) (found : Literal), T.code[i]? = some ⟨.const, Operand.ofNat k⟩ ∧ T.table[k]? = some found ∧
        Serves found c.literal
  | .basic (.call f) => ∃ e, T.entry f = some e ∧ T.code[i]? = some ⟨.call, Operand.ofNat e⟩
  | .jump t => T.code[i]? = some ⟨.jump, Operand.ofNat t⟩
  | .skipUnless t => T.code[i]? = some ⟨.jumpIfFalse, Operand.ofNat t⟩

/-- The program agrees with what has been compiled, but for the holes `H`, and it has the calls and the jumps of the
innermost loop right that are still pending. -/
structure Linked.Completes (T : Linked) (H : Nat → Prop) (loop : Nat × Nat) (s : CompileState) : Prop where
  code : ∀ i < s.len, ¬ H i → ¬ s.Pending i → T.code[i]? = s.fetch i
  calls : ∀ fx ∈ s.fixups, ∃ f e, findFunc s.funcs fx.target = some f ∧ T.entry f = some e ∧
    T.code[fx.instructionIndex]? = some ⟨.call, Operand.ofNat e⟩
  entries : ∀ (f : Nat) fn, s.funcs[f]? = some fn → fn.compiled = true → T.entry f = some fn.entryIp
  start : ∀ fr rest, s.loopFrames = fr :: rest → loop.1 = fr.startIp
  breaks : ∀ fr rest, s.loopFrames = fr :: rest → ∀ i ∈ fr.breakSites,
    T.code[i]? = some ⟨.jump, Operand.ofNat loop.2⟩
  continues : ∀ fr rest, s.loopFrames = fr :: rest → ∀ i ∈ fr.continueSites,
    T.code[i]? = some ⟨.jump, Operand.ofNat loop.1⟩
  table : ∀ (k : Nat) c, s.program.constants[k]? = some c → T.table[k]? = some c

variable {T : Linked} {H H' : Nat → Prop} {loop : Nat × Nat} {s s' s'' : CompileState}

theorem Linked.Completes.mono (h : T.Completes H loop s) (hH : ∀ i < s.len, H i → H' i) :
    T.Completes H' loop s := by
  refine ⟨?_, h.calls, h.entries, h.start, h.breaks, h.continues, h.table⟩
  intro i hi hn hp
  exact h.code i hi (fun hHi => hn (hH i hi hHi)) hp

/-- A program that completes a state completes the states before it. -/
theorem Linked.Completes.back (h : T.Completes H loop s') (hg : CodeGrows s s') : T.Completes H loop s := by
  obtain ⟨new, hn, _⟩ := hg.fixups
  have hf := hg.frames
  refine ⟨?_, ?_, ?_, ?_, ?_, ?_, fun k c hk => h.table k c (hg.table k c hk)⟩
  · intro i hi hH hp
    rw [← hg.code i hi]
    exact h.code i (Nat.lt_of_lt_of_le hi hg.len) hH fun hp' => hp (hg.pending_old hi hp')
  · intro fx hfx
    rw [← hg.funcs]
    exact h.calls fx (by rw [hn]; exact List.mem_append_left _ hfx)
  · intro f fn hfn
    exact h.entries f fn (by rw [hg.funcs]; exact hfn)
  · intro fr rest heq
    rw [heq] at hf
    generalize hfs : s'.loopFrames = frs at hf
    cases hf with
    | cons hgrow => rw [h.start _ _ hfs, hgrow.start]
  · intro fr rest heq i hi
    rw [heq] at hf
    generalize hfs : s'.loopFrames = frs at hf
    cases hf with
    | cons hgrow =>
        obtain ⟨bs, hb, _⟩ := hgrow.breaks
        exact h.breaks _ _ hfs i (by rw [hb]; exact List.mem_append_left _ hi)
  · intro fr rest heq i hi
    rw [heq] at hf
    generalize hfs : s'.loopFrames = frs at hf
    cases hf with
    | cons hgrow =>
        obtain ⟨cs, hc, _⟩ := hgrow.continues
        exact h.continues _ _ hfs i (by rw [hc]; exact List.mem_append_left _ hi)

/-! ## Steps -/

/-- The constants that a step adds: none is a node, and the numbers are those of its code. -/
def ConstsFrom (c : SourceCode) (old new : List Literal) : Prop :=
  ∀ k ∈ new, k ∈ old ∨ (k.isNode = false ∧ ∀ bits, k = .number bits → .const (.number bits) ∈ c.basics)

/-- The calls that a step leaves to fix-ups are calls of its code. -/
def CallsFrom (sigs : List FnSig) (c : SourceCode) (old new : List CallFixup) : Prop :=
  ∀ fx ∈ new, fx ∈ old ∨ ∃ f, findSig sigs fx.target = some f ∧ .call f ∈ c.basics

/-- From `s` to `s'` the code `c` was appended, with the jumps `J` to its end still open. -/
structure Step (sigs : List FnSig) (s s' : CompileState) (c : SourceCode) (J : List Nat) : Prop where
  wf : s'.Wf sigs
  grows : CodeGrows s s'
  size : s'.len = s.len + c.size
  consts : ConstsFrom c s.program.constants s'.program.constants
  calls : CallsFrom sigs c s.fixups s'.fixups
  opened : ∀ j ∈ J, s.len ≤ j ∧ (∃ x, s'.fetch j = some ⟨.jump, x⟩) ∧
    ∀ fr ∈ s'.loopFrames, j ∉ fr.breakSites ∧ j ∉ fr.continueSites
  sound : ∀ {T : Linked} {H : Nat → Prop} {loop : Nat × Nat}, (∀ i, H i → i < s.len) → T.Completes (fun i => H i ∨ i ∈ J) loop s' →
    (∀ j ∈ J, T.code[j]? = some ⟨.jump, Operand.ofNat s'.len⟩) → Stands T.Resolves s.len (c.flatten loop s.len)

variable {sigs : List FnSig} {c c' : SourceCode} {J : List Nat}

theorem CallsFrom.same {old new : List CallFixup} (h : new = old) : CallsFrom sigs c old new :=
  fun _ hfx => .inl (h ▸ hfx)

theorem CallsFrom.mono {old new : List CallFixup} (h : CallsFrom sigs c old new)
    (hc : ∀ f, .call f ∈ c.basics → .call f ∈ c'.basics) : CallsFrom sigs c' old new :=
  fun fx hfx => (h fx hfx).imp id fun ⟨f, hf, hmem⟩ => ⟨f, hf, hc f hmem⟩

/-- A step that adds no code. -/
theorem Step.done (wf : s'.Wf sigs) (grows : CodeGrows s s') (size : s'.len = s.len)
    (consts : ConstsFrom .done s.program.constants s'.program.constants) (fixups : s'.fixups = s.fixups) :
    Step sigs s s' .done [] :=
  ⟨wf, grows, size, consts, .same fixups, by simp, fun _ _ _ => trivial⟩

theorem ConstsFrom.trans {k₁ k₂ k₃ : List Literal} {d : SourceCode} (h : ConstsFrom c k₁ k₂)
    (h' : ConstsFrom c' k₂ k₃) (hd : ∀ i, i ∈ c.basics ∨ i ∈ c'.basics → i ∈ d.basics) : ConstsFrom d k₁ k₃ := by
  intro k hk
  rcases h' k hk with hk | ⟨hnode, hbits⟩
  · rcases h k hk with hk | ⟨hnode, hbits⟩
    · exact .inl hk
    · exact .inr ⟨hnode, fun bits hb => hd _ (.inl (hbits bits hb))⟩
  · exact .inr ⟨hnode, fun bits hb => hd _ (.inr (hbits bits hb))⟩

theorem CallsFrom.trans {k₁ k₂ k₃ : List CallFixup} (h : CallsFrom sigs c k₁ k₂) (h' : CallsFrom sigs c k₂ k₃) :
    CallsFrom sigs c k₁ k₃ := by
  intro fx hfx
  rcases h' fx hfx with hfx | hnew
  · exact h fx hfx
  · exact .inr hnew

theorem Step.seq (h : Step sigs s s' c []) (h' : Step sigs s' s'' c' J) : Step sigs s s'' (.seq c c') J := by
  refine ⟨h'.wf, h.grows.trans h'.grows, ?_, ?_, ?_, ?_, ?_⟩
  · rw [h'.size, h.size, Code.size, Nat.add_assoc]
  · exact h.consts.trans h'.consts fun i hi => by simpa [Code.basics] using hi
  · exact (h.calls.mono fun f hf => List.mem_append_left _ hf).trans
      (h'.calls.mono fun f hf => List.mem_append_right _ hf)
  · intro j hj
    have hj' := h'.opened j hj
    exact ⟨h.grows.len.trans hj'.1, hj'.2⟩
  · intro T H loop hH hT hJ
    have hmid : T.Completes (fun i => H i ∨ i ∈ ([] : List Nat)) loop s' := by
      apply (hT.back h'.grows).mono
      rintro i hi (hi' | hi')
      · exact .inl hi'
      · exact absurd (h'.opened i hi').1 (by omega)
    simp only [Code.flatten, stands_append, Code.length_flatten]
    refine ⟨h.sound hH hmid (by simp), ?_⟩
    rw [← h.size]
    exact h'.sound (fun i hi => Nat.lt_of_lt_of_le (hH i hi) h.grows.len) hT hJ

theorem Step.mark (m : Role × Path) (h : Step sigs s s' c J) : Step sigs s s' (.mark m c) J :=
  ⟨h.wf, h.grows, h.size, h.consts, h.calls, h.opened, h.sound⟩

/-- What a computation compiles is what the translation says. -/
def Emits (sigs : List FnSig) {α : Type} (m : CompileM α) (g : Gen α) : Prop :=
  ∀ ⦃s a s'⦄, s.Wf sigs → m s = .ok a s' → ∃ c, g s.locals = some (c, a, s'.locals) ∧ Step sigs s s' c []

section Combinators

variable {α β : Type} {m : CompileM α} {g : Gen α} {f : α → CompileM β} {k : α → Gen β} {a : α}

theorem emits_pure : Emits sigs (pure a : CompileM α) (pure a) := by
  intro s b s' hs h
  obtain ⟨rfl, rfl⟩ := pure_ok.1 h
  refine ⟨.done, rfl, .done hs (.refl s) rfl ?_ rfl⟩
  exact fun k hk => .inl hk

theorem Emits.bind (hm : Emits sigs m g) (hf : ∀ a, Emits sigs (f a) (k a)) : Emits sigs (m >>= f) (g >>= k) := by
  intro s b s'' hs h
  obtain ⟨a, s', h₁, h₂⟩ := bind_ok.1 h
  obtain ⟨c, hg, hstep⟩ := hm hs h₁
  obtain ⟨c', hk, hstep'⟩ := hf a hstep.wf h₂
  exact ⟨.seq c c', Gen.bind_run hg hk, hstep.seq hstep'⟩

theorem Emits.orFailf {message} (h : Emits sigs m g) : Emits sigs (orFailf message m) g :=
  fun _ _ _ hs hok => h hs (orFailf_ok.1 hok)

theorem Emits.orFail {message} (h : Emits sigs m g) : Emits sigs (orFail message m) g :=
  fun _ _ _ hs hok => h hs (orFail_ok.1 hok)

theorem emits_failf {message} : Emits sigs (failf message : CompileM α) g :=
  fun _ _ _ _ h => absurd h failf_ok

theorem emits_fail {message} : Emits sigs (fail message : CompileM α) g :=
  fun _ _ _ _ h => absurd h fail_ok

theorem emits_giveUp : Emits sigs (giveUp : CompileM α) g :=
  fun _ _ _ _ h => absurd h giveUp_ok

theorem emits_ofOption {message} {x : Option α} : Emits sigs (ofOption message x) (.ofOption x) := by
  intro s b s' hs h
  obtain ⟨rfl, rfl⟩ := ofOption_ok.1 h
  exact emits_pure hs rfl

theorem emits_ofOption_bind {message} {x : Option α} (h : ∀ a, x = some a → Emits sigs (f a) (k a)) :
    Emits sigs (FrontM.ofOption message x >>= f) (Gen.ofOption x >>= k) := by
  cases x with
  | none =>
      intro s b s' _ hok
      obtain ⟨_, _, hnone, _⟩ := bind_ok.1 hok
      exact absurd (ofOption_ok.1 hnone).1 (by simp)
  | some a =>
      intro s b s' hs hok
      obtain ⟨a', t, h₁, h₂⟩ := bind_ok.1 hok
      obtain ⟨rfl, rfl⟩ := pure_ok.1 h₁
      obtain ⟨c, hg, hstep⟩ := (emits_pure : Emits sigs _ _) hs h₁
      obtain ⟨c', hk, hstep'⟩ := h a rfl hs h₂
      exact ⟨.seq c c', Gen.bind_run hg hk, hstep.seq hstep'⟩

/-- A check that only reads. -/
theorem Emits.after_check {m : CompileM α} {g : Gen β} (hm : ∀ {s a s'}, m s = .ok a s' → s' = s)
    (hf : ∀ a, Emits sigs (f a) g) : Emits sigs (m >>= f) g := by
  intro s b s' hs hok
  obtain ⟨a, t, h₁, h₂⟩ := bind_ok.1 hok
  obtain rfl := hm h₁
  exact hf a hs h₂

theorem emits_ite {p : Prop} [Decidable p] {m' : CompileM α} {g' : Gen α} (h : p → Emits sigs m g)
    (h' : ¬ p → Emits sigs m' g') : Emits sigs (if p then m else m') (if p then g else g') := by
  by_cases hp : p
  · rw [if_pos hp, if_pos hp]
    exact h hp
  · rw [if_neg hp, if_neg hp]
    exact h' hp

/-- A check that the translation does not make. -/
theorem emits_check {p : Prop} [Decidable p] {m' : CompileM α} (h : ∀ {s a s'}, ¬ m s = .ok a s')
    (h' : Emits sigs m' g) : Emits sigs (if p then m else m') g := by
  intro s a s' hs hok
  split at hok
  · exact absurd hok h
  · exact h' hs hok

/-- A read of the state. -/
theorem emits_get {f : CompileState → CompileM β} {k : Gen β} (h : ∀ {s b s'}, s.Wf sigs → f s s = .ok b s' →
    ∃ c, k s.locals = some (c, b, s'.locals) ∧ Step sigs s s' c []) : Emits sigs (get >>= f) k := by
  intro s b s' hs hok
  rw [get_bind] at hok
  exact h hs hok

theorem Emits.mark {r : Role × Path} (h : Emits sigs m g) : Emits sigs m (.mark r g) := by
  intro s a s' hs hok
  obtain ⟨c, hg, hstep⟩ := h hs hok
  exact ⟨.mark r c, by simp [Gen.mark, hg], hstep.mark r⟩

end Combinators

end Aivm
