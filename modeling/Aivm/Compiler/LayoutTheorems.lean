import Aivm.Compiler.Imports
import Aivm.Compiler.Lemmas.Basics
import Aivm.Compiler.Lemmas.Layout

/-!
# Compiled programs are closed

A program that the compiler accepts is closed, except that a table of constants holds numbers only up to `==`: of the two
zeros it keeps the one that it meets first.
-/

namespace Aivm

open StructuredCode FrontM CompileM ByteReader

/-! ## Sizes -/

theorem Operand.ofNat_small {n : Nat} (h : n < 2 ^ 63) : (Operand.ofNat n).1 = n := by
  unfold Operand.ofNat toI64
  simp only
  rw [Nat.mod_eq_of_lt (by omega)]
  split <;> omega

/-- The basic instructions of code are those of its flat form. -/
theorem mem_flatten_basic {ι μ : Type} {i : ι} {c : Code ι μ} : ∀ {loop : Nat × Nat} {base : Nat},
    Slot.basic i ∈ c.flatten loop base ↔ i ∈ c.basics := by
  induction c with
  | done => simp [Code.flatten, Code.basics]
  | basic j => simp [Code.flatten, Code.basics]
  | seq a b iha ihb => simp [Code.flatten, Code.basics, iha, ihb]
  | branch a b iha ihb => simp [Code.flatten, Code.basics, iha, ihb]
  | loop body ih => simp [Code.flatten, Code.basics, ih]
  | breakLoop => simp [Code.flatten, Code.basics]
  | continueLoop => simp [Code.flatten, Code.basics]
  | mark m c ih => simp [Code.flatten, Code.basics, ih]

/-! ## From the layout to a closed program -/

section Closed

variable {strtod : Text → Option UInt64} {fns : List FnDef} {start : Nat} {L : List FnCode} {program : Draft}
  {s : CompileState}

/-- Two numbers that the program compiles and that are equal are the same. -/
def NumbersApart (strtod : Text → Option UInt64) (fns : List FnDef) (start : Nat) : Prop :=
  ∀ a b, NumberReached strtod fns start a → NumberReached strtod fns start b → doubleEq a b → a = b

/-- What a function translates to is unique. -/
theorem Translates.unique {f : Nat} {c c' : SourceCode} (h : Translates strtod fns f c) (h' : Translates strtod fns f c') :
    c = c' := by
  obtain ⟨fn, locals, hfn, hgen⟩ := h
  obtain ⟨fn', locals', hfn', hgen'⟩ := h'
  rw [hfn, Option.some.injEq] at hfn'
  subst hfn'
  rw [hgen, Option.some.injEq, Prod.mk.injEq] at hgen'
  exact hgen'.1

/-- Where a function starts. -/
def entryOf (L : List FnCode) (f : Nat) : Option Nat := (L.find? (·.index = f)).map FnCode.entry

theorem entryOf_mem (honce : (L.map FnCode.index).Nodup) {F : FnCode} (hF : F ∈ L) : entryOf L F.index = some F.entry := by
  unfold entryOf
  cases hfind : L.find? (·.index = F.index) with
  | none => exact absurd (List.find?_eq_none.1 hfind F hF) (by simp)
  | some G =>
      have hG := List.mem_of_find?_eq_some hfind
      have hindex : G.index = F.index := by simpa using List.find?_some hfind
      rw [List.inj_on_of_nodup_map honce hG hF hindex, Option.map_some]

theorem entryOf_some {f e : Nat} (h : entryOf L f = some e) : ∃ F ∈ L, F.index = f ∧ F.entry = e := by
  obtain ⟨F, hfind, rfl⟩ := Option.map_eq_some_iff.1 h
  exact ⟨F, List.mem_of_find?_eq_some hfind, by simpa using List.find?_some hfind, rfl⟩

/-- A laid out program with its calls in place completes itself. -/
theorem Laid.completes (h : Laid strtod fns start base L s) (hres : Resolved fns L s.fixups.length s) {loop : Nat × Nat} :
    Linked.Completes ⟨s.program.instructions, s.program.constants, entryOf L⟩ (fun _ => False) loop s := by
  refine ⟨fun _ _ _ _ => rfl, ?_, ?_, ?_, ?_, ?_, fun _ _ hk => hk⟩
  · intro fx hfx
    obtain ⟨j, hj, rfl⟩ := List.mem_iff_getElem.1 hfx
    obtain ⟨F, hF, hfind, hcode⟩ := hres j hj _ (List.getElem?_eq_getElem hj)
    refine ⟨F.index, F.entry, ?_, entryOf_mem h.once hF, hcode⟩
    rw [findFunc_eq, h.wf.sigs]
    exact hfind
  · intro f fn hfn hc
    obtain ⟨F, hF, rfl⟩ := h.compiled f fn hfn hc
    obtain ⟨fn', hfn', -, hentry⟩ := h.entries F hF
    rw [hfn, Option.some.injEq] at hfn'
    rw [hfn', hentry]
    exact entryOf_mem h.once hF
  all_goals
    intro fr rest hfr
    rw [h.frames] at hfr
    cases hfr

/-- What resolves a symbolic instruction is in place, if numbers that are equal are the same. -/
theorem Laid.inPlace (h : Laid strtod fns start base L s) (hapart : NumbersApart strtod fns start) {F : FnCode} (hF : F ∈ L)
    {i : Nat} {slot : Slot BasicOp} (hslot : slot ∈ F.slots)
    (hresolves : Linked.Resolves ⟨s.program.instructions, s.program.constants, entryOf L⟩ i slot) :
    InPlace s.program L i slot := by
  cases slot with
  | basic b =>
      cases b with
      | op opcode operand => exact hresolves
      | call f =>
          obtain ⟨e, hentry, hcode⟩ := hresolves
          obtain ⟨G, hG, hindex, rfl⟩ := entryOf_some hentry
          exact ⟨G, hG, hindex, hcode⟩
      | const c =>
          obtain ⟨k, found, hcode, hfound, rfl | ⟨x, y, rfl, hy, heq⟩⟩ := hresolves
          · exact ⟨k, hcode, hfound⟩
          · -- the number that was found is one that the program compiles
            cases c with
            | number bits =>
                obtain rfl : bits = y := Literal.number.inj hy
                have hbits := mem_flatten_basic.1 hslot
                obtain ⟨G, hG, hx⟩ := (h.consts _ (List.mem_of_getElem? hfound)).2 x rfl
                have := hapart x bits ⟨G.index, G.code, h.reached G hG, h.translated G hG, hx⟩
                  ⟨F.index, F.code, h.reached F hF, h.translated F hF, hbits⟩ heq
                exact ⟨k, hcode, this ▸ hfound⟩
            | string text => cases hy
            | null => cases hy
            | void => cases hy
  | jump t => exact hresolves
  | skipUnless t => exact hresolves

/-- A jump in the code of a function stays within it. -/
theorem Laid.jumps (h : Laid strtod fns start base L s) {F : FnCode} (hF : F ∈ L)
    (hin : Stands (InPlace s.program L) F.entry F.slots) {i : Nat} {opcode : Opcode} {x : Int} (hlo : F.entry ≤ i)
    (hhi : i < F.stop) (hi : s.program.instructions[i]? = some ⟨opcode, x⟩) (hjump : opcode = .jump ∨ opcode = .jumpIfFalse) :
    (F.entry : Int) ≤ x ∧ x ≤ F.stop := by
  have hlength : F.slots.length = F.code.size := Code.length_flatten _
  have hstop : F.stop = F.entry + F.code.size := rfl
  have hk : i - F.entry < F.slots.length := by omega
  have hslot : F.slots[i - F.entry]? = some F.slots[i - F.entry] := List.getElem?_eq_getElem hk
  have hmem : F.slots[i - F.entry] ∈ F.slots := List.getElem_mem hk
  generalize F.slots[i - F.entry] = slot at hslot hmem
  have hplace := stands_iff.1 hin _ _ hslot
  rw [show F.entry + (i - F.entry) = i by omega] at hplace
  have htarget : ∀ t, slot.target = some t → (x : Int) = (Operand.ofNat t).1 → (F.entry : Int) ≤ x ∧ x ≤ F.stop := by
    intro t ht hx
    have hbounds : F.entry ≤ t ∧ t ≤ F.stop := by
      rcases Code.target_mem hmem ht with hin | rfl | rfl
      · exact hin
      · exact ⟨Nat.le_refl _, Nat.le_add_right _ _⟩
      · exact ⟨Nat.le_add_right _ _, Nat.le_refl _⟩
    have hfit : F.stop ≤ s.len := (Chain.bounds hF h.chain).2
    have hlen : s.len ≤ programInlineInstructions := s.program.instructions_fit
    have hmax : programInlineInstructions < 2 ^ 63 := by decide
    rw [hx, Operand.ofNat_small (by omega)]
    omega
  obtain ⟨fn, locals, -, hgen⟩ := h.translated F hF
  cases slot with
  | basic b =>
      exfalso
      have hplain := genFn_plain hgen b (mem_flatten_basic.1 hmem)
      cases b with
      | op o operand =>
          rw [show s.program.instructions[i]? = some ⟨o, operand⟩ from hplace, Option.some.injEq,
            Instruction.mk.injEq] at hi
          rw [BasicOp.IsPlain, hi.1] at hplain
          rcases hjump with rfl | rfl <;> simp [Opcode.isPlain] at hplain
      | const c =>
          obtain ⟨k, hcode, -⟩ := hplace
          rw [hcode, Option.some.injEq, Instruction.mk.injEq] at hi
          rcases hjump with rfl | rfl <;> cases hi.1
      | call f =>
          obtain ⟨G, -, -, hcode⟩ := hplace
          rw [hcode, Option.some.injEq, Instruction.mk.injEq] at hi
          rcases hjump with rfl | rfl <;> cases hi.1
  | jump t =>
      rw [show s.program.instructions[i]? = some ⟨.jump, (Operand.ofNat t).1⟩ from hplace, Option.some.injEq,
        Instruction.mk.injEq] at hi
      exact htarget t rfl hi.2.symm
  | skipUnless t =>
      rw [show s.program.instructions[i]? = some ⟨.jumpIfFalse, (Operand.ofNat t).1⟩ from hplace, Option.some.injEq,
        Instruction.mk.injEq] at hi
      exact htarget t rfl hi.2.symm

/-- A laid out program with its calls in place is closed, if numbers that are equal are the same. -/
theorem Laid.closed (h : Laid strtod fns start (prologue fns start).length L s) (hres : Resolved fns L s.fixups.length s)
    (hstart : ∃ F ∈ L, F.index = start) (hpro : Stands (InPlace s.program L) 0 (prologue fns start))
    (hapart : NumbersApart strtod fns start) : CodeClosed strtod fns start s.program L := by
  have hplace : ∀ F ∈ L, Stands (InPlace s.program L) F.entry F.slots := by
    intro F hF
    have hcompletes : Linked.Completes ⟨s.program.instructions, s.program.constants, entryOf L⟩ (fun _ => False) (0, 0) s :=
      h.completes hres
    have hsound := h.sound (by simp) hcompletes F hF
    exact stands_iff.2 fun k slot hk => h.inPlace hapart hF (List.mem_of_getElem? hk) (stands_iff.1 hsound k slot hk)
  refine ⟨hpro, h.chain, h.chain.disjoint, h.once, h.translated, ?_, ?_, hplace, ?_⟩
  · obtain ⟨F, hF, hindex⟩ := hstart
    exact List.mem_map.2 ⟨F, hF, hindex⟩
  · intro F hF f hf
    obtain ⟨k, hk⟩ := List.mem_iff_getElem?.1 (mem_flatten_basic.2 hf : .basic (.call f) ∈ F.slots)
    obtain ⟨G, hG, hindex, -⟩ := stands_iff.1 (hplace F hF) k _ hk
    exact List.mem_map.2 ⟨G, hG, hindex⟩
  · exact fun F hF i opcode x hlo hhi hi hjump => h.jumps hF (hplace F hF) hlo hhi hi hjump

/-- A closed program holds every function that can be called. -/
theorem CodeClosed.reached (h : CodeClosed strtod fns start program L) {f : Nat} (hf : Reached strtod fns start f) :
    f ∈ L.map FnCode.index := by
  induction hf with
  | start => exact h.start
  | call hf hc hg ih =>
      obtain ⟨F, hF, rfl⟩ := List.mem_map.1 ih
      exact h.called F hF _ ((h.translated F hF).unique hc ▸ hg)

/-- A number that is compiled stands in the table of a closed program. -/
theorem CodeClosed.number_mem (h : CodeClosed strtod fns start program L) {bits : UInt64}
    (hbits : NumberReached strtod fns start bits) : ∃ k : Nat, program.constants[k]? = some (.number bits) := by
  obtain ⟨f, c, hf, hc, hmem⟩ := hbits
  obtain ⟨F, hF, rfl⟩ := List.mem_map.1 (h.reached hf)
  rw [← (h.translated F hF).unique hc] at hmem
  obtain ⟨k, hk⟩ := List.mem_iff_getElem?.1 (mem_flatten_basic.2 hmem : .basic (.const (.number bits)) ∈ F.slots)
  obtain ⟨i, -, hi⟩ := stands_iff.1 (h.inPlace F hF) k _ hk
  exact ⟨i, hi⟩

/-- In a table whose numbers differ, a closed program leaves no two equal numbers. -/
theorem CodeClosed.apart (h : CodeClosed strtod fns start program L) (hdiffer : CompileState.NumbersDiffer program.constants) :
    NumbersApart strtod fns start := by
  intro a b ha hb heq
  obtain ⟨i, hi⟩ := h.number_mem ha
  obtain ⟨j, hj⟩ := h.number_mem hb
  have hij := hdiffer i j a b hi hj heq
  rw [hij, hj, Option.some.injEq] at hi
  exact (Literal.number.inj hi).symm

end Closed

/-! ## Source graphs -/

/-- The functions of a graph are the first ones of their names. -/
structure FirstFunctions (host : SourceHost) (path : Text) (fns : List FnDef) : Prop where
  unique : (fns.map FnDef.name).Nodup
  first : ∃ defs, Met host path defs ∧ ∀ f, f ∈ fns ↔ FirstMet defs f

/-- The program of a graph is closed. -/
structure GraphClosed (host : SourceHost) (path : Text) (collected : CollectState) (program : Draft) : Prop where
  functions : FirstFunctions host path collected.funcs
  closed : ∃ start L, findFunc collected.funcs collected.entry = some start ∧
    CodeClosed host.strtod collected.funcs start program L

/-- What is expected of the compilation of a graph: the loop over its fix-ups ends, and a program that is accepted is
closed. -/
structure CompilesClosed (host : SourceHost) (path : Text) : Prop where
  ends : ∀ importFuel fixupFuel collected, collectGraph host importFuel path = .ok () collected →
    programInlineInstructions < fixupFuel → compileGraph host importFuel fixupFuel path ≠ .outOfFuel
  closed : ∀ importFuel fixupFuel collected s, collectGraph host importFuel path = .ok () collected →
    compileGraph host importFuel fixupFuel path = .ok () s → GraphClosed host path collected s.program

/-- The numbers of a graph that is accepted are apart. -/
def GraphNumbersApart (host : SourceHost) (path : Text) : Prop :=
  ∀ importFuel fixupFuel collected s start, collectGraph host importFuel path = .ok () collected →
    compileGraph host importFuel fixupFuel path = .ok () s → findFunc collected.funcs collected.entry = some start →
    NumbersApart host.strtod collected.funcs start

section Graphs

variable {host : SourceHost} {path : Text} {importFuel fixupFuel : Nat} {collected : CollectState}

theorem nodeFunction_uncompiled {node : Node} {f : FnDef} (h : nodeFunction node = some f) :
    f.compiled = false ∧ f.compiling = false := by
  obtain ⟨kind, attrs, body, children, rest⟩ := node
  unfold nodeFunction at h
  grind

theorem met_uncompiled {defs : List FnDef} (h : Met host path defs) : Uncompiled defs := by
  induction h using Met.rec (motive_2 := fun _ _ defs _ => Uncompiled defs) with
  | file _ ih => exact ih
  | nil => exact fun _ hf => absurd hf List.not_mem_nil
  | imported _ _ _ ihdefs ihrest =>
      intro f hf
      exact (List.mem_append.1 hf).elim (ihdefs f) (ihrest f)
  | own _ _ ih =>
      intro f hf
      rcases List.mem_append.1 hf with hf | hf
      · exact nodeFunction_uncompiled (Option.mem_toList.1 hf)
      · exact ih f hf

/-- A collection that succeeds gives the first functions, none of them compiled. -/
theorem collectGraph_functions (h : collectGraph host importFuel path = .ok () collected) :
    FirstFunctions host path collected.funcs ∧ Uncompiled collected.funcs := by
  obtain ⟨defs, hmet, hfuncs⟩ := (collectFromFile_collected h).functions
  obtain ⟨hunique, -, hfirst⟩ := addDefinitions_first defs
  rw [hfuncs]
  refine ⟨⟨hunique, defs, hmet, hfirst⟩, fun f hf => ?_⟩
  obtain ⟨before, after, rfl, -⟩ := (hfirst f).1 hf
  exact met_uncompiled hmet f (by simp)

theorem compileGraph_collected (h : collectGraph host importFuel path = .ok () collected) :
    compileGraph host importFuel fixupFuel path = compileEntry host.strtod fixupFuel collected.entry collected.compileState := by
  unfold collectGraph at h
  unfold compileGraph
  rw [h]

theorem FirstFunctions.names {fns : List FnDef} (h : FirstFunctions host path fns) :
    ((fns.map FnDef.sig).map FnSig.name).Nodup := by
  rw [List.map_map]
  exact h.unique

/-- The program of a graph that is accepted is closed if and only if the numbers that it compiles are apart. -/
theorem graphClosed_iff {s : CompileState} (hcollect : collectGraph host importFuel path = .ok () collected)
    (hcompile : compileGraph host importFuel fixupFuel path = .ok () s) : GraphClosed host path collected s.program ↔
      ∀ start, findFunc collected.funcs collected.entry = some start → NumbersApart host.strtod collected.funcs start := by
  obtain ⟨hfirst, hnew⟩ := collectGraph_functions hcollect
  rw [compileGraph_collected hcollect] at hcompile
  obtain ⟨start, L, hfind, hlaid, hres, hstart, hpro⟩ := compileEntry_run hfirst.names hnew hcompile
  constructor
  · rintro ⟨-, start', L', hfind', hclosed⟩ start'' hfind''
    rw [hfind', Option.some.injEq] at hfind''
    exact hfind'' ▸ hclosed.apart hlaid.wf.numbers
  · intro hapart
    exact ⟨hfirst, start, L, hfind, hlaid.closed hres hstart hpro (hapart start hfind)⟩

/-- The compilation of a graph gives a closed program if and only if the numbers of the graph are apart. -/
theorem compilesClosed_iff (host : SourceHost) (path : Text) : CompilesClosed host path ↔ GraphNumbersApart host path := by
  constructor
  · intro h importFuel fixupFuel collected s start hcollect hcompile hfind
    exact (graphClosed_iff hcollect hcompile).1 (h.closed importFuel fixupFuel collected s hcollect hcompile) start hfind
  · intro h
    constructor
    · intro importFuel fixupFuel collected hcollect hfuel
      obtain ⟨hfirst, hnew⟩ := collectGraph_functions hcollect
      rw [compileGraph_collected hcollect]
      exact compileEntry_ends hfirst.names hnew hfuel
    · intro importFuel fixupFuel collected s hcollect hcompile
      exact (graphClosed_iff hcollect hcompile).2 fun start hfind =>
        h importFuel fixupFuel collected s start hcollect hcompile hfind

end Graphs

/-! ## Two zeros -/

/-- The state that a computation leaves when it succeeds. -/
def FrontResult.state? {σ α : Type} : FrontResult σ α → Option σ
  | .ok _ s => some s
  | _ => none

theorem FrontResult.state?_some {σ : Type} {r : FrontResult σ Unit} {s : σ} (h : r.state? = some s) : r = .ok () s := by
  cases r with
  | ok u t => rw [Option.some.inj h]
  | rejected message => cases h
  | outOfFuel => cases h

/-- The instructions of the function that a graph starts from. -/
def CollectState.startBasics (s : CollectState) (strtod : Text → Option UInt64) : Option (List BasicOp) := do
  let start ← findFunc s.funcs s.entry
  let fn ← s.funcs[start]?
  let (c, _, _) ← genFn (s.funcs.map FnDef.sig) strtod fn.paramsRaw fn.body []
  return c.basics

theorem numberReached_start {collected : CollectState} {strtod : Text → Option UInt64} {basics : List BasicOp} {bits : UInt64}
    (h : collected.startBasics strtod = some basics) (hbits : .const (.number bits) ∈ basics) :
    ∃ start, findFunc collected.funcs collected.entry = some start ∧ NumberReached strtod collected.funcs start bits := by
  obtain ⟨start, hfind, h⟩ := Option.bind_eq_some_iff.1 h
  obtain ⟨fn, hfn, h⟩ := Option.bind_eq_some_iff.1 h
  obtain ⟨⟨c, u, locals⟩, hgen, h⟩ := Option.bind_eq_some_iff.1 h
  cases h
  exact ⟨start, hfind, start, c, .start, ⟨fn, locals, hfn, hgen⟩, hbits⟩

/-- A file with a function that binds `0.0` and returns `-0.0`. -/
def twoZeros : SourceHost where
  readTextFile path := if path = ascii "/w/a.aos" then some (ascii ("Program#p \x7b Let#l(name=start) \x7b Fn#f(params=) \x7b " ++
    "Block#b \x7b Let#x(name=x) \x7b Lit#y(value=0.0) \x7d Return#r \x7b Lit#z(value=-0.0) \x7d \x7d \x7d \x7d \x7d")) else none
  resolveImportPath _ _ := none
  strtod text :=
    if text = ascii "0.0" then some 0 else if text = ascii "-0.0" then some 0x8000000000000000 else none

/-- The second zero is compiled to the first one. -/
theorem two_zeros_merged : ¬ CompilesClosed twoZeros (ascii "/w/a.aos") := by
  intro h
  have hbasics : (collectGraph twoZeros 1 (ascii "/w/a.aos")).state?.bind (·.startBasics twoZeros.strtod) =
      some [.const (.number 0), .op .storeLocal (.ofNat 0), .const (.number 0x8000000000000000), .op .return_ (.ofNat 0)] := by
    decide +kernel
  have hcompile : (compileGraph twoZeros 1 1 (ascii "/w/a.aos")).state?.isSome := by
    decide +kernel
  obtain ⟨collected, hcollected, hbasics⟩ := Option.bind_eq_some_iff.1 hbasics
  obtain ⟨s, hs⟩ := Option.isSome_iff_exists.1 hcompile
  have hcollect := FrontResult.state?_some hcollected
  have hcompile := FrontResult.state?_some hs
  obtain ⟨start, hfind, hzero⟩ := @numberReached_start collected twoZeros.strtod _ 0 hbasics (by simp)
  obtain ⟨start', hfind', hminus⟩ := @numberReached_start collected twoZeros.strtod _ 0x8000000000000000 hbasics
    (by simp)
  rw [hfind, Option.some.injEq] at hfind'
  subst hfind'
  have hapart := (graphClosed_iff hcollect hcompile).1 (h.closed 1 1 collected s hcollect hcompile) start hfind
  exact absurd (hapart _ _ hzero hminus (by decide)) (by decide)

end Aivm
