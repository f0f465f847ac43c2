import Aivm.Compiler.BytecodeAos
import Aivm.Compiler.LayoutTheorems
import Aivm.Program.Lemmas.Write

/-!
# What the front ends write loads back

The programs of both front ends are written in the binary form. The writer has no case for a node constant: it writes one
as void, and the program that loads back has void in its place.
-/

namespace Aivm

open FrontM CompileM

variable {host : SourceHost} {loadHost : LoadHost}

/-- The programs that the front ends produce. -/
inductive Produced (host : SourceHost) : Draft → Prop
  | compiled {path importFuel fixupFuel s} (h : compileGraph host importFuel fixupFuel path = .ok () s) :
      Produced host s.program
  | parsed {source legacy d} (h : parseBytecodeAos host.strtod source legacy = .program d) : Produced host d

theorem compileGraph_laid {path : Text} {importFuel fixupFuel : Nat} {s : CompileState}
    (h : compileGraph host importFuel fixupFuel path = .ok () s) : ∃ fns start L,
      Laid host.strtod fns start (prologue fns start).length L s := by
  cases hcollect : collectGraph host importFuel path with
  | ok u collected =>
      obtain ⟨hfirst, hnew⟩ := collectGraph_functions hcollect
      rw [compileGraph_collected hcollect] at h
      obtain ⟨start, L, -, hlaid, -⟩ := compileEntry_run hfirst.names hnew h
      exact ⟨_, start, L, hlaid⟩
  | rejected message =>
      unfold collectGraph at hcollect
      rw [compileGraph, hcollect] at h
      cases h
  | outOfFuel =>
      unfold collectGraph at hcollect
      rw [compileGraph, hcollect] at h
      cases h

theorem prologue_ne_nil {fns : List FnDef} {start : Nat} : prologue fns start ≠ [] := by
  unfold prologue
  split <;> simp

theorem parseInstEntries_some {legacy : Bool} {fuel : Nat} : ∀ {text : Text} {d d' : Draft},
    parseInstEntries legacy fuel text d = .program d' → d'.instructions ≠ [] := by
  induction fuel with
  | zero =>
      intro text d d' h
      cases h
  | succ fuel ih =>
      intro text d d' h
      rw [parseInstEntries] at h
      cases hnext : nextEntry (ascii "Inst#") text with
      | done =>
          simp only [hnext] at h
          split at h
          · rename_i hsome
            cases h
            exact List.ne_nil_of_length_pos hsome
          · cases h
      | malformed =>
          simp only [hnext] at h
          cases h
      | entry attrs rest =>
          simp only [hnext] at h
          cases hentry : parseInstEntry legacy attrs d with
          | program d₁ =>
              simp only [hentry] at h
              exact ih h
          | rejected =>
              simp only [hentry] at h
              cases h
          | overrun =>
              simp only [hentry] at h
              cases h

/-- Neither front end produces a program without instructions. -/
theorem Produced.instructions_ne_nil {d : Draft} (h : Produced host d) : d.instructions ≠ [] := by
  cases h with
  | compiled h =>
      obtain ⟨fns, start, L, hlaid⟩ := compileGraph_laid h
      have hpos := List.length_pos_of_ne_nil (@prologue_ne_nil fns start)
      have hle := hlaid.chain.le
      unfold CompileState.len at hle
      exact List.ne_nil_of_length_pos (by omega)
  | parsed h =>
      unfold parseBytecodeAos at h
      split at h
      · cases h
      · split at h
        · cases h
        · exact parseInstEntries_some h

/-- The compiler puts no node in the table. -/
theorem compileGraph_no_node {path : Text} {importFuel fixupFuel : Nat} {s : CompileState}
    (h : compileGraph host importFuel fixupFuel path = .ok () s) : ∀ c ∈ s.program.constants, c.isNode = false := by
  obtain ⟨fns, start, L, hlaid⟩ := compileGraph_laid h
  exact fun c hc => (hlaid.consts c hc).1

/-- What the compiler produces is written and loads back. -/
theorem compiled_writesBack {path : Text} {importFuel fixupFuel : Nat} {s : CompileState}
    (h : compileGraph host importFuel fixupFuel path = .ok () s) : s.program.WritesBack loadHost :=
  (Draft.writesBack_iff loadHost (Produced.compiled h).instructions_ne_nil).2 (compileGraph_no_node h)

/-- What a front end produces is written and loads back if and only if it has no node constant. -/
theorem produced_writesBack_iff {d : Draft} (h : Produced host d) :
    d.WritesBack loadHost ↔ ∀ c ∈ d.constants, c.isNode = false :=
  Draft.writesBack_iff loadHost h.instructions_ne_nil

/-! ## Two bytecode texts -/

/-- A host without files. -/
def SourceHost.bare : SourceHost := ⟨fun _ => none, fun _ _ => none, fun _ => none⟩

def AosResult.draft? : AosResult → Option Draft
  | .program d => some d
  | _ => none

theorem AosResult.draft?_some {r : AosResult} {d : Draft} (h : r.draft? = some d) : r = .program d := by
  cases r with
  | program d' => rw [Option.some.inj h]
  | rejected => cases h
  | overrun => cases h

/-- A text that is accepted produces a program. -/
theorem produced_bare {source : Text} {constants : List Literal}
    (h : (parseBytecodeAos SourceHost.bare.strtod source false).draft?.map Draft.constants = some constants) :
    ∃ d, Produced .bare d ∧ d.constants = constants := by
  obtain ⟨d, hd, rfl⟩ := Option.map_eq_some_iff.1 h
  exact ⟨d, .parsed (AosResult.draft?_some hd), rfl⟩

theorem null_constant_loads_back : ∃ d, Produced .bare d ∧ d.constants = [.null] ∧ d.WritesBack .generous := by
  obtain ⟨d, hd, hconstants⟩ := @produced_bare
    (ascii "Bytecode#b \x7b Const#c(kind=null) Inst#i(op=CONST a=0) Inst#j(op=HALT) \x7d") [.null] (by decide +kernel)
  refine ⟨d, hd, hconstants, (produced_writesBack_iff hd).2 ?_⟩
  rw [hconstants]
  decide

/-- A node constant is written as void. -/
theorem node_constant_lost : ¬ ∀ d, Produced .bare d → d.WritesBack .generous := by
  intro h
  obtain ⟨d, hd, hconstants⟩ := @produced_bare
    (ascii "Bytecode#b \x7b Const#c(kind=node) Inst#i(op=CONST a=0) Inst#j(op=HALT) \x7d") [.node 1] (by decide +kernel)
  have hnone := (Draft.writesBack_iff .generous hd.instructions_ne_nil).1 (h d hd) (.node 1)
  rw [hconstants] at hnone
  cases hnone (List.mem_singleton_self _)

end Aivm
