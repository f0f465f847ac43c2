import Aivm.Compiler.Graph

/-!
# Compilations that answer

Everything but the loop over the fix-ups goes down the source, so that a compilation succeeds or is rejected and never
runs out of fuel.
-/

namespace Aivm

open FrontM CompileM

/-- A computation that succeeds or is rejected. -/
def Answers {σ α : Type} (m : FrontM σ α) : Prop := ∀ s, m s ≠ .outOfFuel

section Combinators

variable {σ α β : Type} {m : FrontM σ α} {f : α → FrontM σ β}

theorem answers_pure {a : α} : Answers (pure a : FrontM σ α) := fun s => by simp [pure_run]

theorem answers_get : Answers (get : FrontM σ σ) := fun s => by simp [FrontM.get]

theorem answers_modify {g : σ → σ} : Answers (modify g) := fun s => by simp [FrontM.modify]

theorem answers_giveUp : Answers (giveUp : FrontM σ α) := fun s => by simp [giveUp]

theorem answers_failf {message : Text} : Answers (failf message : FrontM σ α) := fun s => by simp [failf]

theorem answers_fail {message : String} : Answers (fail message : FrontM σ α) := answers_failf

theorem answers_ofOption {message : Text} {x : Option α} : Answers (ofOption message x : FrontM σ α) :=
  fun _ => ofOption_outOfFuel

theorem answers_bind (hm : Answers m) (hf : ∀ a, Answers (f a)) : Answers (m >>= f) := by
  intro s h
  rcases bind_outOfFuel.1 h with h | ⟨a, t, -, h⟩
  · exact hm s h
  · exact hf a t h

theorem answers_orFailf {message : Text} (hm : Answers m) : Answers (orFailf message m) :=
  fun s h => hm s (orFailf_outOfFuel.1 h)

theorem answers_orFail {message : String} (hm : Answers m) : Answers (orFail message m) := answers_orFailf hm

theorem answers_ite {p : Prop} [Decidable p] {m' : FrontM σ α} (hm : Answers m) (hm' : Answers m') :
    Answers (if p then m else m') := by
  split
  · exact hm
  · exact hm'

end Combinators

/-! ## Steps -/

theorem answers_store {message : String} {f : Draft → Option Draft} : Answers (store message f) := by
  intro s
  unfold store
  split
  · simp
  · exact answers_fail s

theorem answers_emit {opcode : Opcode} {operand : Operand} : Answers (emit opcode operand) := answers_store

theorem answers_emitOp {opcode : Opcode} : Answers (emitOp opcode) := answers_emit

theorem answers_instructionCount : Answers instructionCount := answers_bind answers_get fun _ => answers_pure

theorem answers_patch {target index : Nat} : Answers (patch target index) := answers_modify

theorem answers_patchAll {target : Nat} : ∀ {sites : List Nat}, Answers (patchAll target sites)
  | [] => answers_pure
  | _ :: _ => answers_bind answers_patch fun _ => answers_patchAll

theorem answers_addConst {full : String} {like : Literal → Bool} {c : Literal} : Answers (addConst full like c) := by
  apply answers_bind answers_get
  intro s
  dsimp only
  split
  · exact answers_pure
  · exact answers_bind answers_store fun _ => answers_pure

theorem answers_addStringConst {text : Text} : Answers (addStringConst text) :=
  answers_bind answers_get fun _ => answers_addConst

theorem answers_emitConst {index : Nat} : Answers (emitConst index) := answers_emit

theorem answers_emitEmptyStringConst : Answers emitEmptyStringConst :=
  answers_bind (answers_orFail answers_addStringConst) fun _ => answers_emitConst

theorem answers_emitVoidConst : Answers emitVoidConst :=
  answers_bind (answers_orFail answers_addConst) fun _ => answers_emitConst

theorem answers_addFixup {index : Nat} {target : Text} : Answers (addFixup index target) :=
  answers_bind answers_get fun _ => answers_ite answers_giveUp answers_modify

theorem answers_allocLocal {name : Text} : Answers (allocLocal name) := by
  apply answers_bind answers_get
  intro s
  dsimp only
  split
  · exact answers_pure
  · apply answers_ite answers_failf
    apply answers_ite answers_failf
    apply answers_ite answers_failf
    exact answers_bind answers_modify fun _ => answers_pure

theorem answers_findLocal {message name : Text} : Answers (findLocal message name) :=
  answers_bind answers_get fun _ => answers_ofOption

/-! ## Nodes -/

/-- A child that answers in each of its roles. -/
structure Child.Answers (c : Child) : Prop where
  expr : Aivm.Answers c.expr
  stmt : Aivm.Answers c.stmt
  block : Aivm.Answers c.block

variable {attrs kind : Text} {children args : List Child} {strtod : Text → Option UInt64}

theorem answers_compileArgs (h : ∀ c ∈ args, c.Answers) : ∀ {count : Nat}, Answers (compileArgs args count) := by
  induction args with
  | nil => exact answers_pure
  | cons arg args ih =>
      intro count
      apply answers_ite answers_fail
      apply answers_bind (h arg List.mem_cons_self).expr
      intro _
      exact ih fun c hc => h c (List.mem_cons_of_mem arg hc)

theorem answers_emitCall {emitMessage fixupMessage : String} {index : Nat} {target : Text} :
    Answers (emitCall emitMessage fixupMessage index target) := by
  apply answers_bind answers_instructionCount
  intro site
  apply answers_bind (answers_orFail answers_emitOp)
  intro _
  apply answers_bind answers_get
  intro s
  split
  · exact answers_ite answers_patch (answers_orFail answers_addFixup)
  · exact answers_giveUp

theorem answers_compileCall (h : ∀ c ∈ args, c.Answers) {popResult : Bool} : Answers (compileCall attrs args popResult) := by
  apply answers_bind answers_ofOption
  intro target
  have hpop : ∀ u : Unit, Answers (if popResult = true then orFail "failed emitting POP" (emitOp .pop) else pure u) :=
    fun _ => answers_ite (answers_orFail answers_emitOp) answers_pure
  apply answers_ite
  · apply answers_bind (answers_orFail answers_addStringConst)
    intro index
    apply answers_bind (answers_orFail answers_emitConst)
    intro _
    apply answers_bind (answers_compileArgs h)
    intro count
    exact answers_bind (answers_orFail answers_emit) hpop
  · apply answers_bind (answers_compileArgs h)
    intro count
    apply answers_bind answers_get
    intro s
    apply answers_bind answers_ofOption
    intro index
    apply answers_bind answers_ofOption
    intro expected
    apply answers_ite
    · exact answers_bind answers_failf hpop
    · exact answers_bind answers_emitCall hpop

theorem answers_compileDynamicArgs (h : ∀ c ∈ args, c.Answers) : Answers (compileDynamicArgs args) := by
  induction args with
  | nil => exact answers_pure
  | cons arg args ih =>
      apply answers_bind (answers_orFail (h arg List.mem_cons_self).expr)
      intro _
      exact ih fun c hc => h c (List.mem_cons_of_mem arg hc)

theorem answers_compileDynamicBranch (h : ∀ c ∈ args, c.Answers) {slot index count : Nat} {fn : FnDef} :
    Answers (compileDynamicBranch slot args fn index count) := by
  apply answers_bind
  · apply answers_orFail
    apply answers_bind answers_addStringConst
    intro name
    apply answers_bind answers_emit
    intro _
    exact answers_bind answers_emitConst fun _ => answers_emitOp
  · intro _
    apply answers_bind answers_instructionCount
    intro jump
    apply answers_bind (answers_orFail answers_emitOp)
    intro _
    apply answers_bind (answers_compileDynamicArgs h)
    intro _
    apply answers_bind answers_emitCall
    intro _
    apply answers_ite answers_fail
    apply answers_bind answers_instructionCount
    intro stop
    apply answers_bind (answers_orFail answers_emitOp)
    intro _
    apply answers_bind answers_instructionCount
    intro here
    exact answers_bind answers_patch fun _ => answers_pure

theorem answers_compileDynamicBranches (h : ∀ c ∈ args, c.Answers) {candidates : Option Text} {slot : Nat}
    {fns : List FnDef} : ∀ {index : Nat} {jumps : List Nat},
      Answers (compileDynamicBranches candidates slot args fns index jumps) := by
  induction fns with
  | nil => exact answers_pure
  | cons fn fns ih =>
      intro index jumps
      apply answers_bind answers_ofOption
      intro count
      apply answers_ite ih
      apply answers_bind (answers_compileDynamicBranch h)
      intro jump
      exact ih

theorem answers_compileDynamicCall (h : ∀ c ∈ args, c.Answers) : Answers (compileDynamicCall attrs args) := by
  cases args with
  | nil => exact answers_fail
  | cons target args =>
      have htarget := (h target List.mem_cons_self).expr
      have hargs : ∀ c ∈ args, c.Answers := fun c hc => h c (List.mem_cons_of_mem target hc)
      apply answers_ite answers_fail
      apply answers_bind answers_get
      intro s
      apply answers_bind
      · apply answers_orFail
        apply answers_bind htarget
        intro _
        apply answers_bind answers_allocLocal
        intro slot
        exact answers_bind answers_emit fun _ => answers_pure
      · intro slot
        apply answers_bind answers_get
        intro s
        apply answers_bind (answers_compileDynamicBranches hargs)
        intro jumps
        apply answers_bind
        · apply answers_orFail
          apply answers_bind answers_addStringConst
          intro index
          apply answers_bind answers_emitConst
          intro _
          exact answers_bind answers_emit fun _ => answers_emit
        · intro _
          exact answers_bind answers_instructionCount fun _ => answers_patchAll

theorem answers_compileVar : Answers (compileVar attrs) := by
  apply answers_bind answers_ofOption
  intro name
  exact answers_bind answers_findLocal fun _ => answers_emit

theorem answers_compileLit : Answers (compileLit strtod kind attrs) := by
  apply answers_ite answers_failf
  apply answers_bind answers_ofOption
  intro value
  split
  · exact answers_emit
  · apply answers_bind answers_get
    intro s
    exact answers_bind answers_store fun _ => answers_emitConst
  · exact answers_emit
  · exact answers_bind answers_addConst fun _ => answers_emitConst
  · exact answers_bind answers_addStringConst fun _ => answers_emitConst
  · exact answers_failf

theorem answers_compileConcat (h : ∀ c ∈ children, c.Answers) : ∀ {first : Bool}, Answers (compileConcat children first) := by
  induction children with
  | nil => exact fun {first} => answers_ite answers_giveUp answers_pure
  | cons child children ih =>
      intro first
      have hrest : Answers (compileConcat children false) := ih fun c hc => h c (List.mem_cons_of_mem child hc)
      apply answers_bind (h child List.mem_cons_self).expr
      intro _
      exact answers_ite hrest (answers_bind (answers_orFail answers_emitOp) fun _ => hrest)

theorem answers_compileField (h : ∀ c ∈ children, c.Answers) : Answers (compileField attrs children) := by
  apply answers_bind answers_ofOption
  intro key
  cases children with
  | nil => exact answers_fail
  | cons value children =>
      apply answers_bind answers_addStringConst
      intro index
      apply answers_bind answers_emitConst
      intro _
      exact answers_bind (h value List.mem_cons_self).expr fun _ => answers_emitOp

theorem answers_compileFields (h : ∀ c ∈ children, c.Answers) : Answers (compileFields children) := by
  induction children with
  | nil => exact answers_pure
  | cons child children ih =>
      apply answers_ite answers_failf
      apply answers_bind (h child List.mem_cons_self).expr
      intro _
      exact ih fun c hc => h c (List.mem_cons_of_mem child hc)

theorem answers_compileMap (h : ∀ c ∈ children, c.Answers) : Answers (compileMap children) := by
  apply answers_bind (answers_compileFields h)
  intro _
  exact answers_bind answers_emit fun _ => answers_emitOp

theorem answers_compileOperands {o : Operation} (h : ∀ c ∈ children, c.Answers) : Answers (compileOperands o children) := by
  induction children with
  | nil => exact answers_pure
  | cons child children ih =>
      have hchild := (h child List.mem_cons_self).expr
      have hrest := ih fun c hc => h c (List.mem_cons_of_mem child hc)
      apply answers_ite
      · exact answers_bind (answers_orFailf hchild) fun _ => hrest
      · exact answers_bind hchild fun _ => hrest

theorem answers_compileOperation {o : Operation} (h : ∀ c ∈ children, c.Answers) :
    Answers (compileOperation o children) := by
  apply answers_ite answers_failf
  apply answers_bind (answers_compileOperands fun c hc => h c (List.mem_of_mem_take hc))
  intro _
  exact answers_emitOp

theorem answers_compileIfExpr (h : ∀ c ∈ children, c.Answers) : Answers (compileIfExpr children) := by
  match children, h with
  | [], _ => exact answers_fail
  | [_], _ => exact answers_fail
  | [_, _], _ => exact answers_fail
  | cond :: thenChild :: elseChild :: _, h =>
      apply answers_bind (h cond (by simp)).expr
      intro _
      apply answers_bind answers_instructionCount
      intro jump
      apply answers_bind (answers_orFail answers_emitOp)
      intro _
      apply answers_bind (h thenChild (by simp)).expr
      intro _
      apply answers_bind answers_instructionCount
      intro stop
      apply answers_bind (answers_orFail answers_emitOp)
      intro _
      apply answers_bind answers_instructionCount
      intro middle
      apply answers_bind answers_patch
      intro _
      apply answers_bind (h elseChild (by simp)).expr
      intro _
      exact answers_bind answers_instructionCount fun _ => answers_patch

theorem answers_compileBlockExpr (h : ∀ c ∈ children, c.Answers) : Answers (compileBlockExpr children) := by
  induction children with
  | nil => exact answers_emitEmptyStringConst
  | cons child children ih =>
      have hchild := h child List.mem_cons_self
      cases children with
      | nil =>
          apply answers_ite _ hchild.expr
          apply answers_bind hchild.stmt
          intro returned
          exact answers_ite answers_pure answers_emitEmptyStringConst
      | cons next children =>
          apply answers_bind hchild.stmt
          intro returned
          exact answers_ite answers_pure (ih fun c hc => h c (List.mem_cons_of_mem child hc))

theorem answers_compileExpr (h : ∀ c ∈ children, c.Answers) : Answers (compileExpr strtod kind attrs children) := by
  unfold compileExpr
  split
  · exact answers_compileCall h
  · exact answers_compileDynamicCall h
  · exact answers_compileVar
  · exact answers_compileConcat h
  · exact answers_compileField h
  · exact answers_compileMap h
  · exact answers_compileOperation h
  · exact answers_compileIfExpr h
  · exact answers_compileBlockExpr h
  · exact answers_compileLit

theorem answers_compileBranch {child : Child} (h : child.Answers) : Answers (compileBranch child) := by
  apply answers_ite h.block
  apply answers_bind h.expr
  intro _
  exact answers_bind answers_emitOp fun _ => answers_pure

theorem answers_compileIfStmt (h : ∀ c ∈ children, c.Answers) : Answers (compileIfStmt children) := by
  match children, h with
  | [], _ => exact answers_fail
  | [_], _ => exact answers_fail
  | [_, _], _ => exact answers_fail
  | cond :: thenChild :: elseChild :: _, h =>
      apply answers_bind (h cond (by simp)).expr
      intro _
      apply answers_bind answers_instructionCount
      intro jump
      apply answers_bind answers_emitOp
      intro _
      apply answers_bind (answers_compileBranch (h thenChild (by simp)))
      intro returned
      apply answers_bind answers_instructionCount
      intro stop
      apply answers_bind answers_emitOp
      intro _
      apply answers_bind answers_instructionCount
      intro middle
      apply answers_bind answers_patch
      intro _
      apply answers_bind (answers_compileBranch (h elseChild (by simp)))
      intro _
      apply answers_bind answers_instructionCount
      intro here
      exact answers_bind answers_patch fun _ => answers_pure

theorem answers_compileLoopStmt (h : ∀ c ∈ children, c.Answers) : Answers (compileLoopStmt children) := by
  cases children with
  | nil => exact answers_fail
  | cons body children =>
      apply answers_bind answers_get
      intro s
      apply answers_ite answers_fail
      apply answers_bind answers_instructionCount
      intro start
      apply answers_bind answers_modify
      intro _
      apply answers_bind (answers_compileBranch (h body List.mem_cons_self))
      intro _
      apply answers_bind answers_emit
      intro _
      apply answers_bind answers_get
      intro s
      split
      · exact answers_giveUp
      · apply answers_bind answers_instructionCount
        intro stop
        apply answers_bind answers_patchAll
        intro _
        apply answers_bind answers_patchAll
        intro _
        exact answers_bind answers_modify fun _ => answers_pure

theorem answers_compileLoopJump {outside tooMany : String} {sites : LoopFrame → List Nat}
    {record : Nat → LoopFrame → LoopFrame} : Answers (compileLoopJump outside tooMany sites record) := by
  apply answers_bind answers_get
  intro s
  split
  · exact answers_fail
  · apply answers_ite answers_fail
    apply answers_bind answers_instructionCount
    intro site
    apply answers_bind answers_emitOp
    intro _
    exact answers_bind answers_modify fun _ => answers_pure

theorem answers_compileLet (h : ∀ c ∈ children, c.Answers) : Answers (compileLet attrs children) := by
  apply answers_bind answers_ofOption
  intro name
  apply answers_bind (answers_orFailf answers_allocLocal)
  intro slot
  cases children with
  | nil => exact answers_fail
  | cons value children =>
      apply answers_bind (h value List.mem_cons_self).expr
      intro _
      exact answers_bind (answers_orFail answers_emit) fun _ => answers_pure

theorem answers_compileReturn (h : ∀ c ∈ children, c.Answers) : Answers (compileReturn children) := by
  have hend : ∀ u : Unit, Answers (do
      orFail "return emit failed" (emitOp .return_)
      return true : CompileM Bool) := fun _ => answers_bind (answers_orFail answers_emitOp) fun _ => answers_pure
  cases children with
  | nil => exact answers_bind (answers_orFail answers_emitVoidConst) hend
  | cons value children => exact answers_bind (h value List.mem_cons_self).expr hend

theorem answers_compileStmts (h : ∀ c ∈ children, c.Answers) : Answers (compileStmts children) := by
  induction children with
  | nil => exact answers_pure
  | cons child children ih =>
      apply answers_bind (h child List.mem_cons_self).stmt
      intro returned
      exact answers_ite answers_pure (ih fun c hc => h c (List.mem_cons_of_mem child hc))

theorem answers_compileBlock (h : ∀ c ∈ children, c.Answers) : Answers (compileBlock children) := by
  apply answers_bind answers_get
  intro s
  apply answers_bind (answers_compileStmts h)
  intro returned
  exact answers_bind answers_modify fun _ => answers_pure

theorem answers_compileStmt (h : ∀ c ∈ children, c.Answers) : Answers (compileStmt strtod kind attrs children) := by
  unfold compileStmt
  split
  · exact answers_compileLet h
  · exact answers_bind (answers_compileCall h) fun _ => answers_pure
  · exact answers_compileLoopJump
  · exact answers_compileLoopJump
  · exact answers_compileReturn h
  · exact answers_compileIfStmt h
  · exact answers_compileLoopStmt h
  · exact answers_compileBlock h
  · apply answers_bind (answers_compileExpr h)
    intro _
    exact answers_bind answers_emitOp fun _ => answers_pure

mutual

/-- The compilation of a node ends. -/
theorem compileNode_answers : ∀ node : Node, (compileNode strtod node).Answers
  | .mk _ _ _ children _ =>
      have h := compileNodes_answers children
      ⟨answers_compileExpr h, answers_compileStmt h, answers_compileBlock h⟩

theorem compileNodes_answers : ∀ nodes : List Node, ∀ c ∈ compileNodes strtod nodes, c.Answers
  | [] => fun _ hc => nomatch hc
  | node :: nodes => by
      intro c hc
      rw [compileNodes, List.mem_cons] at hc
      rcases hc with rfl | hc
      · exact compileNode_answers node
      · exact compileNodes_answers nodes c hc

end

/-! ## Functions -/

theorem answers_allocParams : ∀ {params : List Text}, Answers (allocParams params)
  | [] => answers_pure
  | _ :: _ => answers_bind (answers_orFailf answers_allocLocal) fun _ => answers_allocParams

theorem answers_storeParams {name : Text} : ∀ {params : List Text}, Answers (storeParams name params)
  | [] => answers_pure
  | _ :: _ => by
      apply answers_bind
      · exact answers_orFailf (answers_bind answers_findLocal fun _ => answers_emit)
      · exact fun _ => answers_storeParams

theorem answers_setFn {index : Nat} {f : FnDef → FnDef} : Answers (setFn index f) := answers_modify

/-- The compilation of a function ends. -/
theorem answers_compileFnByIndex {index : Nat} : Answers (compileFnByIndex strtod index) := by
  apply answers_bind answers_get
  intro s
  split
  · exact answers_giveUp
  · apply answers_ite answers_pure
    apply answers_bind answers_instructionCount
    intro entry
    apply answers_bind answers_setFn
    intro _
    apply answers_bind answers_modify
    intro _
    apply answers_bind answers_ofOption
    intro params
    apply answers_bind answers_allocParams
    intro _
    apply answers_bind answers_storeParams
    intro _
    split
    · exact answers_failf
    · apply answers_ite _ answers_failf
      apply answers_bind (compileNode_answers _).block
      intro returned
      apply answers_ite answers_setFn
      apply answers_bind (answers_orFailf answers_emitVoidConst)
      intro _
      exact answers_bind (answers_orFailf answers_emitOp) fun _ => answers_setFn

end Aivm
