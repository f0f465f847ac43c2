import Aivm.Compiler.Translate

/-!
# The instructions of a translation

Straight instructions of structured code are never jumps or calls: those come from its branches, its loops and its calls.
-/

namespace Aivm

open StructuredCode

/-- An instruction that neither jumps, calls nor names a constant. -/
def Opcode.isPlain (o : Opcode) : Bool := o ≠ .jump ∧ o ≠ .jumpIfFalse ∧ o ≠ .call ∧ o ≠ .const

def BasicOp.IsPlain : BasicOp → Prop
  | .op o _ => o.isPlain = true
  | _ => True

/-- All instructions of a translation are plain. -/
def Gen.Plain {α : Type} (g : Gen α) : Prop :=
  ∀ ⦃l c a l'⦄, g l = some (c, a, l') → ∀ b ∈ c.basics, BasicOp.IsPlain b

/-! ## Translations in general -/

section Combinators

variable {α β : Type} {g : Gen α} {h : Gen β} {k : α → Gen β}

theorem Gen.bind_some {l : List Text} {c : SourceCode} {b : β} {l' : List Text} (hk : (g >>= k) l = some (c, b, l')) :
    ∃ c₁ a l₁ c₂, g l = some (c₁, a, l₁) ∧ k a l₁ = some (c₂, b, l') ∧ c = .seq c₁ c₂ := by
  obtain ⟨⟨c₁, a, l₁⟩, hg, hk⟩ := Option.bind_eq_some_iff.1 hk
  obtain ⟨⟨c₂, b', l₂⟩, hk', hk⟩ := Option.bind_eq_some_iff.1 hk
  cases hk
  exact ⟨c₁, a, l₁, c₂, hg, hk', rfl⟩

theorem Gen.branch_some {l : List Text} {c : SourceCode} {r : α × β} {l' : List Text}
    (hb : Gen.branch g h l = some (c, r, l')) :
    ∃ c₁ l₁ c₂, g l = some (c₁, r.1, l₁) ∧ h l₁ = some (c₂, r.2, l') ∧ c = .branch c₁ c₂ := by
  unfold Gen.branch at hb
  cases hg : g l with
  | none => simp [hg] at hb
  | some q =>
      obtain ⟨c₁, a, l₁⟩ := q
      cases hh : h l₁ with
      | none => simp [hg, hh] at hb
      | some q =>
          obtain ⟨c₂, b, l₂⟩ := q
          simp only [hg, hh, Option.bind_eq_bind, Option.bind_some, Option.pure_def, Option.some.injEq,
            Prod.mk.injEq] at hb
          obtain ⟨rfl, rfl, rfl⟩ := hb
          exact ⟨c₁, l₁, c₂, rfl, hh, rfl⟩

theorem Gen.loop_some {l : List Text} {c : SourceCode} {a : α} {l' : List Text} (hl : Gen.loop g l = some (c, a, l')) :
    ∃ c₁, g l = some (c₁, a, l') ∧ c = .loop c₁ := by
  unfold Gen.loop at hl
  cases hg : g l with
  | none => simp [hg] at hl
  | some q =>
      obtain ⟨c₁, a', l₁⟩ := q
      simp only [hg, Option.bind_eq_bind, Option.bind_some, Option.pure_def, Option.some.injEq, Prod.mk.injEq] at hl
      obtain ⟨rfl, rfl, rfl⟩ := hl
      exact ⟨c₁, rfl, rfl⟩

theorem Gen.mark_some {m : Role × Path} {l : List Text} {c : SourceCode} {a : α} {l' : List Text}
    (hm : Gen.mark m g l = some (c, a, l')) : ∃ c₁, g l = some (c₁, a, l') ∧ c = .mark m c₁ := by
  unfold Gen.mark at hm
  cases hg : g l with
  | none => simp [hg] at hm
  | some q =>
      obtain ⟨c₁, a', l₁⟩ := q
      simp only [hg, Option.bind_eq_bind, Option.bind_some, Option.pure_def, Option.some.injEq, Prod.mk.injEq] at hm
      obtain ⟨rfl, rfl, rfl⟩ := hm
      exact ⟨c₁, rfl, rfl⟩

end Combinators

namespace Gen.Plain

variable {α β : Type} {g : Gen α} {h : Gen β} {k : α → Gen β} {a : α}

theorem pure : (Pure.pure a : Gen α).Plain := by
  intro l c b l' hg b' hb'
  cases hg
  cases hb'

theorem reject : (Gen.reject : Gen α).Plain := by
  intro l c a l' hg
  cases hg

theorem bind (hg : g.Plain) (hk : ∀ a, (k a).Plain) : (g >>= k).Plain := by
  intro l c b l' hok b' hb'
  obtain ⟨c₁, a, l₁, c₂, h₁, h₂, rfl⟩ := Gen.bind_some hok
  rcases List.mem_append.1 hb' with hb' | hb'
  · exact hg h₁ b' hb'
  · exact hk a h₂ b' hb'

theorem ofOption {x : Option α} : (Gen.ofOption x).Plain := by
  cases x with
  | none => exact reject
  | some a => exact pure

theorem basic {b : BasicOp} (hb : b.IsPlain) : (Gen.basic b).Plain := by
  intro l c a l' hg b' hb'
  cases hg
  rw [List.mem_singleton.1 hb']
  exact hb

theorem const {c : SourceConst} : (Gen.const c).Plain := basic trivial

theorem text {t : Text} : (Gen.text t).Plain := const

/-- A translation that adds no code. -/
theorem of_done (hg : ∀ ⦃l c a l'⦄, g l = some (c, a, l') → c = .done) : g.Plain := by
  intro l c a l' hok b hb
  rw [hg hok] at hb
  cases hb

theorem getLocals : Gen.getLocals.Plain := by
  apply of_done
  intro l c a l' hg
  cases hg
  rfl

theorem alloc {name : Text} : (Gen.alloc name).Plain := by
  apply of_done
  intro l c a l' hg
  unfold Gen.alloc at hg
  split at hg <;>
  · cases hg
    rfl

theorem find {name : Text} : (Gen.find name).Plain := by
  apply of_done
  intro l c a l' hg
  unfold Gen.find at hg
  cases hf : l.findIdx? (· = name) with
  | none => simp [hf] at hg
  | some slot =>
      simp [hf] at hg
      exact hg.1.symm

theorem restore {scope : Nat} : (Gen.restore scope).Plain := by
  apply of_done
  intro l c a l' hg
  cases hg
  rfl

theorem branch (hg : g.Plain) (hh : h.Plain) : (Gen.branch g h).Plain := by
  intro l c r l' hok b hb
  obtain ⟨c₁, l₁, c₂, h₁, h₂, rfl⟩ := Gen.branch_some hok
  rcases List.mem_append.1 hb with hb | hb
  · exact hg h₁ b hb
  · exact hh h₂ b hb

theorem loop (hg : g.Plain) : (Gen.loop g).Plain := by
  intro l c a l' hok b hb
  obtain ⟨c₁, h₁, rfl⟩ := Gen.loop_some hok
  exact hg h₁ b hb

theorem mark {m : Role × Path} (hg : g.Plain) : (Gen.mark m g).Plain := by
  intro l c a l' hok b hb
  obtain ⟨c₁, h₁, rfl⟩ := Gen.mark_some hok
  exact hg h₁ b hb

theorem ite {p : Prop} [Decidable p] {g' : Gen α} (hg : g.Plain) (hg' : g'.Plain) : (if p then g else g').Plain := by
  split
  · exact hg
  · exact hg'

theorem breakLoop : Gen.breakLoop.Plain := by
  intro l c a l' hg b hb
  cases hg
  cases hb

theorem continueLoop : Gen.continueLoop.Plain := by
  intro l c a l' hg b hb
  cases hg
  cases hb

end Gen.Plain

/-! ## Nodes -/

theorem of_ite {α : Type} {P : α → Prop} {c : Prop} [Decidable c] {a b : α} (h : P a) (h' : P b) :
    P (if c then a else b) := by
  split
  · exact h
  · exact h'

def ExprForm.IsPlain : ExprForm → Prop
  | .operation o => o.opcode.isPlain = true
  | _ => True

theorem exprForm_plain (kind : Text) : (exprForm kind).IsPlain := by
  unfold exprForm
  repeat' apply of_ite (P := ExprForm.IsPlain)
  all_goals trivial

/-- All instructions of a piece are plain, in each role. -/
structure Piece.Plain (p : Piece) : Prop where
  expr : p.expr.Plain
  stmt : p.stmt.Plain
  block : p.block.Plain

section Nodes

open Gen

variable {sigs : List FnSig} {attrs : Text} {ps : List Piece} {p : Piece} {strtod : Text → Option UInt64} {kind : Text}

theorem genSeq_plain (h : ∀ p ∈ ps, Piece.Plain p) : (genSeq ps).Plain := by
  induction ps with
  | nil => exact .pure
  | cons p ps ih =>
      rw [List.forall_mem_cons] at h
      exact h.1.expr.bind fun _ => ih h.2

theorem genCall_plain {popResult} (h : ∀ p ∈ ps, Piece.Plain p) : (genCall sigs attrs ps popResult).Plain := by
  have hpop : (if popResult = true then Gen.op .pop else pure ()).Plain := .ite (.basic rfl) .pure
  unfold genCall
  refine Plain.ofOption.bind fun target => .ite ?_ ?_
  · exact Plain.text.bind fun _ => (genSeq_plain h).bind fun _ => Plain.bind (.basic rfl) fun _ => hpop
  · exact (genSeq_plain h).bind fun _ => Plain.ofOption.bind fun _ => Plain.bind (.basic trivial) fun _ => hpop

theorem genDynamicBranches_plain {candidates slot} (h : ∀ p ∈ ps, Piece.Plain p) {fns : List FnSig} :
    ∀ {index}, (genDynamicBranches candidates slot ps fns index).Plain := by
  induction fns with
  | nil =>
      intro index
      exact Plain.text.bind fun _ => Plain.bind (.basic rfl) fun _ => .basic rfl
  | cons sig rest ih =>
      intro index
      unfold genDynamicBranches
      refine Plain.ofOption.bind fun count => .ite ih ?_
      refine Plain.bind (.basic rfl) fun _ => Plain.text.bind fun _ => Plain.bind (.basic rfl) fun _ => ?_
      exact Plain.bind (.branch (.bind (genSeq_plain h) fun _ => .basic trivial) ih) fun _ => .pure

theorem genDynamicCall_plain (h : ∀ p ∈ ps, Piece.Plain p) : (genDynamicCall sigs attrs ps).Plain := by
  cases ps with
  | nil => exact .reject
  | cons target args =>
      rw [List.forall_mem_cons] at h
      refine Plain.getLocals.bind fun l => h.1.expr.bind fun _ => Plain.alloc.bind fun slot => ?_
      exact Plain.bind (.basic rfl) fun _ => genDynamicBranches_plain h.2

theorem genLit_plain : (genLit strtod kind attrs).Plain := by
  unfold genLit
  refine .ite .reject (Plain.ofOption.bind fun value => ?_)
  cases litForm strtod (attrIsQuoted attrs "value") value with
  | bool b => exact .basic rfl
  | null => exact .const
  | int i => exact .basic rfl
  | number bits => exact .const
  | string text => exact .text
  | undecodable => exact .reject

theorem genConcat_plain (h : ∀ p ∈ ps, Piece.Plain p) : ∀ {first}, (genConcat ps first).Plain := by
  induction ps with
  | nil =>
      intro first
      exact Plain.ite .reject .pure
  | cons p ps ih =>
      rw [List.forall_mem_cons] at h
      intro first
      refine h.1.expr.bind fun _ => ?_
      cases first with
      | true => exact ih h.2
      | false => exact Plain.bind (.basic rfl) fun _ => ih h.2

theorem genField_plain (h : ∀ p ∈ ps, Piece.Plain p) : (genField attrs ps).Plain := by
  cases ps with
  | nil => exact .reject
  | cons value rest =>
      rw [List.forall_mem_cons] at h
      exact Plain.ofOption.bind fun key => Plain.text.bind fun _ => h.1.expr.bind fun _ => .basic rfl

theorem genMap_plain (h : ∀ p ∈ ps, Piece.Plain p) : (genMap ps).Plain :=
  (genSeq_plain h).bind fun _ => Plain.bind (.basic rfl) fun _ => .basic rfl

theorem genOperation_plain {o : Operation} (ho : o.opcode.isPlain = true) (h : ∀ p ∈ ps, Piece.Plain p) :
    (genOperation o ps).Plain := by
  refine .ite .reject ((genSeq_plain ?_).bind fun _ => .basic ho)
  exact fun p hp => h p (List.mem_of_mem_take hp)

theorem genIfExpr_plain (h : ∀ p ∈ ps, Piece.Plain p) : (genIfExpr ps).Plain := by
  match ps with
  | [] | [_] | [_, _] => exact .reject
  | cond :: thenPiece :: elsePiece :: rest =>
      refine (h cond (by simp)).expr.bind fun _ => ?_
      exact (Plain.branch (h thenPiece (by simp)).expr (h elsePiece (by simp)).expr).bind fun _ => .pure

theorem genBlockExpr_plain (h : ∀ p ∈ ps, Piece.Plain p) : (genBlockExpr ps).Plain := by
  induction ps with
  | nil => exact .text
  | cons p ps ih =>
      rw [List.forall_mem_cons] at h
      cases ps with
      | nil =>
          unfold genBlockExpr
          exact .ite (h.1.stmt.bind fun b => .ite .pure .text) h.1.expr
      | cons q ps => exact h.1.stmt.bind fun b => .ite .pure (ih h.2)

theorem genExpr_plain (h : ∀ p ∈ ps, Piece.Plain p) : (genExpr sigs strtod kind attrs ps).Plain := by
  have hform := exprForm_plain kind
  unfold genExpr
  cases hk : exprForm kind with
  | call => exact genCall_plain h
  | callDynamic => exact genDynamicCall_plain h
  | var => exact Plain.ofOption.bind fun _ => Plain.find.bind fun _ => .basic rfl
  | strConcat => exact genConcat_plain h
  | field => exact genField_plain h
  | map => exact genMap_plain h
  | operation o =>
      rw [hk] at hform
      exact genOperation_plain hform h
  | conditional => exact genIfExpr_plain h
  | block => exact genBlockExpr_plain h
  | other => exact genLit_plain

theorem genBranch_plain (h : p.Plain) : (genBranch p).Plain :=
  .ite h.block (h.expr.bind fun _ => Plain.bind (.basic rfl) fun _ => .pure)

theorem genStmts_plain (h : ∀ p ∈ ps, Piece.Plain p) : (genStmts ps).Plain := by
  induction ps with
  | nil => exact .pure
  | cons p ps ih =>
      rw [List.forall_mem_cons] at h
      exact h.1.stmt.bind fun b => .ite .pure (ih h.2)

theorem genBlock_plain (h : ∀ p ∈ ps, Piece.Plain p) : (genBlock ps).Plain :=
  Plain.getLocals.bind fun _ => (genStmts_plain h).bind fun _ => Plain.restore.bind fun _ => .pure

theorem genStmt_plain {path : Path} (h : ∀ p ∈ ps, Piece.Plain p) : (genStmt sigs strtod path kind attrs ps).Plain := by
  unfold genStmt
  cases stmtForm kind with
  | letStmt =>
      cases ps with
      | nil => exact .reject
      | cons value rest =>
          refine Plain.ofOption.bind fun name => Plain.alloc.bind fun slot => (h value (by simp)).expr.bind fun _ => ?_
          exact Plain.bind (.basic rfl) fun _ => .pure
  | call => exact (genCall_plain h).bind fun _ => .pure
  | breakStmt => exact Plain.breakLoop.bind fun _ => .pure
  | continueStmt => exact Plain.continueLoop.bind fun _ => .pure
  | returnStmt =>
      cases ps with
      | nil => exact Plain.const.bind fun _ => Plain.bind (.basic rfl) fun _ => .pure
      | cons value rest => exact (h value (by simp)).expr.bind fun _ => Plain.bind (.basic rfl) fun _ => .pure
  | conditional =>
      match ps with
      | [] | [_] | [_, _] => exact .reject
      | cond :: thenPiece :: elsePiece :: rest =>
          refine (h cond (by simp)).expr.bind fun _ => ?_
          refine (Plain.branch ?_ ?_).bind fun _ => .pure
          · exact genBranch_plain (h thenPiece (by simp))
          · exact genBranch_plain (h elsePiece (by simp))
  | loop =>
      cases ps with
      | nil => exact .reject
      | cons body rest => exact (Plain.loop (genBranch_plain (h body (by simp)))).bind fun _ => .pure
  | block => exact genBlock_plain h
  | other => exact (genExpr_plain h).mark.bind fun _ => Plain.bind (.basic rfl) fun _ => .pure

end Nodes

mutual

theorem genNode_plain (sigs : List FnSig) (strtod : Text → Option UInt64) :
    ∀ (n : Node) {path}, (genNode sigs strtod path n).Plain
  | .mk _ _ _ children _, _ =>
      have h := genNodes_plain sigs strtod children 0
      { expr := (genExpr_plain h).mark
        stmt := (genStmt_plain h).mark
        block := (genBlock_plain h).mark }

theorem genNodes_plain (sigs : List FnSig) (strtod : Text → Option UInt64) :
    ∀ (ns : List Node) {path} (i : Nat), ∀ p ∈ genNodes sigs strtod path i ns, Piece.Plain p
  | [], _, _ => by
      intro p hp
      cases hp
  | n :: ns, _, i => by
      intro p hp
      rcases List.mem_cons.1 hp with rfl | hp
      · exact genNode_plain sigs strtod n
      · exact genNodes_plain sigs strtod ns (i + 1) p hp

end

theorem genParams_plain {ps : List Text} : (genParams ps).Plain := by
  induction ps with
  | nil => exact .pure
  | cons p ps ih => exact Gen.Plain.alloc.bind fun _ => ih

theorem genPrologue_plain {ps : List Text} : (genPrologue ps).Plain := by
  induction ps with
  | nil => exact .pure
  | cons p ps ih => exact Gen.Plain.find.bind fun _ => Gen.Plain.bind (.basic rfl) fun _ => ih

theorem genFn_plain {sigs : List FnSig} {strtod : Text → Option UInt64} {paramsRaw : Text} {body : List Node} :
    (genFn sigs strtod paramsRaw body).Plain := by
  unfold genFn
  refine Gen.Plain.ofOption.bind fun params => genParams_plain.bind fun _ => genPrologue_plain.bind fun _ => ?_
  cases body with
  | nil => exact .reject
  | cons body rest =>
      refine .ite ((genNode_plain sigs strtod body).block.bind fun didReturn => ?_) .reject
      exact .ite .pure (Gen.Plain.const.bind fun _ => .basic rfl)

end Aivm
