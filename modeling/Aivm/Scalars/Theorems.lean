import Aivm.Lib.Runs
import Aivm.Machine.Lemmas.Text
import Aivm.Machine.Step
import Aivm.Scalars.Doubles
import Aivm.Workers.Lemmas.Settled

/-!
# Results about whole numbers

Arithmetic on whole numbers is exact where the result fits into 64 bits, and has no defined result elsewhere. `EQ` and
`LT_NUM` compare whole numbers as doubles: of two different numbers they see the order if they are rounded to different
ones.
-/

namespace Aivm

open Trails VmM

variable {env : Env} {vm : Vm} {below : List Value}

/-- On two whole numbers, an instruction does nothing but push a value in their place. -/
def Computes {env : Env} (x : Routine env Unit) (l r : Int64) (v : Value) : Prop :=
  ∀ (vm : Vm) below, vm.stack = below ++ [.int l.toInt, .int r.toInt] → x.run vm = stackPush v { vm with stack := below }

/-- On two whole numbers, an instruction ends in an error of the VM. -/
def Refuses {env : Env} (x : Routine env Unit) (l r : Int64) : Prop :=
  ∀ (vm : Vm) below, vm.stack = below ++ [.int l.toInt, .int r.toInt] → ∃ vm', x.run vm = .fail vm' ∧ vm'.status = .error

/-! ## Arithmetic -/

theorem pushInt_run (i : Int) : (pushInt env i).run vm = match int64 i with
    | some i => stackPush (.int i) vm
    | none => .undefined := by
  simp only [pushInt, Routine.deref, Routine.push, Routine.bind_run, bind_run, deref]
  cases int64 i with
  | none => rfl
  | some i => rfl

section Operands

variable {l r : Int} (h : vm.stack = below ++ [.int l, .int r])

include h

theorem addInt_run : (addInt env).run vm = (pushInt env (l + r)).run { vm with stack := below } := by
  obtain ⟨h₁, h₂⟩ := pop_two h
  simp only [addInt, Routine.bind_run, Routine.pop, bind_run, h₁, h₂, Value.asNumber]

theorem subNum_run : (subNum env).run vm = (pushInt env (l - r)).run { vm with stack := below } := by
  obtain ⟨h₁, h₂⟩ := pop_two h
  simp only [subNum, numericOp, Routine.bind_run, Routine.pop, bind_run, h₁, h₂, Value.asNumber]

theorem mulNum_run : (mulNum env).run vm = (pushInt env (l * r)).run { vm with stack := below } := by
  obtain ⟨h₁, h₂⟩ := pop_two h
  simp only [mulNum, numericOp, Routine.bind_run, Routine.pop, bind_run, h₁, h₂, Value.asNumber]

theorem modNum_run (hr : env.floats.eq (env.floats.ofInt r) (env.floats.ofInt 0) = false) :
    (modNum env).run vm = match int64 (l.tdiv r) with
      | some _ => stackPush (.int (l.tmod r)) { vm with stack := below }
      | none => .undefined := by
  obtain ⟨h₁, h₂⟩ := pop_two h
  simp only [modNum, Routine.bind_run, Routine.pop, bind_run, h₁, h₂, Value.asNumber, hr, Bool.false_eq_true, if_false,
    Routine.deref, Routine.push, deref]
  cases int64 (l.tdiv r) with
  | none => rfl
  | some _ => rfl

theorem ltNum_run : (ltNum env).run vm =
    stackPush (.bool (env.floats.lt (env.floats.ofInt l) (env.floats.ofInt r))) { vm with stack := below } := by
  obtain ⟨h₁, h₂⟩ := pop_two h
  simp only [ltNum, Routine.bind_run, Routine.pop, Routine.push, bind_run, h₁, h₂, Value.asNumber]

theorem eqInt_run : (eqInt env).run vm = stackPush (.bool (l = r)) { vm with stack := below } := by
  obtain ⟨h₁, h₂⟩ := pop_two h
  simp only [eqInt, Routine.bind_run, Routine.pop, Routine.push, bind_run, h₁, h₂]

theorem eqOp_run : (eqOp env).run vm =
    stackPush (.bool (env.floats.eq (env.floats.ofInt l) (env.floats.ofInt r))) { vm with stack := below } := by
  obtain ⟨h₁, h₂⟩ := pop_two h
  simp only [eqOp, Routine.bind_run, Routine.pop, Routine.push, Routine.look, Routine.deref, VmM.look, bind_run, h₁, h₂,
    valueEquals, Value.asNumber, deref]

end Operands

/-- A value with two whole numbers on its stack and room for more. -/
theorem exists_operands (l r : Int64) : ∃ vm : Vm, vm.stack = [] ++ [.int l.toInt, .int r.toInt] ∧ 0 < vm.stackLimit := by
  obtain ⟨vm, hvm⟩ := Option.isSome_iff_exists.1
    (by decide +kernel : ((aivmInit .generous ⟨[⟨.halt, 0⟩], [], []⟩ 0).filter fun vm => 0 < vm.stackLimit).isSome = true)
  rw [Option.filter_eq_some_iff] at hvm
  exact ⟨{ vm with stack := [.int l.toInt, .int r.toInt] }, rfl, by simpa using hvm.2⟩

/-- An instruction has a defined outcome on two whole numbers. -/
def Defined {env : Env} (x : Routine env Unit) (l r : Int64) : Prop :=
  ∀ (vm : Vm) below, vm.stack = below ++ [.int l.toInt, .int r.toInt] → x.run vm ≠ .undefined

/-- The exact result where it fits, and an error of the VM elsewhere. -/
def ExactOrRefuses {env : Env} (x : Routine env Unit) (l r : Int64) (result : Int) : Prop :=
  match int64 result with
  | some i => Computes x l r (.int i)
  | none => Refuses x l r

/-- Arithmetic on two whole numbers is exact or fails. -/
structure ExactArithmetic (env : Env) (l r : Int64) : Prop where
  add : ExactOrRefuses (addInt env) l r (l.toInt + r.toInt)
  sub : ExactOrRefuses (subNum env) l r (l.toInt - r.toInt)
  mul : ExactOrRefuses (mulNum env) l r (l.toInt * r.toInt)
  mod : r ≠ 0 → Computes (modNum env) l r (.int (l.toInt.tmod r.toInt))
  defined : ∀ x ∈ [addInt env, subNum env, mulNum env, modNum env], Defined x l r

theorem stackPush_defined (v : Value) (vm : Vm) : stackPush v vm ≠ .undefined := by
  by_cases hroom : vm.stack.length + 1 ≤ (ensureStackCapacity (vm.stack.length + 1) vm).stackLimit
  · simp [stackPush, hroom]
  · simp [stackPush, hroom]

/-- An instruction that pushes its result where it fits. -/
theorem exactOrRefuses_iff {x : Routine env Unit} {l r : Int64} {result : Int}
    (hx : ∀ (vm : Vm) below, vm.stack = below ++ [.int l.toInt, .int r.toInt] →
      x.run vm = (pushInt env result).run { vm with stack := below }) :
    (ExactOrRefuses x l r result ↔ (int64 result).isSome) ∧ (Defined x l r ↔ (int64 result).isSome) := by
  cases hi : int64 result with
  | some i =>
      have hcomputes : Computes x l r (.int i) := by
        intro vm below hstack
        rw [hx vm below hstack, pushInt_run, hi]
      have hdefined : Defined x l r := by
        intro vm below hstack
        rw [hcomputes vm below hstack]
        exact stackPush_defined _ _
      simp [ExactOrRefuses, hi, hcomputes, hdefined]
  | none =>
      have hundefined : ∀ (vm : Vm) below, vm.stack = below ++ [.int l.toInt, .int r.toInt] → x.run vm = .undefined := by
        intro vm below hstack
        rw [hx vm below hstack, pushInt_run, hi]
      obtain ⟨vm, hstack, -⟩ := exists_operands l r
      have hrefuses : ¬ Refuses x l r := by
        intro h
        obtain ⟨vm', hfail, -⟩ := h vm [] hstack
        rw [hundefined vm [] hstack] at hfail
        cases hfail
      have hdefined : ¬ Defined x l r := fun h => h vm [] hstack (hundefined vm [] hstack)
      simp [ExactOrRefuses, hi, hrefuses, hdefined]

theorem int64_isSome {i : Int} : (int64 i).isSome ↔ -(2 ^ 63) ≤ i ∧ i < 2 ^ 63 := by
  unfold int64
  split <;> simp_all

/-- Only the quotient of the smallest number by `-1` does not fit. -/
theorem int64_tdiv {l r : Int64} : (int64 (l.toInt.tdiv r.toInt)).isSome ↔ ¬ (l = Int64.minValue ∧ r = -1) := by
  have hl := l.le_toInt
  have hl' := l.toInt_lt
  rw [int64_isSome, ← Int64.toInt_inj, ← Int64.toInt_inj]
  have hmin : Int64.minValue.toInt = -(2 ^ 63) := rfl
  have hminus : (-1 : Int64).toInt = -1 := rfl
  rw [hmin, hminus]
  have habs : (l.toInt.tdiv r.toInt).natAbs = l.toInt.natAbs / r.toInt.natAbs := Int.natAbs_tdiv ..
  have hle : l.toInt.natAbs / r.toInt.natAbs ≤ l.toInt.natAbs := Nat.div_le_self ..
  by_cases hr : r.toInt = -1
  · rw [hr, show (-1 : Int) = -(1 : Int) from rfl, Int.tdiv_neg, Int.tdiv_one]
    omega
  by_cases hsmall : l.toInt.natAbs < 2 ^ 63
  · omega
  · have hl : l.toInt = -(2 ^ 63) := by omega
    by_cases hpos : 0 ≤ r.toInt
    · have hneg : l.toInt.tdiv r.toInt ≤ 0 := by
        rw [hl, Int.neg_tdiv]
        exact Int.neg_nonpos_of_nonneg (Int.tdiv_nonneg (by decide) hpos)
      omega
    · have htwo : l.toInt.natAbs / r.toInt.natAbs ≤ l.toInt.natAbs / 2 := Nat.div_le_div_left (by omega) (by decide)
      omega

theorem modNum_iff {l r : Int64} (ops : env.floats.RoundsInts) :
    ((r ≠ 0 → Computes (modNum env) l r (.int (l.toInt.tmod r.toInt))) ↔ ¬ (l = Int64.minValue ∧ r = -1)) ∧
      (Defined (modNum env) l r ↔ ¬ (l = Int64.minValue ∧ r = -1)) := by
  have hzero : env.floats.eq (env.floats.ofInt r.toInt) (env.floats.ofInt 0) = decide (r = 0) := by
    have heq := ops.eq r 0
    have h0 : Rounding.round 53 (0 : Int64).toInt = 0 := (Rounding.round_eq_zero (by decide)).2 rfl
    rw [h0, show (0 : Int64).toInt = 0 from rfl] at heq
    rw [heq, decide_eq_decide, Rounding.round_eq_zero (by decide), ← Int64.toInt_inj]
    rfl
  by_cases hr : r = 0
  · subst hr
    have hdefined : Defined (modNum env) l 0 := by
      intro vm below hstack
      obtain ⟨h₁, h₂⟩ := pop_two hstack
      simp only [modNum, Routine.bind_run, Routine.pop, bind_run, h₁, h₂, Value.asNumber, hzero, decide_true, if_true]
      intro h
      cases h
    simp [hdefined]
  have hrun := fun (vm : Vm) below (hstack : vm.stack = below ++ [.int l.toInt, .int r.toInt]) =>
    modNum_run hstack (by rw [hzero]; simpa using hr : env.floats.eq (env.floats.ofInt r.toInt) (env.floats.ofInt 0) = false)
  rw [← int64_tdiv]
  cases hi : int64 (l.toInt.tdiv r.toInt) with
  | some i =>
      have hcomputes : Computes (modNum env) l r (.int (l.toInt.tmod r.toInt)) := by
        intro vm below hstack
        rw [hrun vm below hstack, hi]
      have hdefined : Defined (modNum env) l r := by
        intro vm below hstack
        rw [hcomputes vm below hstack]
        exact stackPush_defined _ _
      simp [hcomputes, hdefined]
  | none =>
      obtain ⟨vm, hstack, -⟩ := exists_operands l r
      have hundefined : (modNum env).run vm = .undefined := by rw [hrun vm [] hstack, hi]
      have hcomputes : ¬ Computes (modNum env) l r (.int (l.toInt.tmod r.toInt)) := by
        intro h
        have hpush := h vm [] hstack
        rw [hundefined] at hpush
        exact stackPush_defined _ _ hpush.symm
      have hdefined : ¬ Defined (modNum env) l r := fun h => h vm [] hstack hundefined
      simp [hr, hcomputes, hdefined]

/-- Arithmetic is exact for just the operands of which all results fit. -/
theorem arithmetic_exact_iff (ops : env.floats.RoundsInts) (l r : Int64) :
    ExactArithmetic env l r ↔
      (-(2 ^ 63) ≤ l.toInt + r.toInt ∧ l.toInt + r.toInt < 2 ^ 63) ∧
      (-(2 ^ 63) ≤ l.toInt - r.toInt ∧ l.toInt - r.toInt < 2 ^ 63) ∧
      (-(2 ^ 63) ≤ l.toInt * r.toInt ∧ l.toInt * r.toInt < 2 ^ 63) ∧ ¬ (l = Int64.minValue ∧ r = -1) := by
  have hadd := @exactOrRefuses_iff env (addInt env) l r _ fun _ _ h => addInt_run h
  have hsub := @exactOrRefuses_iff env (subNum env) l r _ fun _ _ h => subNum_run h
  have hmul := @exactOrRefuses_iff env (mulNum env) l r _ fun _ _ h => mulNum_run h
  have hmod := @modNum_iff env l r ops
  simp only [int64_isSome] at hadd hsub hmul
  constructor
  · intro h
    exact ⟨hadd.1.1 h.add, hsub.1.1 h.sub, hmul.1.1 h.mul, hmod.1.1 h.mod⟩
  · rintro ⟨ha, hs, hm, hq⟩
    refine ⟨hadd.1.2 ha, hsub.1.2 hs, hmul.1.2 hm, hmod.1.2 hq, ?_⟩
    simp only [List.mem_cons, List.not_mem_nil, or_false, forall_eq_or_imp, forall_eq]
    exact ⟨hadd.2.2 ha, hsub.2.2 hs, hmul.2.2 hm, hmod.2.2 hq⟩

theorem generous_arithmetic : ExactArithmetic { Env.generous with floats := .binary64 } 7 (-2) :=
  (arithmetic_exact_iff binary64_roundsInts 7 (-2)).2 (by decide)

/-- Adds one to the largest number. -/
def overflowProgram : Program := ⟨[⟨.pushInt, 2 ^ 63 - 1⟩, ⟨.pushInt, 1⟩, ⟨.addInt, 0⟩], [], []⟩

/-- The sum has no defined outcome. -/
theorem overflow_undefined : ∃ vm, (aivmInit .generous overflowProgram 0).bind (iterate (step .generous 0) 2) = some vm ∧
    vm.stack = [.int Int64.maxValue.toInt, .int (1 : Int64).toInt] ∧ step .generous 0 vm = none ∧
    ¬ ExactArithmetic .generous Int64.maxValue 1 := by
  have hrun : ((aivmInit .generous overflowProgram 0).bind (iterate (step .generous 0) 2)).map (fun vm =>
      (vm.stack, (step .generous 0 vm).isNone)) =
      some ([.int Int64.maxValue.toInt, .int (1 : Int64).toInt], true) := by
    decide +kernel
  obtain ⟨vm, hvm, h⟩ := Option.map_eq_some_iff.1 hrun
  simp only [Prod.mk.injEq, Option.isNone_iff_eq_none] at h
  refine ⟨vm, hvm, h.1, h.2, fun hexact => ?_⟩
  have hadd := (@exactOrRefuses_iff .generous (addInt .generous) Int64.maxValue 1 _ fun _ _ h => addInt_run h).1.1 hexact.add
  exact absurd hadd (by decide)

/-! ## Comparison -/

/-- Comparison of two whole numbers is that of the numbers. -/
structure ComparesInts (env : Env) (a b : Int64) : Prop where
  eq : Computes (eqOp env) a b (.bool (a = b))
  eqInt : Computes (eqInt env) a b (.bool (a = b))
  lt : Computes (ltNum env) a b (.bool (a.toInt < b.toInt))
  one : ∃ lt eq gt, Computes (ltNum env) a b (.bool lt) ∧ Computes (eqOp env) a b (.bool eq) ∧
    Computes (ltNum env) b a (.bool gt) ∧ (lt, eq, gt) ∈ [(true, false, false), (false, true, false), (false, false, true)]

/-- An instruction computes one value at most. -/
theorem Computes.unique {x : Routine env Unit} {l r : Int64} {v w : Value} (h : Computes x l r v) (h' : Computes x l r w) :
    v = w := by
  obtain ⟨vm, hstack, hroom⟩ := exists_operands l r
  have hsame := (h vm [] hstack).symm.trans (h' vm [] hstack)
  have hlimit : ∀ fuel, growLimit stackGrowthStep stackCapacity 1 fuel vm.stackLimit = vm.stackLimit := by
    intro fuel
    cases fuel with
    | zero => rfl
    | succ fuel => rw [growLimit, if_neg (by omega)]
  simpa [stackPush, ensureStackCapacity, ensureLimit, hlimit, Nat.succ_le_of_lt hroom] using hsame

/-- What is compared of a value. -/
inductive Content where
  | int (rounded : Int)
  | bool (b : Bool)
  | null
  | string (text : Option (List Byte))
  | bytes (data : List Byte)
  | node (handle : Nat)
  | pair (handle : Nat)
deriving DecidableEq

/-- The content of a string or of a null pointer. -/
def stringContent (h : Heap) (p : StrPtr) : Option Content :=
  if p = .null then some (.string none) else (h.cstr p).map fun text => .string (some text)

/-- The content of a value that has one. -/
def Value.content (h : Heap) : Value → Option Content
  | .int i => some (.int (Rounding.round 53 i))
  | .bool b => some (.bool b)
  | .null => some .null
  | .string p => stringContent h p
  | .bytes d n => (h.bytesAt d n).map .bytes
  | .node k => some (.node k)
  | .pair k => some (.pair k)
  | _ => none

theorem cstringEquals_eq {h : Heap} {p q : StrPtr} {c d : Content} (hc : stringContent h p = some c)
    (hd : stringContent h q = some d) : cstringEquals h p q = some (decide (c = d)) := by
  unfold cstringEquals
  by_cases hpq : p = q
  · subst hpq
    cases hc.symm.trans hd
    simp
  by_cases hp : p = .null
  · have hq : q ≠ .null := fun hq => hpq (hp.trans hq.symm)
    simp only [stringContent, hp, hq, if_true, if_false, Option.some.injEq, Option.map_eq_some_iff] at hc hd
    obtain ⟨text, -, rfl⟩ := hd
    subst hc
    simp [hp, Ne.symm hq]
  by_cases hq : q = .null
  · simp only [stringContent, hp, hq, if_true, if_false, Option.some.injEq, Option.map_eq_some_iff] at hc hd
    obtain ⟨text, -, rfl⟩ := hc
    subst hd
    simp [hp, hq]
  · simp only [stringContent, hp, hq, if_false, Option.map_eq_some_iff] at hc hd
    obtain ⟨text, htext, rfl⟩ := hc
    obtain ⟨text', htext', rfl⟩ := hd
    simp [hpq, hp, hq, htext, htext']

theorem bytesEquals_eq {ops : FloatOps} {h : Heap} {d e : BytesPtr} {n m : Nat} {data data' : List Byte}
    (hd : h.bytesAt d n = some data) (he : h.bytesAt e m = some data') :
    valueEquals ops h (.bytes d n) (.bytes e m) = some (decide (data = data')) := by
  have hn := bytesAt_length hd
  have hm := bytesAt_length he
  simp only [valueEquals, Value.asNumber]
  by_cases hnm : n = m
  · subst hnm
    by_cases hz : n = 0
    · have hnil : data = [] := List.length_eq_zero_iff.1 (hn.trans hz)
      have hnil' : data' = [] := List.length_eq_zero_iff.1 (hm.trans hz)
      simp [hz, hnil, hnil']
    · have hdn : d ≠ .null := by
        rintro rfl
        simp [Heap.bytesAt, hz] at hd
      have hen : e ≠ .null := by
        rintro rfl
        simp [Heap.bytesAt, hz] at he
      simp [hz, hdn, hen, hd, he]
  · have hne : data ≠ data' := by
      rintro rfl
      exact hnm (hn.symm.trans hm)
    simp [hnm, hne]

/-- The type of the values with a content. -/
def Content.typeName : Content → String
  | .int _ => "int"
  | .bool _ => "bool"
  | .null => "null"
  | .string _ => "string"
  | .bytes _ => "bytes"
  | .node _ => "node"
  | .pair _ => "pair"

theorem content_typeName {h : Heap} {v : Value} {c : Content} (hc : v.content h = some c) : v.typeName = c.typeName := by
  cases v with
  | string p =>
      simp only [Value.content, stringContent] at hc
      split at hc
      · cases hc
        rfl
      · obtain ⟨text, -, rfl⟩ := Option.map_eq_some_iff.1 hc
        rfl
  | bytes d n =>
      obtain ⟨data, -, rfl⟩ := Option.map_eq_some_iff.1 hc
      rfl
  | _ => cases hc <;> rfl

/-- Values of different types are different, but for numbers. -/
theorem valueEquals_of_typeName_ne {ops : FloatOps} {h : Heap} {v w : Value} (hne : v.typeName ≠ w.typeName)
    (hv : v.typeName ≠ "number") (hw : w.typeName ≠ "number") : valueEquals ops h v w = some false := by
  have hnumbers : v.asNumber ops = none ∨ w.asNumber ops = none := by
    cases v with
    | int i =>
        cases w with
        | int j => exact absurd rfl hne
        | number x => exact absurd rfl hw
        | _ => exact .inr rfl
    | number x => exact absurd rfl hv
    | _ => exact .inl rfl
  unfold valueEquals
  split
  · simp_all
  · split
    all_goals first | rfl | exact absurd rfl hne

/-- Values are equal if they have the same content. -/
theorem valueEquals_eq {ops : FloatOps} (hops : ops.RoundsInts) {h : Heap} {v w : Value} {c d : Content}
    (hv : ∀ i, v = .int i → ∃ a : Int64, i = a.toInt) (hw : ∀ i, w = .int i → ∃ a : Int64, i = a.toInt)
    (hc : v.content h = some c) (hd : w.content h = some d) : valueEquals ops h v w = some (decide (c = d)) := by
  have hkind := content_typeName hc
  have hkind' := content_typeName hd
  by_cases hsame : v.typeName = w.typeName
  · cases v with
    | int i =>
        obtain ⟨a, rfl⟩ := hv i rfl
        cases w with
        | int j =>
            obtain ⟨b, rfl⟩ := hw j rfl
            cases hc
            cases hd
            simp [valueEquals, Value.asNumber, hops.eq]
        | _ => simp [Value.typeName] at hsame
    | bool a =>
        cases w with
        | bool b =>
            cases hc
            cases hd
            simp [valueEquals, Value.asNumber]
        | _ => simp [Value.typeName] at hsame
    | null =>
        cases w with
        | null =>
            cases hc
            cases hd
            simp [valueEquals, Value.asNumber]
        | _ => simp [Value.typeName] at hsame
    | string p =>
        cases w with
        | string q => exact cstringEquals_eq hc hd
        | _ => simp [Value.typeName] at hsame
    | bytes e n =>
        cases w with
        | bytes f m =>
            obtain ⟨data, hdata, rfl⟩ := Option.map_eq_some_iff.1 hc
            obtain ⟨data', hdata', rfl⟩ := Option.map_eq_some_iff.1 hd
            simp [bytesEquals_eq hdata hdata']
        | _ => simp [Value.typeName] at hsame
    | node a =>
        cases w with
        | node b =>
            cases hc
            cases hd
            simp [valueEquals, Value.asNumber]
        | _ => simp [Value.typeName] at hsame
    | pair a =>
        cases w with
        | pair b =>
            cases hc
            cases hd
            simp [valueEquals, Value.asNumber]
        | _ => simp [Value.typeName] at hsame
    | _ => cases hc
  · have hcd : c ≠ d := by
      rintro rfl
      exact hsame (hkind.trans hkind'.symm)
    have hnumber : ∀ c : Content, c.typeName ≠ "number" := by
      intro c
      cases c <;> simp [Content.typeName]
    rw [valueEquals_of_typeName_ne hsame (hkind ▸ hnumber c) (hkind' ▸ hnumber d)]
    simp [hcd]

/-- A value with a content; its whole numbers fit into 64 bits. -/
structure Value.Comparable (h : Heap) (v : Value) : Prop where
  int64 : ∀ i, v = .int i → ∃ a : Int64, i = a.toInt
  readable : (v.content h).isSome

/-- Equality is an equivalence relation on the values with a content. -/
theorem valueEquals_equivalence {ops : FloatOps} (hops : ops.RoundsInts) (h : Heap) :
    Equivalence fun v w : { v : Value // v.Comparable h } => valueEquals ops h v.1 w.1 = some true := by
  have heq : ∀ v w : { v : Value // v.Comparable h },
      valueEquals ops h v.1 w.1 = some true ↔ v.1.content h = w.1.content h := by
    rintro ⟨v, hv⟩ ⟨w, hw⟩
    obtain ⟨c, hc⟩ := Option.isSome_iff_exists.1 hv.readable
    obtain ⟨d, hd⟩ := Option.isSome_iff_exists.1 hw.readable
    simp [valueEquals_eq hops hv.int64 hw.int64 hc hd, hc, hd]
  refine ⟨fun v => (heq v v).2 rfl, fun {v w} hvw => ?_, fun {u v w} huv hvw => ?_⟩
  · exact (heq w v).2 ((heq v w).1 hvw).symm
  · exact (heq u w).2 (((heq u v).1 huv).trans ((heq v w).1 hvw))

theorem computes_lt (ops : env.floats.RoundsInts) (a b : Int64) :
    Computes (ltNum env) a b (.bool (Rounding.round 53 a.toInt < Rounding.round 53 b.toInt)) := by
  intro vm below hstack
  rw [ltNum_run hstack, ops.lt]

theorem computes_eq (ops : env.floats.RoundsInts) (a b : Int64) :
    Computes (eqOp env) a b (.bool (Rounding.round 53 a.toInt = Rounding.round 53 b.toInt)) := by
  intro vm below hstack
  rw [eqOp_run hstack, ops.eq]

theorem computes_eqInt (a b : Int64) : Computes (eqInt env) a b (.bool (a = b)) := by
  intro vm below hstack
  rw [eqInt_run hstack]
  simp [Int64.toInt_inj]

/-- One of two numbers is before the other, or a number is compared to itself. -/
theorem compares_one (ops : env.floats.RoundsInts) (a b : Int64) :
    ∃ lt eq gt, Computes (ltNum env) a b (.bool lt) ∧ Computes (eqOp env) a b (.bool eq) ∧
      Computes (ltNum env) b a (.bool gt) ∧
      (lt, eq, gt) ∈ [(true, false, false), (false, true, false), (false, false, true)] := by
  refine ⟨_, _, _, computes_lt ops a b, computes_eq ops a b, computes_lt ops b a, ?_⟩
  rcases lt_trichotomy (Rounding.round 53 a.toInt) (Rounding.round 53 b.toInt) with h | h | h
  · simp [h, h.ne, not_lt_of_gt h]
  · simp [h]
  · simp [h, h.ne', not_lt_of_gt h]

/-- Two whole numbers are compared right if they are the same or are rounded to different ones; equality is an
equivalence anyway. -/
theorem comparesInts_iff (ops : env.floats.RoundsInts) (a b : Int64) :
    ((∀ h : Heap, Equivalence fun v w : { v : Value // v.Comparable h } =>
        valueEquals env.floats h v.1 w.1 = some true) ∧ ComparesInts env a b) ↔
      a = b ∨ Rounding.round 53 a.toInt ≠ Rounding.round 53 b.toInt := by
  constructor
  · rintro ⟨-, h⟩
    have heq := h.eq.unique (computes_eq ops a b)
    by_cases hab : a = b
    · exact .inl hab
    · refine .inr fun hround => ?_
      simp [hab, hround] at heq
  · intro h
    refine ⟨fun heap => valueEquals_equivalence ops heap, ⟨?_, computes_eqInt a b, ?_, compares_one ops a b⟩⟩
    · have hsame : (Rounding.round 53 a.toInt = Rounding.round 53 b.toInt) ↔ a = b := by
        refine ⟨fun hround => h.resolve_right (not_not_intro hround), fun hab => by rw [hab]⟩
      simpa only [hsame] using computes_eq ops a b
    · have hless : (Rounding.round 53 a.toInt < Rounding.round 53 b.toInt) ↔ a.toInt < b.toInt := by
        rcases h with rfl | hne
        · simp
        · exact Rounding.round_lt_iff (by decide) hne
      simpa only [hless] using computes_lt ops a b

theorem compares_seven : ComparesInts { Env.generous with floats := .binary64 } 7 (-2) :=
  ((comparesInts_iff binary64_roundsInts 7 (-2)).2 (.inr (by decide))).2

/-- The first two whole numbers that are rounded to the same one are equal, and not equal. -/
theorem equal_when_rounded : Computes (eqOp { Env.generous with floats := .binary64 }) (2 ^ 53) (2 ^ 53 + 1) (.bool true) ∧
    Computes (eqInt { Env.generous with floats := .binary64 }) (2 ^ 53) (2 ^ 53 + 1) (.bool false) ∧
    Computes (ltNum { Env.generous with floats := .binary64 }) (2 ^ 53) (2 ^ 53 + 1) (.bool false) :=
  ⟨computes_eq binary64_roundsInts _ _, computes_eqInt _ _, computes_lt binary64_roundsInts _ _⟩

end Aivm
