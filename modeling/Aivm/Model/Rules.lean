import Aivm.Model.Env

/-!
# Rules for operations

Two judgements about an operation of the VM, with one rule for each way of putting operations together: whenever it
succeeds, a relation holds between the states before and after; and whenever it succeeds, so does another operation,
with the same result.
-/

namespace Aivm.VmM

variable {α β : Type} {Q : Vm → Vm → Prop}

/-- A relation between states that can be chained along a run. -/
structure Chains (Q : Vm → Vm → Prop) : Prop where
  refl : ∀ vm, Q vm vm
  trans : ∀ {a b c}, Q a b → Q b c → Q a c

/-- Every successful run stays within `Q`. -/
def Within (Q : Vm → Vm → Prop) (x : VmM α) : Prop := ∀ vm a vm', x vm = .ok a vm' → Q vm vm'

namespace Within

theorem pure (hq : Chains Q) (a : α) : Within Q (Pure.pure a : VmM α) := by
  intro vm b vm' h
  cases h
  exact hq.refl vm

theorem get (hq : Chains Q) : Within Q VmM.get := by
  intro vm b vm' h
  cases h
  exact hq.refl vm

theorem deref (hq : Chains Q) (x : Option α) : Within Q (VmM.deref x) := by
  intro vm b vm' h
  obtain ⟨_, rfl⟩ := deref_ok.1 h
  exact hq.refl _

theorem throw (f : Fault) : Within Q (VmM.throw f : VmM α) := by
  intro vm b vm' h
  cases h

theorem throw_bind (f : Fault) (g : α → VmM β) : Within Q (VmM.throw f >>= g) := by
  intro vm b vm' h
  cases h

theorem giveUp : Within Q (VmM.giveUp : VmM α) := by
  intro vm b vm' h
  cases h

theorem allocate (hq : Chains Q) (env : Env) (detail : String) : Within Q (env.allocate detail) := by
  intro vm b vm' h
  rw [Env.allocate_ok h]
  exact hq.refl _

theorem onFail {f : Vm → Vm} {x : VmM α} (h : Within Q x) : Within Q (VmM.onFail f x) :=
  fun _ _ _ hx => h _ _ _ (onFail_ok.1 hx)

theorem bind (hq : Chains Q) {x : VmM α} {f : α → VmM β} (hx : Within Q x) (hf : ∀ a, Within Q (f a)) :
    Within Q (x >>= f) := by
  intro vm b vm' h
  obtain ⟨a, vm₁, h₁, h₂⟩ := bind_ok.1 h
  exact hq.trans (hx _ _ _ h₁) (hf a _ _ _ h₂)

end Within

/-- Where `x` succeeds, `y` does the same. -/
def Refines (x y : VmM α) : Prop := ∀ vm a vm', x vm = .ok a vm' → y vm = .ok a vm'

namespace Refines

theorem refl (x : VmM α) : Refines x x := fun _ _ _ h => h

theorem throw_bind (f : Fault) (g : α → VmM β) (y : VmM β) : Refines (VmM.throw f >>= g) y := by
  intro vm b vm' h
  cases h

theorem onFail {f : Vm → Vm} {x y : VmM α} (h : Refines x y) : Refines (VmM.onFail f x) (VmM.onFail f y) :=
  fun _ _ _ hx => onFail_ok.2 (h _ _ _ (onFail_ok.1 hx))

theorem bind {x y : VmM α} {f g : α → VmM β} (hx : Refines x y) (hf : ∀ a, Refines (f a) (g a)) :
    Refines (x >>= f) (y >>= g) := by
  intro vm b vm' h
  obtain ⟨a, vm₁, h₁, h₂⟩ := bind_ok.1 h
  exact bind_ok.2 ⟨a, vm₁, hx _ _ _ h₁, hf a _ _ _ h₂⟩

end Refines

end Aivm.VmM
