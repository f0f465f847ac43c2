import Aivm.Model.Rules

/-!
# Rules for all outcomes

A failed operation leaves a state behind as well, and the machine may go on in it. `Ends Q x vm` says that `Q` holds
between `vm` and the state that `x` leaves there, whether it succeeds or fails.
-/

namespace Aivm

/-- The state an operation leaves. -/
def Outcome.state? {α : Type} : Outcome α → Option Vm
  | .ok _ vm => some vm
  | .fail vm => some vm
  | .undefined => none

namespace VmM

variable {α β : Type} {Q Q' : Vm → Vm → Prop} {vm : Vm}

def Ends (Q : Vm → Vm → Prop) (x : VmM α) (vm : Vm) : Prop := ∀ vm', (x vm).state? = some vm' → Q vm vm'

/-- An invariant that is kept, as a relation. -/
def Keeping (I : Vm → Prop) (vm vm' : Vm) : Prop := I vm → I vm'

theorem Keeping.chains (I : Vm → Prop) : Chains (Keeping I) where
  refl _ h := h
  trans hab hbc h := hbc (hab h)

theorem Chains.and (hq : Chains Q) (hq' : Chains Q') : Chains fun vm vm' => Q vm vm' ∧ Q' vm vm' where
  refl vm := ⟨hq.refl vm, hq'.refl vm⟩
  trans hab hbc := ⟨hq.trans hab.1 hbc.1, hq'.trans hab.2 hbc.2⟩

namespace Ends

theorem ok {x : VmM α} {a vm'} (h : Ends Q x vm) (hx : x vm = .ok a vm') : Q vm vm' := h vm' (by simp [hx, Outcome.state?])

theorem fail {x : VmM α} {vm'} (h : Ends Q x vm) (hx : x vm = .fail vm') : Q vm vm' := h vm' (by simp [hx, Outcome.state?])

/-- The two kinds of states that are left. -/
theorem of_cases {x : VmM α} (hok : ∀ a vm', x vm = .ok a vm' → Q vm vm') (hfail : ∀ vm', x vm = .fail vm' → Q vm vm') :
    Ends Q x vm := by
  intro vm' h
  cases hx : x vm with
  | ok a vm₁ =>
      simp only [hx, Outcome.state?, Option.some.injEq] at h
      exact h ▸ hok a vm₁ hx
  | fail vm₁ =>
      simp only [hx, Outcome.state?, Option.some.injEq] at h
      exact h ▸ hfail vm₁ hx
  | undefined => simp [hx, Outcome.state?] at h

theorem mono {x : VmM α} (h : Ends Q x vm) (hq : ∀ vm', Q vm vm' → Q' vm vm') : Ends Q' x vm := fun vm' hx => hq vm' (h vm' hx)

theorem and {x : VmM α} (h : Ends Q x vm) (h' : Ends Q' x vm) : Ends (fun vm vm' => Q vm vm' ∧ Q' vm vm') x vm :=
  fun vm' hx => ⟨h vm' hx, h' vm' hx⟩

theorem pure (hq : Chains Q) (a : α) : Ends Q (Pure.pure a : VmM α) vm := by
  intro vm' h
  simp only [pure_run, Outcome.state?, Option.some.injEq] at h
  exact h ▸ hq.refl vm

theorem giveUp (hq : Chains Q) : Ends Q (VmM.giveUp : VmM α) vm := by
  intro vm' h
  simp only [giveUp_run, Outcome.state?, Option.some.injEq] at h
  exact h ▸ hq.refl vm

theorem throw {f : Fault} (h : Q vm (setVmError f vm)) : Ends Q (VmM.throw f : VmM α) vm := by
  intro vm' hx
  simp only [throw_run, Outcome.state?, Option.some.injEq] at hx
  exact hx ▸ h

theorem modify {f : Vm → Vm} (h : Q vm (f vm)) : Ends Q (VmM.modify f) vm := by
  intro vm' hx
  simp only [modify_run, Outcome.state?, Option.some.injEq] at hx
  exact hx ▸ h

theorem deref (hq : Chains Q) (x : Option α) : Ends Q (VmM.deref x) vm := by
  intro vm' h
  cases x with
  | none => simp [VmM.deref, Outcome.state?] at h
  | some a =>
      simp only [VmM.deref, Outcome.state?, Option.some.injEq] at h
      exact h ▸ hq.refl vm

theorem lift (hq : Chains Q) {f : Vm → Except Fault α} (h : ∀ e, f vm = .error e → Q vm (setVmError e vm)) :
    Ends Q (VmM.lift f) vm := by
  intro vm' hx
  cases hf : f vm with
  | ok a =>
      simp only [VmM.lift, hf, Outcome.state?, Option.some.injEq] at hx
      exact hx ▸ hq.refl vm
  | error e =>
      simp only [VmM.lift, hf, Outcome.state?, Option.some.injEq] at hx
      exact hx ▸ h e hf

theorem updateOr {e : Fault} {f : Vm → Option Vm} (hok : ∀ vm', f vm = some vm' → Q vm vm')
    (he : Q vm (setVmError e vm)) : Ends Q (VmM.updateOr e f) vm := by
  intro vm' hx
  cases hf : f vm with
  | some vm₁ =>
      simp only [VmM.updateOr, hf, Outcome.state?, Option.some.injEq] at hx
      exact hx ▸ hok vm₁ hf
  | none =>
      simp only [VmM.updateOr, hf, Outcome.state?, Option.some.injEq] at hx
      exact hx ▸ he

theorem onFail (hq : Chains Q) {f : Vm → Vm} {x : VmM α} (h : Ends Q x vm) (hf : ∀ vm', x vm = .fail vm' → Q vm' (f vm')) :
    Ends Q (VmM.onFail f x) vm := by
  refine of_cases (fun a vm' hx => h.ok (onFail_ok.1 hx)) fun vm' hx => ?_
  unfold VmM.onFail at hx
  split at hx
  · rename_i vm₁ h₁
    cases hx
    exact hq.trans (h.fail h₁) (hf vm₁ h₁)
  · rename_i hne
    exact absurd hx (hne vm')

theorem bind (hq : Chains Q) {x : VmM α} {f : α → VmM β} (hx : Ends Q x vm)
    (hf : ∀ a vm₁, x vm = .ok a vm₁ → Ends Q (f a) vm₁) : Ends Q (x >>= f) vm := by
  intro vm' h
  rw [bind_run] at h
  cases h₁ : x vm with
  | ok a vm₁ =>
      simp only [h₁] at h
      exact hq.trans (hx.ok h₁) (hf a vm₁ h₁ vm' h)
  | fail vm₁ =>
      simp only [h₁, Outcome.state?, Option.some.injEq] at h
      exact h ▸ hx.fail h₁
  | undefined => simp [h₁, Outcome.state?] at h

theorem ite {c : Prop} [Decidable c] {x y : VmM α} (hx : c → Ends Q x vm) (hy : ¬ c → Ends Q y vm) :
    Ends Q (if c then x else y) vm := by
  split
  · rename_i h
    exact hx h
  · rename_i h
    exact hy h

/-- Reading the state changes nothing. -/
theorem get_bind {f : Vm → VmM β} (h : Ends Q (f vm) vm) : Ends Q (VmM.get >>= f) vm := h

theorem modify_bind (hq : Chains Q) {g : Vm → Vm} {f : Unit → VmM β} (hg : Q vm (g vm)) (h : Ends Q (f ()) (g vm)) :
    Ends Q (VmM.modify g >>= f) vm := by
  refine bind hq (modify hg) fun _ vm₁ h₁ => ?_
  simp only [modify_run, Outcome.ok.injEq, true_and] at h₁
  exact h₁ ▸ h

theorem allocate (hq : Chains Q) {env : Env} {detail : String} (h : Q vm (setVmError ⟨.memoryPressure, detail⟩ vm)) :
    Ends Q (env.allocate detail) vm := by
  intro vm' hx
  unfold Env.allocate at hx
  split at hx
  · simp only [Outcome.state?, Option.some.injEq] at hx
    exact hx ▸ hq.refl vm
  · simp only [Outcome.state?, Option.some.injEq] at hx
    exact hx ▸ h

theorem allocateIf (hq : Chains Q) {env : Env} {needed : Bool} {detail : String}
    (h : Q vm (setVmError ⟨.memoryPressure, detail⟩ vm)) : Ends Q (env.allocateIf needed detail) vm := by
  unfold Env.allocateIf
  split
  · exact allocate hq h
  · exact pure hq ()

theorem mapM (hq : Chains Q) {f : α → VmM β} (hf : ∀ a vm, Ends Q (f a) vm) : ∀ (as : List α) {vm}, Ends Q (as.mapM f) vm := by
  intro as
  induction as with
  | nil =>
      intro vm
      exact pure hq []
  | cons a as ih =>
      intro vm
      rw [List.mapM_cons]
      exact bind hq (hf a vm) fun _ _ _ => bind hq ih fun _ _ _ => pure hq _

end Ends

end VmM

end Aivm
