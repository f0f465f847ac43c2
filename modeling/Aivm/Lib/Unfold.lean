import Mathlib

/-!
# Finite trees denoted by pointer structures

A pointer structure is a partial function `e` that reads the cell behind a pointer: a label and the pointers
stored in the cell. Following the pointers from `v` may end in a finite tree (`Denotes e v t`). Two structures
denote the same trees as soon as a relation between their pointers is a simulation.
-/

namespace Unfold

universe u

/-- Finite trees with labels in `L`. -/
inductive Tree (L : Type u) where
  | node (label : L) (children : List (Tree L))

variable {V W L : Type u}

/-- The tree below a pointer, read with depth at most `n`; `none` when the depth does not reach its leaves. -/
def unfold (e : V → Option (L × List V)) : Nat → V → Option (Tree L)
  | 0, _ => none
  | n + 1, v => do
      let c ← e v
      let ts ← c.2.mapM (unfold e n)
      return .node c.1 ts

/-- The pointer `v` denotes the finite tree `t`. -/
def Denotes (e : V → Option (L × List V)) (v : V) (t : Tree L) : Prop := ∃ n, unfold e n v = some t

/-- Related pointers lead to cells with the same label and related pointers. -/
def Simulates (e : V → Option (L × List V)) (e' : W → Option (L × List W)) (R : V → W → Prop) : Prop :=
  ∀ v w, R v w → ∀ l vs, e v = some (l, vs) → ∃ ws, e' w = some (l, ws) ∧ List.Forall₂ R vs ws

theorem mapM_eq_some {f : V → Option W} {vs : List V} {ws : List W} :
    vs.mapM f = some ws ↔ List.Forall₂ (fun v w => f v = some w) vs ws := by
  induction vs generalizing ws with
  | nil => simp [eq_comm]
  | cons v vs ih =>
      simp only [List.mapM_cons, Option.bind_eq_bind, Option.bind_eq_some_iff, Option.pure_def, Option.some.injEq,
        List.forall₂_cons_left_iff]
      constructor
      · rintro ⟨w, hw, us, hus, rfl⟩
        exact ⟨w, us, hw, ih.1 hus, rfl⟩
      · rintro ⟨w, us, hw, hus, rfl⟩
        exact ⟨w, hw, us, ih.2 hus, rfl⟩

theorem forall₂_getElem? {R : V → W → Prop} {vs : List V} {ws : List W} (h : List.Forall₂ R vs ws) {i : Nat} {v}
    (hv : vs[i]? = some v) : ∃ w, ws[i]? = some w ∧ R v w := by
  obtain ⟨hi, rfl⟩ := List.getElem?_eq_some_iff.1 hv
  have hi' : i < ws.length := h.length_eq ▸ hi
  exact ⟨ws[i], List.getElem?_eq_getElem hi', h.get hi hi'⟩

theorem forall₂_getElem?' {R : V → W → Prop} {vs : List V} {ws : List W} (h : List.Forall₂ R vs ws) {i : Nat} {w}
    (hw : ws[i]? = some w) : ∃ v, vs[i]? = some v ∧ R v w := by
  obtain ⟨v, hv, hvw⟩ := forall₂_getElem? h.flip hw
  exact ⟨v, hv, hvw⟩

theorem unfold_succ {e : V → Option (L × List V)} {n v t} :
    unfold e (n + 1) v = some t ↔
      ∃ l vs ts, e v = some (l, vs) ∧ List.Forall₂ (fun u s => unfold e n u = some s) vs ts ∧ t = .node l ts := by
  simp only [unfold, Option.bind_eq_bind, Option.bind_eq_some_iff, Option.pure_def, Option.some.injEq]
  constructor
  · rintro ⟨⟨l, vs⟩, hc, ts, hts, rfl⟩
    exact ⟨l, vs, ts, hc, mapM_eq_some.1 hts, rfl⟩
  · rintro ⟨l, vs, ts, hc, hts, rfl⟩
    exact ⟨(l, vs), hc, ts, mapM_eq_some.2 hts, rfl⟩

theorem Simulates.unfold {e : V → Option (L × List V)} {e' : W → Option (L × List W)} {R : V → W → Prop}
    (hR : Simulates e e' R) {n : Nat} :
    ∀ {v w t}, R v w → Unfold.unfold e n v = some t → Unfold.unfold e' n w = some t := by
  induction n with
  | zero =>
      intro v w t _ h
      simp [Unfold.unfold] at h
  | succ n ih =>
      intro v w t hvw h
      obtain ⟨l, vs, ts, hc, hts, rfl⟩ := unfold_succ.1 h
      obtain ⟨ws, hw, hrel⟩ := hR v w hvw l vs hc
      refine unfold_succ.2 ⟨l, ws, ts, hw, ?_, rfl⟩
      clear hc hw h
      induction hts generalizing ws with
      | nil =>
          cases hrel
          exact .nil
      | cons h _ iht =>
          cases hrel with
          | cons hr hrest => exact .cons (ih hr h) (iht _ hrest)

theorem Simulates.denotes {e : V → Option (L × List V)} {e' : W → Option (L × List W)} {R : V → W → Prop}
    (hR : Simulates e e' R) {v w t} (hvw : R v w) (h : Denotes e v t) : Denotes e' w t := by
  obtain ⟨n, hn⟩ := h
  exact ⟨n, hR.unfold hvw hn⟩

/-- When a missing cell is missing on both sides, related pointers denote the same trees. -/
theorem Simulates.denotes_iff {e : V → Option (L × List V)} {e' : W → Option (L × List W)} {R : V → W → Prop}
    (hR : Simulates e e' R) (hnone : ∀ v w, R v w → e v = none → e' w = none) {v w t} (hvw : R v w) :
    Denotes e v t ↔ Denotes e' w t := by
  refine ⟨hR.denotes hvw, ?_⟩
  rintro ⟨n, hn⟩
  refine ⟨n, ?_⟩
  induction n generalizing v w t with
  | zero => simp [Unfold.unfold] at hn
  | succ n ih =>
      obtain ⟨l, ws, ts, hc, hts, rfl⟩ := unfold_succ.1 hn
      cases hv : e v with
      | none => simp [hnone v w hvw hv] at hc
      | some c =>
          obtain ⟨l', vs⟩ := c
          obtain ⟨ws', hw, hrel⟩ := hR v w hvw l' vs hv
          rw [hc] at hw
          cases hw
          refine unfold_succ.2 ⟨l, vs, ts, hv, ?_, rfl⟩
          clear hc hv hn
          induction hrel generalizing ts with
          | nil =>
              cases hts
              exact .nil
          | cons hr _ iht =>
              cases hts with
              | cons h hrest => exact .cons (ih hr h) (iht _ hrest)

theorem forall₂_imp_mem {R S : V → W → Prop} {vs : List V} {ws : List W} (h : List.Forall₂ R vs ws)
    (himp : ∀ v w, v ∈ vs → R v w → S v w) : List.Forall₂ S vs ws := by
  induction h with
  | nil => exact .nil
  | cons hr _ ih =>
      exact .cons (himp _ _ (List.mem_cons_self ..) hr) (ih fun v w hv => himp v w (List.mem_cons_of_mem _ hv))

theorem exists_forall₂ {R : V → W → Prop} {vs : List V} (h : ∀ v ∈ vs, ∃ w, R v w) : ∃ ws, List.Forall₂ R vs ws := by
  induction vs with
  | nil => exact ⟨[], .nil⟩
  | cons v vs ih =>
      obtain ⟨w, hw⟩ := h v (List.mem_cons_self ..)
      obtain ⟨ws, hws⟩ := ih fun u hu => h u (List.mem_cons_of_mem _ hu)
      exact ⟨w :: ws, .cons hw hws⟩

theorem forall₂_comp {α β γ : Type u} {R : α → β → Prop} {S : β → γ → Prop} {T : α → γ → Prop}
    (h : ∀ {a b c}, R a b → S b c → T a c) : ∀ {as bs cs}, List.Forall₂ R as bs → List.Forall₂ S bs cs →
      List.Forall₂ T as cs := by
  intro as bs cs hab
  induction hab generalizing cs with
  | nil =>
      intro hbc
      cases hbc
      exact .nil
  | cons hr _ ih =>
      intro hbc
      cases hbc with
      | cons hs hrest => exact .cons (h hr hs) (ih hrest)

theorem Simulates.comp {X : Type u} {e : V → Option (L × List V)} {f : W → Option (L × List W)}
    {g : X → Option (L × List X)} {R : V → W → Prop} {S : W → X → Prop} (h : Simulates e f R) (h' : Simulates f g S) :
    Simulates e g (Relation.Comp R S) := by
  rintro v x ⟨w, hvw, hwx⟩ l vs hv
  obtain ⟨ws, hw, hr⟩ := h v w hvw l vs hv
  obtain ⟨xs, hx, hs⟩ := h' w x hwx l ws hw
  exact ⟨xs, hx, forall₂_comp (fun hr hs => ⟨_, hr, hs⟩) hr hs⟩

/-- A structure in which every old cell still reads the same denotes every old tree. -/
theorem Denotes.extend {e e' : V → Option (L × List V)} (he : ∀ v c, e v = some c → e' v = some c) {v t}
    (h : Denotes e v t) : Denotes e' v t := by
  refine Simulates.denotes (R := Eq) ?_ rfl h
  rintro v _ rfl l vs hc
  exact ⟨vs, he v _ hc, List.forall₂_refl vs⟩

theorem unfold_mono {e : V → Option (L × List V)} {n : Nat} :
    ∀ {m v t}, n ≤ m → unfold e n v = some t → unfold e m v = some t := by
  induction n with
  | zero =>
      intro m v t _ h
      simp [unfold] at h
  | succ n ih =>
      intro m v t hm h
      obtain ⟨l, vs, ts, hc, hts, rfl⟩ := unfold_succ.1 h
      obtain ⟨m, rfl⟩ : ∃ k, m = k + 1 := ⟨m - 1, by omega⟩
      exact unfold_succ.2 ⟨l, vs, ts, hc, hts.imp fun _ _ hu => ih (by omega) hu, rfl⟩

theorem Denotes.unique {e : V → Option (L × List V)} {v t t'} (h : Denotes e v t) (h' : Denotes e v t') :
    t = t' := by
  obtain ⟨n, hn⟩ := h
  obtain ⟨m, hm⟩ := h'
  have hl := unfold_mono (Nat.le_max_left n m) hn
  have hr := unfold_mono (Nat.le_max_right n m) hm
  rw [hl] at hr
  exact Option.some.inj hr

/-- The tree of a cell is its label over the trees of its pointers. -/
theorem denotes_node {e : V → Option (L × List V)} {v l vs ts} (hc : e v = some (l, vs))
    (hts : List.Forall₂ (Denotes e) vs ts) : Denotes e v (.node l ts) := by
  suffices h : ∃ n, List.Forall₂ (fun u s => unfold e n u = some s) vs ts by
    obtain ⟨n, hn⟩ := h
    exact ⟨n + 1, unfold_succ.2 ⟨l, vs, ts, hc, hn, rfl⟩⟩
  clear hc
  induction hts with
  | nil => exact ⟨0, .nil⟩
  | cons h _ ih =>
      obtain ⟨n, hn⟩ := h
      obtain ⟨m, hm⟩ := ih
      refine ⟨max n m, .cons (unfold_mono (Nat.le_max_left n m) hn) ?_⟩
      exact hm.imp fun _ _ hu => unfold_mono (Nat.le_max_right n m) hu

/-- Inversion: the tree of a pointer is built from its cell. -/
theorem Denotes.cell {e : V → Option (L × List V)} {v t} (h : Denotes e v t) :
    ∃ l vs ts, e v = some (l, vs) ∧ List.Forall₂ (Denotes e) vs ts ∧ t = .node l ts := by
  obtain ⟨n, hn⟩ := h
  cases n with
  | zero => simp [unfold] at hn
  | succ n =>
      obtain ⟨l, vs, ts, hc, hts, rfl⟩ := unfold_succ.1 hn
      exact ⟨l, vs, ts, hc, hts.imp fun _ _ hu => ⟨n, hu⟩, rfl⟩

end Unfold
