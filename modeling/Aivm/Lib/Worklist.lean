import Mathlib

/-!
# Marking with a worklist

Items of type `β` are resolved to elements of type `α` (or ignored, or refused with a fault). Each element is
marked once, waits in a list, and is then expanded to further items. When a run succeeds, the marked elements are
exactly those reachable from the seeds.
-/

namespace Worklist

variable {α β ε : Type}

/-- The elements marked so far, and those of them that wait to be expanded. -/
structure Marks (α : Type) where
  marked : List α
  pending : List α

/-- Where a newly marked element waits, and the fault raised when no room is left for it. -/
structure Policy (α ε : Type) where
  push : List α → α → List α
  room : List α → List α → Option ε
  mem_push : ∀ p a b, b ∈ push p a ↔ b = a ∨ b ∈ p
  length_push : ∀ p a, (push p a).length = p.length + 1

/-- Elements wait in the order of their marking. -/
def Policy.queue (room : List α → List α → Option ε) : Policy α ε where
  push p a := p ++ [a]
  room := room
  mem_push p a b := by simp [or_comm]
  length_push p a := by simp

/-- The element marked last is expanded first. -/
def Policy.stack (room : List α → List α → Option ε) : Policy α ε where
  push p a := a :: p
  room := room
  mem_push p a b := by simp
  length_push p a := by simp

section Defs

variable [DecidableEq α] (P : Policy α ε) (resolve : β → Except ε (Option α)) (expand : α → Except ε (List β))

def visit (s : Marks α) (a : α) : Except ε (Marks α) :=
  if a ∈ s.marked then .ok s
  else
    match P.room s.marked s.pending with
    | some e => .error e
    | none => .ok ⟨a :: s.marked, P.push s.pending a⟩

def visitItem (s : Marks α) (b : β) : Except ε (Marks α) :=
  match resolve b with
  | .error e => .error e
  | .ok none => .ok s
  | .ok (some a) => visit P s a

def visitItems (s : Marks α) : List β → Except ε (Marks α)
  | [] => .ok s
  | b :: bs =>
      match visitItem P resolve s b with
      | .error e => .error e
      | .ok s' => visitItems s' bs

/-- Expand waiting elements until none is left; `stuck` is the fault when `fuel` expansions do not suffice. -/
def drain (stuck : ε) : Nat → Marks α → Except ε (List α)
  | _, ⟨marked, []⟩ => .ok marked
  | 0, ⟨_, _ :: _⟩ => .error stuck
  | fuel + 1, ⟨marked, a :: rest⟩ =>
      match expand a with
      | .error e => .error e
      | .ok items =>
          match visitItems P resolve ⟨marked, rest⟩ items with
          | .error e => .error e
          | .ok s => drain stuck fuel s

end Defs

section Reach

variable (resolve : β → Except ε (Option α)) (expand : α → Except ε (List β))

/-- Reachability from the seeds through expanded and resolved items. -/
inductive Reach (seed : α → Prop) : α → Prop where
  | base {a} : seed a → Reach seed a
  | step {a items b c} : Reach seed a → expand a = .ok items → b ∈ items → resolve b = .ok (some c) →
      Reach seed c

/-- The element expands without a fault and every element found there is in `m`. -/
def Closed (m : List α) (a : α) : Prop :=
  ∃ items, expand a = .ok items ∧ ∀ b ∈ items, ∃ r, resolve b = .ok r ∧ ∀ c, r = some c → c ∈ m

theorem Closed.mono {m m' : List α} (hm : ∀ a ∈ m, a ∈ m') {a} (h : Closed resolve expand m a) :
    Closed resolve expand m' a := by
  obtain ⟨items, he, hi⟩ := h
  refine ⟨items, he, fun b hb => ?_⟩
  obtain ⟨r, hr, hc⟩ := hi b hb
  exact ⟨r, hr, fun c hrc => hm c (hc c hrc)⟩

/-- A closed set that contains the seeds contains everything reachable. -/
theorem Reach.mem_of_closed {seed : α → Prop} {m : List α} (hs : ∀ a, seed a → a ∈ m)
    (hm : ∀ a ∈ m, Closed resolve expand m a) {a} (h : Reach resolve expand seed a) : a ∈ m := by
  induction h with
  | base ha => exact hs _ ha
  | step _ he hb hc ih =>
      obtain ⟨items, he', hi⟩ := hm _ ih
      rw [he] at he'
      cases he'
      obtain ⟨r, hr, hmem⟩ := hi _ hb
      rw [hc] at hr
      cases hr
      exact hmem _ rfl

theorem Reach.mono {seed seed' : α → Prop} (hs : ∀ a, seed a → Reach resolve expand seed' a) {a}
    (h : Reach resolve expand seed a) : Reach resolve expand seed' a := by
  induction h with
  | base ha => exact hs _ ha
  | step _ he hb hc ih => exact ih.step he hb hc

end Reach

section Visit

variable [DecidableEq α] {P : Policy α ε} {resolve : β → Except ε (Option α)} {expand : α → Except ε (List β)}

/-- What visiting a list of items does to the marks. -/
structure Visited (resolve : β → Except ε (Option α)) (s : Marks α) (items : List β) (s' : Marks α) : Prop where
  mono : ∀ a ∈ s.marked, a ∈ s'.marked
  source : ∀ a ∈ s'.marked, a ∈ s.marked ∨ ∃ b ∈ items, resolve b = .ok (some a)
  resolved : ∀ b ∈ items, ∃ r, resolve b = .ok r ∧ ∀ c, r = some c → c ∈ s'.marked
  waits : ∀ a ∈ s'.marked, a ∉ s.marked → a ∈ s'.pending
  keeps : ∀ a ∈ s.pending, a ∈ s'.pending
  pending : ∀ a ∈ s'.pending, a ∈ s.pending ∨ a ∈ s'.marked

theorem visit_ok {s s' : Marks α} {a} (h : visit P s a = .ok s') :
    (a ∈ s.marked ∧ s' = s) ∨
      (a ∉ s.marked ∧ P.room s.marked s.pending = none ∧ s' = ⟨a :: s.marked, P.push s.pending a⟩) := by
  unfold visit at h
  split at h
  · rename_i ha
    cases h
    exact .inl ⟨ha, rfl⟩
  · rename_i ha
    split at h
    · cases h
    · rename_i hroom
      cases h
      exact .inr ⟨ha, hroom, rfl⟩

theorem visitItem_visited {s s' : Marks α} {b} (h : visitItem P resolve s b = .ok s') :
    Visited resolve s [b] s' := by
  unfold visitItem at h
  split at h
  · cases h
  · rename_i hb
    cases h
    exact ⟨fun _ h => h, fun _ h => .inl h, by simp [hb], fun _ h h' => absurd h h', fun _ h => h, fun _ h => .inl h⟩
  · rename_i a hb
    rcases visit_ok h with ⟨ha, rfl⟩ | ⟨_, _, rfl⟩
    · exact ⟨fun _ h => h, fun _ h => .inl h, by simpa [hb] using ha, fun _ h h' => absurd h h',
        fun _ h => h, fun _ h => .inl h⟩
    · refine ⟨fun _ h => List.mem_cons_of_mem _ h, ?_, by simp [hb], ?_, ?_, ?_⟩
      · intro x hx
        rcases List.mem_cons.1 hx with rfl | hx
        · exact .inr ⟨b, by simp, hb⟩
        · exact .inl hx
      · intro x hx hnot
        rcases List.mem_cons.1 hx with rfl | hx
        · exact (P.mem_push _ _ _).2 (.inl rfl)
        · exact absurd hx hnot
      · intro x hx
        exact (P.mem_push _ _ _).2 (.inr hx)
      · intro x hx
        rcases (P.mem_push _ _ _).1 hx with rfl | hx
        · exact .inr (by simp)
        · exact .inl hx

theorem Visited.trans {s s₁ s₂ : Marks α} {b : β} {bs : List β} (h : Visited resolve s [b] s₁)
    (h' : Visited resolve s₁ bs s₂) : Visited resolve s (b :: bs) s₂ := by
  refine ⟨fun a ha => h'.mono a (h.mono a ha), ?_, ?_, ?_, fun a ha => h'.keeps a (h.keeps a ha), ?_⟩
  · intro a ha
    rcases h'.source a ha with ha | ⟨c, hc, hr⟩
    · rcases h.source a ha with ha | ⟨c, hc, hr⟩
      · exact .inl ha
      · exact .inr ⟨c, by simp_all, hr⟩
    · exact .inr ⟨c, List.mem_cons_of_mem _ hc, hr⟩
  · intro c hc
    rcases List.mem_cons.1 hc with rfl | hc
    · obtain ⟨r, hr, hm⟩ := h.resolved c (by simp)
      exact ⟨r, hr, fun x hx => h'.mono x (hm x hx)⟩
    · exact h'.resolved c hc
  · intro a ha hnot
    by_cases h1 : a ∈ s₁.marked
    · exact h'.keeps a (h.waits a h1 hnot)
    · exact h'.waits a ha h1
  · intro a ha
    rcases h'.pending a ha with ha | ha
    · exact (h.pending a ha).imp id (h'.mono a)
    · exact .inr ha

theorem visitItems_visited {s s' : Marks α} {items : List β} (h : visitItems P resolve s items = .ok s') :
    Visited resolve s items s' := by
  induction items generalizing s with
  | nil =>
      cases h
      exact ⟨fun _ h => h, fun _ h => .inl h, by simp, fun _ h h' => absurd h h', fun _ h => h, fun _ h => .inl h⟩
  | cons b bs ih =>
      simp only [visitItems] at h
      split at h
      · cases h
      · rename_i s₁ h₁
        exact (visitItem_visited h₁).trans (ih h)

end Visit

section Drain

variable [DecidableEq α] {P : Policy α ε} {resolve : β → Except ε (Option α)} {expand : α → Except ε (List β)} {stuck : ε}

/-- The loop invariant: waiting elements are marked, and a marked element that no longer waits is closed. -/
structure Inv (resolve : β → Except ε (Option α)) (expand : α → Except ε (List β)) (seed : α → Prop)
    (s : Marks α) : Prop where
  seeds : ∀ a, seed a → a ∈ s.marked
  sound : ∀ a ∈ s.marked, Reach resolve expand seed a
  wait : ∀ a ∈ s.pending, a ∈ s.marked
  done : ∀ a ∈ s.marked, a ∉ s.pending → Closed resolve expand s.marked a

theorem Inv.visit {seed : α → Prop} {m : List α} {a rest items s'}
    (h : Inv resolve expand seed ⟨m, a :: rest⟩) (he : expand a = .ok items)
    (hv : Visited resolve ⟨m, rest⟩ items s') : Inv resolve expand seed s' := by
  have ha : Reach resolve expand seed a := h.sound a (h.wait a (by simp))
  refine ⟨fun x hx => hv.mono x (h.seeds x hx), ?_, ?_, ?_⟩
  · intro x hx
    rcases hv.source x hx with hx | ⟨b, hb, hr⟩
    · exact h.sound x hx
    · exact ha.step he hb hr
  · intro x hx
    rcases hv.pending x hx with hx | hx
    · exact hv.mono x (h.wait x (List.mem_cons_of_mem _ hx))
    · exact hx
  · intro x hx hnot
    by_cases hxa : x = a
    · subst hxa
      exact ⟨items, he, hv.resolved⟩
    · have hxm : x ∈ m := by
        by_contra hm
        exact hnot (hv.waits x hx hm)
      have hxr : x ∉ a :: rest := by
        intro hmem
        rcases List.mem_cons.1 hmem with h1 | h1
        · exact hxa h1
        · exact hnot (hv.keeps x h1)
      exact (h.done x hxm hxr).mono resolve expand hv.mono

theorem drain_inv {seed : α → Prop} {fuel : Nat} : ∀ {s : Marks α} {m}, Inv resolve expand seed s →
    drain P resolve expand stuck fuel s = .ok m → Inv resolve expand seed ⟨m, []⟩ := by
  induction fuel with
  | zero =>
      rintro ⟨marked, pending⟩ m hinv h
      cases pending with
      | nil =>
          simp only [drain, Except.ok.injEq] at h
          exact h ▸ hinv
      | cons a rest => simp [drain] at h
  | succ fuel ih =>
      rintro ⟨marked, pending⟩ m hinv h
      cases pending with
      | nil =>
          simp only [drain, Except.ok.injEq] at h
          exact h ▸ hinv
      | cons a rest =>
          simp only [drain] at h
          split at h
          · cases h
          · rename_i items he
            split at h
            · cases h
            · rename_i s hs
              exact ih (hinv.visit he (visitItems_visited hs)) h

omit [DecidableEq α] in
/-- A successful run marks exactly the reachable elements, and each of them is closed. -/
theorem Inv.result {seed : α → Prop} {m : List α} (h : Inv resolve expand seed ⟨m, []⟩) :
    (∀ a, a ∈ m ↔ Reach resolve expand seed a) ∧ ∀ a ∈ m, Closed resolve expand m a := by
  have hclosed : ∀ a ∈ m, Closed resolve expand m a := fun a ha => h.done a ha (by simp)
  exact ⟨fun a => ⟨h.sound a, Reach.mem_of_closed resolve expand h.seeds hclosed⟩, hclosed⟩

end Drain

section Total

variable [DecidableEq α] {P : Policy α ε} {resolve : β → Except ε (Option α)} {expand : α → Except ε (List β)}
  {stuck : ε} {U : List α}

/-- The marks stay within the universe `U`, each element is marked once and waits at most once. -/
structure Bounded (U : List α) (s : Marks α) : Prop where
  nodup : s.marked.Nodup
  subset : ∀ a ∈ s.marked, a ∈ U
  waiting : ∀ a ∈ s.pending, a ∈ U
  le : s.pending.length ≤ s.marked.length

omit [DecidableEq α] in
theorem Bounded.length_le {s : Marks α} (h : Bounded U s) : s.marked.length ≤ U.length :=
  (h.nodup.subperm h.subset).length_le

/-- A policy that has room as long as an element of the universe is unmarked. -/
def Policy.HasRoom (P : Policy α ε) (U : List α) : Prop :=
  ∀ m p : List α, m.length < U.length → p.length ≤ m.length → P.room m p = none

omit [DecidableEq α] in
/-- Marking one more element of the universe keeps the bounds. -/
theorem Bounded.push {s : Marks α} (hs : Bounded U s) {a} (ha : a ∈ U) (hm : a ∉ s.marked) :
    Bounded U ⟨a :: s.marked, P.push s.pending a⟩ := by
  refine ⟨List.nodup_cons.2 ⟨hm, hs.nodup⟩, fun x hx => ?_, fun x hx => ?_, ?_⟩
  · rcases List.mem_cons.1 hx with rfl | hx
    · exact ha
    · exact hs.subset x hx
  · rcases (P.mem_push _ _ _).1 hx with rfl | hx
    · exact ha
    · exact hs.waiting x hx
  · simp only [P.length_push, List.length_cons]
    have := hs.le
    omega

theorem visit_total (hP : P.HasRoom U) {s : Marks α} (hs : Bounded U s) {a} (ha : a ∈ U) :
    ∃ s', visit P s a = .ok s' ∧ Bounded U s' ∧
      s'.marked.length + s.pending.length = s.marked.length + s'.pending.length := by
  by_cases hm : a ∈ s.marked
  · exact ⟨s, by simp [visit, hm], hs, rfl⟩
  · have hpush : Bounded U ⟨a :: s.marked, P.push s.pending a⟩ := hs.push ha hm
    have hlt : s.marked.length < U.length := by
      have := hpush.length_le
      simp only [List.length_cons] at this
      omega
    have hroom := hP s.marked s.pending hlt hs.le
    refine ⟨⟨a :: s.marked, P.push s.pending a⟩, by simp [visit, hm, hroom], hpush, ?_⟩
    simp only [P.length_push, List.length_cons]
    omega

theorem visitItems_total (hP : P.HasRoom U) {items : List β} : ∀ {s : Marks α}, Bounded U s →
    (∀ b ∈ items, ∃ r, resolve b = .ok r ∧ ∀ c, r = some c → c ∈ U) →
    ∃ s', visitItems P resolve s items = .ok s' ∧ Bounded U s' ∧
      s'.marked.length + s.pending.length = s.marked.length + s'.pending.length := by
  induction items with
  | nil =>
      intro s hs _
      exact ⟨s, rfl, hs, rfl⟩
  | cons b bs ih =>
      intro s hs hitems
      have htail : ∀ c ∈ bs, ∃ r, resolve c = .ok r ∧ ∀ x, r = some x → x ∈ U :=
        fun c hc => hitems c (List.mem_cons_of_mem _ hc)
      obtain ⟨r, hr, hc⟩ := hitems b (by simp)
      cases r with
      | none =>
          obtain ⟨s', h', hb, hl⟩ := ih hs htail
          exact ⟨s', by simpa [visitItems, visitItem, hr] using h', hb, hl⟩
      | some a =>
          obtain ⟨s₁, h₁, hb₁, hl₁⟩ := visit_total hP hs (hc a rfl)
          obtain ⟨s', h', hb, hl⟩ := ih hb₁ htail
          exact ⟨s', by simpa [visitItems, visitItem, hr, h₁] using h', hb, by omega⟩

/-- With fuel for every element of the universe, a run whose elements all expand and resolve succeeds. -/
theorem drain_total (hP : P.HasRoom U) (hU : ∀ a ∈ U, Closed resolve expand U a) {fuel : Nat} :
    ∀ {s : Marks α}, Bounded U s → U.length + s.pending.length ≤ fuel + s.marked.length →
      ∃ m, drain P resolve expand stuck fuel s = .ok m := by
  induction fuel with
  | zero =>
      rintro ⟨marked, pending⟩ hs hfuel
      have hle := hs.length_le
      cases pending with
      | nil => exact ⟨marked, rfl⟩
      | cons a rest =>
          simp only [List.length_cons] at hfuel hle
          omega
  | succ fuel ih =>
      rintro ⟨marked, pending⟩ hs hfuel
      cases pending with
      | nil => exact ⟨marked, rfl⟩
      | cons a rest =>
          have hle := hs.le
          simp only [List.length_cons] at hfuel hle
          obtain ⟨items, he, hitems⟩ := hU a (hs.waiting a (by simp))
          have hb : Bounded U ⟨marked, rest⟩ :=
            ⟨hs.nodup, hs.subset, fun x hx => hs.waiting x (List.mem_cons_of_mem _ hx), by simp only; omega⟩
          obtain ⟨s', h', hb', hl⟩ := visitItems_total hP hb hitems
          obtain ⟨m, hm⟩ := ih hb' (by simp only at hl; omega)
          exact ⟨m, by simp [drain, he, h', hm]⟩

end Total

/-! ## The run as a whole -/

section Run

variable [DecidableEq α] (P : Policy α ε) (resolve : β → Except ε (Option α)) (expand : α → Except ε (List β))

/-- The states a run goes through: the marks, and the items found but not visited yet. -/
inductive Runs (start : List β) : Marks α → List β → Prop where
  | start : Runs start ⟨[], []⟩ start
  | visit {s s' b bs} : Runs start s (b :: bs) → visitItem P resolve s b = .ok s' → Runs start s' bs
  | expand {m a rest items} : Runs start ⟨m, a :: rest⟩ [] → expand a = .ok items → Runs start ⟨m, rest⟩ items

variable {P resolve expand} {start : List β}

theorem Runs.visitItems {items rest : List β} : ∀ {s s' : Marks α}, Runs P resolve expand start s (items ++ rest) →
    visitItems P resolve s items = .ok s' → Runs P resolve expand start s' rest := by
  induction items with
  | nil =>
      intro s s' hr h
      cases h
      exact hr
  | cons b bs ih =>
      intro s s' hr h
      simp only [Worklist.visitItems] at h
      cases hb : visitItem P resolve s b with
      | error e => simp [hb] at h
      | ok s₁ =>
          simp only [hb] at h
          exact ih (.visit hr hb) h

/-- The marks that a run ends with are those of its last state. -/
theorem Runs.drain {stuck : ε} {fuel : Nat} : ∀ {s : Marks α} {m}, Runs P resolve expand start s [] →
    drain P resolve expand stuck fuel s = .ok m → Runs P resolve expand start ⟨m, []⟩ [] := by
  induction fuel with
  | zero =>
      rintro ⟨marked, pending⟩ m hr h
      cases pending with
      | nil =>
          cases h
          exact hr
      | cons a rest => cases h
  | succ fuel ih =>
      rintro ⟨marked, pending⟩ m hr h
      cases pending with
      | nil =>
          cases h
          exact hr
      | cons a rest =>
          simp only [Worklist.drain] at h
          cases he : expand a with
          | error e => simp [he] at h
          | ok items =>
              simp only [he] at h
              cases hv : Worklist.visitItems P resolve ⟨marked, rest⟩ items with
              | error e => simp [hv] at h
              | ok s =>
                  simp only [hv] at h
                  have hr' := Runs.expand hr he
                  rw [← List.append_nil items] at hr'
                  exact ih (Runs.visitItems hr' hv) h

/-- In every state of a run the waiting elements are elements marked before, none of them twice. -/
theorem Runs.bounded {U : List α} (hU : ∀ b a, resolve b = .ok (some a) → a ∈ U) {s : Marks α} {items : List β}
    (h : Runs P resolve expand start s items) : Bounded U s := by
  induction h with
  | start => exact ⟨List.nodup_nil, by simp, by simp, Nat.le_refl _⟩
  | @visit s s' b bs _ hb ih =>
      unfold visitItem at hb
      split at hb
      · cases hb
      · cases hb
        exact ih
      · rename_i a ha
        rcases visit_ok hb with ⟨_, rfl⟩ | ⟨hm, _, rfl⟩
        · exact ih
        · exact ih.push (hU b a ha) hm
  | expand _ _ ih =>
      have hle := ih.le
      simp only [List.length_cons] at hle
      exact ⟨ih.nodup, ih.subset, fun x hx => ih.waiting x (List.mem_cons_of_mem _ hx), by simp only; omega⟩

end Run

section Faults

variable [DecidableEq α] {P : Policy α ε} {resolve : β → Except ε (Option α)} {expand : α → Except ε (List β)}
  {F : ε → Prop}

/-- Every fault of a visit comes from the item or from the lack of room. -/
theorem visitItems_fault (hr : ∀ b e, resolve b = .error e → F e) (hroom : ∀ m p e, P.room m p = some e → F e) :
    ∀ {bs s e}, visitItems P resolve s bs = .error e → F e := by
  intro bs
  induction bs with
  | nil => simp [visitItems]
  | cons b bs ih =>
      intro s e h
      simp only [visitItems] at h
      split at h
      · rename_i e' hv
        cases h
        unfold visitItem at hv
        split at hv
        · rename_i hb
          cases hv
          exact hr b _ hb
        · cases hv
        · unfold visit at hv
          split at hv
          · cases hv
          · split at hv
            · rename_i hm
              cases hv
              exact hroom _ _ _ hm
            · cases hv
      · exact ih h

/-- Every fault of a run is one of the faults of what it calls, or the one for a run that does not end. -/
theorem drain_fault {stuck : ε} (hr : ∀ b e, resolve b = .error e → F e) (hroom : ∀ m p e, P.room m p = some e → F e)
    (he : ∀ a e, expand a = .error e → F e) (hs : F stuck) :
    ∀ {fuel s e}, drain P resolve expand stuck fuel s = .error e → F e := by
  intro fuel
  induction fuel with
  | zero =>
      intro s e h
      obtain ⟨marked, pending⟩ := s
      cases pending with
      | nil => simp [drain] at h
      | cons a rest =>
          simp only [drain, Except.error.injEq] at h
          exact h ▸ hs
  | succ fuel ih =>
      intro s e h
      obtain ⟨marked, pending⟩ := s
      cases pending with
      | nil => simp [drain] at h
      | cons a rest =>
          simp only [drain] at h
          split at h
          · rename_i ha
            cases h
            exact he a _ ha
          · split at h
            · rename_i hv
              cases h
              exact visitItems_fault hr hroom hv
            · exact ih h

end Faults

end Worklist
