import Mathlib

/-!
# Arenas of terminated strings

A byte arena that is a concatenation of strings, each closed by the terminator `z`, and the linear scan that looks a
string up in it.
-/

namespace CStrings

variable {α : Type} (z : α)

/-- The string at the head of a sequence, up to its terminator. -/
def read [DecidableEq α] (bytes : List α) : Option (List α) :=
  if z ∈ bytes then some (bytes.takeWhile (· ≠ z)) else none

/-- The arena that holds the strings `ss`, one after the other. -/
def encode (ss : List (List α)) : List α := ss.flatMap (· ++ [z])

/-- The strings contain no terminator. -/
def Clean (ss : List (List α)) : Prop := ∀ s ∈ ss, z ∉ s

/-- Where the `i`-th string starts. -/
def start (ss : List (List α)) (i : Nat) : Nat := (encode z (ss.take i)).length

/-- Scan the strings from `offset` on for `text`. -/
def find [DecidableEq α] (text : List α) : Nat → List α → Nat → Option Nat
  | 0, _, _ => none
  | fuel + 1, rest, offset =>
      if rest = [] then none
      else if rest.takeWhile (· ≠ z) = text then some offset
      else find text fuel (rest.drop ((rest.takeWhile (· ≠ z)).length + 1))
        (offset + (rest.takeWhile (· ≠ z)).length + 1)

/-- A sequence whose last string is terminated. -/
def Terminated (bytes : List α) : Prop := bytes = [] ∨ ∃ front, bytes = front ++ [z]

variable {z}

@[simp] theorem encode_nil : encode z ([] : List (List α)) = [] := rfl

@[simp] theorem encode_cons (s : List α) (ss : List (List α)) : encode z (s :: ss) = s ++ z :: encode z ss := by
  simp [encode]

theorem encode_append (ss ts : List (List α)) : encode z (ss ++ ts) = encode z ss ++ encode z ts := by
  simp [encode]

theorem length_encode (ss : List (List α)) : (encode z ss).length = (ss.map (·.length + 1)).sum := by
  induction ss with
  | nil => rfl
  | cons s ss ih =>
      simp only [encode_cons, List.length_append, List.length_cons, ih, List.map_cons, List.sum_cons]
      omega

theorem Clean.head {s : List α} {ss} (h : Clean z (s :: ss)) : z ∉ s := h s (List.mem_cons_self ..)

theorem Clean.tail {s : List α} {ss} (h : Clean z (s :: ss)) : Clean z ss :=
  fun t ht => h t (List.mem_cons_of_mem _ ht)

theorem Clean.append {ss ts : List (List α)} (h : Clean z ss) (h' : Clean z ts) : Clean z (ss ++ ts) := by
  intro s hs
  rcases List.mem_append.1 hs with hs | hs
  · exact h s hs
  · exact h' s hs

theorem append_terminator_inj {s t rest rest' : List α} (hs : z ∉ s) (ht : z ∉ t)
    (h : s ++ z :: rest = t ++ z :: rest') : s = t ∧ rest = rest' := by
  induction s generalizing t with
  | nil =>
      cases t with
      | nil => simpa using h
      | cons b t =>
          simp only [List.nil_append, List.cons_append, List.cons.injEq] at h
          exact absurd (h.1 ▸ List.mem_cons_self ..) ht
  | cons a s ih =>
      cases t with
      | nil =>
          simp only [List.nil_append, List.cons_append, List.cons.injEq] at h
          exact absurd (h.1 ▸ List.mem_cons_self ..) hs
      | cons b t =>
          simp only [List.cons_append, List.cons.injEq] at h
          obtain ⟨rfl, h⟩ := h
          obtain ⟨rfl, hr⟩ := ih (fun hz => hs (List.mem_cons_of_mem _ hz)) (fun hz => ht (List.mem_cons_of_mem _ hz)) h
          exact ⟨rfl, hr⟩

theorem start_append {ss ts : List (List α)} {i : Nat} (hi : i < ss.length) : start z (ss ++ ts) i = start z ss i := by
  unfold start
  rw [List.take_append_of_le_length (Nat.le_of_lt hi)]

/-- An arena holds its strings in one way only. -/
theorem encode_inj {ss ts : List (List α)} (hs : Clean z ss) (ht : Clean z ts) (h : encode z ss = encode z ts) :
    ss = ts := by
  induction ss generalizing ts with
  | nil =>
      cases ts with
      | nil => rfl
      | cons t ts => simp at h
  | cons s ss ih =>
      cases ts with
      | nil => simp at h
      | cons t ts =>
          rw [encode_cons, encode_cons] at h
          obtain ⟨hst, hrest⟩ := append_terminator_inj hs.head ht.head h
          rw [hst, ih hs.tail ht.tail hrest]

/-- Distinct strings taken from an arena fit into it. -/
theorem length_encode_le {ss ts : List (List α)} (hnd : ts.Nodup) (hsub : ∀ t ∈ ts, t ∈ ss) :
    (encode z ts).length ≤ (encode z ss).length := by
  rw [length_encode, length_encode]
  obtain ⟨l, hperm, hl⟩ := hnd.subperm hsub
  rw [← (hperm.map _).sum_eq]
  exact (hl.map _).sum_le_sum (fun _ _ => Nat.zero_le _)

variable [DecidableEq α]

theorem takeWhile_terminated {s rest : List α} (h : z ∉ s) : (s ++ z :: rest).takeWhile (· ≠ z) = s := by
  rw [List.takeWhile_append_of_pos]
  · simp
  · intro a ha
    simp only [decide_eq_true_eq]
    rintro rfl
    exact h ha

/-- A string is read where it stands before a terminator. -/
theorem read_eq_some {bytes s : List α} : read z bytes = some s ↔ z ∉ s ∧ ∃ rest, bytes = s ++ z :: rest := by
  constructor
  · intro h
    unfold read at h
    split at h
    · rename_i hz
      cases h
      induction bytes with
      | nil => simp at hz
      | cons a bytes ih =>
          by_cases ha : a = z
          · subst ha
            exact ⟨by simp, bytes, by simp⟩
          · obtain ⟨hclean, rest, hrest⟩ := ih (by simpa [Ne.symm ha] using hz)
            simp only [ha, ne_eq, not_false_eq_true, decide_true, List.takeWhile_cons_of_pos, List.mem_cons,
              not_or, List.cons_append, List.cons.injEq, true_and]
            exact ⟨⟨Ne.symm ha, by simpa using hclean⟩, rest, by simpa using hrest⟩
    · cases h
  · rintro ⟨h, rest, rfl⟩
    simp only [read, List.mem_append, List.mem_cons, true_or, or_true, ↓reduceIte]
    rw [takeWhile_terminated h]

/-- Reading does not look behind the terminator. -/
theorem read_append {bytes s : List α} (h : read z bytes = some s) (more : List α) :
    read z (bytes ++ more) = some s := by
  obtain ⟨hs, rest, rfl⟩ := read_eq_some.1 h
  exact read_eq_some.2 ⟨hs, rest ++ more, by simp⟩

/-- The `i`-th string is read at its start. -/
theorem read_start {ss : List (List α)} (hc : Clean z ss) {i : Nat} {s} (hs : ss[i]? = some s) :
    read z ((encode z ss).drop (start z ss i)) = some s := by
  obtain ⟨hi, rfl⟩ := List.getElem?_eq_some_iff.1 hs
  have hsplit : ss = ss.take i ++ ss[i] :: ss.drop (i + 1) := by
    rw [List.cons_getElem_drop_succ, List.take_append_drop]
  refine read_eq_some.2 ⟨hc _ (List.getElem_mem hi), encode z (ss.drop (i + 1)), ?_⟩
  conv_lhs => rw [hsplit]
  rw [encode_append, encode_cons]
  simp [start]

theorem find_encode_some {text : List α} {ss : List (List α)} (hc : Clean z ss) : ∀ {fuel offset at_},
    find z text fuel (encode z ss) offset = some at_ → ∃ i, ss[i]? = some text ∧ at_ = offset + start z ss i := by
  induction ss with
  | nil =>
      intro fuel offset at_ h
      cases fuel <;> simp [find] at h
  | cons s ss ih =>
      intro fuel offset at_ h
      cases fuel with
      | zero => simp [find] at h
      | succ fuel =>
          have htake : (encode z (s :: ss)).takeWhile (· ≠ z) = s := by
            rw [encode_cons, takeWhile_terminated hc.head]
          rw [find, if_neg (by simp), htake] at h
          split at h
          · rename_i hs
            cases h
            exact ⟨0, by simp [hs], by simp [start]⟩
          · have hdrop : (encode z (s :: ss)).drop (s.length + 1) = encode z ss := by
              rw [encode_cons]
              simp [List.drop_append, List.drop_eq_nil_of_le]
            rw [hdrop] at h
            obtain ⟨i, hi, rfl⟩ := ih hc.tail h
            refine ⟨i + 1, by simpa using hi, ?_⟩
            simp only [start, List.take_succ_cons, encode_cons, List.length_append, List.length_cons]
            omega

theorem find_encode_none {text : List α} {ss : List (List α)} (hc : Clean z ss) : ∀ {fuel offset},
    (encode z ss).length ≤ fuel → find z text fuel (encode z ss) offset = none → text ∉ ss := by
  induction ss with
  | nil => simp
  | cons s ss ih =>
      intro fuel offset hfuel h
      cases fuel with
      | zero => simp at hfuel
      | succ fuel =>
          have htake : (encode z (s :: ss)).takeWhile (· ≠ z) = s := by
            rw [encode_cons, takeWhile_terminated hc.head]
          have hdrop : (encode z (s :: ss)).drop (s.length + 1) = encode z ss := by
            rw [encode_cons]
            simp [List.drop_append, List.drop_eq_nil_of_le]
          rw [find, if_neg (by simp), htake] at h
          split at h
          · cases h
          · rename_i hs
            rw [hdrop] at h
            have := ih hc.tail (by simp only [encode_cons, List.length_append, List.length_cons] at hfuel; omega) h
            simp only [List.mem_cons, not_or]
            exact ⟨fun h => hs h.symm, this⟩

/-! ## Terminated sequences -/

omit [DecidableEq α] in
theorem Terminated.append {bytes more : List α} (h : Terminated z bytes) (hm : Terminated z more) :
    Terminated z (bytes ++ more) := by
  rcases hm with rfl | ⟨front, rfl⟩
  · rwa [List.append_nil]
  · exact .inr ⟨bytes ++ front, by rw [List.append_assoc]⟩

omit [DecidableEq α] in
theorem terminated_encode (ss : List (List α)) : Terminated z (encode z ss) := by
  induction ss with
  | nil => exact .inl rfl
  | cons s ss ih =>
      rw [encode_cons, List.append_cons]
      exact Terminated.append (.inr ⟨s, rfl⟩) ih

/-- A terminated sequence is an arena. -/
theorem Terminated.exists_encode {bytes : List α} (h : Terminated z bytes) : ∃ ss, Clean z ss ∧ bytes = encode z ss := by
  rcases h with rfl | ⟨front, rfl⟩
  · exact ⟨[], by simp [Clean], rfl⟩
  induction front with
  | nil => exact ⟨[[]], by simp [Clean], by simp⟩
  | cons a front ih =>
      obtain ⟨ss, hc, he⟩ := ih
      by_cases ha : a = z
      · subst ha
        refine ⟨[] :: ss, fun s hs => ?_, by simp [← he]⟩
        rcases List.mem_cons.1 hs with rfl | hs
        · simp
        · exact hc s hs
      · cases ss with
        | nil => simp at he
        | cons s ss =>
            refine ⟨(a :: s) :: ss, fun t ht => ?_, by simp [he]⟩
            rcases List.mem_cons.1 ht with rfl | ht
            · simpa [Ne.symm ha] using hc.head
            · exact hc.tail t ht

/-- Every position of a terminated sequence starts a string. -/
theorem Terminated.read {bytes : List α} (h : Terminated z bytes) {offset : Nat} (ho : offset < bytes.length) :
    CStrings.read z (bytes.drop offset) = some ((bytes.drop offset).takeWhile (· ≠ z)) := by
  rcases h with rfl | ⟨front, rfl⟩
  · simp at ho
  · have hle : offset ≤ front.length := by
      simp only [List.length_append, List.length_singleton] at ho
      omega
    rw [CStrings.read, if_pos]
    rw [List.drop_append_of_le_length hle]
    simp

/-- What a scan of a terminated sequence finds is the text looked for. -/
theorem find_terminated {text bytes : List α} (hb : Terminated z bytes) : ∀ {fuel offset at_},
    find z text fuel (bytes.drop offset) offset = some at_ → CStrings.read z (bytes.drop at_) = some text ∧
      at_ < bytes.length := by
  intro fuel
  induction fuel with
  | zero =>
      intro offset at_ h
      cases h
  | succ fuel ih =>
      intro offset at_ h
      rw [find] at h
      split at h
      · cases h
      · rename_i hne
        have hlt : offset < bytes.length := by
          by_contra hge
          exact hne (List.drop_eq_nil_of_le (by omega))
        split at h
        · rename_i htext
          cases h
          rw [hb.read hlt, htext]
          exact ⟨rfl, hlt⟩
        · rw [List.drop_drop, ← Nat.add_assoc] at h
          exact ih h

end CStrings
