import Aivm.Lib.ByteReader

/-!
# Writing into a buffer

Stores of single bytes into a buffer of fixed size. A store behind the end of the buffer is an outcome of its own, so
that its absence can be stated: a buffer is split into what has been written and what is still free.
-/

namespace ByteWriter

open ByteReader

variable {ε : Type}

/-- `buffer[i] = b`. -/
def put (buffer : List UInt8) (i : Nat) (b : UInt8) : Parse ε (List UInt8) :=
  if i < buffer.length then .ok (buffer.set i b) else .outOfBounds

/-- Bytes one after the other, and the index behind the last one. -/
def putAll : List UInt8 → List UInt8 → Nat → Parse ε (List UInt8 × Nat)
  | [], buffer, i => return (buffer, i)
  | b :: bs, buffer, i => do putAll bs (← put buffer i b) (i + 1)

variable {written free bs cs buffer : List UInt8} {b x : UInt8} {i : Nat}

theorem put_append : (put (written ++ x :: free) written.length b : Parse ε _) = .ok (written ++ b :: free) := by
  simp [put]

/-- The byte before the part that is kept. -/
theorem put_before (h : free.length = i + 1) :
    ∃ rest, rest.length = i ∧ (put (free ++ written) i b : Parse ε _) = .ok (rest ++ b :: written) := by
  rcases List.eq_nil_or_concat' free with rfl | ⟨rest, x, rfl⟩
  · simp at h
  · simp only [List.length_append, List.length_singleton, Nat.add_right_cancel_iff] at h
    subst h
    refine ⟨rest, rfl, ?_⟩
    rw [List.append_assoc]
    exact put_append

theorem putAll_append : (putAll (bs ++ cs) buffer i : Parse ε _) =
    (putAll bs buffer i >>= fun r => putAll cs r.1 r.2) := by
  induction bs generalizing buffer i with
  | nil => rfl
  | cons b bs ih =>
      simp only [List.cons_append, putAll]
      cases (put buffer i b : Parse ε _) with
      | ok buffer => exact ih
      | _ => rfl

/-- Bytes for which there is room are written behind those before them. -/
theorem putAll_ok : ∀ {written free : List UInt8}, bs.length ≤ free.length →
    (putAll bs (written ++ free) written.length : Parse ε _) =
      .ok (written ++ bs ++ free.drop bs.length, (written ++ bs).length) := by
  induction bs with
  | nil =>
      intro written free _
      simp [putAll]
  | cons b bs ih =>
      intro written free h
      cases free with
      | nil => simp at h
      | cons x free =>
          have hnext := @ih (written ++ [b]) free (by simpa using h)
          rw [List.append_assoc, List.singleton_append, List.length_append, List.length_singleton] at hnext
          simp only [putAll, put_append, Parse.ok_bind, hnext]
          simp

end ByteWriter
