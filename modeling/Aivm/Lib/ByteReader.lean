import Mathlib

/-!
# Reading a byte string

Little-endian numbers of a fixed width, and computations that read a byte string at given offsets. A read outside the
string and a recursion that is not finished are outcomes of their own, so that their absence can be stated.
-/

namespace ByteReader

/-! ## Little-endian numbers -/

/-- The `width` low bytes of a number, the least significant first. -/
def le : Nat → Nat → List UInt8
  | 0, _ => []
  | width + 1, n => UInt8.ofNat n :: le width (n / 256)

def ofLe : List UInt8 → Nat
  | [] => 0
  | b :: bs => b.toNat + 256 * ofLe bs

@[simp] theorem length_le (width n : Nat) : (le width n).length = width := by
  induction width generalizing n with
  | zero => rfl
  | succ width ih => simp [le, ih]

theorem ofLe_le {width : Nat} : ∀ {n}, n < 256 ^ width → ofLe (le width n) = n := by
  induction width with
  | zero =>
      intro n hn
      simp only [Nat.pow_zero, Nat.lt_one_iff] at hn
      simp [le, ofLe, hn]
  | succ width ih =>
      intro n hn
      rw [Nat.pow_succ] at hn
      simp only [le, ofLe, ih (Nat.div_lt_of_lt_mul (Nat.mul_comm _ _ ▸ hn)), UInt8.toNat_ofNat']
      omega

theorem le_ofLe (bs : List UInt8) : le bs.length (ofLe bs) = bs := by
  induction bs with
  | nil => rfl
  | cons b bs ih =>
      have hb := b.toNat_lt
      simp only [List.length_cons, ofLe, le]
      rw [show (b.toNat + 256 * ofLe bs) / 256 = ofLe bs by omega, ih]
      congr 1
      apply UInt8.toNat_inj.1
      simp only [UInt8.toNat_ofNat']
      omega

theorem ofLe_lt (bs : List UInt8) : ofLe bs < 256 ^ bs.length := by
  induction bs with
  | nil => simp [ofLe]
  | cons b bs ih =>
      have hb := b.toNat_lt
      simp only [List.length_cons, ofLe, Nat.pow_succ]
      omega

/-! ## Two's complement -/

/-- The signed reading of a 64-bit pattern. -/
def toI64 (n : Nat) : Int := if n < 2 ^ 63 then n else n - 2 ^ 64

/-- The 64-bit pattern of a signed number. -/
def ofI64 (i : Int) : Nat := (i % 2 ^ 64).toNat

/-- A number that a signed 64-bit integer holds. -/
def IsI64 (i : Int) : Prop := -2 ^ 63 ≤ i ∧ i < 2 ^ 63

instance (i : Int) : Decidable (IsI64 i) := by
  unfold IsI64
  infer_instance

theorem ofI64_lt (i : Int) : ofI64 i < 256 ^ 8 := by
  unfold ofI64
  omega

theorem toI64_ofI64 {i : Int} (h : IsI64 i) : toI64 (ofI64 i) = i := by
  unfold IsI64 at h
  unfold toI64 ofI64
  omega

theorem toI64_isI64 {n : Nat} (h : n < 256 ^ 8) : IsI64 (toI64 n) := by
  unfold IsI64 toI64
  split <;> omega

theorem ofI64_toI64 {n : Nat} (h : n < 256 ^ 8) : ofI64 (toI64 n) = n := by
  unfold ofI64 toI64
  split <;> omega

/-! ## Where bytes stand -/

/-- The bytes `e` stand at an offset. -/
def At (bytes : List UInt8) (offset : Nat) (e : List UInt8) : Prop :=
  offset + e.length ≤ bytes.length ∧ (bytes.drop offset).take e.length = e

instance (bytes : List UInt8) (offset : Nat) (e : List UInt8) : Decidable (At bytes offset e) := by
  unfold At
  infer_instance

variable {bytes e e' : List UInt8} {offset : Nat}

theorem at_append : At bytes offset (e ++ e') ↔ At bytes offset e ∧ At bytes (offset + e.length) e' := by
  unfold At
  simp only [List.length_append, List.take_add, List.drop_drop]
  constructor
  · rintro ⟨hlen, heq⟩
    have hl : ((bytes.drop offset).take e.length).length = e.length := by
      simp only [List.length_take, List.length_drop]
      omega
    obtain ⟨h₁, h₂⟩ := List.append_inj heq hl
    exact ⟨⟨by omega, h₁⟩, by omega, h₂⟩
  · rintro ⟨⟨_, h₁⟩, hlen, h₂⟩
    exact ⟨by omega, by rw [h₁, h₂]⟩

theorem at_nil : At bytes offset [] ↔ offset ≤ bytes.length := by
  simp [At]

theorem At.le (h : At bytes offset e) : offset + e.length ≤ bytes.length := h.1

theorem At.slice {count : Nat} (h : At bytes offset e) (hc : count = e.length) : (bytes.drop offset).take count = e := by
  rw [hc]
  exact h.2

theorem at_slice {count : Nat} (h : offset + count ≤ bytes.length) :
    At bytes offset ((bytes.drop offset).take count) := by
  have hl : ((bytes.drop offset).take count).length = count := by
    simp only [List.length_take, List.length_drop]
    omega
  exact ⟨by omega, by rw [hl]⟩

theorem at_split (pre e rest : List UInt8) : At (pre ++ e ++ rest) pre.length e := by
  refine ⟨by simp, ?_⟩
  rw [List.append_assoc, List.drop_left, List.take_left]

/-- What stands at the start, and the rest. -/
theorem At.start (h : At bytes 0 e) : ∃ rest, bytes = e ++ rest := by
  refine ⟨bytes.drop e.length, ?_⟩
  have := h.2
  rw [List.drop_zero] at this
  conv_lhs => rw [← List.take_append_drop e.length bytes, this]

theorem At.eq (h : At bytes 0 e) (hlen : bytes.length = e.length) : bytes = e := by
  have := h.2
  rwa [List.drop_zero, ← hlen, List.take_length] at this

theorem at_self (e : List UInt8) : At e 0 e := by
  simp [At]

/-! ## Computations -/

inductive Parse (ε α : Type) where
  | ok (value : α)
  | fail (error : ε)
  | outOfBounds
  | outOfFuel
deriving DecidableEq, Repr

variable {ε α β : Type}

namespace Parse

def bind (x : Parse ε α) (f : α → Parse ε β) : Parse ε β :=
  match x with
  | .ok a => f a
  | .fail e => .fail e
  | .outOfBounds => .outOfBounds
  | .outOfFuel => .outOfFuel

instance : Monad (Parse ε) where
  pure := .ok
  bind := Parse.bind

@[simp] theorem pure_eq (a : α) : (Pure.pure a : Parse ε α) = .ok a := rfl
@[simp] theorem ok_bind (a : α) (f : α → Parse ε β) : (.ok a >>= f : Parse ε β) = f a := rfl
@[simp] theorem fail_bind (e : ε) (f : α → Parse ε β) : (.fail e >>= f : Parse ε β) = .fail e := rfl
@[simp] theorem outOfBounds_bind (f : α → Parse ε β) : (.outOfBounds >>= f : Parse ε β) = .outOfBounds := rfl
@[simp] theorem outOfFuel_bind (f : α → Parse ε β) : (.outOfFuel >>= f : Parse ε β) = .outOfFuel := rfl

theorem bind_ok {x : Parse ε α} {f : α → Parse ε β} {b} : (x >>= f) = .ok b ↔ ∃ a, x = .ok a ∧ f a = .ok b := by
  cases x <;> simp

theorem bind_fail {x : Parse ε α} {f : α → Parse ε β} {e} :
    (x >>= f) = .fail e ↔ x = .fail e ∨ ∃ a, x = .ok a ∧ f a = .fail e := by
  cases x <;> simp

/-- A computation that ends, and reads nothing outside the string. -/
def Proper : Parse ε α → Prop
  | .ok _ => True
  | .fail _ => True
  | .outOfBounds => False
  | .outOfFuel => False

@[simp] theorem proper_ok (a : α) : (.ok a : Parse ε α).Proper := trivial
@[simp] theorem proper_fail (e : ε) : (.fail e : Parse ε α).Proper := trivial

theorem Proper.bind {x : Parse ε α} {f : α → Parse ε β} (hx : x.Proper) (hf : ∀ a, x = .ok a → (f a).Proper) :
    (x >>= f).Proper := by
  cases x with
  | ok a => exact hf a rfl
  | fail e => trivial
  | outOfBounds => cases hx
  | outOfFuel => cases hx

theorem ite_ok {c : Prop} [Decidable c] {x y : Parse ε α} {a : α} (hx : x ≠ .ok a) :
    (if c then x else y) = .ok a ↔ ¬ c ∧ y = .ok a := by
  split <;> simp_all

theorem proper_ite {c : Prop} [Decidable c] {x y : Parse ε α} (hx : c → x.Proper) (hy : ¬ c → y.Proper) :
    (if c then x else y).Proper := by
  split
  · exact hx ‹_›
  · exact hy ‹_›

theorem ite_fail {c : Prop} [Decidable c] {x y : Parse ε α} {e : ε} :
    (if c then x else y) = .fail e ↔ (c ∧ x = .fail e) ∨ (¬ c ∧ y = .fail e) := by
  split <;> simp_all

/-- A check that ends the computation. -/
theorem proper_check {c : Prop} [Decidable c] {e : ε} {y : Parse ε α} (hy : ¬ c → y.Proper) :
    (if c then .fail e else y).Proper :=
  proper_ite (fun _ => trivial) hy

end Parse

/-- The `count` bytes from an offset on. -/
def readBytes (bytes : List UInt8) (offset count : Nat) : Parse ε (List UInt8) :=
  if offset + count ≤ bytes.length then .ok ((bytes.drop offset).take count) else .outOfBounds

/-- A little-endian number of `width` bytes. -/
def readLe (bytes : List UInt8) (width offset : Nat) : Parse ε Nat := do
  return ofLe (← readBytes bytes offset width)

theorem readBytes_ok {count v} : (readBytes bytes offset count : Parse ε _) = .ok v ↔ At bytes offset v ∧ v.length = count := by
  unfold readBytes
  constructor
  · intro h
    split at h
    · rename_i hle
      cases h
      refine ⟨at_slice hle, ?_⟩
      simp only [List.length_take, List.length_drop]
      omega
    · cases h
  · rintro ⟨h, rfl⟩
    rw [if_pos h.le, h.2]

theorem readBytes_proper {count} (h : offset + count ≤ bytes.length) :
    (readBytes bytes offset count : Parse ε _).Proper := by
  unfold readBytes
  rw [if_pos h]
  trivial

theorem readLe_ok {width n} : (readLe bytes width offset : Parse ε _) = .ok n ↔ At bytes offset (le width n) ∧ n < 256 ^ width := by
  simp only [readLe, Parse.bind_ok, readBytes_ok, Parse.pure_eq, Parse.ok.injEq]
  constructor
  · rintro ⟨v, ⟨hat, rfl⟩, rfl⟩
    exact ⟨by rwa [le_ofLe], ofLe_lt v⟩
  · rintro ⟨hat, hn⟩
    exact ⟨le width n, ⟨hat, length_le _ _⟩, ofLe_le hn⟩

theorem readLe_proper {width} (h : offset + width ≤ bytes.length) : (readLe bytes width offset : Parse ε _).Proper :=
  (readBytes_proper h).bind fun _ _ => trivial

theorem readLe_total {width} (h : offset + width ≤ bytes.length) : ∃ n, (readLe bytes width offset : Parse ε Nat) = .ok n := by
  refine ⟨ofLe ((bytes.drop offset).take width), ?_⟩
  simp [readLe, readBytes, h]

theorem readLe_ne_fail {width} {error : ε} : (readLe bytes width offset : Parse ε Nat) ≠ .fail error := by
  unfold readLe readBytes
  split <;> simp

/-!
## Big-endian numbers

Numbers with the most significant byte first.
-/

/-- The `width` low bytes of a number, the most significant first. -/
def be (width n : Nat) : List UInt8 := (le width n).reverse

def ofBe (bytes : List UInt8) : Nat := bytes.foldl (fun value b => value * 256 + b.toNat) 0

@[simp] theorem length_be (width n : Nat) : (be width n).length = width := by
  simp [be]

theorem ofBe_reverse (bytes : List UInt8) : ofBe bytes.reverse = ofLe bytes := by
  induction bytes with
  | nil => rfl
  | cons b bytes ih =>
      have hstep : ofBe (b :: bytes).reverse = ofBe bytes.reverse * 256 + b.toNat := by
        simp [ofBe]
      rw [hstep, ih, ofLe]
      omega

theorem ofBe_be {width n : Nat} (h : n < 256 ^ width) : ofBe (be width n) = n := by
  rw [be, ofBe_reverse, ofLe_le h]

end ByteReader
