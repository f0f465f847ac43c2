import Aivm.Machine.Lemmas.Remembered

/-!
# Results about texts

What the instructions on parts of strings compute. They walk a string from the position that is remembered for its
address. A host that places a new string arena where a string of an old one has been searched makes them start at a
position of another string; on every other host they depend on their operands only.
-/

namespace Aivm

open VmM

variable {env : Env} {vm : Vm}

/-! ## Runs of a machine -/

theorem Arises.finish {fuel : Nat} : ∀ {vm vm'}, Arises env vm → Aivm.finish env fuel vm = some vm' → Arises env vm' := by
  induction fuel with
  | zero =>
      intro vm vm' _ h
      cases h
  | succ fuel ih =>
      intro vm vm' ha h
      rw [Aivm.finish] at h
      split at h
      · cases h
        exact ha
      split at h
      · cases h
      · rename_i vm₁ hs
        exact ih (.stepped ha hs) h

/-- A host that never gives back the address of a string whose position is remembered. -/
def Env.sparing : Env :=
  { Env.generous with
    place := fun vm =>
      match vm.utf8OffsetCache.text with
      | .arena block _ => vm.stringBlock + block + 1
      | _ => vm.stringBlock + 1 }

theorem Env.sparing_spares : Env.sparing.SparesRemembered := by
  intro vm block offset h
  simp only [freshBlock, Env.sparing, h]
  split <;> omega

/-- A host that places a new arena where the one before the last was. -/
def Env.reusing : Env :=
  { Env.generous with
    place := fun vm => 1 - vm.stringBlock
    startsThread := fun _ => true }

/-- Searches `"éa"` and drops it, and awaits two subroutines that do nothing; each await collects. Another text ends up
where `"éa"` was, and the last instructions come to it. -/
def staleProgram (text : List Byte) (constants : List Value) (last : List Instruction) : Program where
  instructions := [⟨.jump, 2⟩, ⟨.ret, 0⟩,
    ⟨.const, 0⟩, ⟨.toString, 0⟩, ⟨.pushInt, 1⟩, ⟨.pushInt, 1⟩, ⟨.strSubstring, 0⟩, ⟨.pop, 0⟩,
    ⟨.const, 1⟩, ⟨.toString, 0⟩, ⟨.const, 2⟩, ⟨.toString, 0⟩,
    ⟨.asyncCall, 1⟩, ⟨.await, 0⟩, ⟨.pop, 0⟩, ⟨.asyncCall, 1⟩, ⟨.await, 0⟩, ⟨.pop, 0⟩] ++ last
  constants := [.string (.lit [0xC3, 0xA9, 97]), .string (.lit (ascii "Block-argv0")), .string (.lit text)] ++ constants
  workerCatalog := []

/-- The state behind the last instruction. -/
def staleVm (text : List Byte) (constants : List Value) (last : List Instruction) : Option Vm :=
  (initVm .reusing (staleProgram text constants last) [] [] .production 0).bind (finish .reusing 60)

theorem staleVm_arises {text constants last vm} (h : staleVm text constants last = some vm) : Arises .reusing vm := by
  obtain ⟨vm₀, hinit, hrun⟩ := Option.bind_eq_some_iff.1 h
  exact (Arises.made hinit).finish hrun

/-! ## Indexing -/

/-- Strings are indexed as if nothing were remembered. -/
structure Vm.IndexesAfresh (env : Env) (vm : Vm) : Prop where
  offset : ∀ p text rune n vm', vm.cstr p = some text → utf8ByteOffsetForRune p rune vm = .ok n vm' →
    n = utf8ByteOffset text rune
  substring : ∀ below p text start length vm', vm.cstr p = some text →
    vm.stack = below ++ [.string p, .int start, .int length] → (strSubstring env).run vm = .ok () vm' →
    vm'.topText = some (substringByRunes text start length)
  remove : ∀ below p text start length vm', vm.cstr p = some text →
    vm.stack = below ++ [.string p, .int start, .int length] → (strRemove env).run vm = .ok () vm' →
    vm'.topText = some (removeByRunes text start length)
  find : ∀ below p q text pattern start vm', vm.cstr p = some text → vm.cstr q = some pattern →
    vm.stack = below ++ [.string p, .string q, .int start] → (strFind env).run vm = .ok () vm' →
    vm'.stack = below ++ [.int (findByRunes text pattern start)]

/-- The state after a successful operation. -/
def Outcome.after {α : Type} : Outcome α → Option Vm
  | .ok _ vm => some vm
  | _ => none

theorem Outcome.after_eq {o : Outcome Unit} : o.after = some vm ↔ o = .ok () vm := by
  cases o <;> simp [Outcome.after]

/-- A range of runes and the rest of the text are complementary: together they are the text, and a removal of the one
leaves the other. -/
def Complementary (text : List Byte) (start length : Int) : Prop :=
  let before := ((runes text).take start.toNat).flatten
  let rest := ((runes text).drop (start.toNat + length.toNat)).flatten
  substringByRunes text start length = (((runes text).drop start.toNat).take length.toNat).flatten ∧
    before ++ substringByRunes text start length ++ rest = text ∧ removeByRunes text start length = before ++ rest

instance (text : List Byte) (start length : Int) : Decidable (Complementary text start length) := by
  unfold Complementary
  infer_instance

/-- The runes before a range, those of the range and those behind it make up the text. -/
theorem range_split (text : List Byte) (start length : Int) :
    ((runes text).take start.toNat).flatten ++ substringByRunes text start length ++
      ((runes text).drop (start.toNat + length.toNat)).flatten = text := by
  rw [substringByRunes_eq, ← List.flatten_append, ← List.flatten_append, ← List.take_add, List.take_append_drop,
    flatten_runes]

/-- The two instructions are complementary, unless the end of the range does not fit into 64 bits and there is
something to remove. -/
theorem complementary_iff (text : List Byte) (start length : Int64) (h : 0 ≤ start.toInt) :
    Complementary text start.toInt length.toInt ↔
      start.toInt + length.toInt < 2 ^ 63 ∨ (runes text).length ≤ start.toInt.toNat := by
  have hstart := start.toInt_lt
  have hlength := length.toInt_lt
  have hsplit := range_split text start.toInt length.toInt
  have hsub := substringByRunes_eq text start.toInt length.toInt
  rcases Int.lt_or_le (start.toInt + length.toInt) (2 ^ 63) with hfits | hover
  · have hremove := @removeByRunes_of_fits text _ _ h hfits
    rw [List.flatten_append] at hremove
    exact iff_of_true ⟨hsub, hsplit, hremove⟩ (.inl hfits)
  · have hremove := @removeByRunes_of_overflow text _ _ hover (by omega)
    constructor
    · rintro ⟨-, -, hrest⟩
      rw [hremove, ← List.flatten_append] at hrest
      exact .inr (runes_le_of_kept (by omega) hrest.symm)
    · rintro (hfits | hend)
      · omega
      · refine ⟨hsub, hsplit, ?_⟩
        rw [hremove, List.take_of_length_le hend, List.drop_eq_nil_of_le (by omega), flatten_runes]
        simp

/-- A search in a well-formed text pushes the first place, from its start on, where the pattern occurs. -/
def Vm.FindsFirst (env : Env) (vm : Vm) : Prop :=
  ∀ below p q text pattern start vm', vm.cstr p = some text → vm.cstr q = some pattern → WellFormedUtf8 text →
    WellFormedUtf8 pattern → vm.stack = below ++ [.string p, .string q, .int start] →
    (strFind env).run vm = .ok () vm' →
    ∃ result, vm'.stack = below ++ [.int result] ∧
      FirstMatch text pattern (min start.toNat (runes text).length) result ∧
      (pattern = [] → result = min start.toNat (runes text).length)

theorem findByRunes_nil (text : List Byte) (start : Int) :
    findByRunes text [] start = min start.toNat (runes text).length := by
  simp [findByRunes, utf8RuneCount_eq, clampRuneIndex, runes]

/-- The text operations respect UTF-8: what is made of well-formed strings is well formed, scalars are counted, and a
string made of bytes is made of these bytes again. -/
structure Vm.RespectsUtf8 (env : Env) (vm : Vm) : Prop where
  concat : ∀ below p q first second vm', vm.cstr p = some first → vm.cstr q = some second →
    WellFormedUtf8 first → WellFormedUtf8 second → vm.stack = below ++ [.string p, .string q] →
    (strConcat env).run vm = .ok () vm' → ∃ text, vm'.topText = some text ∧ WellFormedUtf8 text
  substring : ∀ below p text start length vm', vm.cstr p = some text → WellFormedUtf8 text →
    vm.stack = below ++ [.string p, .int start, .int length] → (strSubstring env).run vm = .ok () vm' →
    ∃ part, vm'.topText = some part ∧ WellFormedUtf8 part
  remove : ∀ below p text start length vm', vm.cstr p = some text → WellFormedUtf8 text →
    vm.stack = below ++ [.string p, .int start, .int length] → (strRemove env).run vm = .ok () vm' →
    ∃ part, vm'.topText = some part ∧ WellFormedUtf8 part
  scalars : ∀ below p (cs : List Char) vm', vm.cstr p = some (cs.flatMap String.utf8EncodeChar) → '\x00' ∉ cs →
    vm.stack = below ++ [.string p] → (strScalarLength env).run vm = .ok () vm' →
    vm'.stack = below ++ [.int cs.length]
  roundTrip : ∀ below d n data vm₁ vm₂, vm.bytesAt d n = some data → WellFormedUtf8 data →
    vm.stack = below ++ [.bytes d n] → (bytesToUtf8String env).run vm = .ok () vm₁ →
    (bytesFromUtf8String env).run vm₁ = .ok () vm₂ → vm₁.topText = some data ∧ vm₂.topBytes = some data

/-- The stack below a string that lies on top. -/
theorem stack_of_topText {text : List Byte} (h : vm.topText = some text) :
    ∃ below q, vm.stack = below ++ [.string q] ∧ vm.cstr q = some text := by
  unfold Vm.topText at h
  split at h
  · rename_i q hq
    obtain ⟨below, hbelow⟩ := List.getLast?_eq_some_iff.1 hq
    exact ⟨below, q, hbelow, h⟩
  · cases h

/-- The scalars of encoded characters. -/
theorem scalarLength_encode {cs : List Char} (h : '\x00' ∉ cs) :
    scalarLength (cs.flatMap String.utf8EncodeChar) = cs.length := by
  rw [scalarLength_eq ⟨cs, h, rfl⟩, runes_encode h, List.length_map]

/-- Where remembered strings are spared, the text operations respect UTF-8. -/
theorem arises_respectsUtf8 (spare : env.SparesRemembered) (h : Arises env vm) : vm.RespectsUtf8 env where
  concat _ _ _ first second _ hp hq ht ht' hstack hrun :=
    ⟨first ++ second, strConcat_ok (h.textsRight spare).sound hp hq hstack hrun, ht.append ht'⟩
  substring _ _ _ start length _ hp ht hstack hrun :=
    ⟨_, strSubstring_ok ((h.textsRight spare).ready hp) hstack hrun, ht.substring start length⟩
  remove _ _ _ start length _ hp ht hstack hrun :=
    ⟨_, strRemove_ok ((h.textsRight spare).ready hp) hstack hrun, ht.remove start length⟩
  scalars _ _ _ _ hp h0 hstack hrun := by
    rw [strScalarLength_ok hp hstack hrun, scalarLength_encode h0]
  roundTrip _ _ _ _ _ _ hd ht hstack hrun hrun' := by
    have htop := bytesToUtf8String_ok (h.textsRight spare).sound hd (bytesIsValidUtf8WithoutNul_iff.2 ht) hstack hrun
    obtain ⟨_, _, hstack₁, hp₁⟩ := stack_of_topText htop
    exact ⟨htop, bytesFromUtf8String_ok hp₁ hstack₁ hrun'⟩

end Aivm
