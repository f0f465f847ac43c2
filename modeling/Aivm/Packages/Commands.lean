import Aivm.Compiler.Graph
import Aivm.Lib.ByteWriter
import Aivm.Lib.ShellWords

/-!
# Command lines of package tools

`pm_run_tool_command_mode` builds one command for `/bin/sh` out of a tool and its arguments. Every store into a buffer
is a checked one, so that a store behind its end would show. Positions are those of objects in memory, whose sums do not
wrap.
-/

namespace Aivm

open ByteReader ByteWriter
open ShellWords (quoteByte singleQuote)

/-! ## Buffers -/

/-- The loop of `pm_shell_quote`. -/
def shellQuoteLoop : Text → List Byte → Nat → Parse Unit (List Byte × Nat)
  | [], out, w => return (out, w)
  | b :: value, out, w =>
      if b = 39 then
        if out.length ≤ w + 4 then .fail ()
        else do
          let (out, w) ← putAll [39, 92, 39, 39] out w
          shellQuoteLoop value out w
      else if out.length ≤ w + 1 then .fail ()
      else do
        let (out, w) ← putAll [b] out w
        shellQuoteLoop value out w

/-- `pm_shell_quote`. -/
def shellQuote (value : CText) (out : List Byte) : Parse Unit (List Byte) :=
  if out.length < 3 then .fail ()
  else do
    let (out, w) ← putAll [39] out 0
    let (out, w) ← shellQuoteLoop value.1 out w
    if out.length < w + 2 then .fail ()
    else do
      let (out, _) ← putAll [39, 0] out w
      return out

/-- `pm_append`. -/
def pmAppend (out : List Byte) (used : Nat) (text : CText) : Parse Unit (List Byte × Nat) :=
  if out.length < used + text.1.length + 1 then .fail ()
  else do
    let (out, used) ← putAll text.1 out used
    let out ← put out used 0
    return (out, used)

/-! ## Commands -/

def spaceText : CText := ⟨[32], by decide⟩

/-- The loop of `pm_run_tool_command_mode` over the arguments. -/
def appendToolArgs : List CText → List Byte → List Byte → Nat → Parse Unit (List Byte)
  | [], _, command, _ => return command
  | arg :: args, quoted, command, used => do
      let quoted ← shellQuote arg quoted
      let (command, used) ← pmAppend command used spaceText
      let (command, used) ← pmAppend command used (.ofBuffer quoted)
      appendToolArgs args quoted command used

/-- What `pm_run_tool_command_mode` builds in its buffers before it runs it. -/
def toolCommand (toolPath : CText) (args : List CText) (quoted command : List Byte) : Parse Unit (List Byte) := do
  let quoted ← shellQuote toolPath quoted
  let command ← put command 0 0
  let (command, used) ← pmAppend command 0 (.ofBuffer quoted)
  appendToolArgs args quoted command used

/-- The command of a tool is safe: a shell reads back the words, and no buffer is written outside. -/
structure ToolCommandSafe (toolPath : CText) (args : List CText) : Prop where
  words : ∀ quoted command out, quoted.length = 2 * pathMax → command.length = 4 * pathMax →
    toolCommand toolPath args quoted command = .ok out →
    ShellWords.words (CText.ofBuffer out).1 = some (toolPath.1 :: args.map Subtype.val)
  quoteInside : ∀ (value : CText) (out : List Byte), 3 ≤ out.length → (shellQuote value out).Proper
  appendInside : ∀ (out : List Byte) (used : Nat) (text : CText), 3 ≤ out.length → (pmAppend out used text).Proper

variable {written free : List Byte}

/-! ## Quoting -/

/-- Each byte is quoted on its own. -/
theorem shellQuoteLoop_cons (b : Byte) (value out : List Byte) (w : Nat) :
    shellQuoteLoop (b :: value) out w =
      if out.length ≤ w + (quoteByte b).length then .fail ()
      else putAll (quoteByte b) out w >>= fun r => shellQuoteLoop value r.1 r.2 := by
  by_cases hquote : b = 39
  · have hbyte : quoteByte b = [39, 92, 39, 39] := by simp [quoteByte, hquote, singleQuote, ShellWords.backslash]
    rw [shellQuoteLoop, if_pos hquote, hbyte]
    rfl
  · have hbyte : quoteByte b = [b] := by simp [quoteByte, hquote, singleQuote]
    rw [shellQuoteLoop, if_neg hquote, hbyte]
    rfl

/-- The loop fails, or writes the quoted bytes and leaves the rest of the buffer. -/
theorem shellQuoteLoop_cases (value : Text) : ∀ {written free : List Byte},
    shellQuoteLoop value (written ++ free) written.length = .fail () ∨
      ∃ rest, rest.length + (value.flatMap quoteByte).length = free.length ∧
        shellQuoteLoop value (written ++ free) written.length =
          .ok (written ++ value.flatMap quoteByte ++ rest, (written ++ value.flatMap quoteByte).length) := by
  induction value with
  | nil =>
      intro written free
      right
      exact ⟨free, by simp, by simp [shellQuoteLoop]⟩
  | cons b value ih =>
      intro written free
      rw [shellQuoteLoop_cons]
      by_cases hroom : (written ++ free).length ≤ written.length + (quoteByte b).length
      · rw [if_pos hroom]
        exact .inl rfl
      · rw [List.length_append] at hroom
        have hfree : (quoteByte b).length ≤ free.length := by omega
        rw [List.length_append, if_neg hroom, putAll_ok hfree, Parse.ok_bind]
        rcases @ih (written ++ quoteByte b) (free.drop (quoteByte b).length) with hfail | ⟨rest, hlength, hok⟩
        · exact .inl hfail
        · right
          rw [List.length_drop] at hlength
          refine ⟨rest, ?_, ?_⟩
          · rw [List.flatMap_cons, List.length_append]
            omega
          · rw [hok, List.flatMap_cons, List.append_assoc written]

/-- A text is quoted as one word, or there is no room for it. -/
theorem shellQuote_cases (value : CText) (out : List Byte) :
    shellQuote value out = .fail () ∨ ∃ rest, shellQuote value out = .ok (ShellWords.quote value.1 ++ 0 :: rest) := by
  rw [shellQuote]
  by_cases hsmall : out.length < 3
  · rw [if_pos hsmall]
    exact .inl rfl
  · have hopen : (putAll [39] out 0 : Parse Unit _) = .ok ([39] ++ out.drop 1, [(39 : Byte)].length) :=
      @putAll_ok Unit [39] [] out (by simp; omega)
    rw [if_neg hsmall, hopen, Parse.ok_bind]
    rcases @shellQuoteLoop_cases value.1 [39] (out.drop 1) with hfail | ⟨rest, -, hok⟩
    · left
      simp only [hfail, Parse.fail_bind]
    · simp only [hok, Parse.ok_bind]
      by_cases hroom : ([39] ++ value.1.flatMap quoteByte ++ rest).length < ([39] ++ value.1.flatMap quoteByte).length + 2
      · rw [if_pos hroom]
        exact .inl rfl
      · have hrest : [(39 : Byte), 0].length ≤ rest.length := by
          rw [List.length_append] at hroom
          simp only [List.length_cons, List.length_nil]
          omega
        right
        refine ⟨rest.drop 2, ?_⟩
        rw [if_neg hroom, putAll_ok hrest, Parse.ok_bind]
        simp [ShellWords.quote, singleQuote]

/-! ## Appending -/

/-- A text is appended with its NUL, or there is no room for it. -/
theorem pmAppend_cases (text : CText) :
    pmAppend (written ++ free) written.length text = .fail () ∨
      ∃ rest, pmAppend (written ++ free) written.length text =
        .ok (written ++ text.1 ++ 0 :: rest, (written ++ text.1).length) := by
  rw [pmAppend]
  by_cases hroom : (written ++ free).length < written.length + text.1.length + 1
  · rw [if_pos hroom]
    exact .inl rfl
  · rw [List.length_append] at hroom
    have hfree : text.1.length ≤ free.length := by omega
    have hnul : free.drop text.1.length ≠ [] := by
      intro hnil
      have := congrArg List.length hnil
      simp only [List.length_drop, List.length_nil] at this
      omega
    obtain ⟨x, rest, hrest⟩ := List.exists_cons_of_ne_nil hnul
    right
    refine ⟨rest, ?_⟩
    simp only [List.length_append, if_neg hroom, putAll_ok hfree, Parse.ok_bind, hrest]
    simp only [← List.length_append, put_append, Parse.ok_bind, Parse.pure_eq]

theorem pmAppend_proper (out : List Byte) (used : Nat) (text : CText) : (pmAppend out used text).Proper := by
  by_cases hused : used ≤ out.length
  · have hsplit : out.take used ++ out.drop used = out := List.take_append_drop used out
    have hlength : (out.take used).length = used := by simp [hused]
    have hcases := @pmAppend_cases (out.take used) (out.drop used) text
    rw [hsplit, hlength] at hcases
    rcases hcases with hfail | ⟨rest, hok⟩
    · rw [hfail]
      exact Parse.proper_fail ()
    · rw [hok]
      exact Parse.proper_ok _
  · rw [pmAppend, if_pos (by omega)]
    exact Parse.proper_fail ()

/-! ## The command -/

theorem ofBuffer_text {text rest : List Byte} (h : (0 : Byte) ∉ text) :
    (CText.ofBuffer (text ++ 0 :: rest)).1 = text := by
  have hall : ∀ b ∈ text, decide (b ≠ 0) = true := by
    intro b hb
    simp only [ne_eq, decide_eq_true_eq]
    rintro rfl
    exact h hb
  have htake := @List.takeWhile_append_of_pos _ (fun b => decide (b ≠ 0)) text (0 :: rest) hall
  simpa [CText.ofBuffer] using htake

theorem quote_clean (value : CText) : (0 : Byte) ∉ ShellWords.quote value.1 := by
  have hbody : (0 : Byte) ∉ value.1.flatMap quoteByte := by
    intro hmem
    obtain ⟨b, hb, hzero⟩ := List.mem_flatMap.1 hmem
    unfold quoteByte at hzero
    split at hzero
    · revert hzero
      decide
    · rw [List.mem_singleton] at hzero
      exact value.2 (hzero ▸ hb)
  simp [ShellWords.quote, singleQuote, hbody]

/-- The arguments are appended as quoted words. -/
theorem appendToolArgs_ok {args : List CText} : ∀ {written free quoted out : List Byte}, (0 : Byte) ∉ written →
    appendToolArgs args quoted (written ++ 0 :: free) written.length = .ok out →
    (CText.ofBuffer out).1 = written ++ args.flatMap fun arg => 32 :: ShellWords.quote arg.1 := by
  induction args with
  | nil =>
      intro written free quoted out hclean h
      cases h
      rw [ofBuffer_text hclean]
      simp
  | cons arg args ih =>
      intro written free quoted out hclean h
      rw [appendToolArgs] at h
      rcases shellQuote_cases arg quoted with hfail | ⟨tail, hquote⟩
      · simp [hfail] at h
      rcases @pmAppend_cases written (0 :: free) spaceText with hfail | ⟨rest, hspace⟩
      · simp [hquote, hfail] at h
      simp only [hquote, hspace, Parse.ok_bind] at h
      rcases @pmAppend_cases (written ++ spaceText.1) (0 :: rest) (.ofBuffer (ShellWords.quote arg.1 ++ 0 :: tail)) with
        hfail | ⟨rest, happend⟩
      · simp only [hfail, Parse.fail_bind, reduceCtorEq] at h
      simp only [happend, Parse.ok_bind, ofBuffer_text (quote_clean arg)] at h
      have hnext : (0 : Byte) ∉ written ++ spaceText.1 ++ ShellWords.quote arg.1 := by
        simp [hclean, quote_clean arg, spaceText]
      rw [ih hnext h, List.flatMap_cons, spaceText]
      simp

theorem command_cons (word : List Byte) (words : List (List Byte)) :
    ShellWords.command (word :: words) =
      ShellWords.quote word ++ words.flatMap fun word => 32 :: ShellWords.quote word := by
  induction words generalizing word with
  | nil => simp [ShellWords.command]
  | cons next words ih =>
      rw [ShellWords.command, ih, List.flatMap_cons]
      · rfl
      · simp

/-- The command of a tool is the quoted words. -/
theorem toolCommand_ok {toolPath : CText} {args : List CText} {quoted command out : List Byte} (hne : command ≠ [])
    (h : toolCommand toolPath args quoted command = .ok out) :
    (CText.ofBuffer out).1 = ShellWords.command (toolPath.1 :: args.map Subtype.val) := by
  obtain ⟨x, command, rfl⟩ := List.exists_cons_of_ne_nil hne
  have hstart : (put (x :: command) 0 0 : Parse Unit _) = .ok (0 :: command) := @put_append Unit [] command 0 x
  rw [toolCommand] at h
  rcases shellQuote_cases toolPath quoted with hfail | ⟨tail, hquote⟩
  · simp [hfail] at h
  simp only [hquote, hstart, Parse.ok_bind] at h
  rcases @pmAppend_cases [] (0 :: command) (.ofBuffer (ShellWords.quote toolPath.1 ++ 0 :: tail)) with
    hfail | ⟨rest, happend⟩
  · simp only [List.nil_append, List.length_nil] at hfail
    simp [hfail] at h
  simp only [List.nil_append, List.length_nil, ofBuffer_text (quote_clean toolPath)] at happend
  rw [happend, Parse.ok_bind] at h
  rw [appendToolArgs_ok (quote_clean toolPath) h, command_cons, List.flatMap_map]

/-- A shell reads the tool and its arguments back, and nothing else. -/
theorem tool_command_safe (toolPath : CText) (args : List CText) : ToolCommandSafe toolPath args where
  words quoted command out _ hcommand h := by
    have hne : command ≠ [] := by
      rintro rfl
      simp [pathMax] at hcommand
    rw [toolCommand_ok hne h, ShellWords.words_command]
  quoteInside value out _ := by
    rcases shellQuote_cases value out with hfail | ⟨rest, hok⟩
    · rw [hfail]
      exact Parse.proper_fail ()
    · rw [hok]
      exact Parse.proper_ok _
  appendInside out used text _ := pmAppend_proper out used text

end Aivm
