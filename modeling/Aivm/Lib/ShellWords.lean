import Mathlib.Data.List.Basic

/-!
# The words of a shell command

How a POSIX shell splits a simple command into words: bytes between single quotes stand for themselves, a backslash takes
the next byte as it is, and blanks separate words. A byte that means anything else to the shell ends the reading, so that
a command that is read has no operator and no expansion outside quotes.
-/

namespace ShellWords

def singleQuote : UInt8 := 39
def backslash : UInt8 := 92
def blank : UInt8 := 32
def newline : UInt8 := 10

/-- Bytes outside quotes that the shell may take for an operator, an expansion, a comment, a pattern, an assignment or a
reserved word: control bytes and the punctuation that POSIX names. -/
def isSpecial (b : UInt8) : Bool :=
  b < 32 ∨ b ∈ ([33, 34, 35, 36, 37, 38, 40, 41, 42, 59, 60, 61, 62, 63, 91, 93, 94, 96, 123, 124, 125, 126] : List UInt8)

/-- Where a reader is: between words, or in a word of which some bytes have been read. -/
inductive State where
  | between
  | plain (word : List UInt8)
  | quoted (word : List UInt8)
  | escaped (word : List UInt8)
deriving DecidableEq, Repr

/-- The words from a state on. -/
def wordsFrom : State → List UInt8 → Option (List (List UInt8))
  | .between, [] => some []
  | .plain word, [] => some [word]
  | .quoted _, [] => none
  | .escaped _, [] => none
  | .quoted word, b :: rest =>
      if b = singleQuote then wordsFrom (.plain word) rest else wordsFrom (.quoted (word ++ [b])) rest
  | .escaped word, b :: rest => if b = newline then none else wordsFrom (.plain (word ++ [b])) rest
  | .between, b :: rest =>
      if b = blank then wordsFrom .between rest
      else if b = singleQuote then wordsFrom (.quoted []) rest
      else if b = backslash then wordsFrom (.escaped []) rest
      else if isSpecial b then none
      else wordsFrom (.plain [b]) rest
  | .plain word, b :: rest =>
      if b = blank then (word :: ·) <$> wordsFrom .between rest
      else if b = singleQuote then wordsFrom (.quoted word) rest
      else if b = backslash then wordsFrom (.escaped word) rest
      else if isSpecial b then none
      else wordsFrom (.plain (word ++ [b])) rest

/-- The words of a command. -/
def words (command : List UInt8) : Option (List (List UInt8)) := wordsFrom .between command

/-! ## Quoting -/

/-- A byte between single quotes; a quote closes them, is escaped, and opens them again. -/
def quoteByte (b : UInt8) : List UInt8 :=
  if b = singleQuote then [singleQuote, backslash, singleQuote, singleQuote] else [b]

/-- A text as one word. -/
def quote (text : List UInt8) : List UInt8 := singleQuote :: (text.flatMap quoteByte ++ [singleQuote])

/-- Texts as the words of a command. -/
def command : List (List UInt8) → List UInt8
  | [] => []
  | [text] => quote text
  | text :: texts => quote text ++ blank :: command texts

variable {word text rest : List UInt8}

theorem wordsFrom_quoteByte (b : UInt8) :
    wordsFrom (.quoted word) (quoteByte b ++ rest) = wordsFrom (.quoted (word ++ [b])) rest := by
  by_cases hb : b = singleQuote
  · subst hb
    have hescape : backslash ≠ blank ∧ backslash ≠ singleQuote := by decide
    have hopen : singleQuote ≠ blank ∧ singleQuote ≠ newline := by decide
    simp [quoteByte, wordsFrom, hescape, hopen]
  · simp [quoteByte, wordsFrom, hb]

/-- Quoted bytes are read as they are. -/
theorem wordsFrom_quoted (text : List UInt8) :
    wordsFrom (.quoted word) (text.flatMap quoteByte ++ rest) = wordsFrom (.quoted (word ++ text)) rest := by
  induction text generalizing word with
  | nil => simp
  | cons b text ih => rw [List.flatMap_cons, List.append_assoc, wordsFrom_quoteByte, ih, List.append_assoc,
      List.singleton_append]

theorem wordsFrom_quote (text rest : List UInt8) :
    wordsFrom .between (quote text ++ rest) = wordsFrom (.plain text) rest := by
  have hopen : singleQuote ≠ blank := by decide
  have hclosed := @wordsFrom_quoted [] (singleQuote :: rest) text
  simp only [quote, List.cons_append, List.append_assoc, List.nil_append, wordsFrom, if_neg hopen, if_true, hclosed]

/-- A command of quoted texts has these texts as its words. -/
theorem words_command (texts : List (List UInt8)) : words (command texts) = some texts := by
  rw [words]
  induction texts with
  | nil => rfl
  | cons text texts ih =>
      cases texts with
      | nil =>
          have hword := wordsFrom_quote text []
          rw [List.append_nil] at hword
          simp [command, hword, wordsFrom]
      | cons next texts => simp [command, wordsFrom_quote, wordsFrom, ih]

end ShellWords
