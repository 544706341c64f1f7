import TokenPattern.Text.Quoted

namespace TokenPattern.Text

def digitValue (c : Char) : Nat :=
  if c.isDigit then c.toNat - '0'.toNat else c.toNat - 'a'.toNat + 10

def codeValue (start : Nat) (digits : List Char) : Nat :=
  digits.foldl (fun value c => 16 * value + digitValue c) start

def unescape (c : Char) : Char :=
  if c = '0' then '\x00'
  else if c = 't' then '\t'
  else if c = 'n' then '\n'
  else if c = 'r' then '\r'
  else c

def prepend (c : Char) : List Char × List Char → List Char × List Char
  | (text, rest) => (c :: text, rest)

mutual

/-- The text up to the closing quote, and what follows this. -/
def readText : List Char → Option (List Char × List Char)
  | [] => none
  | c :: rest =>
      if c = '"' then some ([], rest)
      else if c = '\\' then readEscape rest
      else (readText rest).map (prepend c)

def readEscape : List Char → Option (List Char × List Char)
  | [] => none
  | c :: rest => if c = 'u' then readBrace rest else (readText rest).map (prepend (unescape c))

def readBrace : List Char → Option (List Char × List Char)
  | [] => none
  | c :: rest => if c = '\x7b' then readCode 0 rest else none

/-- The same within a code point, of which the first digits make up `value`. -/
def readCode (value : Nat) : List Char → Option (List Char × List Char)
  | [] => none
  | c :: rest =>
      if c = '\x7d' then (readText rest).map (prepend (Char.ofNat value))
      else readCode (16 * value + digitValue c) rest

end

theorem digitValue_digitChar : ∀ {digit : Nat}, digit < 16 → digitValue digit.digitChar = digit := by
  decide

theorem codeValue_toDigits (number : Nat) : codeValue 0 (Nat.toDigits 16 number) = number := by
  induction number using Nat.base_induction 16 (by decide) with
  | single digit small =>
      rw [Nat.toDigits_of_lt_base small]
      simp [codeValue, digitValue_digitChar small]
  | digit number digit small positive rest =>
      rw [← Nat.toDigits_append_toDigits (by decide) positive small, Nat.toDigits_of_lt_base small,
        codeValue, List.foldl_append]
      rw [codeValue] at rest
      simp [rest, digitValue_digitChar small]

theorem brace_not_mem_toDigits (number : Nat) : '\x7d' ∉ Nat.toDigits 16 number := by
  have apart : ∀ digit, digit < 16 → '\x7d' ≠ digit.digitChar := by decide
  induction number using Nat.base_induction 16 (by decide) with
  | single digit small =>
      rw [Nat.toDigits_of_lt_base small, List.mem_singleton]
      exact apart digit small
  | digit number digit small positive rest =>
      rw [← Nat.toDigits_append_toDigits (by decide) positive small, Nat.toDigits_of_lt_base small,
        List.mem_append, List.mem_singleton, not_or]
      exact ⟨rest, apart digit small⟩

theorem readCode_append {digits : List Char} (unclosed : '\x7d' ∉ digits) (value : Nat)
    (rest : List Char) :
    readCode value (digits ++ '\x7d' :: rest) =
      (readText rest).map (prepend (Char.ofNat (codeValue value digits))) := by
  induction digits generalizing value with
  | nil => simp [readCode, codeValue]
  | cons digit digits later =>
      rw [List.mem_cons, not_or] at unclosed
      rw [List.cons_append, readCode, if_neg (Ne.symm unclosed.1), later unclosed.2]
      rfl

/-- All that a character can be written as: one character behind a backslash, a code point, or
itself. -/
theorem escape_cases (c : Char) :
    (∃ short, short ≠ 'u' ∧ unescape short = c ∧ escape c = ['\\', short]) ∨
      escape c = codePoint c ∨ (c ≠ '"' ∧ c ≠ '\\' ∧ escape c = [c]) := by
  by_cases special : c ∈ ['"', '\\', '\x00', '\t', '\n', '\r']
  · simp only [List.mem_cons, List.not_mem_nil, or_false] at special
    rcases special with rfl | rfl | rfl | rfl | rfl | rfl <;>
      exact .inl ⟨_, by decide, rfl, rfl⟩
  · simp only [List.mem_cons, List.not_mem_nil, or_false, not_or] at special
    rcases special with ⟨quote, backslash, null, tab, feed, ret⟩
    simp only [escape, quote, backslash, null, tab, feed, ret, if_false]
    cases isHidden c with
    | true => exact .inr (.inl rfl)
    | false => exact .inr (.inr ⟨quote, backslash, rfl⟩)

theorem readText_codePoint (c : Char) (rest : List Char) :
    readText (codePoint c ++ rest) = (readText rest).map (prepend c) := by
  have braced : codePoint c ++ rest =
      '\\' :: 'u' :: '\x7b' :: (Nat.toDigits 16 c.toNat ++ '\x7d' :: rest) := by
    simp [codePoint]
  rw [braced]
  simp only [readText, readEscape, readBrace, Char.reduceEq, if_true, if_false]
  rw [readCode_append (brace_not_mem_toDigits _), codeValue_toDigits, Char.ofNat_toNat]

theorem readText_escape (c : Char) (rest : List Char) :
    readText (escape c ++ rest) = (readText rest).map (prepend c) := by
  rcases escape_cases c with ⟨short, plain, rfl, written⟩ | written | ⟨quote, backslash, written⟩
  · rw [written]
    simp [readText, readEscape, plain]
  · rw [written, readText_codePoint]
  · rw [written, List.singleton_append, readText, if_neg quote, if_neg backslash]

theorem readText_quoted (text : List Char) (rest : List Char) :
    readText (text.flatMap escape ++ '"' :: rest) = some (text, rest) := by
  induction text with
  | nil => simp [readText]
  | cons c text later =>
      rw [List.flatMap_cons, List.append_assoc, readText_escape, later]
      rfl

end TokenPattern.Text
