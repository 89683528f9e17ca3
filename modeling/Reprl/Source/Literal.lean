import Reprl.Text.Character
import Reprl.Number.Reading
import Reprl.Text.Escape
import Reprl.Text.Letter

/-! Blanks and comments between tokens, and the literals of scripts as they are written:
numbers, strings, template text, regular expressions and words with escapes. Blanks and
comments carry no meaning except that line ends among them can end a statement. Each
reader of a literal gives what it read and the text after it, or nothing when the text is
not well formed. -/

namespace Reprl.Source

def isLineEnd (c : Char) : Bool := c = '\n' || c = '\r' || c = '\u2028' || c = '\u2029'

/-- Blanks that are no line ends; the byte order mark counts as one. -/
def isSpace (c : Char) : Bool := !isLineEnd c && (Text.isBlank c || c = '\uFEFF')

inductive Trivia where
  | blank
  | line
  | block

/-- The text from the next token on, and whether a line ended before it. The
marks `<!--` and, first on a line, `-->` open line comments too. There is no
such text when a block comment never ends. -/
def skipTrivia : Trivia → Bool → List Char → Option (Bool × List Char)
  | .blank, newline, [] => some (newline, [])
  | .line, newline, [] => some (newline, [])
  | .block, _, [] => none
  | .line, newline, c :: rest =>
    if isLineEnd c then skipTrivia .blank true rest else skipTrivia .line newline rest
  | .block, newline, '*' :: '/' :: rest => skipTrivia .blank newline rest
  | .block, newline, c :: rest => skipTrivia .block (newline || isLineEnd c) rest
  | .blank, newline, '/' :: '/' :: rest => skipTrivia .line newline rest
  | .blank, newline, '/' :: '*' :: rest => skipTrivia .block newline rest
  | .blank, newline, '<' :: '!' :: '-' :: '-' :: rest => skipTrivia .line newline rest
  | .blank, true, '-' :: '-' :: '>' :: rest => skipTrivia .line true rest
  | .blank, newline, c :: rest =>
    if isLineEnd c then skipTrivia .blank true rest
    else if isSpace c then skipTrivia .blank newline rest
    else some (newline, c :: rest)

open Reprl.Text

/-- What follows a number must not run into it. -/
def endsNumber : List Char → Bool
  | [] => true
  | c :: _ => !(isIdentifierPart c || c = '\\')

/-- No underscore at either end and no two in a row. -/
def separatorsFit : Bool → List Char → Bool
  | afterDigit, [] => afterDigit
  | afterDigit, c :: rest =>
    if c = '_' then afterDigit && separatorsFit false rest else separatorsFit true rest

/-- A run of digits with single underscores between them, perhaps empty. -/
def digitRun? (isDigit : Char → Bool) (cs : List Char) : Option (List Char × List Char) :=
  let run := cs.takeWhile fun c => isDigit c || c = '_'
  if run.isEmpty || separatorsFit false run then
    some (run.filter (· ≠ '_'), cs.dropWhile fun c => isDigit c || c = '_')
  else none

inductive NumberLiteral where
  /-- Numbers with a leading zero are `legacy` and not allowed in strict code. -/
  | number (value : Float) (legacy : Bool)
  | bigInteger

/-- Digits of a base other than ten add up one by one, rounding each time. -/
def radixValue (base : Nat) (digits : List Char) : Float :=
  digits.foldl (fun x c => x * Float.ofNat base + Float.ofNat ((digitValue? c).getD 0)) 0.0

def radixLiteral? (base : Nat) (cs : List Char) : Option (NumberLiteral × List Char) := do
  let (digits, rest) ← digitRun? (isDigitOf base) cs
  if digits.isEmpty then none
  else match rest with
    | 'n' :: after => if endsNumber after then some (.bigInteger, after) else none
    | _ => if endsNumber rest then some (.number (radixValue base digits) false, rest) else none

def exponentRun? (cs : List Char) : Option (Int × Bool × List Char) :=
  match cs with
  | e :: rest =>
    if e = 'e' ∨ e = 'E' then do
      let (negative, unsigned) := Number.takeSign rest
      let (digits, after) ← digitRun? isDecimal unsigned
      if digits.isEmpty then none
      else
        let size : Int := digitsValue 10 digits
        some (if negative then -size else size, true, after)
    else some (0, false, cs)
  | [] => some (0, false, [])

/-- Goes on after the whole digits of a decimal. -/
def decimalFrom? (whole rest : List Char) (legacy : Bool) :
    Option (NumberLiteral × List Char) := do
  let (fraction, pointed, rest) ← match rest with
    | '.' :: after => (digitRun? isDecimal after).map fun (ds, after) => (ds, true, after)
    | _ => some ([], false, rest)
  let (exponent, scaled, rest) ← exponentRun? rest
  let value := Number.Decimal.value ⟨false, whole ++ fraction, exponent - fraction.length⟩
  match rest with
  | 'n' :: after =>
    if pointed || scaled || legacy || !endsNumber after then none else some (.bigInteger, after)
  | _ => if endsNumber rest then some (.number value legacy, rest) else none

/-- A number with a leading zero: octal, or decimal if a digit is too large. -/
def leadingZero? (cs : List Char) : Option (NumberLiteral × List Char) :=
  let digits := cs.takeWhile isDecimal
  let rest := cs.dropWhile isDecimal
  if digits.all (isDigitOf 8) then
    if endsNumber rest then some (.number (radixValue 8 digits) true, rest) else none
  else if rest.head? = some '_' then none
  else decimalFrom? digits rest true

/-- Reads a number. The text starts with a digit, or with a point and a digit. -/
def number? : List Char → Option (NumberLiteral × List Char)
  | '0' :: 'x' :: rest | '0' :: 'X' :: rest => radixLiteral? 16 rest
  | '0' :: 'o' :: rest | '0' :: 'O' :: rest => radixLiteral? 8 rest
  | '0' :: 'b' :: rest | '0' :: 'B' :: rest => radixLiteral? 2 rest
  | '0' :: c :: rest =>
    if c = '_' then none
    else if isDecimal c then leadingZero? ('0' :: c :: rest)
    else decimalFrom? ['0'] (c :: rest) false
  | cs => do
    let (whole, rest) ← digitRun? isDecimal cs
    decimalFrom? whole rest false

/-- The escape with this first character, and the text after it, names something. -/
def escapeFits (c : Char) (rest : List Char) : Bool :=
  if c = 'x' then (rest.take 2).length = 2 && (rest.take 2).all isHex
  else if c = 'u' then
    match rest with
    | '\x7b' :: inner =>
      let digits := inner.takeWhile isHex
      !digits.isEmpty && digitsValue 16 digits ≤ 0x10FFFF &&
        (inner.dropWhile isHex).head? = some '\x7d'
    | _ => (rest.take 4).length = 4 && (rest.take 4).all isHex
  else true

/-- Escapes of digits other than a lone zero. -/
def isDigitEscape (c : Char) (rest : List Char) : Bool :=
  isDecimal c && (c ≠ '0' || startsWithDecimal rest)

structure StringText where
  raw : List Char
  /-- A digit is escaped, which strict code does not allow. -/
  legacy : Bool

/-- Reads a string up to its closing quote. What is read so far stands reversed. -/
def string? (quote : Char) :
    List Char → Bool → List Char → Option (StringText × List Char)
  | _, _, [] => none
  | read, legacy, '\\' :: '\r' :: '\n' :: rest =>
    string? quote ('\n' :: '\r' :: '\\' :: read) legacy rest
  | read, legacy, '\\' :: c :: rest =>
    if escapeFits c rest then
      string? quote (c :: '\\' :: read) (legacy || isDigitEscape c rest) rest
    else none
  | read, legacy, c :: rest =>
    if c = quote then some (⟨read.reverse, legacy⟩, rest)
    else if c = '\n' ∨ c = '\r' ∨ c = '\\' then none
    else string? quote (c :: read) legacy rest

structure TemplateText where
  raw : List Char
  /-- All escapes name something, as they must unless a function reads the text. -/
  wellFormed : Bool
  /-- A substitution follows, and not the end of the template. -/
  opens : Bool

def template? : List Char → Bool → List Char → Option (TemplateText × List Char)
  | _, _, [] => none
  | read, fits, '$' :: '\x7b' :: rest => some (⟨read.reverse, fits, true⟩, rest)
  | read, fits, '\\' :: c :: rest =>
    template? (c :: '\\' :: read) (fits && escapeFits c rest && !isDigitEscape c rest) rest
  | read, fits, c :: rest =>
    if c = '\x60' then some (⟨read.reverse, fits, false⟩, rest)
    else template? (c :: read) fits rest

/-- What follows the body of a regular expression and its closing slash. The
flag says whether the place is inside a class, where a slash stands for itself. -/
def regexEnd? : Bool → List Char → Option (List Char)
  | _, [] => none
  | inClass, '\\' :: c :: rest => if isLineEnd c then none else regexEnd? inClass rest
  | inClass, c :: rest =>
    if isLineEnd c || c = '\\' then none
    else if c = '/' && !inClass then some rest
    else regexEnd? (if c = '[' then true else if c = ']' then false else inClass) rest

def regexFlags : List Char := "dgimsuvy".toList

/-- What follows a regular expression, given the text after its first slash.
Flags are known letters, each at most once. -/
def regex? (cs : List Char) : Option (List Char) := do
  let rest ← regexEnd? false cs
  let flags := rest.takeWhile isIdentifierPart
  if flags.all regexFlags.contains && decide flags.Nodup then
    some (rest.dropWhile isIdentifierPart)
  else none

/-- The character that an escape in a word names, given the text after its backslash. -/
def wordEscape? : List Char → Option (Char × List Char)
  | 'u' :: '\x7b' :: rest =>
    let digits := rest.takeWhile isHex
    match rest.dropWhile isHex with
    | '\x7d' :: after =>
      if digits.isEmpty then none else some (scalar (some (digitsValue 16 digits)), after)
    | _ => none
  | 'u' :: a :: b :: c :: d :: after =>
    if [a, b, c, d].all isHex then some (scalar (some (digitsValue 16 [a, b, c, d])), after)
    else none
  | _ => none

theorem length_wordEscape? {cs after : List Char} {c : Char}
    (h : wordEscape? cs = some (c, after)) : after.length < cs.length := by
  unfold wordEscape? at h
  split at h
  · next rest =>
    have := length_dropWhile_le isHex rest
    simp only at h
    split at h
    · next e =>
      rw [e] at this
      simp only [List.length_cons] at this ⊢
      split at h <;> grind
    · simp at h
  · split at h <;> grind
  · simp at h

structure Word where
  text : List Char
  escaped : Bool

/-- Reads the characters of a word, literal or escaped. What is read so far
stands reversed, and the first character must be able to start a word. -/
def word? (read : List Char) (escaped : Bool) (cs : List Char) : Option (Word × List Char) :=
  let fits c := if read.isEmpty then isIdentifierStart c else isIdentifierPart c
  match cs with
  | '\\' :: rest =>
    match _h : wordEscape? rest with
    | some (c, after) => if fits c then word? (c :: read) true after else none
    | none => none
  | c :: rest =>
    if fits c then word? (c :: read) escaped rest
    else if read.isEmpty then none else some (⟨read.reverse, escaped⟩, cs)
  | [] => if read.isEmpty then none else some (⟨read.reverse, escaped⟩, [])
termination_by cs.length
decreasing_by
  · have := length_wordEscape? _h
    simp
    omega
  · simp

end Reprl.Source
