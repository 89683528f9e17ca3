/-! How deeply a source text nests, judged from its bytes before it is parsed.
Brackets and template substitutions open frames, and operators pile up in the
innermost frame until a separator or a closing brace ends the expression. A
text whose depth ever exceeds the limit is refused. -/

namespace Reprl.Source

def maxDepth : Nat := 500

structure Frame where
  chain : Nat := 0
  /-- The frame belongs to a substitution, so template text follows it. -/
  template : Bool := false

/-- The open frames, innermost first, with the running depth estimate. The
bottom frame is never closed. -/
structure Nesting where
  top : Frame := {}
  below : List Frame := []
  total : Nat := 0

namespace Nesting

def guarded (s : Nesting) : Option Nesting :=
  if s.total ≤ maxDepth then some s else none

def chain (s : Nesting) : Option Nesting :=
  guarded { s with top := { s.top with chain := s.top.chain + 1 }, total := s.total + 1 }

def push (s : Nesting) (template : Bool) : Nesting :=
  { top := { chain := 0, template }, below := s.top :: s.below, total := s.total + 1 }

def openFrame (s : Nesting) (template : Bool) : Option Nesting :=
  s.chain.bind fun s => guarded (s.push template)

/-- Leaves the innermost frame, unless it is the bottom one. Gives the frame left. -/
def close (s : Nesting) : Option (Frame × Nesting) :=
  match s.below with
  | [] => none
  | outer :: below =>
    some (s.top, { top := outer, below, total := s.total - (s.top.chain + 1) })

def reset (s : Nesting) : Nesting :=
  { s with top := { s.top with chain := 0 }, total := s.total - s.top.chain }

end Nesting

def byte (c : Char) : UInt8 := UInt8.ofNat c.toNat

def backslash : UInt8 := byte '\\'
def backquote : UInt8 := 0x60
def lineFeed : UInt8 := byte '\n'
def slash : UInt8 := byte '/'
def star : UInt8 := byte '*'
def dollar : UInt8 := byte '$'
def openBrace : UInt8 := 0x7B
def closeBrace : UInt8 := 0x7D

def quotes : List UInt8 := ['"', '\''].map byte
def openers : List UInt8 := ['(', '[', '\x7b'].map byte
def closers : List UInt8 := [')', ']', '\x7d'].map byte
def separators : List UInt8 := [';', ','].map byte
def operators : List UInt8 :=
  ['!', '~', '+', '-', '*', '/', '%', '<', '>', '=', '&', '|', '^', '?', ':', '.'].map byte

def isDigitByte (b : UInt8) : Bool := byte '0' ≤ b && b ≤ byte '9'

def isAlphanumericByte (b : UInt8) : Bool :=
  isDigitByte b || (byte 'a' ≤ b && b ≤ byte 'z') || (byte 'A' ≤ b && b ≤ byte 'Z')

/-- Bytes of words; those of characters beyond ASCII all count. -/
def isWordByte (b : UInt8) : Bool :=
  isAlphanumericByte b || b = byte '_' || b = dollar || 0x80 ≤ b

def isNumberByte (b : UInt8) : Bool := isAlphanumericByte b || b = byte '.' || b = byte '_'

def isSpaceByte (b : UInt8) : Bool :=
  b = 0x20 || b = 0x09 || b = 0x0A || b = 0x0C || b = 0x0D

def elseWord : List UInt8 := ['e', 'l', 's', 'e'].map byte

/-- Words that put a level on top of the expression or statement they stand in. -/
def chainingWords : List (List UInt8) :=
  [['t', 'y', 'p', 'e', 'o', 'f'], ['v', 'o', 'i', 'd'], ['d', 'e', 'l', 'e', 't', 'e'],
    ['n', 'e', 'w'], ['i', 'n'], ['i', 'n', 's', 't', 'a', 'n', 'c', 'e', 'o', 'f'],
    ['a', 'w', 'a', 'i', 't'], ['y', 'i', 'e', 'l', 'd'], ['e', 'l', 's', 'e']].map (·.map byte)

/-- What follows a quoted string, whose opening quote is already read. A line
feed ends the string too and is not part of it. -/
def skipString (quote : UInt8) : List UInt8 → List UInt8
  | [] => []
  | b :: rest =>
    if b = backslash then
      match rest with
      | [] => []
      | _ :: after => skipString quote after
    else if b = lineFeed then b :: rest
    else if b = quote then rest
    else skipString quote rest

/-- What follows template text, and whether a substitution stopped it rather
than the closing quote. -/
def skipTemplate : List UInt8 → List UInt8 × Bool
  | [] => ([], false)
  | b :: rest =>
    if b = backslash then
      match rest with
      | [] => ([], false)
      | _ :: after => skipTemplate after
    else if b = backquote then (rest, false)
    else
      match rest with
      | [] => ([], false)
      | next :: after =>
        if b = dollar ∧ next = openBrace then (after, true) else skipTemplate (next :: after)

def skipLine : List UInt8 → List UInt8
  | [] => []
  | b :: rest => if b = lineFeed then rest else skipLine rest

def skipBlock : List UInt8 → List UInt8
  | [] => []
  | b :: rest =>
    match rest with
    | [] => []
    | next :: after => if b = star ∧ next = slash then after else skipBlock (next :: after)

/-- The next word, after white space, is `else`. -/
def elseFollows (bytes : List UInt8) : Bool :=
  let word := bytes.dropWhile isSpaceByte
  elseWord.isPrefixOf word && !((word.drop 4).head?.any isWordByte)

theorem length_skipString (quote : UInt8) (bytes : List UInt8) :
    (skipString quote bytes).length ≤ bytes.length := by
  fun_induction skipString quote bytes <;> grind

theorem length_skipTemplate (bytes : List UInt8) :
    (skipTemplate bytes).1.length ≤ bytes.length := by
  fun_induction skipTemplate bytes <;> grind

theorem length_skipLine (bytes : List UInt8) : (skipLine bytes).length ≤ bytes.length := by
  fun_induction skipLine bytes <;> grind

theorem length_skipBlock (bytes : List UInt8) : (skipBlock bytes).length ≤ bytes.length := by
  fun_induction skipBlock bytes <;> grind

theorem length_dropWhile (p : UInt8 → Bool) (bytes : List UInt8) :
    (bytes.dropWhile p).length ≤ bytes.length :=
  (List.dropWhile_sublist p).length_le

namespace Nesting

/-- Ends the current expression, unless an `else` goes on with its statement. -/
def settle (s : Nesting) (rest : List UInt8) : Nesting :=
  if elseFollows rest then s else s.reset

def template (s : Nesting) (text : List UInt8) : Option Nesting × List UInt8 :=
  let (after, opened) := skipTemplate text
  (if opened then s.openFrame true else some s, after)

def closed (s : Nesting) (b : UInt8) (rest : List UInt8) : Option Nesting × List UInt8 :=
  let settled (s : Nesting) := if b = closeBrace then s.settle rest else s
  match s.close with
  | some (frame, s) => if frame.template then s.template rest else (some (settled s), rest)
  | none => (some (settled s), rest)

def word (s : Nesting) (b : UInt8) (rest : List UInt8) : Option Nesting × List UInt8 :=
  let chained := b :: rest.takeWhile isWordByte ∈ chainingWords
  (if chained then s.chain else some s, rest.dropWhile isWordByte)

/-- Reads one lexical piece that starts with a byte: the state after it, unless
that is too deep, and the bytes that follow the piece. -/
def step (s : Nesting) (b : UInt8) (rest : List UInt8) : Option Nesting × List UInt8 :=
  if b ∈ quotes then (some s, skipString b rest)
  else if b = backquote then s.template rest
  else if b = slash ∧ rest.head? = some slash then (some s, skipLine (rest.drop 1))
  else if b = slash ∧ rest.head? = some star then (some s, skipBlock (rest.drop 1))
  else if b ∈ openers then (s.openFrame false, rest)
  else if b ∈ closers then s.closed b rest
  else if b ∈ separators then (some (s.settle rest), rest)
  else if b ∈ operators then (s.chain, rest)
  else if isDigitByte b then (some s, rest.dropWhile isNumberByte)
  else if isWordByte b then s.word b rest
  else (some s, rest)

theorem length_template (s : Nesting) (text : List UInt8) :
    (s.template text).2.length ≤ text.length := length_skipTemplate text

theorem length_closed (s : Nesting) (b : UInt8) (rest : List UInt8) :
    (s.closed b rest).2.length ≤ rest.length := by
  have := length_skipTemplate rest
  grind [closed, template]

theorem length_step (s : Nesting) (b : UInt8) (rest : List UInt8) :
    (s.step b rest).2.length ≤ rest.length := by
  have hd : (rest.drop 1).length ≤ rest.length := by simp
  unfold step
  split
  · exact length_skipString b rest
  split
  · exact length_template s rest
  split
  · exact Nat.le_trans (length_skipLine _) hd
  split
  · exact Nat.le_trans (length_skipBlock _) hd
  split
  · exact Nat.le_refl _
  split
  · exact length_closed s b rest
  split
  · exact Nat.le_refl _
  split
  · exact Nat.le_refl _
  split
  · exact length_dropWhile isNumberByte rest
  split
  · exact length_dropWhile isWordByte rest
  · exact Nat.le_refl _

/-- The state after the whole text, unless the text nests too deeply. -/
def scan (s : Nesting) : List UInt8 → Option Nesting
  | [] => some s
  | b :: rest =>
    match _h : s.step b rest with
    | (some next, after) => scan next after
    | (none, _) => none
termination_by bytes => bytes.length
decreasing_by
  have := length_step s b rest
  simp only [_h] at this
  simp
  omega

end Nesting

def withinDepth (source : String) : Bool :=
  (Nesting.scan {} source.toUTF8.toList).isSome

end Reprl.Source
