import Reprl.Source.Literal

/-! Tokens and the cursor that stands on one. A slash is read as punctuation and
a closing brace as a brace; whoever expects an expression or template text there
reads again from the right place. -/

namespace Reprl.Source

open Reprl.Text

inductive Token where
  | word (name : String) (escaped : Bool)
  | number (value : Float) (legacy : Bool)
  | bigInteger
  /-- `directive` holds for the text that, as a first statement, makes code strict. -/
  | string (value : String) (legacy directive : Bool)
  | mark (text : String)
  | classPrivate (name : String)
  | invalid
  | finish
  deriving Inhabited

/-- Punctuation, longer marks before their own beginnings. -/
def marks : List String :=
  [">>>=", "...", "===", "!==", "**=", "<<=", ">>=", ">>>", "&&=", "||=", "??=",
    "=>", "==", "!=", "<=", ">=", "&&", "||", "??", "?.", "++", "--", "+=", "-=", "*=", "/=",
    "%=", "&=", "|=", "^=", "<<", ">>", "**",
    "\x7b", "\x7d", "(", ")", "[", "]", ".", ";", ",", "<", ">", "+", "-", "*", "/", "%",
    "&", "|", "^", "!", "~", "?", ":", "=", "\x60"]

def markTable : List (String × List Char) := marks.map fun m => (m, m.toList)

def mark? (cs : List Char) : Option (String × List Char) := do
  let (text, chars) ← markTable.find? fun m => m.2.isPrefixOf cs
  let after := cs.drop chars.length
  -- a conditional whose first branch starts with a point and a digit
  if text = "?." && startsWithDecimal after then some ("?", cs.drop 1)
  else some (text, after)

def strictDirective : List Char := "use strict".toList

/-- The token at the head of the text, and the text after it. -/
def readToken : List Char → Token × List Char
  | [] => (.finish, [])
  | c :: rest =>
    if isIdentifierStart c || c = '\\' then
      match word? [] false (c :: rest) with
      | some (w, after) => (.word (String.ofList w.text) w.escaped, after)
      | none => (.invalid, rest)
    else if isDecimal c || (c = '.' && startsWithDecimal rest) then
      match number? (c :: rest) with
      | some (.number value legacy, after) => (.number value legacy, after)
      | some (.bigInteger, after) => (.bigInteger, after)
      | none => (.invalid, rest)
    else if c = '"' || c = '\'' then
      match string? c [] false rest with
      | some (s, after) =>
        (.string (String.ofList (cookChars s.raw)) s.legacy (s.raw = strictDirective), after)
      | none => (.invalid, rest)
    else if c = '#' then
      match word? [] false rest with
      | some (w, after) => (.classPrivate (String.ofList w.text), after)
      | none => (.invalid, rest)
    else
      match mark? (c :: rest) with
      | some (text, after) => (.mark text, after)
      | none => (.invalid, rest)

/-- A place in a script: a token with the text from it on and the text after it. -/
structure Cursor where
  token : Token
  start : List Char
  rest : List Char
  /-- A line ended between the token and the one before it. -/
  newline : Bool
  /-- Bounds the number of tokens still to come. -/
  left : Nat

namespace Cursor

def read (newline : Bool) (left : Nat) (cs : List Char) : Cursor :=
  match skipTrivia .blank newline cs with
  | none => { token := .invalid, start := [], rest := [], newline, left }
  | some (newline, start) =>
    let (token, rest) := readToken start
    { token, start, rest, newline, left }

def next (c : Cursor) : Cursor := read false (c.left - 1) c.rest

/-- Drops a first line that names the program to run the script with. -/
def dropHashBang : List Char → List Char
  | '#' :: '!' :: rest => rest.dropWhile fun c => !isLineEnd c
  | cs => cs

/-- The cursor at the start of a script; a byte order mark may come first. -/
def ofScript (source : String) : Cursor :=
  let cs := source.toList
  let text := dropHashBang (if cs.head? = some '\uFEFF' then cs.drop 1 else cs)
  read true (cs.length + 1) text

end Cursor

end Reprl.Source
