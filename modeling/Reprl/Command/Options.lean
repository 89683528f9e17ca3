/-! Command-line arguments. The flag may also be given by an environment variable,
which counts as set unless it is empty or spells a refusal. -/

namespace Reprl

structure Options where
  /-- Serve the fuzzer instead of running files. -/
  reprl : Bool := false
  files : List String := []
  deriving DecidableEq, Repr

inductive UsageError where
  | unknownArgument
  | tooManyValues
  | argumentConflict
  | invalidValue
  | displayHelp
  deriving DecidableEq, Repr

namespace Options

def modeVariable : String := "REPRL_MODE"

def refusals : List String := ["n", "no", "f", "false", "off", "0"]

def isTruthy (value : String) : Bool :=
  !value.isEmpty && !refusals.contains (String.ofList (value.toList.map Char.toLower))

/-- Arguments that have been read. File names are checked when the next flag or the
end is reached. -/
structure Progress where
  flag : Bool := false
  files : List String := []

def Progress.checked (p : Progress) : Except UsageError Progress :=
  if p.files.contains "" then .error .invalidValue else .ok p

/-- A long flag with the value attached to it, if there is one. -/
def splitFlag (cs : List Char) : String × Bool :=
  (String.ofList (cs.takeWhile (· ≠ '=')), cs.contains '=')

def readLong (p : Progress) (cs : List Char) : Except UsageError Progress :=
  let (name, hasValue) := splitFlag cs
  if name ≠ "reprl" ∧ name ≠ "help" then .error .unknownArgument
  else if hasValue then .error .tooManyValues
  else do
    let p ← p.checked
    if name = "help" then throw .displayHelp
    if p.flag then throw .argumentConflict
    return { p with flag := true }

def readShort (p : Progress) (c : Char) : Except UsageError Progress :=
  if c = 'h' then do
    let _ ← p.checked
    throw .displayHelp
  else .error .unknownArgument

/-- Reads arguments from left to right. After two dashes all of them are files. -/
def readAll (p : Progress) : List String → Except UsageError Progress
  | [] => p.checked
  | arg :: rest =>
    match arg.toList with
    | ['-', '-'] => ({ p with files := p.files ++ rest } : Progress).checked
    | '-' :: '-' :: cs => do readAll (← readLong p cs) rest
    | '-' :: c :: _ => do readAll (← readShort p c) rest
    | _ => readAll { p with files := p.files ++ [arg] } rest

/-- The options for arguments, without the name of the program, and the value of the
environment variable. -/
def parse (args : List String) (mode : Option String) : Except UsageError Options := do
  let p ← readAll {} args
  return { reprl := p.flag || mode.any isTruthy, files := p.files }

end Options

end Reprl
