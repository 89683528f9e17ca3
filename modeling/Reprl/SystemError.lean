/-! What the operating system answers when a file or a shared segment cannot be opened. -/

namespace Reprl

inductive SystemError where
  | notFound
  | notDirectory
  | isDirectory
  | invalidArgument
  | nameTooLong
  deriving DecidableEq, Repr

def nameLimit : Nat := 255

namespace SystemError

def number : SystemError → Nat
  | notFound => 2
  | notDirectory => 20
  | isDirectory => 21
  | invalidArgument => 22
  | nameTooLong => 36

def text : SystemError → String
  | notFound => "No such file or directory"
  | notDirectory => "Not a directory"
  | isDirectory => "Is a directory"
  | invalidArgument => "Invalid argument"
  | nameTooLong => "File name too long"

def message (e : SystemError) : String :=
  e.text ++ " (os error " ++ Nat.repr e.number ++ ")"

end SystemError

end Reprl
