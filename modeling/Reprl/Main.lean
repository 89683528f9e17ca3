import Reprl.Command.Program

/-! The command line. It reads what the program asks for, lets the library decide, and
writes what the library has written to its outputs. -/

open Reprl Reprl.Stream

namespace Reprl.Main

def evaluator : Evaluator := .ofFuel .standard

/-- The outputs of the program: replies and prints for the fuzzer, if it is served. -/
structure Pipes where
  control : IO.FS.Handle
  replies : IO.FS.Handle
  data : IO.FS.Handle
  prints : IO.FS.Handle

/-- The descriptors that the fuzzer has opened. -/
def openPipes : IO Pipes := do
  let control ← IO.FS.Handle.mk "/dev/fd/100" .read
  let replies ← IO.FS.Handle.mk "/dev/fd/101" .append
  let data ← IO.FS.Handle.mk "/dev/fd/102" .read
  let prints ← IO.FS.Handle.mk "/dev/fd/103" .append
  return { control, replies, data, prints }

/-- Reads up to a number of bytes; fewer only at the end. -/
partial def readBytes (h : IO.FS.Handle) (count : Nat) (found : Text.Bytes) : IO Text.Bytes := do
  if count ≤ found.length then return found
  let more ← h.read (USize.ofNat (count - found.length))
  if more.isEmpty then return found
  readBytes h count (found ++ more.data.toList)

/-- Writes what a sink has accepted and empties it. -/
def drainSink (sink : Sink) (write : ByteArray → IO Unit) : IO Sink := do
  unless sink.log.contents.isEmpty do write ⟨sink.log.contents⟩
  return { sink with log := {} }

def drainConsole (console : Console) : IO Console := do
  let out ← IO.getStdout
  let stdout ← drainSink console.stdout fun bytes => do
    out.write bytes
    out.flush
  IO.eprint console.stderr
  return { stdout, stderr := "" }

def drainLoop (pipes : Pipes) (l : Loop) : IO Loop := do
  let send (h : IO.FS.Handle) (bytes : ByteArray) : IO Unit := do
    h.write bytes
    h.flush
  let fuzz ← drainSink l.fuzz (send pipes.prints)
  let replies ← drainSink l.channel.replies (send pipes.replies)
  let console ← drainConsole l.console
  return { l with fuzz, console, channel := { l.channel with replies } }

/-- The next request as far as it is there: no byte of a later request is taken. -/
def readRequest (pipes : Pipes) : IO (Source × Source) := do
  let action ← readBytes pipes.control 4 []
  if wordOf action != execWord || action.length < 4 then return ([.bytes action], [])
  let size ← readBytes pipes.control 8 []
  if size.length < 8 then return ([.bytes (action ++ size)], [])
  let script ← readBytes pipes.data (wordOf size) []
  return ([.bytes (action ++ size)], [.bytes script])

def statusOf : Program.Ending → UInt32
  | .exits status => UInt32.ofNat status
  | .killed .segv => 139
  | .killed .abrt => 134
  | .exhausted => 134

/-- Writes everything that is left and ends the program. -/
def stop (pipes : Pipes) (error : Abrupt ServeError) (l : Loop) : IO UInt32 := do
  let (ending, console) := Program.close Empty.elim Program.serveText (.error error) l.console
  let _ ← drainLoop pipes { l with console }
  return statusOf ending

partial def serveRequests (pipes : Pipes) (l : Loop) : IO UInt32 := do
  let (control, data) ← readRequest pipes
  let l := { l with channel := { l.channel with control, data } }
  match Loop.settle (Loop.iteration evaluator) l with
  | (.ok _, l) => serveRequests pipes (← drainLoop pipes l)
  | (.error e, l) => stop pipes e l

def serve : IO UInt32 := do
  let pipes ← openPipes
  match Loop.greet {} with
  | (.error e, l) => stop pipes e l
  | (.ok (), l) =>
    let l ← drainLoop pipes l
    let reply ← readBytes pipes.control 4 []
    let channel := { l.channel with control := [.bytes reply] }
    match Loop.answerGreeting { l with channel } with
    | (.error e, l) => stop pipes e l
    | (.ok (), l) => serveRequests pipes (← drainLoop pipes l)

def readErrorOf (e : IO.Error) : ReadError :=
  match e with
  | .noFileOrDirectory .. => .system .notFound
  | .inappropriateType .. => .system .isDirectory
  | .invalidArgument .. => .nulInName
  | _ => .system .invalidArgument

def readFile (path : String) : IO (Except ReadError Text.Bytes) := do
  try
    return .ok (← IO.FS.readBinFile path).data.toList
  catch e => return .error (readErrorOf e)

/-- The files that the program may ask for, read in advance. -/
def readFiles (paths : List String) : IO (String → Except ReadError Text.Bytes) := do
  let found ← paths.mapM fun path => return (path, ← readFile path)
  return fun path => (found.lookup path).getD (.error (.system .notFound))

def runOptions (options : Options) : IO UInt32 := do
  if options.reprl then serve
  else
    let (ending, l) := Program.execute evaluator (← readFiles options.files) options {}
    let _ ← drainConsole l.console
    return statusOf ending

end Reprl.Main

def main (args : List String) : IO UInt32 := do
  let mode ← IO.getEnv Options.modeVariable
  match Options.parse args mode with
  | .ok options => Reprl.Main.runOptions options
  | .error _ =>
    let noFiles : String → Except ReadError Text.Bytes := fun _ => .error (.system .notFound)
    let (ending, l) := Program.run Reprl.Main.evaluator noFiles args mode {}
    let _ ← Reprl.Main.drainConsole l.console
    return Reprl.Main.statusOf ending
