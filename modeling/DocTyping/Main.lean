import DocTyping.Command.Answer

namespace DocTyping

/-!
# The program

`main` reads the files that a command line names and the standard input, and
writes the answer.
-/

def usageLines : List String :=
  ["Usage: doctyping <command> --schema <file> [--collection <name>] [--config <file>]",
    "",
    "Commands:",
    "  paths           List every path of a collection [--placeholders]",
    "  resolve         Show the type at --path <path> [--placeholders] [--check-in-array]",
    "  check-filter    Check a filter read from standard input",
    "  check-update    Check an update or an update pipeline read from standard input",
    "  check-pipeline  Check a pipeline read from standard input"]

/-- The number of a system error, which some calls report negated. -/
def errorNumber (code : UInt32) : UInt32 := if code < 2147483648 then code else 0 - code

def FileFault.ofError (error : IO.Error) : FileFault :=
  match error with
  | .noFileOrDirectory .. => .missing
  | .inappropriateType _ code _ => if errorNumber code = 20 then .notDirectory else .isDirectory
  | .invalidArgument _ code _ =>
    if errorNumber code = 36 then .nameTooLong else .other (toString error)
  | .permissionDenied _ code _ => .other s!"Permission denied (os error {errorNumber code})"
  | error => .other (toString error)

def decodeText (bytes : ByteArray) : Except FileFault String :=
  match String.fromUTF8? bytes with
  | some text => .ok text
  | none => .error .undecodable

def readTextFile (path : String) : IO (Except FileFault String) := do
  try
    let bytes ← IO.FS.readBinFile path
    return decodeText bytes
  catch error => return .error (.ofError error)

def readSource (source : Source) : IO Files := do
  let schema ← readTextFile source.schema
  let config ← match source.config with
    | some path => readTextFile path
    | none => pure schema
  return fun path => if path = source.schema then schema else config

def readStandardInput : IO (Option String) := do
  let stream ← IO.getStdin
  let bytes ← stream.readBinToEnd
  return (decodeText bytes).toOption

def report (outcome : Outcome) : IO UInt32 := do
  if let some answer := outcome.answer then IO.println answer.render
  if let some complaint := outcome.complaint then IO.eprintln complaint
  return outcome.exit.toUInt32

def runInvocation (invocation : Invocation) : IO UInt32 := do
  let files ← readSource invocation.source
  let input ← if invocation.readsInput files then readStandardInput else pure none
  report (.ofAnswer (invocation.answer files input))

def explain (fault : LineFault) : IO UInt32 := do
  let text := "\n".intercalate usageLines
  match fault with
  | .usage => IO.eprintln text
  | .information => IO.println text
  report (.ofFault fault)

end DocTyping

def main (arguments : List String) : IO UInt32 :=
  match DocTyping.Invocation.parse arguments with
  | .ok invocation => DocTyping.runInvocation invocation
  | .error fault => DocTyping.explain fault
