import DocTyping.Command.Basic

namespace DocTyping

/-!
# Command lines

A command line is the name of a command with options in any order.  An option is
given at most once; those that take a value take the next word or what follows an
equals sign.  The first word that is out of place decides.
-/

inductive LineFault where
  | usage
  /-- It asks for help or for the version. -/
  | information
deriving DecidableEq, Repr

inductive CommandName where
  | paths
  | resolve
  | checkFilter
  | checkUpdate
  | checkPipeline
deriving DecidableEq, Repr

inductive OptionName where
  | schema
  | collection
  | config
  | path
  | placeholders
  | checkInArray
deriving DecidableEq, Repr

namespace CommandName

def named? : String → Option CommandName
  | "paths" => some paths
  | "resolve" => some resolve
  | "check-filter" => some checkFilter
  | "check-update" => some checkUpdate
  | "check-pipeline" => some checkPipeline
  | _ => none

def options : CommandName → List OptionName
  | paths => [.schema, .collection, .config, .placeholders]
  | resolve => [.schema, .collection, .config, .path, .placeholders, .checkInArray]
  | checkFilter | checkUpdate | checkPipeline => [.schema, .collection, .config]

end CommandName

namespace OptionName

def named? : String → Option OptionName
  | "schema" => some schema
  | "collection" => some collection
  | "config" => some config
  | "path" => some path
  | "placeholders" => some placeholders
  | "check-in-array" => some checkInArray
  | _ => none

def takesValue : OptionName → Bool
  | schema | collection | config | path => true
  | placeholders | checkInArray => false

/-- Whether an option admits a value; files have names. -/
def admits : OptionName → String → Bool
  | schema, value | config, value => !value.isEmpty
  | _, _ => true

end OptionName

inductive Word where
  /-- Two dashes alone: no option follows. -/
  | separator
  /-- Two dashes with a name, and what follows the first equals sign. -/
  | long (name : String) (value : Option String)
  | short (letter : Char)
  | plain
deriving DecidableEq, Repr

def Word.of (text : String) : Word :=
  match text.toList with
  | ['-', '-'] => .separator
  | '-' :: '-' :: rest =>
    let name := String.ofList (rest.takeWhile (· != '='))
    match rest.dropWhile (· != '=') with
    | [] => .long name none
    | _ :: value => .long name (some (String.ofList value))
  | '-' :: letter :: _ => .short letter
  | _ => .plain

/-- The options given so far, with their values; those that take none have an empty one. -/
abbrev Given := List (OptionName × String)

namespace Given

def get? (given : Given) (option : OptionName) : Option String := given.lookup option

def has (given : Given) (option : OptionName) : Bool := (given.get? option).isSome

/-- Adds an option that is not given yet. -/
def add (given : Given) (option : OptionName) (value : String) : Except LineFault Given :=
  if given.has option || !option.admits value then .error .usage else .ok ((option, value) :: given)

end Given

namespace CommandName

def option (name : CommandName) (text : String) : Except LineFault OptionName :=
  match OptionName.named? text with
  | some option => if name.options.contains option then .ok option else .error .usage
  | none => .error .usage

def readOptions (name : CommandName) : List String → Given → Except LineFault Given
  | [], given => .ok given
  | word :: rest, given =>
    match Word.of word with
    | .separator => if rest.isEmpty then .ok given else .error .usage
    | .plain => .error .usage
    | .short letter => .error (if letter = 'h' then .information else .usage)
    | .long "help" none => .error .information
    | .long text (some value) => do
      let option ← name.option text
      if option.takesValue then
        let given ← given.add option value
        readOptions name rest given
      else throw .usage
    | .long text none => do
      let option ← name.option text
      if option.takesValue then
        match rest with
        | value :: rest =>
          if Word.of value = .plain then
            let given ← given.add option value
            readOptions name rest given
          else throw .usage
        | [] => throw .usage
      else
        let given ← given.add option ""
        readOptions name rest given
termination_by structural words => words

def source (given : Given) : Except LineFault Source :=
  match given.get? .schema with
  | some schema => .ok ⟨schema, given.get? .collection, given.get? .config⟩
  | none => .error .usage

def command (name : CommandName) (given : Given) : Except LineFault Command :=
  match name with
  | paths => .ok (.paths (given.has .placeholders))
  | resolve =>
    match given.get? .path with
    | some path => .ok (.resolve path (given.has .placeholders) (given.has .checkInArray))
    | none => .error .usage
  | checkFilter => .ok .checkFilter
  | checkUpdate => .ok .checkUpdate
  | checkPipeline => .ok .checkPipeline

end CommandName

namespace Invocation

def faultOf (word : String) (rest : List String) : LineFault :=
  match Word.of word with
  | .long "help" none | .long "version" none => .information
  | .short letter => if letter = 'h' ∨ letter = 'V' then .information else .usage
  | .plain =>
    match word, rest with
    | "help", [] => .information
    | "help", [name] =>
      if name = "help" ∨ (CommandName.named? name).isSome then .information else .usage
    | _, _ => .usage
  | _ => .usage

def parse : List String → Except LineFault Invocation
  | [] => .error .usage
  | word :: rest =>
    match CommandName.named? word with
    | some name => do
      let given ← name.readOptions rest []
      let source ← CommandName.source given
      let command ← name.command given
      return ⟨command, source⟩
    | none => .error (faultOf word rest)

end Invocation

end DocTyping
