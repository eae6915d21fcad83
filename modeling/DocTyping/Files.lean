import DocTyping.Text.Name

namespace DocTyping

/-!
# Files

A file is named by a path, a sequence of names between slashes.  The names are looked
up one after the other: an empty name and a single dot stay in a directory, two dots
leave it, and only the last name may be that of a file.
-/

inductive FileFault where
  | missing
  | notDirectory
  | isDirectory
  | nameTooLong
  | nulInPath
  | undecodable
  | other (reason : String)
deriving DecidableEq, Repr

def FileFault.message : FileFault → String
  | missing => "No such file or directory (os error 2)"
  | notDirectory => "Not a directory (os error 20)"
  | isDirectory => "Is a directory (os error 21)"
  | nameTooLong => "File name too long (os error 36)"
  | nulInPath => "file name contained an unexpected NUL byte"
  | undecodable => "stream did not contain valid UTF-8"
  | other reason => reason

abbrev Files := String → Except FileFault String

/-- A place in a tree of files, by the names that lead to it. -/
structure Place where
  /-- Whether the names start at the root; else they start at the working directory. -/
  fromRoot : Bool
  /-- The names, the innermost one first. -/
  names : List String
deriving DecidableEq, Repr

namespace Place

def isAbsolute (path : String) : Bool := path.toList.head? == some '/'

def staysHere (name : String) : Bool := name.isEmpty || name == "."

/-- The place that a path without upward steps names. -/
def ofPath (path : String) : Place where
  fromRoot := isAbsolute path
  names := ((Text.partsBetween '/' path).filter fun name => !staysHere name).reverse

def isBelow (inner outer : Place) : Bool :=
  inner.fromRoot == outer.fromRoot && inner.names != outer.names
    && outer.names.isSuffixOf inner.names

end Place

inductive Reached where
  | directory (place : Place)
  /-- A directory that holds the working directory.  Nothing is known of what else is in it. -/
  | outside
  | file (text : String)
deriving DecidableEq, Repr

namespace Reached

/-- The longest name, in bytes. -/
def nameLimit : Nat := 255

/-- Leaves a directory.  The root is its own parent. -/
def parent (place : Place) : Reached :=
  match place.names with
  | _ :: outer => .directory { place with names := outer }
  | [] => if place.fromRoot then .directory place else .outside

def child (files : List (Place × String)) (place : Place) (name : String) :
    Except FileFault Reached :=
  let inner : Place := { place with names := name :: place.names }
  match files.lookup inner with
  | some text => .ok (.file text)
  | none =>
    if files.any fun file => file.1.isBelow inner then .ok (.directory inner)
    else .error .missing

def follow (files : List (Place × String)) : Reached → String → Except FileFault Reached
  | .file _, _ => .error .notDirectory
  | .outside, name =>
    if Place.staysHere name || name == ".." then .ok .outside
    else if nameLimit < name.utf8ByteSize then .error .nameTooLong
    else .error .missing
  | .directory place, name =>
    if Place.staysHere name then .ok (.directory place)
    else if name == ".." then .ok (parent place)
    else if nameLimit < name.utf8ByteSize then .error .nameTooLong
    else child files place name

def followAll (files : List (Place × String)) :
    Reached → List String → Except FileFault Reached
  | reached, [] => .ok reached
  | reached, name :: rest => do
    let next ← follow files reached name
    followAll files next rest

def text : Reached → Except FileFault String
  | .file text => .ok text
  | .directory _ | .outside => .error .isDirectory

end Reached

namespace Files

/-- The longest path, in bytes. -/
def pathLimit : Nat := 4095

def checkPath (path : String) : Except FileFault Unit :=
  if path.toList.contains '\x00' then .error .nulInPath
  else if path.isEmpty then .error .missing
  else if pathLimit < path.utf8ByteSize then .error .nameTooLong
  else .ok ()

def ofList (entries : List (String × String)) : Files := fun path => do
  checkPath path
  let files := entries.map fun entry => (Place.ofPath entry.1, entry.2)
  let start := Reached.directory { fromRoot := Place.isAbsolute path, names := [] }
  let reached ← Reached.followAll files start (Text.partsBetween '/' path)
  reached.text

end Files

end DocTyping
