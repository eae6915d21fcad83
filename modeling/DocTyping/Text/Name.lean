namespace DocTyping.Text

/-!
# Names

Array filter identifiers, object identifiers and dotted texts.  Only ASCII
letters and digits count.
-/

/-- Whether a text is a lower-case letter followed by letters and digits. -/
def isIdentifier (text : String) : Bool :=
  match text.toList with
  | [] => false
  | first :: rest => first.isLower && rest.all Char.isAlphanum

def isHexDigit (char : Char) : Bool :=
  char.isDigit || ('a' ≤ char && char ≤ 'f') || ('A' ≤ char && char ≤ 'F')

def isObjectId (text : String) : Bool :=
  text.toList.length == 24 && text.toList.all isHexDigit

def startsWithDollar (text : String) : Bool := text.toList.head? == some '$'

def separated (separator : Char) : List Char → List (List Char)
  | [] => [[]]
  | char :: rest =>
    if char = separator then [] :: separated separator rest
    else
      match separated separator rest with
      | [] => [[char]]
      | part :: parts => (char :: part) :: parts

/-- The parts of a text between separators; an empty text has one empty part. -/
def partsBetween (separator : Char) (text : String) : List String :=
  (separated separator text.toList).map String.ofList

def splitDots (text : String) : List String := partsBetween '.' text

def joinDots (parts : List String) : String := ".".intercalate parts

end DocTyping.Text
