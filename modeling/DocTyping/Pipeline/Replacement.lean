import DocTyping.Pipeline.Arguments

namespace DocTyping

/-!
# Replacement

Stages that put new documents in place of those that flow in: `$replaceRoot` with
its other name `$replaceWith`, and `$documents`.
-/

namespace Schema

def anyObject : Schema := .object (.openTo .unknown)

/-- Takes a type for that of documents.  An opaque one stands for any object. -/
def asDocument (type : Schema) (refusal : Refusal) : Checked Schema :=
  if type.isObject then .ok type
  else if type.isUnknown then .ok anyObject
  else .error refusal

/-- What several documents have in common; no document has an empty object. -/
def unifyDocuments : List Schema → Schema
  | [] => .object .empty
  | first :: rest => unifyAll (first :: rest)

end Schema

/-- The type of a literal document.  It refers to no other document. -/
def literalDocument (config : Configuration) (document : Json) : Checked Schema :=
  if document.object?.isSome then do
    let type ← document.infer (.ofRoot (.object .empty) config [])
    demand type.isObject "$documents" (.documentType type)
    return type
  else .error (.argument "$documents" (.documentForm document))

def literalDocuments (config : Configuration) : List Json → Checked (List Schema)
  | [] => .ok []
  | document :: rest => do
    let type ← literalDocument config document
    let types ← literalDocuments config rest
    return type :: types

namespace Pipeline

/-- The schema of replacement documents: the declared one, else that of the expression. -/
def replaced (pipeline : Pipeline) (stage : String) (expression : Json)
    (declared : Option Schema) : Checked Schema := do
  demand (!expression.isNull) stage .noReplacement
  let type ← pipeline.infer expression
  match declared with
  | some schema => return schema
  | none => type.asDocument (.argument stage (.replacementType type))

def stated (pipeline : Pipeline) (specification : Json) : Checked Schema :=
  match specification with
  | .array documents => do
    let types ← literalDocuments pipeline.config documents
    return .unifyDocuments types
  | other => .error (.argument "$documents" (.expectedNot .documentList other))

end Pipeline

end DocTyping
