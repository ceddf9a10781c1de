import Archipelago.Json.Record
import Archipelago.Span

/-! # Errors and warnings of templates -/

namespace Archipelago

namespace Span

def toJson (s : Span) : Json :=
  .object [("start", .int s.start), ("end", .int s.stop), ("line", .int s.line),
    ("column", .int s.column)]

def ofJson? (j : Json) : Option Span := do
  let r ← j.record? ["start", "end", "line", "column"]
  some {
    start := ← r.required "start" Json.nat64?
    stop := ← r.required "end" Json.nat64?
    line := ← r.required "line" Json.nat64?
    column := ← r.required "column" Json.nat64? }

end Span

/-- The kinds of what can be wrong with a source. -/
inductive CompileErrorKind where
  | unknownTag
  | undeclaredVariable
  | cyclicComputed
  | duplicateVariable
  | invalidExpression
  | missingAttribute
  | invalidAttribute
  | misplacedTag
  | malformed
  | limitExceeded
deriving DecidableEq, Repr

namespace CompileErrorKind

def names : List (String × CompileErrorKind) :=
  [("UnknownTag", unknownTag), ("UndeclaredVariable", undeclaredVariable),
    ("CyclicComputed", cyclicComputed), ("DuplicateVariable", duplicateVariable),
    ("InvalidExpression", invalidExpression), ("MissingAttribute", missingAttribute),
    ("InvalidAttribute", invalidAttribute), ("MisplacedTag", misplacedTag), ("Syntax", malformed),
    ("LimitExceeded", limitExceeded)]

def name : CompileErrorKind → String
  | unknownTag => "UnknownTag"
  | undeclaredVariable => "UndeclaredVariable"
  | cyclicComputed => "CyclicComputed"
  | duplicateVariable => "DuplicateVariable"
  | invalidExpression => "InvalidExpression"
  | missingAttribute => "MissingAttribute"
  | invalidAttribute => "InvalidAttribute"
  | misplacedTag => "MisplacedTag"
  | malformed => "Syntax"
  | limitExceeded => "LimitExceeded"

end CompileErrorKind

/-- An error that keeps a template from being published. -/
structure CompileError where
  kind : CompileErrorKind
  message : String
  span : Span
deriving DecidableEq, Repr

namespace CompileError

/-- What is shown of an error. -/
def text (e : CompileError) : String := s!"{e.kind.name} at {e.span.text}: {e.message}"

def toJson (e : CompileError) : Json :=
  .object [("kind", .string e.kind.name), ("message", .string e.message), ("span", e.span.toJson)]

def ofJson? (j : Json) : Option CompileError := do
  let r ← j.record? ["kind", "message", "span"]
  some {
    kind := ← r.required "kind" (Json.unit? CompileErrorKind.names)
    message := ← r.required "message" Json.string?
    span := ← r.required "span" Span.ofJson? }

end CompileError

/-- Something that was mended or passed over. -/
structure CompileWarning where
  message : String
  span : Span
deriving DecidableEq, Repr

namespace CompileWarning

/-- What is shown of a warning. -/
def text (w : CompileWarning) : String := s!"warning at {w.span.text}: {w.message}"

def toJson (w : CompileWarning) : Json :=
  .object [("message", .string w.message), ("span", w.span.toJson)]

def ofJson? (j : Json) : Option CompileWarning := do
  let r ← j.record? ["message", "span"]
  some {
    message := ← r.required "message" Json.string?
    span := ← r.required "span" Span.ofJson? }

end CompileWarning

end Archipelago
