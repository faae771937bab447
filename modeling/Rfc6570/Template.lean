import Rfc6570.Operator
import Rfc6570.Varspec
/-!
Templates: literals and expressions in the order of the text. A template keeps the text it was
read from, by which it is compared. `Template.parse` cuts the text at its braces;
`Part.render` writes a part back.
-/

namespace Rfc6570

/-- An operator applied to variables. -/
structure Expression where
  operator : Operator
  varspecs : List Varspec
  deriving DecidableEq, Repr

namespace Expression

def render (e : Expression) : Text :=
  '\x7b' :: e.operator.key ++ Text.join ',' (e.varspecs.map Varspec.render) ++ ['\x7d']

def parseBody (body : Text) : Except Fault Expression := do
  let (operator, rest) := Operator.lookup body
  let varspecs ← (rest.splitOn ',').mapM Varspec.parse
  pure ⟨operator, varspecs⟩

end Expression

inductive Part
  | literal (text : Text)
  | expression (e : Expression)
  deriving DecidableEq, Repr

namespace Part

def render : Part → Text
  | .literal text => text
  | .expression e => e.render

def varspecs : Part → List Varspec
  | .literal _ => []
  | .expression e => e.varspecs

def isLiteral : Part → Bool
  | .literal _ => true
  | .expression _ => false

def describe : Part → Text
  | .literal text => "Literal(".toList ++ text.quoted ++ [')']
  | .expression e => "Expression(".toList ++ e.render.quoted ++ [')']

end Part

structure Template where
  text : Text
  parts : List Part
  deriving Repr

namespace Template

def literal (text : Text) : List Part :=
  if text.isEmpty then [] else [.literal text]

def strayBrace (text : Text) : Fault :=
  .malformed text "unexpected \x7d".toList

def unclosedBrace (text : Text) : Fault :=
  .malformed text "expected single \x7d after \x7b".toList

/-- Reads a segment of `text` that follows an opening brace: the body of an expression, one
closing brace, and the literal after it. -/
def parseSegment (text segment : Text) : Except Fault (List Part) :=
  match segment.splitOn '\x7d' with
  | [body, after] =>
    if body.isEmpty then .error (strayBrace text)
    else do
      let e ← Expression.parseBody body
      pure (.expression e :: literal after)
  | _ => .error (unclosedBrace text)

def parseParts (text : Text) : Except Fault (List Part) :=
  match text.splitOn '\x7b' with
  | [] => pure []
  | before :: segments =>
    if before.contains '\x7d' then .error (strayBrace text)
    else do
      let parts ← segments.mapM (parseSegment text)
      pure (literal before ++ parts.flatten)

def parse (text : Text) : Except Fault Template := do
  let parts ← parseParts text
  pure ⟨text, parts⟩

def isTemplate (text : Text) : Bool :=
  (parse text).toBool

/-- The variables of a template, in order and with repetitions. -/
def varspecs (t : Template) : List Varspec :=
  t.parts.flatMap Part.varspecs

def names (t : Template) : List Text :=
  t.varspecs.map Varspec.name

def isExpanded (t : Template) : Bool :=
  t.parts.all Part.isLiteral

instance : BEq Template := ⟨fun a b => a.text == b.text⟩

def describe (t : Template) : Text :=
  "URITemplate(".toList ++ t.text.quoted ++ [')']

end Template
end Rfc6570
