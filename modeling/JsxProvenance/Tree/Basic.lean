import JsxProvenance.Number.Basic

/-!
Syntax trees of parsed programs. The trees are open: a node has a kind and named
fields, and no kind but one means anything to a walk. The exception is the tag
that opens a JSX element, `<a>` or `<a/>`. It has a constructor of its own, and
`NodeKind` keeps its name from being used for any other node, so each such tag of
a program is an `element` of its tree.

The fields of a node are listed in the order in which a walk visits them.

Syntax carries spans of source text. A position is a 32-bit number over all the files of
a source map, counted in UTF-8 bytes. Two ranges of positions are set apart for syntax
that was never written in a file: the pair of zeros, and everything from `Span.reserved`
on, where generated code is placed.
-/

namespace JsxProvenance

/-- A stretch of source text between two positions. Nothing forces `lo ≤ hi`:
only `lo` is ever looked up. -/
structure Span where
  lo : UInt32
  hi : UInt32
deriving DecidableEq, Repr

namespace Span

/-- The span of syntax that was not read from a file. -/
def dummy : Span := ⟨0, 0⟩

/-- The first of the positions kept for generated code: `2 ^ 16` of them end
one short of the largest 32-bit number. -/
def reserved : UInt32 := 4294901759

/-- Whether the span points at no file. A span that starts at zero and ends
elsewhere is not dummy, although no file holds position zero. -/
def isDummy (s : Span) : Bool :=
  (s.lo == 0 && s.hi == 0) || reserved ≤ s.lo

@[simp] theorem isDummy_dummy : dummy.isDummy = true := rfl

theorem isDummy_iff (s : Span) :
    s.isDummy = true ↔ (s.lo = 0 ∧ s.hi = 0) ∨ reserved ≤ s.lo := by
  simp [isDummy]

end Span

/-- The tag that opens an element, over some type of trees. A tag that closes an
element, and both tags of a fragment, are ordinary nodes: they have no
attributes. -/
structure OpeningElement (α : Type) where
  tag : α
  span : Span
  attributes : List α
  selfClosing : Bool
  typeArguments : α
deriving Repr

/-- The kind that opening tags go by in a program's node objects. -/
def elementKind : String := "JSXOpeningElement"

/-- The kind of any other node. -/
structure NodeKind where
  name : String
  ordinary : name ≠ elementKind := by decide
deriving DecidableEq, Repr

/-- The kind of object literals. -/
def NodeKind.object : NodeKind := { name := "ObjectExpression" }

/-- A piece of syntax, down to its leaves. A `record` groups fields under no
kind. -/
inductive Tree where
  | null
  | bool (value : Bool)
  | number (value : Number)
  | text (value : String)
  | span (value : Span)
  | list (items : List Tree)
  | node (kind : NodeKind) (fields : List (String × Tree))
  | record (fields : List (String × Tree))
  | element (opening : OpeningElement Tree)
deriving Repr

instance : Inhabited Tree := ⟨.null⟩

abbrev Element := OpeningElement Tree

/-- The two forms of an opening tag. -/
inductive TagForm where
  /-- `<a>`, closed by `</a>` elsewhere. -/
  | opening
  /-- `<a/>` -/
  | selfClosing
deriving DecidableEq, Repr

/-- The name of the form in log records. -/
def TagForm.name : TagForm → String
  | .opening => "Opening"
  | .selfClosing => "SelfClosing"

def OpeningElement.form {α : Type} (e : OpeningElement α) : TagForm :=
  if e.selfClosing then .selfClosing else .opening

/-- Puts an attribute behind those an element has. -/
def OpeningElement.addAttribute {α : Type} (e : OpeningElement α) (a : α) : OpeningElement α :=
  { e with attributes := e.attributes ++ [a] }

/-- The two goals a parser can have: a module, or a script. -/
inductive ProgramForm where
  | module
  | script
deriving DecidableEq, Repr

/-- A whole parsed program. -/
structure Program where
  form : ProgramForm
  span : Span
  body : List Tree
  interpreter : Tree
deriving Repr

end JsxProvenance
