import MotifQuery.Xml.Event

/-!
# `MotifQuery.Xml.Writer`: text of events

Every tag starts a line, two spaces deeper than the tag around it, except directly after
text. Text stands between its tags without blanks.
-/

set_option autoImplicit false

namespace MotifQuery.Xml

/-- Where the writer stands. -/
structure Layout where
  depth : Nat := 0
  /-- Does the next tag start a new line? -/
  breaks : Bool := false

/-- A line break and the indentation, where one is due. -/
def Layout.lead (l : Layout) : List Char :=
  if l.breaks then '\n' :: List.replicate (2 * l.depth) ' ' else []

/-- An attribute with its value in quotes. -/
def attributeChars (a : String × String) : List Char :=
  ' ' :: a.1.toList ++ ['=', '"'] ++ escape a.2.toList ++ ['"']

/-- A tag's name and attributes. -/
def tagChars (name : String) (attributes : AttributeList) : List Char :=
  name.toList ++ (attributes.getD []).flatMap attributeChars

/-- The text of an event and where the writer stands after it. -/
def Event.chars (l : Layout) : Event → List Char × Layout
  | .opening name attributes =>
    (l.lead ++ '<' :: tagChars name attributes ++ ['>'], ⟨l.depth + 1, true⟩)
  | .standing name attributes =>
    (l.lead ++ '<' :: tagChars name attributes ++ ['/', '>'], ⟨l.depth, true⟩)
  | .closing name =>
    let l := { l with depth := l.depth - 1 }
    (l.lead ++ '<' :: '/' :: name.toList ++ ['>'], ⟨l.depth, true⟩)
  | .text content => (escape ((content.getD "").toList), ⟨l.depth, false⟩)
  | .data content =>
    ("<![CDATA[".toList ++ content.toList ++ "]]>".toList, ⟨l.depth, false⟩)
  | .declaration =>
    (l.lead ++ "<?xml version=\"1.0\" encoding=\"UTF-8\"?>".toList, ⟨l.depth, true⟩)
  | .remark => ([], l)

/-- The text of events from a place on. -/
def renderFrom : Layout → List Event → List Char
  | _, [] => []
  | l, e :: rest => (e.chars l).1 ++ renderFrom (e.chars l).2 rest

/-- The text of a document. -/
def render (events : List Event) : String :=
  String.ofList (renderFrom {} events)

end MotifQuery.Xml
