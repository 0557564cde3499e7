import NodeMarkup.Token.Basic

namespace NodeMarkup

/-- A tag with the nodes in its body. -/
structure Node where
  className : Text
  properties : List Property
  children : List Node
  -- The source from the opening tag through the closing tag.
  range : Range
  -- Where the last `>` or `/>` begins.
  closer : Cursor
  -- Where the body begins.
  body : Cursor
deriving Repr, Inhabited

namespace Node

/-- The node of a tag, with an empty body. -/
def ofTag (tag : Tag) : Node where
  className := tag.className
  properties := tag.properties
  children := []
  range := tag.range
  closer := tag.closer
  body := tag.range.stop

/-- Adds a node behind the other nodes of the body. -/
def addChild (node child : Node) : Node := { node with children := node.children ++ [child] }

def finish (node : Node) (closing : Tag) : Node :=
  { node with range := node.range.cover closing.range, closer := closing.closer }

/-- Changes the value of the first property of a name, if there is one. -/
def setFirst (name : Text) (change : Value → Value) : List Property → Option (List Property)
  | [] => none
  | property :: rest =>
    if property.name = name then some ({ property with value := change property.value } :: rest)
    else (setFirst name change rest).map (property :: ·)

/-- Changes the value of the first property of a name, if the node has one. -/
def setProperty? (name : Text) (change : Value → Value) (node : Node) : Option Node :=
  (setFirst name change node.properties).map fun properties => { node with properties }

end Node

end NodeMarkup
