import NodeMarkup.Node.Basic
import NodeMarkup.Source.Checked
import NodeMarkup.Token.Declarations

namespace NodeMarkup

/-- The code of a value. The bare name of a function stands for a reference to it. -/
def Value.render (declarations : Declarations) (v : Value) : Text :=
  match v.identifier? with
  | some name =>
    if declarations.isFunction name then "funcref(self, \"".toList ++ name ++ "\")".toList
    else v.code
  | none => v.code

/-- The name of the property whose value is appended to the children. -/
def childrenName : Text := "children".toList

/-- The code that appends the value of a property to the children: that of the last property of
that name. -/
def renderAppended (declarations : Declarations) (properties : List Property) : Text :=
  match (properties.filter (·.name = childrenName)).getLast? with
  | none => []
  | some property => " + ".toList ++ property.value.render declarations

/-- The code of a class. The class `self` is that of the script itself. -/
def renderClass (className : Text) : Text :=
  if className = "self".toList then "get_script()".toList else className

section Effects

variable {m : Type → Type} [Monad m] [Checks m]

/-- What stands in front of an item: a comma unless it is the first, and the line breaks of the
source since `line` with the indentation of the item's own line. -/
def separatorM (first : Bool) (line : Nat) (item : Cursor) : m Text := do
  let breaks := item.line - line
  let comma := if first then [] else if 0 < breaks then ",".toList else ", ".toList
  if 0 < breaks then
    check item.indentation item.indentation?
    return comma ++ (List.replicate breaks '\n' ++ item.indentation)
  else return comma ++ []

/-- The code of the properties of a node but those that are appended to the children, and the line
behind the last of them. -/
def renderPropertiesM (declarations : Declarations) :
    Bool → Nat → List Property → m (Text × Nat)
  | _, line, [] => return ([], line)
  | first, line, property :: rest =>
    if property.name = childrenName then renderPropertiesM declarations first line rest
    else do
      let before ← separatorM first line property.range.start
      let (code, line') ← renderPropertiesM declarations false property.range.stop.line rest
      return (before ++ "\"".toList ++ property.name ++ "\": ".toList
        ++ property.value.render declarations ++ code, line')

mutual

def Node.renderM (declarations : Declarations) (node : Node) : m Text :=
  match node with
  | ⟨className, properties, children, range, closer, _⟩ => do
    let (propertyCode, line) ← renderPropertiesM declarations true range.start.line properties
    let (childCode, line) ← renderChildrenM declarations true line children
    let behind ← separatorM true line closer
    return "create_node(".toList ++ renderClass className ++ ", \x7b".toList ++ propertyCode
      ++ "\x7d, [".toList ++ childCode ++ behind ++ "]".toList
      ++ renderAppended declarations properties ++ ")".toList
termination_by structural node

/-- The code of the children of a node, and the line behind the last of them. -/
def renderChildrenM (declarations : Declarations) (first : Bool) (line : Nat)
    (children : List Node) : m (Text × Nat) :=
  match children with
  | [] => return ([], line)
  | child :: rest => do
    let before ← separatorM first line child.range.start
    let code ← child.renderM declarations
    let (restCode, line) ← renderChildrenM declarations false child.range.stop.line rest
    return (before ++ code ++ restCode, line)
termination_by structural children

end

end Effects

def separator (first : Bool) (line : Nat) (item : Cursor) : Text :=
  Id.run (separatorM first line item)

def renderProperties (declarations : Declarations) (first : Bool) (line : Nat)
    (properties : List Property) : Text × Nat :=
  Id.run (renderPropertiesM declarations first line properties)

def Node.render (declarations : Declarations) (node : Node) : Text :=
  Id.run (node.renderM declarations)

def renderChildren (declarations : Declarations) (first : Bool) (line : Nat)
    (children : List Node) : Text × Nat :=
  Id.run (renderChildrenM declarations first line children)

theorem separator_eq (first : Bool) (line : Nat) (item : Cursor) :
    separator first line item =
      (if first then [] else if 0 < item.line - line then ",".toList else ", ".toList)
        ++ (if 0 < item.line - line then
            List.replicate (item.line - line) '\n' ++ item.indentation
          else []) := by
  unfold separator separatorM
  by_cases h : 0 < item.line - line
  · simp only [if_pos h]
    rfl
  · simp only [if_neg h]
    rfl

section Layout

variable (declarations : Declarations) (first : Bool) (line : Nat)

@[simp]
theorem renderProperties_nil : renderProperties declarations first line [] = ([], line) := rfl

theorem renderProperties_cons (property : Property) (rest : List Property) :
    renderProperties declarations first line (property :: rest) =
      if property.name = childrenName then renderProperties declarations first line rest
      else
        (separator first line property.range.start ++ "\"".toList ++ property.name
            ++ "\": ".toList ++ property.value.render declarations
            ++ (renderProperties declarations false property.range.stop.line rest).1,
          (renderProperties declarations false property.range.stop.line rest).2) := by
  unfold renderProperties
  rw [renderPropertiesM]
  split <;> rfl

theorem Node.render_eq (node : Node) :
    node.render declarations =
      "create_node(".toList ++ renderClass node.className ++ ", \x7b".toList
        ++ (renderProperties declarations true node.range.start.line node.properties).1
        ++ "\x7d, [".toList
        ++ (renderChildren declarations true
            (renderProperties declarations true node.range.start.line node.properties).2
            node.children).1
        ++ separator true
            (renderChildren declarations true
              (renderProperties declarations true node.range.start.line node.properties).2
              node.children).2
            node.closer
        ++ "]".toList ++ renderAppended declarations node.properties ++ ")".toList := by
  cases node
  rfl

@[simp]
theorem renderChildren_nil : renderChildren declarations first line [] = ([], line) := rfl

theorem renderChildren_cons (child : Node) (rest : List Node) :
    renderChildren declarations first line (child :: rest) =
      (separator first line child.range.start ++ child.render declarations
          ++ (renderChildren declarations false child.range.stop.line rest).1,
        (renderChildren declarations false child.range.stop.line rest).2) := rfl

end Layout

end NodeMarkup
