import NodeMarkup.Draft
import NodeMarkup.Node.Layout
import NodeMarkup.Resource.Path
import NodeMarkup.Source.Fault
import NodeMarkup.Text.Classes

namespace NodeMarkup

/-- The open tags of a source, and the draft with all that is finished. -/
structure Assembly where
  -- The nodes whose closing tags are still to come, innermost first.
  stack : List Node
  draft : Draft
deriving Repr, Inhabited

/-- The name of the property that holds the text of a body. -/
def textName : Text := "text".toList

section Effects

variable {m : Type → Type} [Monad m] [Checks m]

/-- Takes the text of the body up to `stop` into a property. It is appended to the property of that
name if the node has one. Line breaks, tabs and the blanks at both ends are left out; a text of
nothing else changes nothing. -/
def Node.foldTextM (stop : Cursor) (node : Node) : m Node := do
  let raw := Range.text ⟨node.body, stop⟩
  check raw (Range.text? ⟨node.body, stop⟩)
  let text := Text.trim (raw.filter fun c => c ≠ '\n' && c ≠ '\t')
  if text.isEmpty then return node
  else
    let folded := Value.ofText text
    let extended (v : Value) : Value := ⟨.expression, v.code ++ " + ".toList ++ folded.code⟩
    match node.setProperty? textName extended with
    | some node => return node
    | none =>
      let start := node.body.advanceBy (raw.takeWhile Text.isBlank).length
      let stop := start.advanceBy (Text.trim raw).length
      check start (node.body.advanceBy? (raw.takeWhile Text.isBlank).length)
      check stop (start.advanceBy? (Text.trim raw).length)
      let range : Range := ⟨start, stop⟩
      check range (Range.between? start stop)
      return { node with properties := node.properties ++ [⟨textName, folded, range⟩] }

/-- The node as its closing tag leaves it: the text of a body without children is folded. -/
def Node.foldedM (stop : Cursor) (node : Node) : m Node :=
  if node.children.isEmpty then node.foldTextM stop else return node

def Import.renderM (context : Resource.Context) (i : Import) : m Text := do
  let path ← context.resolveM i.path
  return "var ".toList ++ i.className ++ " = ResourceLoader.load(".toList
    ++ (Value.ofText path).code ++ ")".toList

namespace Assembly

/-- Puts a finished node into the innermost open tag, or writes it if no tag is open. -/
def attachM (declarations : Declarations) (node : Node) (a : Assembly) : m Assembly :=
  match a.stack with
  | [] => do
    let code ← node.renderM declarations
    return { a with draft := ← a.draft.replaceM node.range code }
  | parent :: rest => return { a with stack := parent.addChild node :: rest }

def addTagM (declarations : Declarations) (tag : Tag) (a : Assembly) :
    ExceptT ParseError m Assembly := do
  match tag.kind with
  | .opening => return { a with stack := .ofTag tag :: a.stack }
  | .single => (a.attachM declarations (.ofTag tag) : m Assembly)
  | .closing =>
    match a.stack with
    | [] => throw (.ofCursor .nothingToClose tag.range.start)
    | node :: rest =>
      if node.className ≠ tag.className then
        throw (.ofCursor (.mismatchedClosingTag node.className) tag.range.start)
      else
        let node ← (node.foldedM tag.range.start : m Node)
        (attachM declarations (node.finish tag) { a with stack := rest } : m Assembly)

def addImportM (context : Resource.Context) (i : Import) (a : Assembly) :
    ExceptT ParseError m Assembly := do
  if a.stack.isEmpty then
    let code ← (i.renderM context : m Text)
    return { a with draft := ← (a.draft.replaceM i.range code : m Draft) }
  else throw (.ofCursor .importInsideTag i.range.start)

/-- Adds a token. Headers of variables and functions stay as they are. -/
def addTokenM (context : Resource.Context) (declarations : Declarations) (a : Assembly) :
    Token → ExceptT ParseError m Assembly
  | .ofImport i => a.addImportM context i
  | .ofTag tag => a.addTagM declarations tag
  | .ofVariable _ => return a
  | .ofFunction _ => return a

end Assembly

end Effects

def Node.foldText (stop : Cursor) (node : Node) : Node := Id.run (node.foldTextM stop)

def Node.folded (stop : Cursor) (node : Node) : Node := Id.run (node.foldedM stop)

def Import.render (context : Resource.Context) (i : Import) : Text := Id.run (i.renderM context)

theorem Node.foldText_eq (stop : Cursor) (node : Node) :
    node.foldText stop =
      let raw := Range.text ⟨node.body, stop⟩
      let text := Text.trim (raw.filter fun c => c ≠ '\n' && c ≠ '\t')
      if text.isEmpty then node
      else
        let folded := Value.ofText text
        let extended (v : Value) : Value := ⟨.expression, v.code ++ " + ".toList ++ folded.code⟩
        match node.setProperty? textName extended with
        | some node => node
        | none =>
          let start := node.body.advanceBy (raw.takeWhile Text.isBlank).length
          let range : Range := ⟨start, start.advanceBy (Text.trim raw).length⟩
          { node with properties := node.properties ++ [⟨textName, folded, range⟩] } := by
  unfold foldText foldTextM
  rw [unchecked_then]
  dsimp only
  split
  · rfl
  · split
    · rfl
    · rfl

theorem Node.folded_eq (stop : Cursor) (node : Node) :
    node.folded stop = if node.children.isEmpty then node.foldText stop else node := by
  unfold folded foldedM
  split <;> rfl

theorem Import.render_eq (context : Resource.Context) (i : Import) :
    i.render context =
      "var ".toList ++ i.className ++ " = ResourceLoader.load(".toList
        ++ (Value.ofText (context.resolve i.path)).code ++ ")".toList := rfl

namespace Assembly

def ofSource (source : Text) : Assembly := ⟨[], .ofSource source⟩

def attach (declarations : Declarations) (node : Node) (a : Assembly) : Assembly :=
  Id.run (a.attachM declarations node)

def addTag (declarations : Declarations) (tag : Tag) (a : Assembly) : Except ParseError Assembly :=
  Id.run (a.addTagM declarations tag).run

def addImport (context : Resource.Context) (i : Import) (a : Assembly) :
    Except ParseError Assembly :=
  Id.run (a.addImportM context i).run

theorem attach_eq (declarations : Declarations) (node : Node) (a : Assembly) :
    a.attach declarations node =
      match a.stack with
      | [] => { a with draft := a.draft.replace node.range (node.render declarations) }
      | parent :: rest => { a with stack := parent.addChild node :: rest } := by
  unfold attach attachM
  split <;> rfl

theorem addTag_eq (declarations : Declarations) (tag : Tag) (a : Assembly) :
    a.addTag declarations tag =
      match tag.kind with
      | .opening => .ok { a with stack := .ofTag tag :: a.stack }
      | .single => .ok (a.attach declarations (.ofTag tag))
      | .closing =>
        match a.stack with
        | [] => .error (.ofCursor .nothingToClose tag.range.start)
        | node :: rest =>
          if node.className ≠ tag.className then
            .error (.ofCursor (.mismatchedClosingTag node.className) tag.range.start)
          else
            .ok (attach declarations ((node.folded tag.range.start).finish tag)
              { a with stack := rest }) := by
  unfold addTag addTagM
  cases tag.kind with
  | opening => rfl
  | single => rfl
  | closing =>
    cases a.stack with
    | nil => rfl
    | cons node rest =>
      dsimp only
      split <;> rfl

theorem addImport_eq (context : Resource.Context) (i : Import) (a : Assembly) :
    a.addImport context i =
      if a.stack.isEmpty then .ok { a with draft := a.draft.replace i.range (i.render context) }
      else .error (.ofCursor .importInsideTag i.range.start) := by
  unfold addImport addImportM
  split <;> rfl

def addToken (context : Resource.Context) (declarations : Declarations) (a : Assembly)
    (token : Token) : Except ParseError Assembly :=
  Id.run (a.addTokenM context declarations token).run

section AddToken

variable (context : Resource.Context) (declarations : Declarations) (a : Assembly)

@[simp]
theorem addToken_ofImport (i : Import) :
    a.addToken context declarations (.ofImport i) = a.addImport context i := rfl

@[simp]
theorem addToken_ofTag (tag : Tag) :
    a.addToken context declarations (.ofTag tag) = a.addTag declarations tag := rfl

@[simp]
theorem addToken_ofVariable (header : VariableHeader) :
    a.addToken context declarations (.ofVariable header) = .ok a := rfl

@[simp]
theorem addToken_ofFunction (header : FunctionHeader) :
    a.addToken context declarations (.ofFunction header) = .ok a := rfl

end AddToken

def finish (a : Assembly) : Except ParseError Text :=
  match a.stack.getLast? with
  | none => .ok a.draft.text
  | some outermost => .error (.ofCursor .missingClosingTag outermost.range.start)

end Assembly

end NodeMarkup
