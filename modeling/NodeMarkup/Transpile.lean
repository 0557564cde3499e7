import NodeMarkup.Node.Assembly
import NodeMarkup.Text.Lines
import NodeMarkup.Token.Scan
/-!
From a source with markup to plain code. The source is scanned twice: once for what it declares,
once for its imports and tags.
-/
namespace NodeMarkup

/-- What a scan that has stopped says about the source. -/
def ScanEnd.check : ScanEnd → Except ParseError Unit
  | .failed e => .error e
  | .limit => .ok ()
  | .finished => .ok ()

section Effects

variable {m : Type → Type} [Monad m] [Checks m] [Arena m]

/-- The names that a source declares, with the scan that found them. -/
def Scan.declarationsM (s : Scan) : ExceptT ParseError m (Declarations × Scan) := do
  let (tokens, stop, s) ← (s.drainM : m _)
  stop.check
  return (.ofTokens tokens, s)

/-- The code of a source whose line breaks are all `\n`. Both passes run on one engine. -/
def transpileLinesM (context : Resource.Context) (source : Text) : ExceptT ParseError m Text := do
  let first ← (Scan.againM (.start source) : m Scan)
  let (declarations, s) ← first.declarationsM
  let second ← (Scan.againM s.engine : m Scan)
  let (tokens, stop, _) ← (second.drainM : m _)
  let assembly ← tokens.foldlM (Assembly.addTokenM context declarations) (.ofSource source)
  stop.check
  assembly.finish

/-- The code of a source. -/
def transpileInM (context : Resource.Context) (source : Text) : ExceptT ParseError m Text :=
  transpileLinesM context (Text.unifyLineBreaks source)

end Effects

def Scan.declarations (s : Scan) : Except ParseError (Declarations × Scan) :=
  Id.run s.declarationsM.run

def transpileLines (context : Resource.Context) (source : Text) : Except ParseError Text :=
  Id.run (transpileLinesM context source).run

def transpileIn (context : Resource.Context) (source : Text) : Except ParseError Text :=
  Id.run (transpileInM context source).run

theorem run_exceptT_bind {ε α β : Type} (x : ExceptT ε Id α) (next : α → ExceptT ε Id β) :
    Id.run (x >>= next).run = Id.run x.run >>= fun value => Id.run (next value).run := by
  change Id.run (ExceptT.bindCont next (Id.run x.run)) = _
  cases Id.run x.run <;> rfl

theorem run_foldlM_addTokenM (context : Resource.Context) (declarations : Declarations)
    (tokens : List Token) (a : Assembly) :
    Id.run (tokens.foldlM (Assembly.addTokenM context declarations) a : ExceptT _ Id _).run =
      tokens.foldlM (Assembly.addToken context declarations) a := by
  induction tokens generalizing a with
  | nil => rfl
  | cons token tokens ih =>
    rw [List.foldlM_cons, List.foldlM_cons, run_exceptT_bind]
    exact bind_congr ih

theorem Scan.declarations_eq (s : Scan) :
    s.declarations =
      s.drain.2.1.check.map fun _ => (Declarations.ofTokens s.drain.1, s.drain.2.2) := by
  change Id.run (liftM s.drain.2.1.check >>= _ : ExceptT ParseError Id _).run = _
  cases s.drain.2.1.check <;> rfl

theorem transpileLines_eq (context : Resource.Context) (source : Text) :
    transpileLines context source = (do
      let (declarations, s) ← (Scan.start source).declarations
      let (tokens, stop, _) := (Scan.again s.engine).drain
      let assembly ← tokens.foldlM (Assembly.addToken context declarations) (.ofSource source)
      stop.check
      assembly.finish) := by
  change Id.run ((Scan.start source).declarationsM >>= _ : ExceptT ParseError Id _).run = _
  rw [run_exceptT_bind]
  apply bind_congr
  rintro ⟨declarations, s⟩
  change Id.run (List.foldlM _ _ (Scan.again s.engine).drain.1 >>= _ : ExceptT ParseError Id _).run = _
  rw [run_exceptT_bind, run_foldlM_addTokenM]
  apply bind_congr
  intro assembly
  exact run_exceptT_bind (liftM (Scan.again s.engine).drain.2.1.check) _

theorem transpileIn_eq (context : Resource.Context) (source : Text) :
    transpileIn context source = transpileLines context (Text.unifyLineBreaks source) := rfl

/-- The code of a source in the root of the resources. -/
def transpile (source : Text) : Except ParseError Text := transpileIn .root source

end NodeMarkup
