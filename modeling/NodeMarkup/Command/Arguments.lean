import NodeMarkup.Text.Basic

namespace NodeMarkup

/-- What is to be done. -/
inductive Command where
  -- Write the code of every source below a path.
  | build (path : Text) (outDir : Option Text) (extension resRoot : Text)
  -- Compare the code of every source below a directory with what is expected.
  | test (directory resRoot : Text)
  -- Write the code of one source.
  | transpile (input output : Option Text) (resRoot : Text)
deriving DecidableEq, Repr, Inhabited

namespace Command

inductive UsageFault where
  -- There are no arguments at all.
  | noArguments
  | unknownCommand
  -- An option that the command does not have, or an operand too many.
  | unknownArgument
  | missingOperand
  -- An option without its value, or a path that is empty.
  | invalidValue
  -- An option given twice.
  | repeatedOption
  -- A value for an option that takes none.
  | unexpectedValue
  | helpAsked
  | versionAsked
deriving DecidableEq, Repr, Inhabited

inductive Slot where
  | operand
  | outDir
  | extension
  | resRoot
  | input
  | output
deriving DecidableEq, Repr, Inhabited

/-- Whether a slot takes a path, which must not be empty. -/
def Slot.isPath : Slot → Bool
  | operand | outDir => true
  | extension | resRoot | input | output => false

structure Form where
  -- The options by their long names.
  long : List (Text × Slot)
  -- The options by their letters.
  short : List (Char × Slot)
  -- Whether the command has an operand.
  hasOperand : Bool
deriving DecidableEq, Repr, Inhabited

/-- What has been read of the arguments of a command. The latest option or operand stays pending,
and is looked at only when the next one comes or the arguments end. -/
structure Reading where
  pending : Option (Slot × Option Text)
  values : List (Slot × Text)
  -- Whether an argument `--` has been read, behind which there are no options.
  operandsOnly : Bool
  operandSeen : Bool
deriving DecidableEq, Repr, Inhabited

namespace Reading

def empty : Reading := ⟨none, [], false, false⟩

def get? (r : Reading) (slot : Slot) : Option Text :=
  (r.values.find? (·.1 = slot)).map Prod.snd

def store (slot : Slot) (value : Text) (r : Reading) : Except UsageFault Reading :=
  if (r.get? slot).isSome then .error .repeatedOption
  else if slot.isPath && value.isEmpty then .error .invalidValue
  else .ok { r with values := (slot, value) :: r.values }

def settle (r : Reading) : Except UsageFault Reading :=
  match r.pending with
  | none => .ok r
  | some (_, none) => .error .invalidValue
  | some (slot, some value) => { r with pending := none }.store slot value

/-- An option with its value in the same argument. -/
def attach (slot : Slot) (value : Text) (r : Reading) : Except UsageFault Reading := do
  (← r.settle).store slot value

/-- An option with its value in the next argument. -/
def await (slot : Slot) (r : Reading) : Except UsageFault Reading := do
  return { (← r.settle) with pending := some (slot, none) }

def askHelp (r : Reading) : Except UsageFault Reading := do
  let _ ← r.settle
  .error .helpAsked

def addOperand (form : Form) (value : Text) (r : Reading) : Except UsageFault Reading :=
  if form.hasOperand && !r.operandSeen then do
    return { (← r.settle) with pending := some (.operand, some value), operandSeen := true }
  else .error .unknownArgument

/-- An option by its long name, with a value behind `=` if there is one. -/
def addLong (form : Form) (name : Text) (value : Option Text) (r : Reading) :
    Except UsageFault Reading :=
  if name = "help".toList then
    match value with
    | none => r.askHelp
    | some _ => .error .unexpectedValue
  else
    match form.long.lookup name, value with
    | none, _ => .error .unknownArgument
    | some slot, some value => r.attach slot value
    | some slot, none => r.await slot

/-- An option by its letter, with a value directly behind it or behind `=` if there is one. -/
def addShort (form : Form) (letter : Char) (value : Text) (r : Reading) :
    Except UsageFault Reading :=
  if letter = 'h' then r.askHelp
  else
    match form.short.lookup letter, value with
    | none, _ => .error .unknownArgument
    | some slot, [] => r.await slot
    | some slot, '=' :: value => r.attach slot value
    | some slot, value => r.attach slot value

/-- A name and, behind the first `=`, a value. -/
def splitValue (option : Text) : Text × Option Text :=
  match option.dropWhile (· ≠ '=') with
  | [] => (option, none)
  | _ :: value => (option.takeWhile (· ≠ '='), some value)

def add (form : Form) (r : Reading) (argument : Text) : Except UsageFault Reading :=
  if r.operandsOnly then r.addOperand form argument
  else
    match argument with
    | ['-', '-'] => .ok { r with operandsOnly := true }
    | '-' :: '-' :: option =>
      let (name, value) := splitValue option
      r.addLong form name value
    | '-' :: letter :: value => r.addShort form letter value
    | _ =>
      match r.pending with
      | some (slot, none) => .ok { r with pending := some (slot, some argument) }
      | _ => r.addOperand form argument

def ofArguments (form : Form) (arguments : List Text) : Except UsageFault Reading := do
  let r ← (← arguments.foldlM (add form) empty).settle
  if form.hasOperand && (r.get? .operand).isNone then .error .missingOperand else .ok r

end Reading

/-- What every command takes for the place of its sources among the resources. -/
def resRootOption : Text × Slot := ("res-root".toList, .resRoot)

/-- The place of sources among the resources unless another is given. -/
def defaultResRoot : Text := "res://".toList

def sourceExtension : Text := "gdx".toList

def buildForm : Form :=
  ⟨[("out-dir".toList, .outDir), ("extension".toList, .extension), resRootOption], [], true⟩

def testForm : Form := ⟨[resRootOption], [], true⟩

def transpileForm : Form :=
  ⟨[("input".toList, .input), ("output".toList, .output), resRootOption],
    [('i', .input), ('o', .output)], false⟩

inductive Name where
  | build
  | test
  | transpile
  | help
deriving DecidableEq, Repr, Inhabited

def name? (word : Text) : Option Name :=
  if word = "build".toList then some .build
  else if word = "test".toList then some .test
  else if word = "transpile".toList then some .transpile
  else if word = "help".toList then some .help
  else none

/-- The command of a name with its arguments. Help is given on at most one command. -/
def ofName (name : Name) (arguments : List Text) : Except UsageFault Command := do
  match name with
  | .build =>
    let r ← Reading.ofArguments buildForm arguments
    return build ((r.get? .operand).getD []) (r.get? .outDir)
      ((r.get? .extension).getD sourceExtension) ((r.get? .resRoot).getD defaultResRoot)
  | .test =>
    let r ← Reading.ofArguments testForm arguments
    return test ((r.get? .operand).getD []) ((r.get? .resRoot).getD defaultResRoot)
  | .transpile =>
    let r ← Reading.ofArguments transpileForm arguments
    return transpile (r.get? .input) (r.get? .output) ((r.get? .resRoot).getD defaultResRoot)
  | .help =>
    match arguments with
    | [] => .error .helpAsked
    | [word] => .error (if (name? word).isSome then .helpAsked else .unknownCommand)
    | _ => .error .unknownCommand

def leadingOption (argument : Text) : UsageFault :=
  match argument with
  | '-' :: '-' :: option =>
    let (name, value) := Reading.splitValue option
    if name = "help".toList then if value.isSome then .unexpectedValue else .helpAsked
    else if name = "version".toList then if value.isSome then .unexpectedValue else .versionAsked
    else .unknownArgument
  | '-' :: 'h' :: _ => .helpAsked
  | '-' :: 'V' :: _ => .versionAsked
  | '-' :: _ :: _ => .unknownArgument
  | _ => .unknownCommand

def ofArguments (arguments : List Text) : Except UsageFault Command :=
  match arguments with
  | [] => .error .noArguments
  | first :: rest =>
    match name? first with
    | some name => ofName name rest
    | none =>
      if first = "--".toList then
        match rest with
        | [] => .error .noArguments
        | word :: _ => .error (if (name? word).isSome then .unknownArgument else .unknownCommand)
      else .error (leadingOption first)

end Command

end NodeMarkup
