import RecordSchema.CommandLine.Value

/-!
# Invocations

What a list of arguments asks for.  An option stands before or after the command; what is said after
it replaces what is said before it.  The value of an option is either attached to it or the next
argument, and is read only once the next option or the end is met.
-/

namespace RecordSchema.CommandLine

inductive Command where
  | summary
  | ir
  | coverage
deriving DecidableEq, Repr

def Command.ofName? : String → Option Command
  | "summary" => some summary
  | "ir" => some ir
  | "coverage" => some coverage
  | _ => none

/-- Why a list of arguments asks for no command. -/
inductive UsageError where
  | help
  /-- There are no arguments at all. -/
  | helpOnMissing
  | version
  | missingCommand
  | unknownCommand
  | unknownArgument
  /-- An option that takes one value is given twice. -/
  | conflict
  | missingValue
  /-- A value is attached to what takes none. -/
  | surplusValue
  | invalidValue (fault : ValueFault)
deriving DecidableEq, Repr

/-! ## Options -/

inductive OptionName where
  | catalog
  | docs
  | resource
  | exclude
  | batchSize
  | out
deriving DecidableEq, Repr

def OptionName.ofLong? : String → Option OptionName
  | "catalog" => some catalog
  | "docs" => some docs
  | "resource" => some resource
  | "exclude" => some exclude
  | "batch-size" => some batchSize
  | "out" => some out
  | _ => none

def OptionName.ofShort? : Char → Option OptionName
  | 'c' => some catalog
  | 'd' => some docs
  | 'o' => some out
  | _ => none

/-- The options that are given on one side of a command. -/
structure Options where
  catalog : Option String := none
  docs : Option String := none
  resources : List (String × String) := []
  exclusions : List (String × String) := []
  batchSize : Option Nat := none
  out : Option String := none
deriving DecidableEq, Repr

namespace Options

/-- Sets an option that takes one value and may be given once. -/
def giveOnce {α : Type} (present : Option α) (value : Except UsageError α) :
    Except UsageError (Option α) :=
  match present with
  | some _ => .error .conflict
  | none => value.map some

def readPath (text : String) : Except UsageError String :=
  if text.isEmpty then .error .missingValue else .ok text

/-- Gives an option a value. -/
def give (o : Options) (name : OptionName) (text : String) : Except UsageError Options :=
  match name with
  | .catalog => return { o with catalog := ← giveOnce o.catalog (readPath text) }
  | .docs => return { o with docs := ← giveOnce o.docs (readPath text) }
  | .out => return { o with out := ← giveOnce o.out (readPath text) }
  | .batchSize => do
    let count := (readCount text).mapError .invalidValue
    return { o with batchSize := ← giveOnce o.batchSize count }
  | .resource => do
    return { o with resources := o.resources ++ [← (readPair text).mapError .invalidValue] }
  | .exclude => do
    return { o with exclusions := o.exclusions ++ [← (readPair text).mapError .invalidValue] }

/-- What is said here, or `before` where nothing is. -/
def orElse (o before : Options) : Options where
  catalog := o.catalog <|> before.catalog
  docs := o.docs <|> before.docs
  resources := if o.resources.isEmpty then before.resources else o.resources
  exclusions := if o.exclusions.isEmpty then before.exclusions else o.exclusions
  batchSize := o.batchSize <|> before.batchSize
  out := o.out <|> before.out

end Options

/-! ## Arguments -/

inductive Argument where
  /-- Ends the options. -/
  | escape
  /-- An option by its name, and the value attached to it. -/
  | long (name : String) (value : Option String)
  /-- An option by its letter, and what is attached to it. -/
  | short (letter : Char) (attached : String)
  | word
deriving DecidableEq, Repr

def Argument.ofText (text : String) : Argument :=
  match text.toList with
  | ['-', '-'] => escape
  | '-' :: '-' :: rest =>
    match splitAt? '=' (.ofList rest) with
    | some (name, value) => long name (some value)
    | none => long (.ofList rest) none
  | '-' :: letter :: rest => short letter (.ofList rest)
  | _ => word

/-- The value in what is attached to an option's letter; an equals sign may stand before it. -/
def attachedValue? (attached : String) : Option String :=
  match attached.toList with
  | [] => none
  | '=' :: rest => some (.ofList rest)
  | rest => some (.ofList rest)

/-- What the arguments on one side of a command say, up to some place. -/
structure Level where
  given : Options := {}
  /-- The last option, if its value is not read yet, and the value where there is one. -/
  pending : Option (OptionName × Option String) := none

namespace Level

/-- Reads the value that is not read yet. -/
def settle (l : Level) : Except UsageError Options :=
  match l.pending with
  | none => .ok l.given
  | some (_, none) => .error .missingValue
  | some (name, some value) => l.given.give name value

/-- The option that takes the next argument for its value. -/
def awaiting (l : Level) : Option OptionName :=
  match l.pending with
  | some (name, none) => some name
  | _ => none

/-- Takes an option with the value attached to it, or waits for its value. -/
def option (l : Level) (name : OptionName) (value : Option String) : Except UsageError Level := do
  let given ← l.settle
  match value with
  | some value => return { given := ← given.give name value }
  | none => return { given, pending := some (name, none) }

/-- Takes an argument that is neither a command nor the end of the options. `isOuter` tells the
level before the command. -/
def take (isOuter : Bool) (l : Level) (text : String) : Except UsageError Level :=
  match Argument.ofText text with
  | .long "help" (some _) => .error .surplusValue
  | .long "help" none => do
    let _ ← l.settle
    throw .help
  | .long name value =>
    match OptionName.ofLong? name with
    | some option => l.option option value
    | none =>
      if isOuter && name == "version" then
        if value.isSome then .error .surplusValue
        else do
          let _ ← l.settle
          throw .version
      else .error .unknownArgument
  | .short letter attached =>
    match OptionName.ofShort? letter with
    | some option => l.option option (attachedValue? attached)
    | none =>
      if letter == 'h' then do
        let _ ← l.settle
        throw .help
      else if isOuter && letter == 'V' then do
        let _ ← l.settle
        throw .version
      else .error .unknownArgument
  | .escape | .word =>
    match l.awaiting with
    | some name => .ok { l with pending := some (name, some text) }
    | none => .error (if isOuter then .unknownCommand else .unknownArgument)

/-- The fault of a word that follows the end of the options. -/
def afterEscape (isOuter : Bool) (word : String) : UsageError :=
  if isOuter && !(word == "help" || (Command.ofName? word).isSome) then .unknownCommand
  else .unknownArgument

/-- Reads the options after a command. -/
def readInner (l : Level) : List String → Except UsageError Options
  | [] => l.settle
  | text :: rest =>
    if text == "--" then
      match rest with
      | [] => l.settle
      | word :: _ => .error (afterEscape false word)
    else do
      (← l.take false text).readInner rest

/-- The answer to a request for help with commands. -/
def helpWith : List String → UsageError
  | [] => .help
  | [name] => if name == "help" || (Command.ofName? name).isSome then .help else .unknownCommand
  | _ => .unknownCommand

/-- Reads the options before the command, the command, and those after it. -/
def readOuter (l : Level) : List String → Except UsageError (Options × Option Command)
  | [] => do return (← l.settle, none)
  | text :: rest => do
    if l.awaiting.isNone && text == "help" then throw (helpWith rest)
    match if l.awaiting.isNone then Command.ofName? text else none with
    | some command =>
      let after ← ({} : Level).readInner rest
      return (after.orElse (← l.settle), some command)
    | none =>
      if text == "--" then
        match rest with
        | [] => return (← l.settle, none)
        | word :: _ => throw (afterEscape true word)
      else
        (← l.take true text).readOuter rest

end Level

/-- A command with its options. -/
structure Invocation where
  command : Command
  options : Options := {}
deriving DecidableEq, Repr

/-- The invocation that a list of arguments stands for. -/
def Invocation.ofArguments (args : List String) : Except UsageError Invocation := do
  match ← ({} : Level).readOuter args with
  | (options, some command) => return { command, options }
  | (options, none) => throw (if options = {} then .helpOnMissing else .missingCommand)

end RecordSchema.CommandLine
