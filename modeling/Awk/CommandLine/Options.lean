/-!
# Options of the command line

Options stand before the first operand.  A letter option takes the rest of its argument as its value, or
the next argument; a long option takes what follows an equals sign, or the next argument.  No value starts
with a hyphen, unless it is attached or it is the hyphen alone.
-/

namespace Awk.CommandLine

/-- What the options and operands ask for. -/
structure Options where
  fieldSep : Option String := none
  assigns : List String := []
  programFiles : List String := []
  compiled : Option String := none
  /-- Show the instructions before the run. -/
  disasm : Bool := false
  dumpTypes : Bool := false
  emitJson : Bool := false
  config : Option String := none
  operands : List String := []
deriving DecidableEq, Repr

inductive Mistake where
  | unknownOption (arg : String)
  | missingValue (option : String)
  | unwantedValue (option : String)
  | repeated (option : String)
  | conflict
deriving DecidableEq, Repr

def Mistake.message : Mistake → String
  | unknownOption arg => "unexpected argument '" ++ arg ++ "' found"
  | missingValue option => "a value is required for '" ++ option ++ "' but none was supplied"
  | unwantedValue option => "unexpected value for '" ++ option ++ "' found"
  | repeated option => "the argument '" ++ option ++ "' cannot be used multiple times"
  | conflict => "the argument '--load-json <path>' cannot be used with '-f <progfile>'"

/-- What the arguments come to. -/
inductive Outcome where
  | options (o : Options)
  | help
  | version
  | mistake (m : Mistake)
deriving DecidableEq, Repr

inductive Name where
  | fieldSep | assign | programFile | compiled | disasm | dumpTypes | emitJson | config | help | version
deriving DecidableEq, Repr

namespace Name

def ofLetter? : Char → Option Name
  | 'F' => some fieldSep
  | 'v' => some assign
  | 'f' => some programFile
  | 'h' => some help
  | 'V' => some version
  | _ => none

def ofLong? : String → Option Name
  | "load-json" => some compiled
  | "disasm" => some disasm
  | "dump-types" => some dumpTypes
  | "emit-json" => some emitJson
  | "config" => some config
  | "help" => some help
  | "version" => some version
  | _ => none

def takesValue : Name → Bool
  | fieldSep | assign | programFile | compiled | config => true
  | _ => false

def shown : Name → String
  | fieldSep => "-F <fs>"
  | assign => "-v <var=val>"
  | programFile => "-f <progfile>"
  | compiled => "--load-json <path>"
  | disasm => "--disasm"
  | dumpTypes => "--dump-types"
  | emitJson => "--emit-json"
  | config => "--config <path>"
  | help => "--help"
  | version => "--version"

end Name

def once {α : Type} (name : Name) (before : Option α) (o : Options) : Except Outcome Options :=
  if before.isSome then .error (.mistake (.repeated name.shown)) else .ok o

def path (name : Name) (value : String) (o : Options) : Except Outcome Options :=
  if value.isEmpty then .error (.mistake (.missingValue name.shown)) else .ok o

def turnOn (name : Name) (before : Bool) (o : Options) : Except Outcome Options :=
  if before then .error (.mistake (.repeated name.shown)) else .ok o

/-- Follows an option without a value. -/
def Options.flag (o : Options) : Name → Except Outcome Options
  | .disasm => turnOn .disasm o.disasm { o with disasm := true }
  | .dumpTypes => turnOn .dumpTypes o.dumpTypes { o with dumpTypes := true }
  | .emitJson => turnOn .emitJson o.emitJson { o with emitJson := true }
  | .help => .error .help
  | .version => .error .version
  | _ => .ok o

def Options.assign (o : Options) (name : Name) (value : String) : Except Outcome Options :=
  match name with
  | .fieldSep => once name o.fieldSep { o with fieldSep := some value }
  | .assign => .ok { o with assigns := o.assigns ++ [value] }
  | .programFile => path name value { o with programFiles := o.programFiles ++ [value] }
  | .compiled =>
    once name o.compiled { o with compiled := some value } >>= path name value
  | .config => once name o.config { o with config := some value } >>= path name value
  | _ => .ok o

/-- What is done with the arguments that follow. -/
inductive Pending where
  | none
  | value (name : Name)
deriving DecidableEq, Repr

/-- Follows letter options that share an argument. -/
def Options.letters (o : Options) : List Char → Except Outcome (Options × Pending)
  | [] => .ok (o, .none)
  | c :: rest =>
    match Name.ofLetter? c with
    | none => .error (.mistake (.unknownOption (String.ofList ['-', c])))
    | some name =>
      if name.takesValue then
        match rest with
        | [] => .ok (o, .value name)
        | '=' :: value | value => (o.assign name (String.ofList value)).map (·, .none)
      else o.flag name >>= fun o => o.letters rest

def Options.long (o : Options) (arg : List Char) : Except Outcome (Options × Pending) :=
  let (key, rest) := arg.span (· != '=')
  match Name.ofLong? (String.ofList key), rest with
  | none, _ => .error (.mistake (.unknownOption (String.ofList ('-' :: '-' :: arg))))
  | some name, [] =>
    if name.takesValue then .ok (o, .value name) else (o.flag name).map (·, .none)
  | some name, _ :: value =>
    if name.takesValue then (o.assign name (String.ofList value)).map (·, .none)
    else .error (.mistake (.unwantedValue name.shown))

/-- Takes an argument as a value or as the first operand. -/
inductive Role where
  | stop
  | long (rest : List Char)
  | letters (rest : List Char)
  | plain
deriving DecidableEq, Repr

def Role.of (arg : String) : Role :=
  match arg.toList with
  | ['-', '-'] => .stop
  | '-' :: '-' :: rest => .long rest
  | '-' :: c :: rest => .letters (c :: rest)
  | _ => .plain

def Options.follow (o : Options) : Pending → List String → Except Outcome Options
  | .none, [] => .ok o
  | .value name, [] => .error (.mistake (.missingValue name.shown))
  | .none, arg :: rest =>
    match Role.of arg with
    | .stop => .ok { o with operands := rest }
    | .long s => o.long s >>= fun (o, pending) => o.follow pending rest
    | .letters s => o.letters s >>= fun (o, pending) => o.follow pending rest
    | .plain => .ok { o with operands := arg :: rest }
  | .value name, arg :: rest =>
    match Role.of arg with
    | .plain => o.assign name arg >>= fun o => o.follow .none rest
    | _ => .error (.mistake (.missingValue name.shown))

def Options.ofArgs (args : List String) : Outcome :=
  match ({} : Options).follow .none args with
  | .error outcome => outcome
  | .ok o =>
    if o.compiled.isSome ∧ o.programFiles ≠ [] then .mistake .conflict else .options o

end Awk.CommandLine
