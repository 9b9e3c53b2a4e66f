import ModuleScripts.Text.CharClass
import ModuleScripts.Text.Quoting

/-!
# Command line arguments

A command line is read in two passes. First every argument is told apart as an
option, a plain argument, or the separator behind which there are no options.
Then the options take their values and the first plain argument left is the
input.
-/

namespace ModuleScripts.Command

/-- What an option does. -/
inductive Setting where
  /-- Asks for help. -/
  | help
  /-- Names the output file. -/
  | output
  /-- Gives the location of the document. -/
  | url
  /-- Asks for AMD definitions. -/
  | amd
  /-- Asks for the generator runtime. -/
  | regenerator
  /-- Gives the query parameter. -/
  | queryParam
  /-- Leaves inline bodies as they are. -/
  | passthrough
  /-- Asks for more records. -/
  | verbose
  deriving DecidableEq, Repr

namespace Setting

/-- The names of all options in their order. -/
def table : List (Text × Setting) :=
  [("-h".toList, help), ("--help".toList, help), ("-o".toList, output),
    ("--output".toList, output), ("--url".toList, url), ("--amd".toList, amd),
    ("--regenerator".toList, regenerator), ("--query-param".toList, queryParam),
    ("--passthrough".toList, passthrough), ("-v".toList, verbose), ("--verbose".toList, verbose)]

/-- Whether an option has a value. -/
def takesValue : Setting → Bool
  | output => true
  | url => true
  | queryParam => true
  | _ => false

/-- The name of an option in messages: all its names. -/
def title (s : Setting) : Text :=
  List.intercalate ['/'] ((table.filter fun row => row.2 == s).map Prod.fst)

end Setting

/-- Why a command line cannot be used. -/
inductive UsageError where
  /-- A start of several options. -/
  | ambiguous (argument : Text) (candidates : List Text)
  /-- An option without its value. -/
  | missingValue (setting : Setting)
  /-- An option with a value it has no use for. -/
  | unusedValue (setting : Setting) (value : Text)
  /-- There is no input. -/
  | missingInput
  /-- Arguments that nothing takes. -/
  | unrecognized (arguments : List Text)
  deriving DecidableEq, Repr

/-- The message about a command line. -/
def UsageError.message : UsageError → Text
  | ambiguous argument candidates =>
    "ambiguous option: ".toList ++ argument ++ " could match ".toList ++
      List.intercalate ", ".toList candidates
  | missingValue setting =>
    "argument ".toList ++ setting.title ++ ": expected one argument".toList
  | unusedValue setting value =>
    "argument ".toList ++ setting.title ++ ": ignored explicit argument ".toList ++
      Text.display value
  | missingInput => "the following arguments are required: input".toList
  | unrecognized arguments =>
    "unrecognized arguments: ".toList ++ List.intercalate [' '] arguments

/-- An argument once it is told apart. -/
inductive Token where
  /-- A plain argument. -/
  | plain (argument : Text)
  /-- The separator. -/
  | separator
  /-- A known option with its dashes and the value written with it. -/
  | known (setting : Setting) (isLong : Bool) (value : Option Text)
  /-- Something that looks like an option. -/
  | unknown (argument : Text)
  deriving DecidableEq, Repr

/-- Whether an argument is a negative number. One line feed at its end does not
count. -/
def isNegativeNumber (argument : Text) : Bool :=
  match argument with
  | '-' :: r =>
    let number := if r.getLast? = some '\n' then r.dropLast else r
    let fraction := number.dropWhile isDecimal
    if fraction.isEmpty then !number.isEmpty
    else fraction.head? = some '.' && !fraction.tail.isEmpty && fraction.tail.all isDecimal
  | _ => false

/-- The part of an argument before its first equals sign and the part behind,
if there is one. -/
def splitValue (argument : Text) : Text × Option Text :=
  match argument.dropWhile (· ≠ '=') with
  | [] => (argument, none)
  | _ :: value => (argument.takeWhile (· ≠ '='), some value)

/-- Whether a name has two dashes. -/
def isLongName (name : Text) : Bool := Text.startsWith ['-', '-'] name

/-- The options that an argument can stand for: those whose long name it
starts, or the one whose short name it starts with. -/
def candidates (argument : Text) : List (Text × Token) :=
  if isLongName argument then
    let split := splitValue argument
    (Setting.table.filter fun row => Text.startsWith split.1 row.1).map fun row =>
      (row.1, .known row.2 true split.2)
  else
    (Setting.table.filter fun row => row.1 == argument.take 2).map fun row =>
      (row.1, .known row.2 false (some (argument.drop 2)))

/-- An argument that has the exact name of an option, with or without a value
behind an equals sign. -/
def exactOption? (argument : Text) : Option Token :=
  match Setting.table.lookup argument with
  | some setting => some (.known setting (isLongName argument) none)
  | none =>
    match splitValue argument with
    | (name, some value) =>
      (Setting.table.lookup name).map fun setting => .known setting (isLongName name) (some value)
    | _ => none

/-- Tells one argument apart. A single dash, a negative number and anything
with a space in it can be plain arguments. -/
def Token.ofArgument (argument : Text) : Except UsageError Token :=
  if argument.head? ≠ some '-' ∨ argument = ['-'] then .ok (.plain argument)
  else
    match exactOption? argument with
    | some token => .ok token
    | none =>
      match candidates argument with
      | [(_, token)] => .ok token
      | [] =>
        if isNegativeNumber argument || argument.contains ' ' then .ok (.plain argument)
        else .ok (.unknown argument)
      | several => .error (.ambiguous argument (several.map Prod.fst))

/-- Tells the arguments of a command line apart. -/
def tokens : List Text → Except UsageError (List Token)
  | [] => .ok []
  | argument :: arguments =>
    if argument = ['-', '-'] then .ok (.separator :: arguments.map .plain)
    else
      match Token.ofArgument argument with
      | .error e => .error e
      | .ok token => (tokens arguments).map (token :: ·)

/-- What a command line gives for an option that takes a value. -/
inductive Value where
  /-- The option is not there. -/
  | absent
  /-- The option is there with the separator for a value, which does not count. -/
  | dropped
  /-- The option is there with this value. -/
  | text (t : Text)
  deriving DecidableEq, Repr

namespace Value

/-- The value that is written so. -/
def ofWritten (t : Text) : Value := if t = ['-', '-'] then dropped else text t

/-- The text of a value, empty where there is none. -/
def toText : Value → Text
  | absent => []
  | dropped => []
  | text t => t

end Value

/-- What a command line asks for. -/
structure Options where
  /-- The input file, or a dash for standard input. -/
  input : Text
  /-- The output file. -/
  output : Value
  /-- The location of the document. -/
  url : Value
  /-- Whether modules become AMD definitions. -/
  amd : Bool
  /-- Whether the generator runtime is put in. -/
  regenerator : Bool
  /-- The query parameter. -/
  queryParam : Value
  /-- Whether inline bodies stay as they are. -/
  passthrough : Bool
  /-- Whether all records are shown. -/
  verbose : Bool
  deriving DecidableEq, Repr

/-- What stands in place of options. -/
inductive Stop where
  /-- The command line asks for help. -/
  | help
  /-- The command line cannot be used. -/
  | usage (e : UsageError)
  deriving DecidableEq, Repr

/-- What was read of a command line. -/
structure Reading where
  /-- The options so far. -/
  options : Options
  /-- Whether the input is among them. -/
  hasInput : Bool
  /-- The arguments that nothing takes, the last one first. -/
  extras : List Text
  deriving DecidableEq, Repr

namespace Reading

/-- Nothing is read yet. -/
def start : Reading := ⟨⟨[], .absent, .absent, false, false, .absent, false, false⟩, false, []⟩

/-- Gives an option its value as it is written. -/
def give (setting : Setting) (written : Text) (r : Reading) : Reading :=
  let o := r.options
  let value := Value.ofWritten written
  match setting with
  | .output => { r with options := { o with output := value } }
  | .url => { r with options := { o with url := value } }
  | .queryParam => { r with options := { o with queryParam := value } }
  | _ => r

/-- Turns an option without a value on. -/
def turnOn (setting : Setting) (r : Reading) : Except Stop Reading :=
  let o := r.options
  match setting with
  | .help => .error .help
  | .amd => .ok { r with options := { o with amd := true } }
  | .regenerator => .ok { r with options := { o with regenerator := true } }
  | .passthrough => .ok { r with options := { o with passthrough := true } }
  | .verbose => .ok { r with options := { o with verbose := true } }
  | _ => .ok r

/-- Takes an argument that is no option: the input, or one too many. -/
def takePlain (argument : Text) (r : Reading) : Reading :=
  if r.hasInput then { r with extras := argument :: r.extras }
  else { r with options := { r.options with input := argument }, hasInput := true }

/-- Takes an argument that nothing has a use for. -/
def takeExtra (argument : Text) (r : Reading) : Reading :=
  { r with extras := argument :: r.extras }

end Reading

/-- What an option written with others behind one dash comes to. -/
structure Cluster where
  /-- The options without values, in order. -/
  switches : List Setting
  /-- The last option, if it takes a value, and the value written with it. -/
  last : Option (Setting × Option Text)
  deriving DecidableEq, Repr

/-- Takes a cluster of short options apart. The text is what is written behind
the first of them. -/
def cluster (setting : Setting) : Text → Except UsageError Cluster
  | [] =>
    if setting.takesValue then .ok ⟨[], some (setting, none)⟩ else .ok ⟨[setting], none⟩
  | c :: r =>
    if setting.takesValue then .ok ⟨[], some (setting, some (c :: r))⟩
    else
      match Setting.table.lookup ['-', c] with
      | none => .error (.unusedValue setting (c :: r))
      | some next =>
        (cluster next r).map fun rest => ⟨setting :: rest.switches, rest.last⟩

/-- What a known option comes to. -/
def Cluster.ofOption (setting : Setting) (isLong : Bool) (value : Option Text) :
    Except UsageError Cluster :=
  match value with
  | none => cluster setting []
  | some value =>
    if setting.takesValue then .ok ⟨[], some (setting, some value)⟩
    else if isLong || value.isEmpty then .error (.unusedValue setting value)
    else cluster setting value

/-- Turns options on one after the other. -/
def turnOnAll : List Setting → Reading → Except Stop Reading
  | [], r => .ok r
  | setting :: settings, r =>
    match r.turnOn setting with
    | .error e => .error e
    | .ok r => turnOnAll settings r

/-- Reads the arguments in order. An option without its value takes the plain
argument right behind it. The separator goes with the input next to it. -/
def readTokens (r : Reading) : List Token → Except Stop Reading
  | [] => .ok r
  | .plain argument :: .separator :: rest =>
    if r.hasInput then readTokens ((r.takePlain argument).takeExtra ['-', '-']) rest
    else readTokens (r.takePlain argument) rest
  | .plain argument :: rest => readTokens (r.takePlain argument) rest
  | .separator :: .plain argument :: rest =>
    if r.hasInput then readTokens ((r.takeExtra ['-', '-']).takeExtra argument) rest
    else readTokens (r.takePlain argument) rest
  | .separator :: rest => readTokens (r.takeExtra ['-', '-']) rest
  | .unknown argument :: rest => readTokens (r.takeExtra argument) rest
  | .known setting isLong value :: rest =>
    match Cluster.ofOption setting isLong value with
    | .error e => .error (.usage e)
    | .ok ⟨switches, none⟩ =>
      match turnOnAll switches r with
      | .error e => .error e
      | .ok r => readTokens r rest
    | .ok ⟨switches, some (last, some value)⟩ =>
      match turnOnAll switches r with
      | .error e => .error e
      | .ok r => readTokens (r.give last value) rest
    | .ok ⟨switches, some (last, none)⟩ =>
      match rest with
      | .plain argument :: rest =>
        match turnOnAll switches r with
        | .error e => .error e
        | .ok r => readTokens (r.give last argument) rest
      | _ => .error (.usage (.missingValue last))

/-- Reads a command line. A missing input counts before arguments that nothing
takes. -/
def Options.parse (arguments : List Text) : Except Stop Options :=
  match tokens arguments with
  | .error e => .error (.usage e)
  | .ok list =>
    match readTokens Reading.start list with
    | .error e => .error e
    | .ok r =>
      if !r.hasInput then .error (.usage .missingInput)
      else if r.extras.isEmpty then .ok r.options
      else .error (.usage (.unrecognized r.extras.reverse))

end ModuleScripts.Command
