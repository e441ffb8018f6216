import RepoSurvey.Config.Environment
import RepoSurvey.Json.Printer
import RepoSurvey.Survey

/-!
# The command line

* `Command.ofArguments?` reads the arguments; without a command they are a usage error;
* `Command.run` carries a command out: the exit code and what is printed.

Results are printed as JSON with two spaces per level.
-/

namespace RepoSurvey

/-! ## Arguments -/

/-- The options of a command: flags by their long names and by letters, and options that take a
value. -/
structure OptionNames where
  flags : List String
  letters : Table String
  valued : List String

/-- An argument as it is understood. -/
inductive Argument
  | plain (text : String)
  | flag (name : String)
  | valued (name value : String)
  deriving DecidableEq, Repr

namespace OptionNames

/-- An option in long form, up to an equals sign, and the value behind the sign. -/
def splitEquals (argument : String) : String × Option String :=
  let chars := argument.toList
  match chars.dropWhile (· != '=') with
  | [] => (argument, none)
  | _ :: value => (String.ofList (chars.takeWhile (· != '=')), some (String.ofList value))

/-- The flags that single letters after a dash stand for. -/
def ofLetters? (o : OptionNames) : List Char → Option (List Argument)
  | [] => some []
  | c :: rest => do
    let name ← o.letters.get? c.toString
    let more ← ofLetters? o rest
    return .flag name :: more

def isOption (argument : String) : Bool := argument.startsWith "-" && argument.length > 1

/-- An argument that does not take the next one for its value. -/
def single? (o : OptionNames) (argument : String) : Option (List Argument) :=
  if !isOption argument then some [.plain argument]
  else
    match splitEquals argument with
    | (name, some value) => if o.valued.contains name then some [.valued name value] else none
    | (name, none) =>
      if o.flags.contains name then some [.flag name]
      else if argument.startsWith "--" then none
      else o.ofLetters? (argument.toList.drop 1)

/-- The arguments of a command, options and others in any order. After two dashes nothing is an
option. -/
def arguments? (o : OptionNames) : List String → Option (List Argument)
  | [] => some []
  | argument :: rest =>
    if argument = "--" then some (rest.map .plain)
    else if o.valued.contains argument then
      match rest with
      | [] => none
      | value :: rest => (arguments? o rest).map (.valued argument value :: ·)
    else do
      let first ← o.single? argument
      let more ← arguments? o rest
      return first ++ more

end OptionNames

inductive Command
  | version
  | scan (path : String) (exactLines noProgress : Bool)
  | catalog (domain : Option String)
  | organization (path : String)
  | cycles (path : String)
  deriving DecidableEq, Repr

namespace Command

def noOptions : OptionNames := ⟨[], [], []⟩

def scanOptions : OptionNames :=
  ⟨["--exact-lines", "--no-progress", "--verbose"], [("v", "--verbose")], []⟩

def catalogOptions : OptionNames := ⟨[], [], ["--domain"]⟩

def plainTexts (arguments : List Argument) : List String :=
  arguments.filterMap fun
    | .plain text => some text
    | _ => none

/-- The last value of an option. -/
def valueOf? (name : String) (arguments : List Argument) : Option String :=
  (arguments.filterMap fun
    | .valued n value => if n = name then some value else none
    | _ => none).getLast?

def scanOf? (rest : List String) : Option Command := do
  let arguments ← scanOptions.arguments? rest
  match plainTexts arguments with
  | [path] =>
    return .scan path (arguments.contains (.flag "--exact-lines"))
      (arguments.contains (.flag "--no-progress"))
  | _ => none

def catalogOf? (rest : List String) : Option Command := do
  let arguments ← catalogOptions.arguments? rest
  if (plainTexts arguments).isEmpty then return .catalog (valueOf? "--domain" arguments) else none

/-- The only argument of a command without options. -/
def onlyPath? (rest : List String) : Option String := do
  match plainTexts (← noOptions.arguments? rest) with
  | [path] => return path
  | _ => none

/-- A command by its name, with its arguments. -/
def named? (name : String) (rest : List String) : Option Command :=
  match name with
  | "scan" => scanOf? rest
  | "catalog" => catalogOf? rest
  | "organization" => (onlyPath? rest).map .organization
  | "cycles" => (onlyPath? rest).map .cycles
  | _ => none

/-- The options that may stand before a command. The first of them decides what is printed. -/
def leadingOptions : List String := ["--version", "--help"]

/-- The options before a command, and what follows them or the two dashes that end them. -/
def splitLeading? : List String → Option (List String × List String)
  | [] => some ([], [])
  | argument :: rest =>
    if leadingOptions.contains argument then
      (splitLeading? rest).map fun (options, following) => (argument :: options, following)
    else if argument = "--" then some ([], rest)
    else if OptionNames.isOption argument then none
    else some ([], argument :: rest)

def asksVersion (options : List String) : Bool := options.head? == some "--version"

/-- The version may be asked for even behind two dashes, where a command is due. -/
def ofArguments? (arguments : List String) : Option Command := do
  let (options, rest) ← splitLeading? arguments
  match options, rest with
  | _ :: _, _ => if asksVersion options then some .version else none
  | [], [] => none
  | [], name :: following =>
    match named? name following with
    | some command => some command
    | none => do
      let (options, _) ← splitLeading? rest
      if asksVersion options then some .version else none

/-! ## Carrying out commands -/

/-- The exit code of a run and what it prints. -/
structure Output where
  exit : Nat
  printed : String
  deriving DecidableEq, Repr

namespace Output

def usageError : Output := ⟨2, ""⟩

def failure : Output := ⟨1, ""⟩

def ofJson (ascii : Bool) (j : Json) : Output :=
  ⟨0, String.ofList (Json.render (.indented ascii) j) ++ "\n"⟩

end Output

def versionText : String := "wheelscan, version 0.1.0\n"

def ruleJson (r : Rule) : Json :=
  .obj [("id", .str r.id), ("domain", .str r.domain), ("description", .str r.description),
    ("filePatterns", .strings (r.files.map FileGlob.text)),
    ("confidenceBase", .float r.confidence.toBinary64)]

def catalogOutput (domain : Option String) : Output :=
  match domain with
  | none => .ofJson true (.arr (Catalog.rules.map ruleJson))
  | some d =>
    if Catalog.domains.contains d then
      .ofJson true (.arr ((Catalog.inDomain Catalog.rules d).map ruleJson))
    else .failure

def organizationJson (a : Organization.Analysis) : Json :=
  .obj [("findings", .arr (a.findings.map Finding.toJson)), ("stats", a.stats.toJson)]

def cycleJson (cycle : List String) : Json :=
  .obj [("length", .ofNat cycle.length), ("severity", .str (Circular.severity cycle).text),
    ("cycle", .strings cycle)]

def cyclesJson (cycles : List (List String)) : Json :=
  .obj [("cycleCount", .ofNat cycles.length), ("cycles", .arr (cycles.map cycleJson))]

/-- Go on with the config from the environment, unless it is invalid. -/
def withConfig (environment : Table String) (explicit : Table Json)
    (k : Config → Except SurveyError Output) : Except SurveyError Output :=
  match Config.ofEnvironment environment explicit with
  | .ok c => k c
  | .error _ => .ok .failure

/-- Go on with the directory that a path leads to; one that may not be listed is a usage error, and
so is anything else. -/
def withDirectory (disk : Disk) (path : String) (k : Path → Except SurveyError Output) :
    Except SurveyError Output :=
  match disk.destination (Path.ofText path) with
  | .ok (.directory place) => if (disk.rights place).read then k ⟨true, place⟩ else .ok .usageError
  | .ok _ => .ok .usageError
  | .error (.linkLoop _) => .ok .usageError
  | .error e => .error e

/-- Does a path lead to something that may not be read? -/
def isRefused (disk : Disk) (path : Path) : Bool :=
  match disk.destination path with
  | .ok (.directory place) => !(disk.rights place).read
  | .ok (.file bytes) => bytes.isNone
  | _ => false

/-- Go on with a path, unless what it leads to may not be read, which is a usage error. -/
def withReadable (disk : Disk) (path : Path) (k : Except SurveyError Output) :
    Except SurveyError Output :=
  if isRefused disk path then .ok .usageError else k

/-- The values that the flags of a scan set. -/
def scanValues (exactLines noProgress : Bool) : Table Json :=
  (if exactLines then [("context_radius", Json.int 0)] else [])
    ++ (if noProgress then [("show_progress", Json.bool false)] else [])

def run (disk : Disk) (environment : Table String) : Command → Except SurveyError Output
  | .version => .ok ⟨0, versionText⟩
  | .catalog domain => .ok (catalogOutput domain)
  | .scan path exactLines noProgress =>
    withReadable disk (Path.ofText path) <|
      withConfig environment (scanValues exactLines noProgress) fun c => do
        let result ← Survey.run disk (Path.ofText path) c
        return .ofJson false result.toJson
  | .organization path =>
    withDirectory disk path fun root => withConfig environment [] fun c => do
      let skip ← Skip.load disk root c.skipDirs
      let analysis ← Organization.analyze disk root c skip
      return .ofJson false (organizationJson analysis)
  | .cycles path =>
    withDirectory disk path fun root => withConfig environment [] fun c => do
      let skip ← Skip.load disk root c.skipDirs
      let i := Inventory.collect disk root skip
      let found ← Organization.cycles disk root i (c.fileSize : Nat)
      return .ofJson true (cyclesJson found)

/-- The output for some arguments. -/
def runArguments (disk : Disk) (environment : Table String) (arguments : List String) :
    Except SurveyError Output :=
  match ofArguments? arguments with
  | some command => command.run disk environment
  | none => .ok .usageError

end Command

end RepoSurvey
