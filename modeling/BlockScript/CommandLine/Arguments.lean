/-! The arguments of the command line. -/

namespace BlockScript.CommandLine

structure Arguments where
  /-- The script; without one it is read from the standard input. -/
  file : Option String := none
  transpile : Bool := false
  context : Option String := none
  plugins : List String := []
  options : Option String := none
  verbose : Bool := false
  deriving DecidableEq, Repr, Inhabited

inductive Request where
  | run (args : Arguments)
  | help
  | version
  deriving DecidableEq, Repr, Inhabited

inductive Flag where
  | transpile
  | verbose
  | help
  | version
  deriving DecidableEq, Repr, Inhabited

inductive Setting where
  | context
  | plugin
  | options
  deriving DecidableEq, Repr, Inhabited

inductive Switch where
  | flag (f : Flag)
  | setting (s : Setting)
  deriving DecidableEq, Repr, Inhabited

def ofLong? : String → Option Switch
  | "transpile" => some (.flag .transpile)
  | "verbose" => some (.flag .verbose)
  | "help" => some (.flag .help)
  | "version" => some (.flag .version)
  | "context" => some (.setting .context)
  | "macro" => some (.setting .plugin)
  | "options" => some (.setting .options)
  | _ => none

def ofShort? : Char → Option Switch
  | 'E' => some (.flag .transpile)
  | 'v' => some (.flag .verbose)
  | 'h' => some (.flag .help)
  | 'V' => some (.flag .version)
  | 'c' => some (.setting .context)
  | _ => none

/-- Whether an argument is one or more options, or ends them. It is then no value. -/
def isSwitch : List Char → Bool
  | '-' :: _ :: _ => true
  | _ => false

namespace Arguments

def setFlag (a : Arguments) : Flag → Option Arguments
  | .transpile => if a.transpile then none else some { a with transpile := true }
  | .verbose => if a.verbose then none else some { a with verbose := true }
  | .help | .version => none

/-- Give a value. Only plugins are given more than once, and names of files are not empty. -/
def setValue (a : Arguments) (s : Setting) (v : String) : Option Arguments :=
  match s with
  | .context => if a.context.isSome then none else some { a with context := some v }
  | .plugin => some { a with plugins := a.plugins ++ [v] }
  | .options => if a.options.isSome || v.isEmpty then none else some { a with options := some v }

def setFile (a : Arguments) (v : String) : Option Arguments :=
  if a.file.isSome || v.isEmpty then none else some { a with file := some v }

/-- A compiled program is printed without regard to a context, so not both can be given. -/
def isConsistent (a : Arguments) : Bool := !(a.transpile && a.context.isSome)

end Arguments

inductive Step where
  | next (a : Arguments)
  | awaits (a : Arguments) (s : Setting)
  | asks (r : Request)

def stepFlag (a : Arguments) : Flag → Option Step
  | .help => some (.asks .help)
  | .version => some (.asks .version)
  | f => (a.setFlag f).map .next

/-- An argument of one-letter options. The value of an option may follow it directly. -/
def stepShort (a : Arguments) : List Char → Option Step
  | [] => some (.next a)
  | c :: rest => do
    match ← ofShort? c, rest with
    | .flag f, rest =>
      match ← stepFlag a f with
      | .next a => stepShort a rest
      | step => return step
    | .setting s, [] => return .awaits a s
    | .setting s, '=' :: v | .setting s, v => return .next (← a.setValue s (String.ofList v))

/-- An option by its name, with the value after an equals sign. -/
def stepLong (a : Arguments) (cs : List Char) : Option Step := do
  let name := cs.takeWhile (· ≠ '=')
  match ← ofLong? (String.ofList name), cs.drop name.length with
  | .flag f, [] => stepFlag a f
  | .flag _, _ => none
  | .setting s, [] => return .awaits a s
  | .setting s, _ :: v => return .next (← a.setValue s (String.ofList v))

def parseFiles (a : Arguments) : List String → Option Request
  | [] => if a.isConsistent then some (.run a) else none
  | arg :: rest => do parseFiles (← a.setFile arg) rest

def parseFrom (a : Arguments) (awaited : Option Setting) : List String → Option Request
  | [] => if awaited.isNone && a.isConsistent then some (.run a) else none
  | arg :: rest => do
    match awaited, arg.toList with
    | some s, cs => if isSwitch cs then none else parseFrom (← a.setValue s arg) none rest
    | none, ['-', '-'] => parseFiles a rest
    | none, cs =>
      if !isSwitch cs then parseFrom (← a.setFile arg) none rest
      else
        let step ← match cs with
          | '-' :: '-' :: cs => stepLong a cs
          | cs => stepShort a (cs.drop 1)
        match step with
        | .next a => parseFrom a none rest
        | .awaits a s => parseFrom a (some s) rest
        | .asks r => return r

def parse (args : List String) : Option Request := parseFrom {} none args

structure Command where
  name : String
  version : String
  deriving DecidableEq, Repr, Inhabited

namespace Command

def versionText (c : Command) : String := c.name ++ " " ++ c.version ++ "\n"

def usageText (c : Command) : String := "Usage: " ++ c.name ++ " [OPTIONS] [FILE]\n"

def helpText (c : Command) : String :=
  "Transpile or run build scripts written in the block DSL\n\n" ++ c.usageText ++
    "\nArguments:\n  [FILE]  Script to read. Reads stdin when omitted\n" ++
    "\nOptions:\n" ++
    "  -E, --transpile          Print the transpiled host source instead of running it\n" ++
    "  -c, --context <CONTEXT>  Root context the script runs against (void, namespace)\n" ++
    "      --macro <NAME>       Enable a macro plugin by name (repeatable)\n" ++
    "      --options <FILE>     JSON file with transpile options\n" ++
    "  -v, --verbose            Log pipeline stages to stderr\n" ++
    "  -h, --help               Print help\n" ++
    "  -V, --version            Print version\n"

end Command

end BlockScript.CommandLine
