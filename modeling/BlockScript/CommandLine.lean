import BlockScript.CommandLine.Arguments
import BlockScript.Program.Print
import BlockScript.Script
import BlockScript.Yaml.Resolve

/-! The command line: transpile or run a script. -/

namespace BlockScript

/-- The plugins every script may use. -/
def Desugar.Plugin.builtins : List Plugin := [yaml Yaml.Value.ofDocument?]

def Desugar.Plugin.all : List Plugin := builtins ++ [answer, upper, maybe]

namespace CommandLine

inductive FileFault where
  | notFound
  | isDirectory
  | other (reason : String)
  deriving DecidableEq, Repr, Inhabited

def FileFault.message : FileFault → String
  | notFound => "No such file or directory (os error 2)"
  | isDirectory => "Is a directory (os error 21)"
  | other reason => reason

/-- How a command ends: the exit code, and what it writes. -/
structure Outcome where
  code : Nat
  output : String := ""
  errors : String := ""
  deriving DecidableEq, Repr, Inhabited

/-- Why a script is not run to its end, or not at all. -/
inductive Fault where
  | unreadable (path : String) (fault : FileFault)
  | badOptions (path : String) (fault : Options.Fault)
  | unknownPlugin (name : String)
  | unknownContext (name : String)
  | script (filename : String) (failure : Script.Failure)

namespace Fault

def message : Fault → String
  | unreadable path fault => s!"cannot read {path}: " ++ fault.message
  | badOptions path fault => s!"invalid options file {path}: " ++ fault.message
  | unknownPlugin name => SyntaxFault.message (.unknownPlugin name)
  | unknownContext name =>
    s!"Error: unknown context '{name}' (expected one of: " ++
      ", ".intercalate (Context.all.map Context.name) ++ ")"
  | script _ (.malformed e) => "SyntaxError: " ++ e.render
  | script filename failure => failure.render filename

def exitCode : Fault → Nat
  | unknownContext _ => 2
  | _ => 1

end Fault

def Outcome.ofFault (fault : Fault) (output : String) : Outcome :=
  ⟨fault.exitCode, output, fault.message ++ "\n"⟩

/-- The way to files and to the standard input. -/
structure Files (m : Type → Type) where
  read : String → m (Except FileFault String)
  input : m (Except FileFault String)

variable {m : Type → Type} [Monad m]

/-- Read a file, or else the standard input, with the name to show for it. -/
def Files.source (files : Files m) (file : Option String) : ExceptT Fault m (String × String) := do
  let name := file.getD "<stdin>"
  match ← (file.elim files.input files.read : m _) with
  | .ok text => return (text, name)
  | .error fault => throw (.unreadable name fault)

def readOptions (files : Files m) (path : Option String) : ExceptT Fault m Options := do
  match path with
  | none => return {}
  | some path =>
    match ← (files.read path : m _) with
    | .error fault => throw (.unreadable path fault)
    | .ok text =>
      match Options.read text.toList with
      | .ok options => return options
      | .error fault => throw (.badOptions path fault)

def selectPlugins (names : List String) : Except Fault (List Desugar.Plugin) :=
  (Desugar.Plugin.select Desugar.Plugin.builtins names).mapError .unknownPlugin

def selectContext : Option String → Except Fault Context
  | none => .ok .void
  | some name =>
    match Context.ofName? name with
    | some c => .ok c
    | none => .error (.unknownContext name)

def runScript (script : Script) (context : Context) : Outcome :=
  let ev := Evaluator.deep Host.none
  let (value, machine) := match context.value Machine.new with
    | .ok v machine => (v, machine)
    | .error _ machine => (.none, machine)
  match script.run ev value machine with
  | .ok _ machine => ⟨0, machine.printed, ""⟩
  | .error (.error failure) machine => .ofFault (.script script.filename failure) machine.printed
  | .error .exhausted machine => ⟨1, machine.printed, ""⟩

def transpile (script : Script) : Outcome :=
  match script.compile with
  | .ok module => ⟨0, module.print, ""⟩
  | .error e => .ofFault (.script script.filename (.malformed e)) ""

/-- Do what arguments say. Options are read first, then plugins are selected, and the script is read
before the context is looked at. -/
def perform (files : Files m) (args : Arguments) : ExceptT Fault m Outcome := do
  let options ← readOptions files args.options
  let plugins ← (selectPlugins args.plugins : Except Fault _)
  let (source, filename) ← files.source args.file
  let script : Script := ⟨source.toList, filename, options, plugins⟩
  if args.transpile then return transpile script
  else return runScript script (← (selectContext args.context : Except Fault _))

/-- Run the command. Without a request to do, it tells its usage. -/
def Command.run (command : Command) (files : Files m) (args : List String) : m Outcome :=
  match parse args with
  | none => return ⟨2, "", "error: unexpected arguments\n\n" ++ command.usageText⟩
  | some .help => return ⟨0, command.helpText, ""⟩
  | some .version => return ⟨0, command.versionText, ""⟩
  | some (.run args) => do
    match ← perform files args with
    | .ok outcome => return outcome
    | .error fault => return .ofFault fault ""

end CommandLine

end BlockScript
