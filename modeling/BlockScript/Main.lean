import BlockScript.CommandLine

/-! The command. -/

namespace BlockScript.CommandLine

def fileFault : IO.Error → FileFault
  | .noFileOrDirectory .. => .notFound
  | .inappropriateType .. => .isDirectory
  | e => .other (toString e)

def attemptRead (text : IO String) : IO (Except FileFault String) :=
  try return .ok (← text) catch e => return .error (fileFault e)

def files : Files IO where
  read path := attemptRead (IO.FS.readFile path)
  input := attemptRead do (← IO.getStdin).readToEnd

end BlockScript.CommandLine

open BlockScript.CommandLine

def main (args : List String) : IO UInt32 := do
  let outcome ← Command.run ⟨"blockscript", "0.1.0"⟩ files args
  IO.print outcome.output
  IO.eprint outcome.errors
  return UInt32.ofNat outcome.code
