import Dashboard.CommandLine

/-!
# The Program

Reads the settings file, carries out the request of the command line, and writes what comes
of it.
-/

open Dashboard

/-- Reads a file as text. -/
def readSettings (path : Path) : IO (Except FileProblem String) := do
  try
    let bytes ← IO.FS.readBinFile path.text
    match String.fromUTF8? bytes with
    | some text => return .ok text
    | none => return .error .notText
  catch e =>
    match e with
    | .noFileOrDirectory .. => return .error .notFound
    | .inappropriateType .. => return .error .isDirectory
    | e => return .error (.other (toString e))

def main (arguments : List String) : IO UInt32 := do
  let settingsHome :=
    CommandLine.settingsHome? (← IO.getEnv "XDG_CONFIG_HOME") (← IO.getEnv "HOME")
  let contents ← match CommandLine.settingsPath? arguments settingsHome with
    | some path => readSettings path
    | none => pure (.error .notFound)
  let output := CommandLine.run arguments settingsHome fun _ => contents
  (← IO.getStdout).putStr output.stdout
  (← IO.getStderr).putStr output.stderr
  return output.code.toUInt32
