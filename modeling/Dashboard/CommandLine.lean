import Dashboard.Document.Json.Writer
import Dashboard.Formula.Outline
import Dashboard.LiveFormula
import Dashboard.Settings.File

/-!
# The Command Line

The command line evaluates one formula. Its arguments may come in any order: flags, options
with their values, and what is left over, of which the first is the formula and the others
give values to identifiers.

Everything but reading the settings file and writing the output is a function of the
arguments, so that it can be reasoned about.
-/

namespace Dashboard.CommandLine

/-- How the program is called. -/
def usage : String :=
  "usage: displaykit [--legacy] [--ast] [--config PATH] [--map ALIAS=ID]... " ++
    "<formula> [ID=VALUE]..."

/-! ### Failures -/

/-- Why the program gives up: a reason and the chain of its causes, outermost first. -/
structure Trouble where
  reason : String
  causes : List String
  deriving DecidableEq, Repr

/-- A failure without a cause of its own. -/
def Trouble.plain (reason : String) : Trouble := ⟨reason, []⟩

/-- A failure on its own. -/
def Trouble.ofFailure (failure : Failure) : Trouble :=
  ⟨failure.message, failure.causes⟩

/-- A failure and what was being done when it arose. -/
def Trouble.within (context : String) (failure : Failure) : Trouble :=
  ⟨context, failure.message :: failure.causes⟩

/-- A text whose lines but the first are indented. -/
def hanging (indent : Nat) (text : String) : String :=
  ("\n" ++ String.ofList (List.replicate indent ' ')).intercalate (text.splitOn "\n")

/-- The causes of a failure, each on a line of its own. Several causes are numbered. -/
def causeLines : List String → List String
  | [] => []
  | [cause] => ["    " ++ hanging 4 cause]
  | causes => causes.mapIdx fun i cause =>
    let number := toString i
    String.ofList (List.replicate (5 - number.length) ' ') ++ number ++ ": " ++ hanging 7 cause

/-- A failure as it is shown. -/
def Trouble.render (t : Trouble) : String :=
  "Error: " ++ t.reason ++
    (if t.causes.isEmpty then ""
      else "\n\nCaused by:\n" ++ "\n".intercalate (causeLines t.causes)) ++ "\n"

/-! ### Arguments -/

/-- What the arguments ask for. -/
structure Request where
  legacy : Bool
  /-- Whether to show the tree of the formula. -/
  showTree : Bool
  /-- The path of the settings file. -/
  config : Option Path
  mappings : List (String × String)
  formula : Option String
  values : List (String × Scalar)
  deriving BEq

/-- Asks for nothing. -/
def Request.empty : Request := ⟨false, false, none, [], none, []⟩

instance : Inhabited Request := ⟨.empty⟩

/-- What is in front of the first equals sign of an argument and what is behind it. -/
def splitPair (argument : String) : Except Trouble (String × String) :=
  let chars := argument.toList
  match chars.takeWhile (· ≠ '='), chars.dropWhile (· ≠ '=') with
  | [], _ | _, [] => .error (.plain ("expected KEY=VALUE, got '" ++ argument ++ "'"))
  | key, _ :: value => .ok (String.ofList key, String.ofList value)

/-- The scalar that a text denotes: a truth value, a number, or else the text itself. -/
def scalarOfText (text : String) : Scalar :=
  if text = "true" then .boolean true
  else if text = "false" then .boolean false
  else
    match Decimal.ofText? text.toList with
    | some x => .number x
    | none => .text text

/-- What one argument means. -/
inductive Asked where
  /-- The arguments ask for this, as far as they have been read. -/
  | request (r : Request)
  /-- The way the program is called has been asked for; what follows does not matter. -/
  | help

/-- What arguments ask for, on top of what those before them have asked for. -/
def interpret (r : Request) : List String → Except Trouble Asked
  | [] => .ok (.request r)
  | "--legacy" :: rest => interpret { r with legacy := true } rest
  | "--ast" :: rest => interpret { r with showTree := true } rest
  | ["--config"] => .error (.plain "--config needs a path")
  | "--config" :: path :: rest => interpret { r with config := some ⟨path⟩ } rest
  | ["--map"] => .error (.plain "--map needs ALIAS=ID")
  | "--map" :: pair :: rest => do
    let mapping ← splitPair pair
    interpret { r with mappings := r.mappings ++ [mapping] } rest
  | "-h" :: _ => .ok .help
  | "--help" :: _ => .ok .help
  | argument :: rest =>
    match r.formula with
    | none => interpret { r with formula := some argument } rest
    | some _ => do
      let (id, value) ← splitPair argument
      interpret { r with values := r.values ++ [(id, scalarOfText value)] } rest

/-! ### Output -/

/-- What the program writes, and its exit code. -/
structure Output where
  code : Nat
  stdout : String
  stderr : String
  deriving DecidableEq, Repr

/-- The directory of the user's settings: the one that is named for them if its path is
absolute, else one in the home directory. -/
def settingsHome? (named home : Option String) : Option String :=
  match named.filter fun path => path.toList.head? == some '/' with
  | some path => some path
  | none => home.map (· ++ "/.config")

/-- Where the settings are kept unless another file is asked for. -/
def defaultSettingsPath (settingsHome : String) : Path :=
  ⟨settingsHome ++ "/displaykit/engine.toml"⟩

/-- The settings that hold for a request. A settings file that was asked for has to be there
and make sense. -/
def Request.settings (r : Request) (settingsHome : Option String)
    (read : Path → Except FileProblem String) : Except Trouble Settings :=
  match r.config with
  | some path =>
    (Settings.ofFile path (read path)).mapError (.within ("Failed to load config " ++ path.text))
  | none =>
    match settingsHome with
    | none => .ok .default
    | some directory =>
      let path := defaultSettingsPath directory
      .ok (Settings.ofFileOrDefault path (read path))

/-- The formula that a request asks to evaluate, told all mappings and values. -/
def Request.prepare (r : Request) (f : LiveFormula) : LiveFormula :=
  let f := r.mappings.foldl (fun f (path, id) => f.map path id) f
  r.values.foldl (fun f (id, value) => f.update id ⟨value, none⟩) f

/-- A line of output. -/
def line (text : String) : String := text ++ "\n"

/-- The lines about a formula that are written before it is evaluated. -/
def Request.preamble (r : Request) (f : LiveFormula) : String :=
  let tree := if r.showTree then line (Json.pretty f.formula.toDocument) else ""
  let parameters := f.parameters
  tree ++ if parameters.isEmpty then "" else line ("parameters: " ++ ", ".intercalate parameters)

/-- Carries out a request. -/
def Request.run (r : Request) (settingsHome : Option String)
    (read : Path → Except FileProblem String) : Except Trouble Output := do
  let source ← match r.formula with
    | some source => pure source
    | none => throw (.plain usage)
  let settings ← r.settings settingsHome read
  let options := if r.legacy then { settings.formula with dialect := .legacy } else settings.formula
  let f ← (LiveFormula.ofSource options source).mapError
    (.within ("Failed to parse '" ++ source ++ "'"))
  let f := r.prepare f
  match f.run.result with
  | .ok value => return ⟨0, r.preamble f ++ line value.display, ""⟩
  | .error failure => return ⟨1, r.preamble f, (Trouble.ofFailure failure).render⟩

/-- What the program does, given its arguments, the directory of the user's settings, and how
files are read. -/
def run (arguments : List String) (settingsHome : Option String)
    (read : Path → Except FileProblem String) : Output :=
  let result : Except Trouble Output := do
    match ← interpret .empty arguments with
    | .help => return ⟨0, line usage, ""⟩
    | .request r => r.run settingsHome read
  match result with
  | .ok output => output
  | .error trouble => ⟨1, "", trouble.render⟩

/-- The only file that the program may read for some arguments. -/
def settingsPath? (arguments : List String) (settingsHome : Option String) : Option Path :=
  match interpret .empty arguments with
  | .ok (.request r) => r.config <|> settingsHome.map defaultSettingsPath
  | _ => none

end Dashboard.CommandLine
