import Dashboard.Document.Json.Reader
import Dashboard.Document.Json.Writer
import Dashboard.Document.Toml.Reader
import Dashboard.Document.Toml.Writer
import Dashboard.Settings
import Dashboard.Text.Quoted

/-!
# Settings Files

Settings are kept in a file, as JSON if the name of the file ends in `.json` in whatever
letter case, else as TOML. What is read from a file must make sense; what is written is not
checked.
-/

namespace Dashboard

/-- The format of the file with a path. -/
def Format.ofPath (path : Path) : Format :=
  if (path.extension?.map fun name => name.toList.map Char.toLower) = some "json".toList then .json
  else .toml

/-- The document that a text spells. -/
def Format.read? : Format → String → Option Document
  | .json => Json.read?
  | .toml => Toml.read?

/-- The text of a document. -/
def Format.write (format : Format) (d : Document) : Except Failure String :=
  match format with
  | .json => .ok (Json.pretty d)
  | .toml => (Toml.write d).mapError .unwritable

namespace Settings

/-- The settings that a text gives. -/
def ofText? (format : Format) (text : String) : Option Settings :=
  (format.read? text).bind (ofDocument? format)

/-- The settings of a file, given what reading the file has given. -/
def ofFile (path : Path) (contents : Except FileProblem String) : Except Failure Settings := do
  let text ← inContext ("Failed to read config file " ++ Text.quoted path.text)
    (contents.mapError .file)
  match ofText? (Format.ofPath path) text with
  | none => throw (.unreadable (Text.quoted path.text))
  | some settings =>
    settings.validate
    return settings

/-- The settings of a file; the defaults hold if there is none, or if it cannot be read or
makes no sense. -/
def ofFileOrDefault (path : Path) (contents : Except FileProblem String) : Settings :=
  match ofFile path contents with
  | .ok settings => settings
  | .error _ => .default

/-- Reads settings from a file. -/
def load (files : FileTree) (path : Path) : Except Failure Settings :=
  ofFile path (files.read path)

/-- Writes settings to a file, and makes the directories that lead to it. -/
def save (s : Settings) (files : FileTree) (path : Path) : Except Failure FileTree := do
  let files ← inContext ("Failed to create config directory " ++ Text.quoted path.parent.text)
    ((files.makeDirectories path.parent).mapError .file)
  let text ← (Format.ofPath path).write s.toDocument
  inContext ("Failed to write config file " ++ Text.quoted path.text)
    ((files.write path text).mapError .file)

end Settings

end Dashboard
