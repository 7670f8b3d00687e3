/-
  DefineFold.Defines.Load

  Defines from files: JSON or YAML, told by the extension. A relative path is taken from a
  base directory.
-/

import DefineFold.Defines.Basic
import DefineFold.Files.System
import DefineFold.Json.Reader
import DefineFold.Yaml.Document

namespace DefineFold

/-- The readers of the formats. -/
def Formats.standard : Formats :=
  ⟨Json.parse?, Yaml.parse?⟩

/-- Where defines come from. -/
inductive ConfigSource where
  | inline (value : Value)
  | file (path : String)

/-- The value of a text in the format that an extension tells. -/
def readFormat (formats : Formats) (path extension text : String) : Except ConfigFault Value :=
  let read (v : Option Value) : Except ConfigFault Value :=
    match v with
    | some v => .ok v
    | none => .error (.malformed path)
  if extension = "json" then read (formats.json? text)
  else if extension = "yaml" ∨ extension = "yml" then read (formats.yaml? text)
  else .error (.unsupported extension)

/-- The defines of a file. -/
def loadFile (formats : Formats) (fs : FileSystem) (path baseDir : String) :
    Except ConfigFault Defines := do
  let resolved := FilePath.join baseDir path
  if fs.isFile resolved then
    match fs.read resolved with
    | .error e => .error (.unreadable resolved e.message)
    | .ok text =>
      let value ← readFormat formats resolved ((FilePath.extension? resolved).getD "") text
      Defines.ofValue value
  else .error (.notFound resolved)

/-- The defines of a source. -/
def loadDefines (formats : Formats) (fs : FileSystem) (baseDir : String) :
    ConfigSource → Except ConfigFault Defines
  | .inline value => Defines.ofValue value
  | .file path => loadFile formats fs path baseDir

end DefineFold
