import TapeReader.Settings.Files
import TapeReader.Settings.Json
import TapeReader.Settings.Toml
import TapeReader.Settings.Yaml
import TapeReader.Text.Utf8

/-!
# A reader of settings files

* `SettingsFormat`: the formats, by their extensions, and what each reads.
* `SettingsReader.plain`: the reader for these formats.
-/

namespace TapeReader

/-- A format of settings files. -/
inductive SettingsFormat where
  | toml
  | yaml
  | json
deriving DecidableEq, Repr

namespace SettingsFormat

/-- The format that a file's extension stands for. -/
def ofExtension? (extension : String) : Option SettingsFormat :=
  match extension with
  | "toml" => some .toml
  | "yaml" | "yml" => some .yaml
  | "json" => some .json
  | _ => none

/-- The value of a text in a format. -/
def read? : SettingsFormat → String → Option Setting
  | .toml => Setting.ofToml?
  | .yaml => Setting.ofYaml?
  | .json => Setting.ofJsonText?

end SettingsFormat

/-- TOML, YAML without anchors, tags and blocks of text, and JSON. -/
@[reducible]
def SettingsReader.plain : SettingsReader where
  extensions := ["toml", "json", "yaml", "yml"]
  read? extension content :=
    (SettingsFormat.ofExtension? extension).bind fun format =>
      format.read? (String.ofList (Text.ofBytes (Text.withoutMark content.data.toList)))

end TapeReader
