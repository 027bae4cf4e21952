import TapeReader.Config.Settings
import TapeReader.Settings.Assignments
import TapeReader.Settings.Files

/-!
# Loading a configuration

* `Surroundings`: the files and the variables that a configuration is loaded among.
* `Config.load`: the configuration of a file, with the variables laid over it.
* `Surroundings.loadDefault`: that of the first of the default files that exists.
-/

namespace TapeReader

/-- Why no configuration was loaded. -/
inductive LoadFault where
  /-- None of the default files exists. -/
  | noFile
  /-- There is no file of the name, or it denotes no configuration. -/
  | unreadable
  | invalid (fault : ConfigFault)
deriving DecidableEq, Repr

/-- What a configuration is loaded among: the files of the working directory, those of the home
directory, and the variables of the environment. -/
structure Surroundings where
  files : Files := []
  homeFiles : Files := []
  environment : Variables := []

variable [TimeZones] [SettingsReader]

namespace Config

/-- The configuration of a file's settings, with variables laid over them; it keeps to what a
configuration must. -/
def ofEntries (entries : List (String × Setting)) (environment : Variables) :
    Except LoadFault Config :=
  let v := Setting.assemble environment.settings (Setting.assemble entries (.table []))
  match ofSetting? v with
  | none => .error .unreadable
  | some c =>
    match c.validate with
    | .ok () => .ok c
    | .error fault => .error (.invalid fault)

/-- **The configuration of a file.** -/
def load (files : Files) (environment : Variables) (path : String) : Except LoadFault Config :=
  match files.settings? path with
  | some (.table entries) => ofEntries entries environment
  | _ => .error .unreadable

/-- The default files in the working directory, the first one first. -/
def defaultPaths : List String := ["config.toml", "config.yaml"]

/-- The default file in the home directory. -/
def homePath : String := ".config/pasta-trader/config.toml"

end Config

namespace Surroundings

/-- **The configuration of a file.** -/
def load (s : Surroundings) (path : String) : Except LoadFault Config :=
  Config.load s.files s.environment path

/-- **The configuration of the first default file that exists.** -/
def loadDefault (s : Surroundings) : Except LoadFault Config :=
  match Config.defaultPaths.find? fun path => (s.files.lookup? path).isSome with
  | some path => s.load path
  | none =>
    if (s.homeFiles.lookup? Config.homePath).isSome then
      Config.load s.homeFiles s.environment Config.homePath
    else .error .noFile

end Surroundings

end TapeReader
