import TapeReader.Clock.Table
import TapeReader.CommandLine
import TapeReader.Settings.Reader

/-!
# The program

Gathers the files and the variables that the command line may look at, and writes what it leaves.
-/

open TapeReader

namespace TapeReader.Main

attribute [local instance] TimeZones.table SettingsReader.plain

/-- What stands at a path, if anything does. -/
def lookup? (path : String) : IO (Option Entry) := do
  try
    return some (.file (← IO.FS.readBinFile path))
  catch
    | .noFileOrDirectory .. => return none
    -- the code of a directory, other than that of a path through a file
    | .inappropriateType _ code _ => return if code = 21 then some .other else none
    | _ => return some .unreadable

/-- What stands at the paths that lead somewhere. -/
def existing (directory : String) (paths : List String) : IO Files :=
  paths.filterMapM fun path => return (← lookup? (directory ++ path)).map (path, ·)

/-- The variables of the process. -/
def environment : IO Variables := do
  let bytes ← IO.FS.readBinFile "/proc/self/environ"
  let entries := (Text.splitOn 0 bytes.data.toList).filterMap Text.ofBytes?
  return entries.filterMap fun entry =>
    match entry.dropWhile (· ≠ '=') with
    | _ :: value => some (String.ofList (entry.takeWhile (· ≠ '=')), String.ofList value)
    | [] => none

/-- The paths that a command line may lead to. -/
def candidates (arguments : List String) : List String :=
  let named := match CommandLine.ofArguments none arguments with
    | .command _ (some path) => [path]
    | _ => Config.defaultPaths
  CommandLine.variablesFile :: named.flatMap fun path =>
    path :: SettingsReader.extensions.map fun extension => path ++ "." ++ extension

def gather (arguments : List String) : IO Surroundings := do
  let environment ← try environment catch _ => pure []
  let files ← existing "" (candidates arguments)
  let homeFiles ← match environment.lookup "HOME" with
    | some home => existing (home ++ "/") [Config.homePath]
    | none => pure []
  return { files, homeFiles, environment }

/-- What the program leaves, without a way to reach the feed. -/
def outcome (surroundings : Surroundings) (arguments : List String) : CommandLine.Outcome :=
  CommandLine.outcome surroundings Feed.Client.dialNowhere arguments

end TapeReader.Main

def main (arguments : List String) : IO UInt32 := do
  let surroundings ← TapeReader.Main.gather arguments
  let outcome := TapeReader.Main.outcome surroundings arguments
  IO.print outcome.out
  IO.eprint outcome.err
  return outcome.exitCode.toUInt32
