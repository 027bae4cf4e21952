import TapeReader.Config.Json
import TapeReader.Config.Load
import TapeReader.Json.Printer
import TapeReader.Momentum.Trader

/-!
# The command line

* `CommandLine.ofArguments`: what the arguments ask for.
* `CommandLine.configuration`: the configuration that a command works with.
* `CommandLine.outcome`: what a command leaves: its exit code and its output.
-/

namespace TapeReader

inductive Command where
  /-- Connect, and run until the connection ends. -/
  | run (closeAfterSubscribe : Bool)
  /-- Validate the configuration and print it. -/
  | checkConfig
deriving DecidableEq, Repr

/-- What help is asked for. -/
inductive HelpTopic where
  | program
  | run
  | checkConfig
  | help
deriving DecidableEq, Repr

/-- What the arguments ask for. -/
inductive CommandLine where
  | command (command : Command) (configPath : Option String)
  | help (topic : HelpTopic)
  /-- The arguments do not fit together. -/
  | misuse
deriving DecidableEq, Repr

namespace CommandLine

/-- The option's value that is written in one argument with its name. -/
def attached? (name : String) (argument : String) : Option String :=
  (Text.strip? name.toList argument.toList).map String.ofList

/-- The path in an argument that gives the option and its value together. -/
def configValue? (argument : String) : Option String :=
  (attached? "--config=" argument).or <| (attached? "-c=" argument).or <|
    (attached? "-c" argument).filter (· ≠ "")

/-- Whether an argument asks for help. -/
def isHelp (argument : String) : Bool := argument = "--help" || argument.startsWith "-h"

/-- Whether an argument is an option rather than a value. -/
def isOption (argument : String) : Bool := argument.startsWith "-" && argument ≠ "-"

/-- The arguments behind `run`. -/
def ofRunArguments (configPath : Option String) (close : Bool) : List String → CommandLine
  | [] => .command (.run close) configPath
  | ["--"] => .command (.run close) configPath
  | argument :: rest =>
    if argument = "--close-after-subscribe" ∧ ¬ close then ofRunArguments configPath true rest
    else if isHelp argument then .help .run
    else .misuse

/-- The arguments behind `check-config`. -/
def ofCheckArguments (configPath : Option String) : List String → CommandLine
  | [] => .command .checkConfig configPath
  | ["--"] => .command .checkConfig configPath
  | argument :: _ => if isHelp argument then .help .checkConfig else .misuse

/-- The arguments behind `help`. -/
def ofHelpArguments : List String → CommandLine
  | [] => .help .program
  | ["run"] => .help .run
  | ["check-config"] => .help .checkConfig
  | ["help"] => .help .help
  | _ => .misuse

/-- What arguments ask for, behind an option for the configuration file or none. The option comes
once, and before the command. -/
def ofArguments (configPath : Option String) : List String → CommandLine
  | [] => .misuse
  | argument :: rest =>
    if argument = "run" then ofRunArguments configPath false rest
    else if argument = "check-config" then ofCheckArguments configPath rest
    else if argument = "help" then ofHelpArguments rest
    else if isHelp argument then .help .program
    else if configPath.isSome then .misuse
    else match configValue? argument with
      | some path => ofArguments (some path) rest
      | none =>
        if argument = "-c" ∨ argument = "--config" then
          match rest with
          | [] => .misuse
          | path :: rest => if isOption path then .misuse else ofArguments (some path) rest
        else .misuse

/-- The variable that holds the credential. -/
def credentialVariable : String := "POLYGON_API_KEY"

/-- The file of the working directory that variables without a value are taken from. -/
def variablesFile : String := ".env"

/-- The surroundings with the variables of the file added. -/
def completed (s : Surroundings) : Surroundings :=
  match s.files.lookup? variablesFile with
  | some (.file content) => { s with environment := s.environment.withFile content }
  | _ => s

variable [TimeZones] [SettingsReader]

/-- **The configuration of a command.** Without a path, a default file that cannot be loaded gives
way to the built-in defaults. -/
def fileConfiguration (s : Surroundings) : Option String → Except LoadFault Config
  | some path => s.load path
  | none =>
    match s.loadDefault with
    | .ok c => .ok c
    | .error _ =>
      let c : Config := default
      match c.validate with
      | .ok () => .ok c
      | .error fault => .error (.invalid fault)

/-- The configuration with the credential of the environment in place of its own, if there is
one. -/
def withCredential (s : Surroundings) (c : Config) : Config :=
  match s.environment.lookup credentialVariable with
  | some key => { c with feed := { c.feed with apiKey := some key } }
  | none => c

def configuration (s : Surroundings) (path : Option String) : Except LoadFault Config :=
  (fileConfiguration s path).map (withCredential s)

/-- What a command leaves. -/
structure Outcome where
  exitCode : Nat
  out : String := ""
  err : String := ""
deriving DecidableEq, Repr

namespace Outcome

/-- A command that ends with an error. -/
def failed (message : String) : Outcome where
  exitCode := 1
  err := s!"Error: {message}\n"

end Outcome

/-- The words for a configuration that was not loaded. -/
def faultMessage : LoadFault → String
  | .noFile => "No configuration file found"
  | .unreadable => "The configuration file cannot be read"
  | .invalid fault => (FeedError.config fault).message

/-- The configuration with its credential covered. -/
def masked (c : Config) : Config :=
  { c with feed := { c.feed with apiKey := c.feed.apiKey.map fun _ => "********" } }

/-- The configuration checked and printed. -/
def checkConfig (c : Config) : Outcome :=
  match c.validate with
  | .ok () => { exitCode := 0, out := (masked c).toJson.pretty ++ "\n" }
  | .error fault => .failed (FeedError.config fault).message

/-- A run, over the line that dialling gives. -/
def run (dial : Config.Feed → Except LineFault Feed.Script) (closeAfterSubscribe : Bool)
    (c : Config) : Outcome :=
  let close := c.feed.closeAfterSubscribe || closeAfterSubscribe
  match Momentum.Trader.open? { c with feed := { c.feed with closeAfterSubscribe := close } } with
  | .error e => .failed e.message
  | .ok trader =>
    match (trader.run dial).ending with
    | .finished | .waiting => { exitCode := 0 }
    | .failed e => .failed e.message
    | .aborted a => { exitCode := 101, err := a.message ++ "\n" }

def usage : String := "Usage: pasta-trader [OPTIONS] <COMMAND>\n"

def helpLine : String := "  -h, --help  Print help\n"

def helpText : HelpTopic → String
  | .program =>
    "Streams aggregate bars and chases pre-market momentum\n\n" ++ usage ++ "\nCommands:\n"
      ++ "  run           Connect to the feed and run until the connection ends\n"
      ++ "  check-config  Validate and print the effective configuration\n"
      ++ "  help          Print this message or the help of the given subcommand(s)\n"
      ++ "\nOptions:\n"
      ++ "  -c, --config <CONFIG>  Config file path (searches the default locations when omitted)\n"
      ++ "  -h, --help             Print help\n"
  | .run =>
    "Connect to the feed and run until the connection ends\n\n"
      ++ "Usage: pasta-trader run [OPTIONS]\n\nOptions:\n"
      ++ "      --close-after-subscribe  "
      ++ "Close the connection as soon as the subscription is acknowledged\n"
      ++ "  -h, --help                   Print help\n"
  | .checkConfig =>
    "Validate and print the effective configuration\n\n"
      ++ "Usage: pasta-trader check-config\n\nOptions:\n" ++ helpLine
  | .help =>
    "Print this message or the help of the given subcommand(s)\n\n"
      ++ "Usage: pasta-trader help [COMMAND]...\n\nArguments:\n"
      ++ "  [COMMAND]...  Print help for the subcommand(s)\n"

/-- **What arguments leave** among some surroundings. -/
def outcome (s : Surroundings) (dial : Config.Feed → Except LineFault Feed.Script)
    (arguments : List String) : Outcome :=
  match ofArguments none arguments with
  | .misuse => { exitCode := 2, err := usage }
  | .help topic => { exitCode := 0, out := helpText topic }
  | .command asked path =>
    match configuration (completed s) path with
    | .error fault => .failed (faultMessage fault)
    | .ok c =>
      match asked with
      | .checkConfig => checkConfig c
      | .run close => run dial close c

end CommandLine

end TapeReader
