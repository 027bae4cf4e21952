import TapeReader.Settings.Path

/-!
# Variables of the environment

* `Variables`: names with their values.
* `Variables.settings`: the settings among them. `PASTA__FEED__URL` is the path `feed.url`.
-/

namespace TapeReader

/-- Names with their values. -/
abbrev Variables := List (String × String)

namespace Variables

/-- What the names of settings start with, in small letters. -/
def settingMark : String := "pasta__"

/-- A text with each pair of underscores a point, from the left. -/
def pointed : List Char → List Char
  | [] => []
  | '_' :: '_' :: rest => '.' :: pointed rest
  | c :: rest => c :: pointed rest

/-- The path text of a setting's variable. The case of its letters does not count. -/
def settingName? (name : String) : Option String :=
  (Text.strip? settingMark.toList (Text.lowerAscii name.toList)).map fun rest =>
    String.ofList (pointed rest)

/-- The settings among the variables, each a text. -/
def settings (vs : Variables) : List (String × Setting) :=
  vs.filterMap fun (name, value) => (settingName? name).map (·, .text value)

/-- The variables with one more, unless there is one of its name. -/
def add (name value : String) (vs : Variables) : Variables :=
  if (vs.lookup name).isSome then vs else vs ++ [(name, value)]

end Variables

end TapeReader
