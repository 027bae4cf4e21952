import TapeReader.Config.Decoder
import TapeReader.Settings.Basic

/-!
# Configuration from settings

`Config.ofSetting?`: the configuration that settings say; values of another type are taken for what
they say.
-/

namespace TapeReader

namespace Setting

/-- A text, or nothing. -/
def optionalText? : Setting → Option (Option String)
  | .nil => some none
  | v => v.text?.map some

/-- The first four items of a list. -/
def four? : Setting → Option (Setting × Setting × Setting × Setting)
  | .list (a :: b :: c :: d :: _) => some (a, b, c, d)
  | _ => none

/-- What settings are taken for. -/
def decoder : Decoder Setting where
  record? := record?
  text? := text?
  optionalText? := optionalText?
  bool? := bool?
  nat64? := nat64?
  int64? := int64?
  decimal? := decimal?
  four? := four?

end Setting

/-- **The configuration that settings say.** -/
def Config.ofSetting? [TimeZones] : Setting → Option Config := decode? Setting.decoder

end TapeReader
