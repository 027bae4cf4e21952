import TapeReader.Clock.Table
import TapeReader.CommandLine
import TapeReader.Proofs.Clock.TimeOfDay
import TapeReader.Proofs.Config.Sized
import TapeReader.Proofs.Decimal.Text
import TapeReader.Proofs.Json.Layout
import TapeReader.Settings.Reader

/-!
# A configuration that is printed

* `Config.ofJson?_toJson`: **a configuration is read back from its value**, section by section.
* `Config.ofText?_written`: so it is from its text.
* `CommandLine.configuration_holds`: what the configuration of a command comes from.
* `CommandLine.printed_reads_back`: **what is printed denotes what was read**, but for the credential.
-/

namespace TapeReader

open Json

theorem Zone.ofName?_name [TimeZones] (z : Zone) : Zone.ofName? z.name = some z := by
  rw [ofName?, dif_pos z.known]

namespace Config

open Decoder (fieldOr_some resolutions?_eq_some_iff)

/-! ## The sections -/

namespace Feed

variable {c : Feed}

theorem optionalString?_elim (o : Option String) : optionalString? (o.elim .null .string) = some o := by
  cases o <;> rfl

theorem ofJson?_toJson (h : c.Sized) : ofJson? c.toJson = some c := by
  have hrecord : c.toJson.record? fieldNames = some [some (.string c.url),
      some (c.apiKey.elim .null .string), some (.nat c.connectTimeoutSecs),
      some (.bool c.closeAfterSubscribe)] := record?_object (show fieldNames.Nodup by decide)
  refine decode?_eq_some_iff.2 ⟨_, _, _, _, hrecord, ?_⟩
  constructor <;> simp only [fieldOr_some, Json.decoder, string?, bool?, optionalString?_elim,
    nat64?_nat h.connectTimeoutSecs]

theorem plain_toJson (h : c.Sized) : Plain c.toJson := by
  have hkey : Plain (c.apiKey.elim .null .string) := by cases c.apiKey <;> trivial
  exact ⟨trivial, hkey, fits_nat h.connectTimeoutSecs, trivial, trivial⟩

end Feed

namespace Aggregation

variable {c : Aggregation}

theorem resolutions?_toList {p : PerResolution ℤ} (h : ∀ r, Signed (p.get r)) :
    Json.decoder.resolutions? (.array (p.toList.map .int)) = some p :=
  resolutions?_eq_some_iff.2 ⟨_, _, _, _, rfl, int64?_int (h .oneSecond), int64?_int (h .tenSeconds),
    int64?_int (h .oneMinute), int64?_int (h .fiveMinutes)⟩

theorem ofJson?_toJson (h : c.Sized) : ofJson? c.toJson = some c := by
  have hrecord : c.toJson.record? fieldNames = some [some (.array (c.resolutionsSecs.toList.map .int)),
      some (.nat c.historyLen)] := record?_object (show fieldNames.Nodup by decide)
  refine decode?_eq_some_iff.2 ⟨_, _, hrecord, ?_⟩
  constructor
  · simp only [fieldOr_some, resolutions?_toList h.resolutionsSecs]
  · simp only [fieldOr_some, Json.decoder, nat64?_nat h.historyLen]

theorem plain_toJson (h : c.Sized) : Plain c.toJson :=
  ⟨⟨(h.resolutionsSecs .oneSecond).fits, (h.resolutionsSecs .tenSeconds).fits,
    (h.resolutionsSecs .oneMinute).fits, (h.resolutionsSecs .fiveMinutes).fits, trivial⟩,
    fits_nat h.historyLen, trivial⟩

end Aggregation

section

variable [TimeZones]

namespace Momentum

variable {c : Momentum}

theorem ofJson?_toJson (h : c.Sized) : ofJson? c.toJson = some c := by
  have hrecord : c.toJson.record? fieldNames = some [some (.string c.sessionStart.text),
      some (.string c.sessionEnd.text), some (.string c.timezone.name), some c.gainRatio.toJson,
      some c.minPrice.toJson, some c.maxPrice.toJson, some (.int c.minMinuteVolume),
      some c.volumeRatio.toJson] := record?_object (show fieldNames.Nodup by decide)
  refine decode?_eq_some_iff.2 ⟨_, _, _, _, _, _, _, _, hrecord, ?_⟩
  constructor <;> simp only [fieldOr_some, Json.decoder, Decoder.time?, Decoder.zone?, string?,
    Option.bind_some, TimeOfDay.ofText?_text, Zone.ofName?_name, Decimal.ofJson?_toJson,
    int64?_int h.minMinuteVolume]

theorem plain_toJson (h : c.Sized) : Plain c.toJson :=
  ⟨trivial, trivial, trivial, trivial, trivial, trivial, h.minMinuteVolume.fits, trivial, trivial⟩

end Momentum

/-! ## The whole -/

variable {c : Config} {text : String}

/-- **A configuration is read back from its value.** -/
theorem ofJson?_toJson (h : c.Sized) : ofJson? c.toJson = some c := by
  have hrecord : c.toJson.record? fieldNames = some [some c.feed.toJson, some c.aggregation.toJson,
      some c.strategy.toJson] := record?_object (show fieldNames.Nodup by decide)
  refine decode?_eq_some_iff.2 ⟨_, _, _, hrecord, ?_⟩
  constructor
  · rw [fieldOr_some]
    exact Feed.ofJson?_toJson h.feed
  · rw [fieldOr_some]
    exact Aggregation.ofJson?_toJson h.aggregation
  · rw [fieldOr_some]
    exact Momentum.ofJson?_toJson h.strategy

theorem plain_toJson (h : c.Sized) : Plain c.toJson :=
  ⟨Feed.plain_toJson h.feed, Aggregation.plain_toJson h.aggregation, Momentum.plain_toJson h.strategy,
    trivial⟩

/-- **A configuration is read back from its text**, on one line or over several. -/
theorem ofText?_written (h : c.Sized) (htext : text ∈ [c.toJson.compress, c.toJson.pretty]) :
    ofText? text = some c := by
  rw [ofText?, parse?_written (plain_toJson h) htext]
  exact ofJson?_toJson h

theorem ofText?_pretty_line (h : c.Sized) : ofText? (c.toJson.pretty ++ "\n") = some c := by
  rw [ofText?, parse?_pretty_line (plain_toJson h)]
  exact ofJson?_toJson h

end

end Config

/-! ## What a command works with -/

section

variable [TimeZones]

theorem Config.validate_default : Config.validate default = .ok () := by
  have hurl : ({} : Config.Feed).url.startsWith "wss://" = true := by decide +kernel
  have haggregation : ({} : Config.Aggregation).validate = .ok () := by decide
  exact (if_pos (Or.inl hurl)).trans haggregation

theorem Config.Sized.key {c : Config} (h : c.Sized) (key : Option String) :
    Config.Sized { c with feed := { c.feed with apiKey := key } } :=
  ⟨⟨h.feed.1⟩, h.aggregation, h.strategy⟩

variable [SettingsReader] {P : Config → Prop} {s : Surroundings} {c : Config} {path : Option String}

section

variable (hfile : ∀ v c, Config.ofSetting? v = some c → c.validate = .ok () → P c)

include hfile

/-- A file's configuration is one that settings say, and valid. -/
theorem Config.load_holds {files : Files} {environment : Variables} {path : String}
    (h : Config.load files environment path = .ok c) : P c := by
  unfold Config.load Config.ofEntries at h
  split at h
  · dsimp only at h
    split at h
    · cases h
    · rename_i hread
      split at h
      · rename_i hvalid
        cases h
        exact hfile _ _ hread hvalid
      · cases h
  · cases h

theorem Surroundings.loadDefault_holds (h : s.loadDefault = .ok c) : P c := by
  unfold Surroundings.loadDefault at h
  split at h
  · exact Config.load_holds hfile h
  · split at h
    · exact Config.load_holds hfile h
    · cases h

namespace CommandLine

theorem fileConfiguration_holds (hdefault : P default) (h : fileConfiguration s path = .ok c) : P c := by
  unfold fileConfiguration at h
  split at h
  · exact Config.load_holds hfile h
  · split at h
    · rename_i hok
      cases h
      exact Surroundings.loadDefault_holds hfile hok
    · simp only at h
      split at h
      · cases h
        exact hdefault
      · cases h

/-- **What holds of all valid configurations that settings say, and of the defaults**, and does not depend
on the credential, holds of the configuration of a command. -/
theorem configuration_holds (hdefault : P default)
    (hkey : ∀ c key, P c → P { c with feed := { c.feed with apiKey := key } })
    (h : configuration s path = .ok c) : P c := by
  unfold configuration at h
  cases hc : fileConfiguration s path with
  | error fault =>
    rw [hc] at h
    cases h
  | ok chosen =>
    rw [hc] at h
    cases h
    have hchosen := fileConfiguration_holds hfile hdefault hc
    unfold withCredential
    split
    · exact hkey _ _ hchosen
    · exact hchosen

end CommandLine

end

namespace CommandLine

/-- **The configuration of a command is valid**, and its numbers have 64 bits. -/
theorem configuration_sound (h : configuration s path = .ok c) : c.validate = .ok () ∧ c.Sized :=
  configuration_holds (P := fun c => c.validate = .ok () ∧ c.Sized)
    (fun _ _ hread hvalid => ⟨hvalid, Config.sized_of_decode? Setting.bounded_decoder hread⟩)
    ⟨Config.validate_default, Config.sized_default⟩
    (fun _ key hc => ⟨hc.1, hc.2.key key⟩) h

/-- **A printed configuration reads back unchanged.** A configuration read from a JSON text, whichever
fields are in the text, is read again from what is written of it. And `check-config`, whatever files and
variables its configuration comes from, prints a text that is read as the configuration that was checked,
but for the credential, of which it shows no more than whether there is one. -/
theorem printed_reads_back :
    (∀ source c, Config.ofText? source = some c →
      ∀ text ∈ [c.toJson.compress, c.toJson.pretty], Config.ofText? text = some c) ∧
    ∀ s dial arguments path c, ofArguments none arguments = .command .checkConfig path →
      configuration (completed s) path = .ok c →
      let left := outcome s dial arguments
      c.validate = .ok () ∧ left.exitCode = 0 ∧ left.err = "" ∧
      ∃ printed, Config.ofText? left.out = some printed ∧
        { printed with feed := { printed.feed with apiKey := c.feed.apiKey } } = c ∧
        printed.feed.apiKey = c.feed.apiKey.map fun _ => "********" := by
  refine ⟨fun source c h text htext => ?_, fun s dial arguments path c hasked hc => ?_⟩
  · obtain ⟨j, -, hread⟩ := Option.bind_eq_some_iff.1 h
    exact Config.ofText?_written (Config.sized_of_decode? Json.bounded_decoder hread) htext
  · obtain ⟨hvalid, hsized⟩ := configuration_sound hc
    -- what is printed is the configuration with its credential covered, which is read back as it is
    have hleft : outcome s dial arguments =
        { exitCode := 0, out := (masked c).toJson.pretty ++ "\n" } := by
      simp only [outcome, hasked, hc, checkConfig, hvalid]
    rw [hleft]
    exact ⟨hvalid, rfl, rfl, masked c, Config.ofText?_pretty_line (hsized.key _), rfl, rfl⟩

end CommandLine

end

namespace CommandLine

attribute [local instance] TimeZones.table SettingsReader.plain

/-- Settings that are printed in other words than they are written in: a leap second with a fraction, an
hour of one digit, a ratio with a zero at its end. -/
def oddSettings : String :=
  "[strategy]\nsession_start = \"8:30\"\nsession_end = \"9:24:60.5\"\ngain_ratio = \"1.20\"\n"

/-- They are read back from a text, and from what `check-config` prints of them. -/
theorem printed_reads_back_odd :
    let s : Surroundings :=
      { files := [("config.toml", .file oddSettings.toUTF8)], environment := [("POLYGON_API_KEY", "\"\\")] }
    let source := "\x7b\"strategy\": [\"8:30\", \" 9:24:60.5\", \"America/New_York\", \"1.20\"]\x7d"
    (∃ c, Config.ofText? source = some c ∧ c.strategy.sessionEnd.nano = 1500000000 ∧
      c.strategy.gainRatio.scale = 2 ∧ Config.ofText? c.toJson.compress = some c) ∧
    ∃ c printed, configuration (completed s) none = .ok c ∧ c.strategy.sessionEnd.nano = 1500000000 ∧
      Config.ofText? (outcome s Feed.Client.dialNowhere ["check-config"]).out = some printed ∧
      printed.strategy = c.strategy ∧ printed.feed.apiKey = some "********" := by
  intro s source
  constructor
  · have hread : (Config.ofText? source).map
        (fun c => (c.strategy.sessionEnd.nano, c.strategy.gainRatio.scale)) = some (1500000000, 2) := by
      decide +kernel
    obtain ⟨c, hc, hodd⟩ := Option.map_eq_some_iff.1 hread
    obtain ⟨hnano, hscale⟩ := Prod.mk.inj hodd
    exact ⟨c, hc, hnano, hscale, printed_reads_back.1 source c hc c.toJson.compress (by simp)⟩
  · have hread : (configuration (completed s) none).toOption.map
        (fun c => (c.strategy.sessionEnd.nano, c.feed.apiKey)) = some (1500000000, some "\"\\") := by
      decide +kernel
    obtain ⟨c, hc, hodd⟩ := Option.map_eq_some_iff.1 hread
    obtain ⟨hnano, hcredential⟩ := Prod.mk.inj hodd
    have hok : configuration (completed s) none = .ok c := by
      cases h : configuration (completed s) none with
      | ok c' =>
        rw [h] at hc
        exact congrArg Except.ok (Option.some.inj hc)
      | error fault =>
        rw [h] at hc
        cases hc
    obtain ⟨-, -, -, printed, hprinted, hsame, hkey⟩ := printed_reads_back.2 s Feed.Client.dialNowhere
      ["check-config"] none c rfl hok
    rw [hcredential] at hkey
    exact ⟨c, printed, hok, hnano, hprinted, by rw [← hsame], hkey⟩

end CommandLine

end TapeReader
