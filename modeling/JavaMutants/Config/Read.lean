import JavaMutants.Config
import JavaMutants.FileSystem
import JavaMutants.Yaml.Decode

/-!
# Reading configurations

A configuration is written as a mapping of four keys, each of which may
be left out, as may be the keys of the two mappings in it. Other keys do
not count.
-/

namespace JavaMutants.Config

open Yaml

/-- The fields of the markers. -/
def markerFields (d : Document) : List (Document.FieldReader Markers) := [
  ⟨"mutate", fun path m steps =>
    (d.text path "a string" steps).map fun (v, rest) => ({ m with mutate := v }, rest)⟩,
  ⟨"deprecated", fun path m steps =>
    (d.text path "a string" steps).map fun (v, rest) => ({ m with deprecated := v }, rest)⟩ ]

/-- The fields of the settings. -/
def settingFields (d : Document) : List (Document.FieldReader Settings) := [
  ⟨"threads", fun path s steps =>
    (d.natural path steps).map fun (v, rest) => ({ s with threads := v }, rest)⟩,
  ⟨"extension", fun path s steps =>
    (d.text path "a string" steps).map fun (v, rest) => ({ s with extension := v }, rest)⟩,
  ⟨"fail_fast", fun path s steps =>
    (d.truth path steps).map fun (v, rest) => ({ s with failFast := v }, rest)⟩ ]

/-- The fields of a configuration. -/
def topFields (d : Document) : List (Document.FieldReader Config) := [
  ⟨"version", fun path c steps =>
    (d.text path "a string" steps).map fun (v, rest) => ({ c with version := v }, rest)⟩,
  ⟨"markers", fun path c steps =>
    (d.record path "struct Markers" (markerFields d) {} steps).map fun (v, rest) =>
      ({ c with markers := v }, rest)⟩,
  ⟨"operators", fun path c steps =>
    (d.texts path steps).map fun (v, rest) => ({ c with operators := v }, rest)⟩,
  ⟨"settings", fun path c steps =>
    (d.record path "struct Settings" (settingFields d) {} steps).map fun (v, rest) =>
      ({ c with settings := v }, rest)⟩ ]

/-- **The configuration that a text gives.** -/
def parse (text : String) : Except Refusal Config :=
  decode text fun d steps => d.record "" "struct Config" (topFields d) {} steps

/-- **The configuration in a file.** -/
def load (fs : FileSystem) (path : Path) : Except Error Config :=
  let unread (cause : String) : Except Error Config :=
    .error (.config ("Failed to read config file '" ++ path.text ++ "': " ++ cause))
  match fs.read path with
  | .error fault => unread fault.text
  | .ok bytes =>
    match Text.decode bytes with
    | .error _ => unread "stream did not contain valid UTF-8"
    | .ok text =>
      match parse text with
      | .ok config => .ok config
      | .error refusal =>
        .error (.config
          ("Failed to parse config file '" ++ path.text ++ "': " ++ refusal.message))

end JavaMutants.Config
