import Resumable.Ini
import Resumable.Json.Reader
import Resumable.Json5
import Resumable.Ron
import Resumable.Settings.Value
import Resumable.Yaml.Reader

/-!
# Formats of settings

* `SettingFormat.entries?` : the entries of a text in a format.
-/

namespace Resumable

/-- a format of settings -/
inductive SettingFormat where
  | toml
  | json
  | yaml
  | ini
  | ron
  | json5
deriving DecidableEq, Repr

/-- a byte order mark dropped -/
def dropMark (text : String) : String :=
  match text.toList with
  | '\uFEFF' :: r => String.ofList r
  | _ => text

/-- the entries of a value that is a table -/
def Setting.entries? : Setting → Option (List (String × Setting))
  | .table es => some es
  | _ => none

/-- the entries of a text in a format -/
def SettingFormat.entries? (f : SettingFormat) (text : String) : Option (List (String × Setting)) :=
  let text := dropMark text
  match f with
  | .toml => (Toml.parse? text).map Setting.tableOfToml
  | .json => ((Json.parse? text).bind Setting.ofJson?).bind Setting.entries?
  | .yaml => (Yaml.parse? text).bind Setting.entries?
  | .ini => Ini.entries? text
  | .ron => (Ron.parse? text).bind Setting.entries?
  | .json5 => (Json5.parse? text).bind Setting.entries?

end Resumable
