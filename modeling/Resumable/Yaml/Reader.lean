import Resumable.Settings.Value
import Resumable.Yaml.Node
import Resumable.Yaml.Token.Lexer

/-!
# Settings in YAML

* `Yaml.Node.toSetting?` : a node as a setting;
* `Yaml.parse?` : the setting that a text holds.
-/

namespace Resumable.Yaml

/-- the text of a key -/
def Key.text : Key → String
  | .bool b => if b then "true" else "false"
  | .int n => toString n
  | .real t => t
  | .str s => s

/-- A scalar as a setting.  Words for infinity are no numbers there. -/
def Key.toSetting? : Key → Option Setting
  | .bool b => some (.bool b)
  | .int n => some (.int n)
  | .real t => (Decimal.readDouble? t).map .float
  | .str s => some (.text s)

namespace Node

mutual

/-- a node as a setting -/
def toSetting? : Node → Option Setting
  | .bad | .null => some .null
  | .scalar k => k.toSetting?
  | .sequence ns => (listToSettings? ns).map .list
  | .mapping es => (entriesToSettings? es).map Setting.tableOf

def listToSettings? : List Node → Option (List Setting)
  | [] => some []
  | n :: ns => do some ((← toSetting? n) :: (← listToSettings? ns))

def entriesToSettings? : List (Key × Node) → Option (List (String × Setting))
  | [] => some []
  | (k, n) :: es => do some ((k.text, ← toSetting? n) :: (← entriesToSettings? es))

end

end Node

/-- The setting that a text holds.  Without a document it is a table without entries. -/
def parse? (text : String) : Option Setting := do
  match ← Node.ofTokens? (← Token.scan? text) with
  | some n => n.toSetting?
  | none => some (.table [])

end Resumable.Yaml
