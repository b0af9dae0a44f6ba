import Resumable.Text.Blank
import Resumable.Text.Letter

/-!
# Environments, and files that set them

An environment gives names values.  A file sets more of them, a name and a value on a line:

* blank lines and lines that start with a number sign are skipped, and a number sign after a blank
  starts a comment;
* the word `export` may stand before a name;
* a value may stand in quotes or apostrophes, in whole or in part, and may then hold blanks and line
  breaks; a backslash escapes a few characters;
* outside of apostrophes, a dollar sign stands for the value of the name that follows it, which may
  stand in braces.

What an environment has already is kept.  Reading ends at the first line that makes no sense, and
what stands before it has been set.

* `EnvFile.lines` : the lines of a text, where quotes make one line of several;
* `EnvFile.load` : an environment with what a file sets.
-/

namespace Resumable

/-- names with their values -/
abbrev Environment := List (String × String)

namespace EnvFile

/-! ## lines -/

/-- where in a line its reader stands -/
inductive Scan where
  | plain
  | blank
  | escape
  /-- between quotes, or after a backslash there -/
  | quotes (escape : Bool)
  /-- between apostrophes, or after a backslash there -/
  | apostrophes (escape : Bool)
deriving DecidableEq, Repr

/-- a mark that opens or escapes something -/
def Scan.open? : Char → Option Scan
  | '\\' => some .escape
  | '"' => some (.quotes false)
  | '\'' => some (.apostrophes false)
  | _ => none

/-- one character -/
def Scan.next (s : Scan) (c : Char) : Scan :=
  match s with
  | .plain =>
    match open? c with
    | some s => s
    | none => if Text.isWhite c && c != '\n' && c != '\x0d' then .blank else .plain
  | .blank => (open? c).getD .plain
  | .escape => .plain
  | .quotes true => .quotes false
  | .quotes false => if c = '\\' then .quotes true else if c = '"' then .plain else .quotes false
  | .apostrophes true => .apostrophes false
  | .apostrophes false =>
    if c = '\\' then .apostrophes true else if c = '\'' then .plain else .apostrophes false

/-- The part of a line before its comment, and where its reader stands at the end; nowhere if there
is a comment. -/
def Scan.run (s : Scan) : List Char → List Char × Option Scan
  | [] => ([], some s)
  | c :: r =>
    if s = .blank ∧ c = '#' then ([], none)
    else
      let (kept, e) := (s.next c).run r
      (c :: kept, e)

/-- the lines of a text with their line feeds -/
def rawLines (current : List Char) : List Char → List (List Char)
  | [] => if current.isEmpty then [] else [current.reverse]
  | c :: r =>
    if c = '\n' then (c :: current).reverse :: rawLines [] r else rawLines (c :: current) r

/-- the line break dropped at the end -/
def dropBreak (cs : List Char) : List Char :=
  match cs.reverse with
  | '\n' :: '\x0d' :: r => r.reverse
  | '\n' :: r => r.reverse
  | _ => cs

/-- Lines joined where one ends within quotes.  Nothing is given for a text that ends there, or in
a blank. -/
def joined (held : List Char) (s : Scan) : List (List Char) → List (Option (List Char))
  | [] => if s = .plain then [] else [none]
  | l :: ls =>
    let line := held ++ l
    if (Text.trimStart line).head? = some '#' then some [] :: joined [] .plain ls
    else
      match s.run l with
      | (kept, none) => some (held ++ kept) :: joined [] .plain ls
      | (_, some .plain) => some (dropBreak line) :: joined [] .plain ls
      | (_, some s) => joined line s ls

/-- the lines of a text, which a byte order mark may precede -/
def lines (text : String) : List (Option (List Char)) :=
  let cs := match text.toList with
    | '\uFEFF' :: r => r
    | r => r
  joined [] .plain (rawLines [] cs)

/-! ## values -/

/-- a name that is being replaced by its value -/
inductive Naming where
  | none
  /-- after a dollar sign, with the letters so far in reverse -/
  | bare (letters : List Char)
  /-- the same between braces -/
  | braced (letters : List Char)

/-- where in a value its reader stands -/
structure Cursor where
  quotes : Bool
  apostrophes : Bool
  escaped : Bool
  /-- after a blank, where only a comment may follow -/
  ended : Bool
  naming : Naming

def Cursor.start : Cursor := ⟨false, false, false, false, .none⟩

/-- the value of a name whose letters are given in reverse; nothing for one that is not set -/
def valueOf (env : Environment) (letters : List Char) : List Char :=
  ((env.lookup (String.ofList letters.reverse)).getD "").toList

/-- the character of an escape -/
def escape? : Char → Option Char
  | 'n' => some '\n'
  | c => if c = '\\' ∨ c = '"' ∨ c = '\'' ∨ c = '$' ∨ c = ' ' then some c else none

/-- A character within or behind a name: what it adds to the value, and the name after it.  A bare
name has letters and digits of any script; a mark that ends it is taken as it is. -/
def Naming.next (env : Environment) (c : Char) : Naming → List Char × Naming
  | .none => ([c], .none)
  | .braced letters =>
    if c = '\x7d' then (valueOf env letters, .none) else ([], .braced (c :: letters))
  | .bare letters =>
    if Text.isAlphanumeric c then ([], .bare (c :: letters))
    else if c = '\x7b' && letters.isEmpty then ([], .braced [])
    else if c = '$' then (valueOf env letters, .bare [])
    else (valueOf env letters ++ [c], .none)

/-- A character of a value: what it adds, and where the reader stands after it. -/
def Cursor.next? (env : Environment) (s : Cursor) (c : Char) : Option (List Char × Cursor) :=
  if s.escaped then (escape? c).map fun x => ([x], { s with escaped := false })
  else if s.apostrophes then
    if c = '\'' then some ([], { s with apostrophes := false }) else some ([c], s)
  else
    match s.naming with
    | .bare _ | .braced _ =>
      let (out, naming) := s.naming.next env c
      some (out, { s with naming })
    | .none =>
      if c = '$' then some ([], { s with naming := .bare [] })
      else if c = '\\' then some ([], { s with escaped := true })
      else if c = '"' then some ([], { s with quotes := !s.quotes })
      else if s.quotes then some ([c], s)
      else if c = '\'' then some ([], { s with apostrophes := true })
      else if c = ' ' ∨ c = '\t' then some ([], { s with ended := true })
      else some ([c], s)

/-- what the end of a value adds; nothing is given for one that is not closed -/
def Cursor.finish? (env : Environment) (s : Cursor) : Option (List Char) :=
  if s.quotes || s.apostrophes then none
  else
    match s.naming with
    | .none => some []
    | .bare letters => some (valueOf env letters)
    | .braced _ => none

/-- the value that the rest of a line stands for -/
def Cursor.run? (env : Environment) (s : Cursor) : List Char → Option (List Char)
  | [] => s.finish? env
  | c :: r =>
    if s.ended then
      if c = ' ' ∨ c = '\t' then s.run? env r
      else if c = '#' then some []
      else none
    else
      match s.next? env c with
      | none => none
      | some (out, s) => (s.run? env r).map (out ++ ·)

/-! ## settings -/

def isNameStart (c : Char) : Bool := c.isAlpha || c == '_'

def isNameChar (c : Char) : Bool := c.isAlphanum || c == '_' || c == '.'

/-- a name and the rest without white space before it -/
def name? (cs : List Char) : Option (String × List Char) :=
  if cs.head?.any isNameStart then
    some (String.ofList (cs.takeWhile isNameChar), Text.trimStart (cs.dropWhile isNameChar))
  else none

/-- the rest after the sign of equality, without white space before it -/
def equals? : List Char → Option (List Char)
  | '=' :: r => some (Text.trimStart r)
  | _ => none

/-- the name that a line sets and what stands for its value -/
def assignment? (cs : List Char) : Option (String × List Char) := do
  let (name, r) ← name? cs
  match equals? r with
  | some r => some (name, r)
  | none =>
    if name = "export" then
      let (name, r) ← name? r
      some (name, ← equals? r)
    else none

/-- An environment after a line.  Nothing is given for a line that makes no sense. -/
def setLine? (env : Environment) (line : List Char) : Option Environment :=
  match Text.trimStart (Text.trimEnd line) with
  | [] => some env
  | '#' :: _ => some env
  | cs => do
    let (name, r) ← assignment? cs
    let value ← if r.head? = some '#' then some [] else Cursor.start.run? env r
    some (if (env.lookup name).isSome then env else env ++ [(name, String.ofList value)])

/-- an environment after some lines, up to the first that makes no sense -/
def setLines (env : Environment) : List (Option (List Char)) → Environment
  | [] => env
  | none :: _ => env
  | some l :: ls =>
    match setLine? env l with
    | some env => setLines env ls
    | none => env

/-- an environment with what a file sets -/
def load (env : Environment) (text : String) : Environment := setLines env (lines text)

theorem load_nil (env : Environment) : load env "" = env := rfl

end EnvFile

end Resumable
