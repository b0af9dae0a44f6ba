/-!
# A directory of text files

Files are named by paths, which are walked part by part.  Empty parts and single dots lead nowhere
else, two dots lead back, and any other part on the way must be a folder that is there.  The last
part is the name of the file.  A path that leaves the directory names a file only as it is written.

* `Path.stem?` : a path up to the end of its file's name;
* `Directory.place?` : where in the directory a path leads to;
* `Directory.read?`, `Directory.write?` : the text of a file, and a text put into one;
* `extension?` : the letters behind the last dot of a file's name.
-/

namespace Resumable

/-! ## paths -/

namespace Path

/-- the parts of a path; none for one that leaves the directory -/
def step? (parts : List String) (part : String) : Option (List String) :=
  if part = "" ∨ part = "." then some parts
  else if part = ".." then (if parts.isEmpty then none else some parts.dropLast)
  else some (parts ++ [part])

/-- the parts of a path within the directory -/
def parts? (path : String) : Option (List String) :=
  if path.isEmpty || path.startsWith "/" then none
  else (path.splitOn "/").foldlM step? []

/-- the part leads nowhere else -/
def isIdle (part : String) : Bool := part = "" || part = "."

/-- the part is the name of a file or a folder -/
def isName (part : String) : Bool := !isIdle part && part != ".."

/-- A path up to the end of its file's name, without the idle parts behind it. -/
def stem? (path : String) : Option String :=
  match (path.splitOn "/").reverse.dropWhile isIdle with
  | [] => none
  | name :: rest =>
    if isName name then some ("/".intercalate (name :: rest).reverse) else none

/-- The extension of a file's name.  A dot that starts the name is part of it. -/
def extension? (path : String) : Option String :=
  match ((path.splitOn "/").filter fun p => !isIdle p).getLast? with
  | none => none
  | some name =>
    match (name.splitOn ".").reverse with
    | ext :: stem@(_ :: _) => if name = ".." ∨ stem = [""] then none else some ext
    | _ => none

/-- the file is named as JSON, with letters of either case -/
def isJson (path : String) : Bool := (extension? path).any fun e => e.toLower == "json"

end Path

/-! ## files -/

/-- the text files of a directory by their paths -/
structure Directory where
  files : List (String × String)

namespace Directory

/-- the parts lead to a folder: this directory, or one on the way to a file -/
def isFolder (d : Directory) (parts : List String) : Bool :=
  parts.isEmpty || d.files.any fun f =>
    match Path.parts? f.1 with
    | some ps => parts.length < ps.length && parts.isPrefixOf ps
    | none => false

/-- the folder that the parts of a path lead to from another one -/
def enter? (d : Directory) (folder : List String) : List String → Option (List String)
  | [] => some folder
  | part :: rest =>
    if Path.isIdle part then d.enter? folder rest
    else if part = ".." then if folder.isEmpty then none else d.enter? folder.dropLast rest
    else if d.isFolder (folder ++ [part]) then d.enter? (folder ++ [part]) rest
    else none

theorem enter?_nil (d : Directory) (folder : List String) : d.enter? folder [] = some folder := rfl

/-- where in the directory a path to a file leads to: a name in a folder that is there -/
def place? (d : Directory) (path : String) : Option (List String) := do
  let parts := path.splitOn "/"
  let name ← parts.getLast?
  if path.startsWith "/" || !Path.isName name then none
  else some ((← d.enter? [] parts.dropLast) ++ [name])

/-- a path leads to a file -/
def leadsTo (d : Directory) (path file : String) : Bool :=
  path == file || ((d.place? path).isSome && d.place? path == Path.parts? file)

/-- the text of a file -/
def read? (d : Directory) (path : String) : Option String :=
  (d.files.find? fun f => d.leadsTo path f.1).map Prod.snd

def has (d : Directory) (path : String) : Bool := (d.read? path).isSome

/-- bytes that a name may have -/
def maxNameSize : Nat := 255

/-- a file may have the name -/
def isFileName (name : String) : Bool := name.utf8ByteSize ≤ maxNameSize && !name.contains '\x00'

/-- a text put into a file, whose folder must be there -/
def write? (d : Directory) (path text : String) : Option Directory := do
  let parts ← d.place? path
  if d.isFolder parts || !parts.getLast?.all isFileName then none
  else some ⟨("/".intercalate parts, text) :: d.files.filter fun f => !d.leadsTo path f.1⟩

end Directory

end Resumable
