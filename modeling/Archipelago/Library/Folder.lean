import Archipelago.Compile

/-! # Published templates -/

namespace Archipelago

/-- Why templates could not be loaded. -/
inductive LoadError where
  | duplicateTemplate (name : String)
  | refused (c : Compilation)
  /-- There is no such file or folder. -/
  | missing

namespace LoadError

/-- What is shown of an error. -/
def message : LoadError → String
  | duplicateTemplate name => s!"template '{name}' is already loaded"
  | refused c => c.refusal
  | missing => "no such file or folder"

end LoadError

/-- Templates by name, in the order in which they were loaded. -/
structure Library where
  templates : Dict Template := []

namespace Library

def get? (l : Library) (name : String) : Option Template := Dict.get? l.templates name

def names (l : Library) : List String := Dict.keys l.templates

def size (l : Library) : Nat := l.templates.length

/-- Compiles markup and publishes it under a name that is free. -/
def load (l : Library) (c : Config) (name src : String) : Except LoadError (Library × Template) :=
  if Dict.contains l.templates name then .error (.duplicateTemplate name)
  else
    let compiled := compile c src
    match compiled.template? with
    | some t => .ok (⟨Dict.insert l.templates name t⟩, t)
    | none => .error (.refused compiled)

end Library

/-! ## Templates in folders -/

/-- A file or a folder. -/
inductive FileTree where
  | file (text : String)
  /-- Entries in the order of their names. -/
  | folder (entries : List (String × FileTree))

/-- A path as the names on its way; a way through a folder and back is none. -/
structure FilePath where
  names : List String
  /-- Only a folder can be at the end of the path. -/
  toFolder : Bool

namespace FilePath

/-- One piece of a path: nothing, the folder itself, the one around it, or an entry. -/
def step (names : List String) (name : String) : List String :=
  if name = "" || name = "." then names
  else if name = ".." then names.dropLast
  else names ++ [name]

/-- A path is taken from the top. One that ends with a slash or with points can only lead to a
folder. -/
def ofString (s : String) : FilePath :=
  let pieces := Text.split '/' s
  ⟨pieces.foldl step [], ["", ".", ".."].contains (pieces.getLast?.getD "")⟩

/-- The name of a file and what follows its last point, which may not be its first character. -/
def splitName (name : String) : String × Option String :=
  let cs := name.toList.reverse
  match cs.dropWhile (· ≠ '.') with
  | _ :: c :: rest =>
    (String.ofList (c :: rest).reverse, some (String.ofList (cs.takeWhile (· ≠ '.')).reverse))
  | _ => (name, none)

/-- The name under which a file is published. -/
def stem (p : FilePath) : String := (splitName (p.names.getLast?.getD "")).1

end FilePath

namespace FileTree

/-- An entry of a folder. -/
def child? : FileTree → String → Option FileTree
  | folder entries, name => Dict.get? entries name
  | file _, _ => none

/-- What is found along a path. -/
def at? (t : FileTree) : List String → Option FileTree
  | [] => some t
  | name :: path => (t.child? name).bind (at? · path)

/-- Replaces or adds an entry in its place. -/
def putEntry (name : String) (t : FileTree) : List (String × FileTree) → List (String × FileTree)
  | [] => [(name, t)]
  | (k, u) :: rest =>
    if k = name then (k, t) :: rest
    else if name < k then (name, t) :: (k, u) :: rest
    else (k, u) :: putEntry name t rest

/-- Writes a file and makes the folders on its way; neither can take the place of the other. -/
def put (text : String) : List String → FileTree → Option FileTree
  | [], file _ => some (file text)
  | [], folder _ => none
  | _ :: _, file _ => none
  | name :: path, folder entries =>
    let start := if path.isEmpty then file "" else folder []
    (put text path ((Dict.get? entries name).getD start)).map fun t =>
      folder (putEntry name t entries)

/-- Writes a file at a path. -/
def write (t : FileTree) (p : FilePath) (text : String) : Option FileTree :=
  if p.toFolder then none else t.put text p.names

end FileTree

namespace Library

/-- The ending of the names of template files. -/
def templateExtension : String := "tmpl"

mutual

/-- Loads the template files of a folder and of those in it, up to the first failure. -/
def loadTree (c : Config) (name : String) (l : Library) : FileTree → Library × Option LoadError
  | .file text =>
    let (stem, extension) := FilePath.splitName name
    if extension = some templateExtension then
      match l.load c stem text with
      | .ok (l, _) => (l, none)
      | .error e => (l, some e)
    else (l, none)
  | .folder entries => loadEntries c l entries

/-- Entry by entry, until one fails; what has been loaded stays. -/
def loadEntries (c : Config) (l : Library) :
    List (String × FileTree) → Library × Option LoadError
  | [] => (l, none)
  | (name, t) :: rest =>
    match loadTree c name l t with
    | (l, none) => loadEntries c l rest
    | failed => failed

end

/-- Loads one file under its name without the ending. -/
def loadFile (l : Library) (c : Config) (files : FileTree) (p : FilePath) :
    Except LoadError (Library × Template) :=
  match files.at? p.names with
  | some (.file text) => if p.toFolder then .error .missing else l.load c p.stem text
  | _ => .error .missing

/-- Loads a whole folder. -/
def loadFolder (l : Library) (c : Config) (files : FileTree) (p : FilePath) :
    Library × Option LoadError :=
  match files.at? p.names with
  | some (.folder entries) => loadEntries c l entries
  | _ => (l, some .missing)

end Library

end Archipelago
