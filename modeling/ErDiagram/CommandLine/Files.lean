/-!
# Files

The files that a command works on: texts by name, in one directory with its subdirectories.

Directories are known by the files in them.  A path is first taken as it stands, without the parts
that lead nowhere, and only then followed part by part, since `..` leads out of a directory only if
that directory is there.  What a path leads to is a `Place`, and reading and writing go by that, so
they cannot disagree on which file is meant.
-/

set_option autoImplicit false

namespace ErDiagram.CommandLine

/-- Files by name; the parts of a name in a subdirectory are divided by slashes. -/
abbrev Files := List (String × String)

/-- What a path leads to. -/
inductive Place where
  /-- A file, by its name. -/
  | file (name : String)
  /-- A directory, by its path in plain form. -/
  | directory (path : String)
  /-- Nothing. -/
  | nothing
  deriving DecidableEq, Repr

namespace Files

/-- The content of a file. -/
def content? (files : Files) (name : String) : Option String :=
  (files.find? (·.1 == name)).map Prod.snd

/-- The files with another content in one of them. -/
def write (files : Files) (name content : String) : Files :=
  files.map fun f ↦ if f.1 = name then (name, content) else f

/-- The parts of a path, without those that lead nowhere. -/
def parts (path : String) : List String :=
  (path.splitToList (· == '/')).filter fun s ↦ s ≠ "" ∧ s ≠ "."

/-- The beginning of a path that leads away from the current directory. -/
def root (path : String) : String :=
  if path.startsWith "//" && !path.startsWith "///" then "//"
  else if path.startsWith "/" then "/"
  else ""

/-- A path in plain form, empty for the current directory. -/
def plain (path : String) : String := root path ++ "/".intercalate (parts path)

/-- Whether there is a directory of a given name. -/
def hasDirectory (files : Files) (name : String) : Bool := files.any (·.1.startsWith (name ++ "/"))

/-- The parts of the name that a path leads to, when the parts `here` are behind it already.  A part
`..` leads out of a directory that is there; with nothing to lead out of it stays as it is. -/
def follow? (files : Files) (root : String) (here : List String) :
    List String → Option (List String)
  | [] => some here
  | part :: parts =>
    if part ≠ ".." || here.all (· == "..") then files.follow? root (here ++ [part]) parts
    else if files.hasDirectory (root ++ "/".intercalate here) then
      files.follow? root here.dropLast parts
    else none

/-- What a path leads to. -/
def locate (files : Files) (path : String) : Place :=
  if path.toList.contains '\x00' then .nothing
  else if (files.content? (plain path)).isSome then .file (plain path)
  else
    match files.follow? (root path) [] (parts path) with
    | none => .nothing
    | some names =>
      let name := root path ++ "/".intercalate names
      if names.all (· == "..") then .directory (if plain path = "" then "." else plain path)
      else if (files.content? name).isSome then .file name
      else if files.hasDirectory name then .directory (plain path)
      else .nothing

end Files
end ErDiagram.CommandLine
