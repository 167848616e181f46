import BaselineAudit.File.Basic
import BaselineAudit.File.Path

/-!
# Directories in memory

A tree of directories and files, and what stands at a path in it.
-/

namespace BaselineAudit

/-- A file or a directory. -/
inductive Entry where
  | file (bytes : ByteArray)
  | directory (entries : List (String × Entry))

namespace Entry

/-- A file that is the only one in the directories of a path. -/
def alone (bytes : ByteArray) : List String → Entry
  | [] => file bytes
  | name :: path => directory [(name, alone bytes path)]

/-- The entries of a directory with a file at a path added. -/
def insertFrom (bytes : ByteArray) : List String → Entry → Entry
  | [], _ => file bytes
  | name :: path, directory entries =>
    match entries.lookup name with
    | none => directory (entries ++ [(name, alone bytes path)])
    | some _ =>
      directory (entries.map fun (n, e) => if n == name then (n, insertFrom bytes path e) else (n, e))
  | path, file _ => alone bytes path

/-- A directory with a file at a path added. -/
def insert (root : Entry) (path : String) (bytes : ByteArray) : Entry :=
  insertFrom bytes ((Path.names path).filter (!Path.isIdle ·)) root

/-- What stands at a path, with the directories above it. A directory above the first one is not
known. -/
def walk : (above : List Entry) → Entry → List String → Except FileError Entry
  | _, e, [] => .ok e
  | _, file _, _ :: _ => .error .notDirectory
  | above, directory entries, name :: path =>
    if Path.isIdle name then walk above (directory entries) path
    else if name == ".." then
      match above with
      | [] => .error .missing
      | e :: above => walk above e path
    else
      match entries.lookup name with
      | none => .error .missing
      | some e => walk (directory entries :: above) e path

/-- What stands at a path, which is not absolute. -/
def find (root : Entry) (path : String) : Except FileError Entry :=
  if path.isEmpty || Path.isAbsolute path then .error .missing
  else walk [] root (Path.names path)

/-- The bytes of the file at a path. -/
def read (root : Entry) (path : String) : Content := do
  match ← root.find path with
  | file bytes => .ok bytes
  | directory _ => .error .isDirectory

end Entry

end BaselineAudit
