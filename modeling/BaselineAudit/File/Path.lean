/-!
# Paths of files

A path is a text with `/` between its names. A leading `/` makes it absolute.
-/

namespace BaselineAudit.Path

/-- A path that starts at the root of all directories. -/
def isAbsolute (path : String) : Bool := path.toList.head? == some '/'

/-- A path below a directory. -/
def join (directory path : String) : String :=
  if directory.isEmpty || directory.toList.getLast? == some '/' then directory ++ path
  else directory ++ "/" ++ path

/-- The names of a path. Two slashes in a row have an empty name between them. -/
def names (path : String) : List String := path.splitOn "/"

/-- A name that leads nowhere. -/
def isIdle (name : String) : Bool := name.isEmpty || name == "."

/-- The names of a path that count. One that leads nowhere counts only in front, where an empty one
stands for the root. -/
def steps (path : String) : List String :=
  match names path with
  | first :: rest => (if path.isEmpty then [] else [first]) ++ rest.filter (!isIdle ·)
  | [] => []

/-- Two ways to write one path. -/
def same (path other : String) : Bool := steps path == steps other

/-- Names without those at the end that lead nowhere. The first name stays. -/
def withoutIdleEnd : List String → List String
  | [] => []
  | first :: rest => first :: (rest.reverse.dropWhile isIdle).reverse

/-- The directory of a path. -/
def parent (path : String) : String :=
  match withoutIdleEnd (withoutIdleEnd (names path)).dropLast with
  | [""] => "/"
  | directory => "/".intercalate directory

/-- A path that is not absolute is taken to be below a directory. -/
def resolve (directory path : String) : String :=
  if isAbsolute path then path else join directory path

end BaselineAudit.Path
