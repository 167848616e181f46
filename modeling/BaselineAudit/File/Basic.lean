/-!
# Reading files

What can go wrong with a file, and the text of one.
-/

namespace BaselineAudit

/-- Why a file has no text. -/
inductive FileError where
  /-- What the system says, with its code. -/
  | system (reason : String) (code : Nat)
  /-- The bytes of the file are not UTF-8. -/
  | notText
  deriving DecidableEq, Repr

namespace FileError

/-- There is no such file. -/
def missing : FileError := system "No such file or directory" 2

/-- A file stands where a directory is needed. -/
def notDirectory : FileError := system "Not a directory" 20

/-- A directory stands where a file is needed. -/
def isDirectory : FileError := system "Is a directory" 21

/-- An error as it is shown. -/
def message : FileError → String
  | system reason code => reason ++ " (os error " ++ code.repr ++ ")"
  | notText => "stream did not contain valid UTF-8"

end FileError

/-- The bytes of a file, if it can be read. -/
abbrev Content := Except FileError ByteArray

/-- The text of a file. -/
def Content.text (c : Content) : Except FileError String := do
  match String.fromUTF8? (← c) with
  | some text => .ok text
  | none => .error .notText

end BaselineAudit
