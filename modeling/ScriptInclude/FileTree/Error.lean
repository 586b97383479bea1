/-!
# Errors of the file system

The causes for which a path cannot be used, with the number and the words the system has for each.
-/

namespace ScriptInclude

inductive FileError where
  | notFound
  | alreadyExists
  | notDirectory
  | isDirectory
  | nameTooLong
  | tooManyLinks
  /-- A zero character cannot be part of a name. -/
  | zeroInName
  /-- The content is no UTF-8 text. -/
  | notText
  deriving DecidableEq

namespace FileError

def numbered (words : String) (number : Nat) : String := words ++ " (os error " ++ toString number ++ ")"

def message : FileError → String
  | .notFound => numbered "No such file or directory" 2
  | .alreadyExists => numbered "File exists" 17
  | .notDirectory => numbered "Not a directory" 20
  | .isDirectory => numbered "Is a directory" 21
  | .nameTooLong => numbered "File name too long" 36
  | .tooManyLinks => numbered "Too many levels of symbolic links" 40
  | .zeroInName => "file name contained an unexpected NUL byte"
  | .notText => "stream did not contain valid UTF-8"

end FileError

end ScriptInclude
