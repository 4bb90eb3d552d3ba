import DeclarationIndex.Glob.Pattern

/-! What can go wrong, as causes, and the wording of each. -/

namespace DeclarationIndex

inductive FileError where
  | notFound
  | isDirectory
  | notDirectory
  | tooManyLinks
  | nameTooLong
  | nullInName
  | notUtf8
  deriving DecidableEq, Inhabited

def FileError.message : FileError → String
  | notFound => "No such file or directory (os error 2)"
  | isDirectory => "Is a directory (os error 21)"
  | notDirectory => "Not a directory (os error 20)"
  | tooManyLinks => "Too many levels of symbolic links (os error 40)"
  | nameTooLong => "File name too long (os error 36)"
  | nullInName => "file name contained an unexpected NUL byte"
  | notUtf8 => "stream did not contain valid UTF-8"

inductive Failure where
  | invalidPattern (pattern : String) (error : GlobError)
  | emptyMarker
  | malformedConfiguration
  | file (error : FileError)
  | unsupported (path : String)
  deriving DecidableEq, Inhabited

def Failure.message : Failure → String
  | invalidPattern pattern error =>
      "Configuration error: Invalid excluded pattern '" ++ pattern ++ "': " ++ error.message
  | emptyMarker => "Configuration error: Empty magic comment marker"
  | malformedConfiguration => "Invalid configuration file"
  | file error => "IO error: " ++ error.message
  | unsupported path => "Not a Ruby file: " ++ path

end DeclarationIndex
