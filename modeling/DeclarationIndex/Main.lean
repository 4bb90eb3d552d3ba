import DeclarationIndex.CommandLine.Run
import DeclarationIndex.Tree.Json

/-!
The program. The files that the arguments name are read first; all else is decided by what they
hold. Syntax trees come from a parser that runs beforehand: the tree of a file stands in the file
of the same name with an ending of its own.
-/

namespace DeclarationIndex.Program

def treeEnding : String := ".tree"

/-- Errors of the system that share a constructor are told apart by their texts. -/
def fileError : IO.Error → FileError
  | .inappropriateType _ code _ => if code == 21 then .isDirectory else .notDirectory
  | .noFileOrDirectory _ _ _ => .notFound
  | other =>
      let tells (words : String) : Bool := 1 < (other.toString.splitOn words).length
      if tells "symbolic links" then .tooManyLinks
      else if tells "name too long" then .nameTooLong
      else .notFound

structure Sight where
  path : String
  document : Except FileError Document
  place : Option Place

def readTree (path : String) : IO Tree := do
  try
    let text ← IO.FS.readFile (path ++ treeEnding)
    return ((Json.parse? text).bind Tree.ofJson?).getD default
  catch _ => return default

def readDocument (path : String) : IO (Except FileError Document) := do
  try
    let bytes ← IO.FS.readBinFile path
    match String.fromUTF8? bytes with
    | some text => return .ok ⟨text, ← readTree path⟩
    | none => return .error .notUtf8
  catch error => return .error (fileError error)

def realPlace? (path : String) : IO (Option Place) := do
  try
    let real ← IO.FS.realPath path
    return some ((Path.pieces real.toString).filter (· != ""))
  catch _ => return none

def look (path : String) : IO Sight := do
  return ⟨path, ← readDocument path, ← realPlace? path⟩

def viewOf (sights : List Sight) : FileView :=
  let find (path : String) : Option Sight := sights.find? (·.path == path)
  { read := fun path => ((find path).map Sight.document).getD (.error .notFound)
    realPlace? := fun path => (find path).bind Sight.place
    isFile := fun path =>
      match (find path).map Sight.document with
      | some (.ok _) | some (.error .notUtf8) => true
      | _ => false }

def pathsOf (arguments : List String) : List String :=
  match Arguments.parse arguments with
  | .request request =>
      request.configuration.getD CommandLine.configurationName :: request.files
  | _ => []

end DeclarationIndex.Program

open DeclarationIndex in
def main (arguments : List String) : IO UInt32 := do
  let view := Program.viewOf (← (Program.pathsOf arguments).mapM Program.look)
  let answer := CommandLine.run view arguments
  match answer with
  | .printed output warning =>
      IO.print output
      IO.eprint warning
  | .failed failure => IO.eprintln ("Error: " ++ failure.message)
  | .misused => IO.eprintln "error: the arguments could not be understood"
  return answer.exitCode
