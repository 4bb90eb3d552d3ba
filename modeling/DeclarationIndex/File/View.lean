import DeclarationIndex.Failure
import DeclarationIndex.File.Path
import DeclarationIndex.Tree.Node

/-!
What the program sees of a file system: the texts of files, with the trees of those that are
sources, and for each path the real file it leads to.
-/

namespace DeclarationIndex

/-- Where a path leads when all links are followed: the names on the way from the root. -/
abbrev Place := List String

structure Document where
  text : String
  tree : Tree
  deriving Inhabited

structure FileView where
  read : String → Except FileError Document
  realPlace? : String → Option Place
  isFile : String → Bool

structure SourceFile where
  path : String
  source : SourceText
  tree : Tree
  deriving Inhabited

namespace SourceFile

def ofDocument (path : String) (document : Document) : SourceFile :=
  ⟨path, SourceText.ofString document.text, document.tree⟩

/-- Reads a source file; whether a path is supported is decided before it is opened. -/
def read (view : FileView) (path : String) : Except Failure SourceFile :=
  if Path.isSource path then
    match view.read path with
    | .ok document => .ok (ofDocument path document)
    | .error error => .error (.file error)
  else .error (.unsupported path)

end SourceFile

/-- What makes two paths the same file: the parts of the real path, or for a path that leads
nowhere those it is written with. -/
def FileView.key (view : FileView) (path : String) : List PathPart :=
  match view.realPlace? path with
  | some place => .root :: place.map .name
  | none => Path.parts path

def FileView.firstPaths (view : FileView) (seen : List (List PathPart)) : List String → List String
  | [] => []
  | path :: rest =>
      let key := view.key path
      if seen.contains key then view.firstPaths seen rest
      else path :: view.firstPaths (key :: seen) rest

end DeclarationIndex
