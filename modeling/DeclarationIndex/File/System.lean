import DeclarationIndex.File.View

/-!
A file system in memory. Paths are followed from the root or from the working directory, and at
most forty links are followed on one path. Around the working directory there are only the
directories that every system has, and the empty device.
-/

namespace DeclarationIndex

inductive FileNode where
  | file (bytes : ByteArray) (tree : Tree)
  | link (target : String)
  | directory (entries : List (String × FileNode))
  deriving Inhabited

namespace FileNode

def emptyDirectory : FileNode :=
  .directory []

def child? (node : FileNode) (name : String) : Option FileNode :=
  match node with
  | .directory entries => entries.lookup name
  | _ => none

def find? (node : FileNode) : List String → Option FileNode
  | [] => some node
  | name :: rest =>
      match node.child? name with
      | some inner => inner.find? rest
      | none => none

def isDirectory : FileNode → Bool
  | .directory _ => true
  | _ => false

def put (node : FileNode) (new : FileNode) : List String → FileNode
  | [] => new
  | name :: rest =>
      let entries := match node with
        | .directory entries => entries
        | _ => []
      let inner := ((entries.lookup name).getD emptyDirectory).put new rest
      .directory ((name, inner) :: entries.filter (·.1 != name))

end FileNode

structure FileSystem where
  root : FileNode
  deriving Inhabited

namespace FileSystem

/-- The working directory stands in the directory for temporary files. Its own name is empty, so
that no path can spell it. -/
def workingDirectory : Place := ["tmp", ""]

def standardDirectories : List String :=
  ["bin", "boot", "dev", "etc", "home", "lib", "media", "mnt", "opt", "proc", "root", "run", "sbin",
    "srv", "sys", "tmp", "usr", "var"]

def emptyDevice : Place := ["dev", "null"]

def empty : FileSystem :=
  let standard := FileNode.directory (standardDirectories.map fun name => (name, .emptyDirectory))
  ⟨(standard.put (.file ByteArray.empty default) emptyDevice).put .emptyDirectory workingDirectory⟩

/-- The names to follow on a path, one after the other. A slash at the end asks for a directory,
as a dot there would. -/
def steps (path : String) : List String :=
  let pieces := Path.pieces path
  let names := pieces.filter (· != "")
  if pieces.getLast? == some "" then names ++ ["."] else names

def isAbsolute (path : String) : Bool :=
  match path.toList with
  | '/' :: _ => true
  | _ => false

def origin (place : Place) (path : String) : Place :=
  if isAbsolute path then [] else place

def nodeAt? (system : FileSystem) (place : Place) : Option FileNode :=
  system.root.find? place

inductive Progress where
  | arrived (place : Place)
  | failed (error : FileError)
  | atLink (place : Place) (target : String) (rest : List String)

def parent (place : Place) : Place :=
  place.dropLast

def childOf (name : String) (place : Place) : Place :=
  place ++ [name]

def longestName : Nat := 255

/-- One more than the most bytes of a path that can be opened. -/
def pathBound : Nat := 4096

def follow (system : FileSystem) (place : Place) : List String → Progress
  | [] => .arrived place
  | name :: rest =>
      match system.nodeAt? place with
      | none => .failed .notFound
      | some node =>
          if !node.isDirectory then .failed .notDirectory
          else if name == "." then system.follow place rest
          else if name == ".." then system.follow (parent place) rest
          else if longestName < name.utf8ByteSize then .failed .nameTooLong
          else
            match node.child? name with
            | none => .failed .notFound
            | some (.link target) => .atLink place target rest
            | some _ => system.follow (childOf name place) rest

def mostLinks : Nat := 40

def resolveFrom (system : FileSystem) : Nat → Place → List String → Except FileError Place
  | left, place, names =>
      match system.follow place names with
      | .arrived place => .ok place
      | .failed error => .error error
      | .atLink place target rest =>
          match left with
          | 0 => .error .tooManyLinks
          | left + 1 => system.resolveFrom left (origin place target) (steps target ++ rest)

def resolve (system : FileSystem) (path : String) : Except FileError Place :=
  if path.toList.contains '\x00' then .error .nullInName
  else if path.isEmpty then .error .notFound
  else system.resolveFrom mostLinks (origin workingDirectory path) (steps path)

/-- What a path leads to. A path can be resolved at any length, but not be opened. -/
def node (system : FileSystem) (path : String) : Except FileError FileNode := do
  let tooLong := pathBound ≤ path.utf8ByteSize && !path.toList.contains '\x00'
  let place ← if tooLong then .error .nameTooLong else system.resolve path
  match system.nodeAt? place with
  | some node => .ok node
  | none => .error .notFound

def read (system : FileSystem) (path : String) : Except FileError Document := do
  match ← system.node path with
  | .file bytes tree =>
      match String.fromUTF8? bytes with
      | some text => .ok ⟨text, tree⟩
      | none => .error .notUtf8
  | _ => .error .isDirectory

def isFile (system : FileSystem) (path : String) : Bool :=
  match system.node path with
  | .ok (.file _ _) => true
  | _ => false

def view (system : FileSystem) : FileView where
  read := system.read
  realPlace? := fun path => (system.resolve path).toOption
  isFile := system.isFile

def enter (state : FileSystem × Place) (name : String) : FileSystem × Place :=
  let (system, place) := state
  match system.resolveFrom mostLinks place [name] with
  | .ok inner => (system, inner)
  | .error _ => (⟨system.root.put .emptyDirectory (childOf name place)⟩, childOf name place)

def makeWay (system : FileSystem) (names : List String) : FileSystem × Place :=
  names.foldl enter (system, workingDirectory)

def makeDirectory (system : FileSystem) (path : String) : FileSystem :=
  (system.makeWay (steps path)).1

def put (system : FileSystem) (path : String) (node : FileNode) : FileSystem :=
  match (steps path).reverse with
  | [] => system
  | name :: outer =>
      let (system, place) := system.makeWay outer.reverse
      ⟨system.root.put node (childOf name place)⟩

end FileSystem

end DeclarationIndex
