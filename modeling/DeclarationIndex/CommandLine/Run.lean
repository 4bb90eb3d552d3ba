import DeclarationIndex.CommandLine.Arguments
import DeclarationIndex.Decimal.Fixed
import DeclarationIndex.Decimal.Shortest
import DeclarationIndex.Entry.Json
import DeclarationIndex.Index.Search
import DeclarationIndex.Index.Statistics
import DeclarationIndex.Indexer
import DeclarationIndex.Similarity

/-!
What the program answers to a command line, given what it sees of the file system. The
configuration is read before any source.
-/

namespace DeclarationIndex

inductive Answer where
  | printed (output warning : String)
  | failed (failure : Failure)
  | misused

namespace Answer

def exitCode : Answer → UInt32
  | printed _ _ => 0
  | failed _ => 1
  | misused => 2

end Answer

namespace Entry

def lines (entry : Entry) : List String :=
  let visibility := match entry.visibility with
    | .isPublic => ""
    | visibility => " [" ++ visibility.name ++ "]"
  let owner := match entry.owner with
    | some owner => ["  Owner: " ++ owner]
    | none => []
  let parameters :=
    if entry.parameters.isEmpty then []
    else
      ["  Parameters: " ++ String.intercalate ", " (entry.parameters.map Parameter.render)]
  (entry.name ++ " (" ++ entry.kind.name ++ ")" ++ visibility ++ " - " ++ entry.locationText) ::
    (owner ++ parameters ++ entry.comments.map ("  # " ++ ·))

end Entry

structure SearchHit where
  entry : Entry
  score : Float

namespace SearchHit

def line (hit : SearchHit) : String :=
  hit.entry.name ++ " (" ++ hit.entry.kind.name ++ ") - " ++ hit.entry.locationText ++
    " [score: " ++ Decimal.fixed 2 hit.score ++ "]"

def toJson (hit : SearchHit) : Json :=
  .object (hit.entry.fields ++ [("score", .number (Decimal.shortest hit.score))])

end SearchHit

structure ArityCheck where
  location : String
  owner : Option String
  required : Nat
  maximum : Option Nat
  accepts : Bool

namespace ArityCheck

def ofEntry (count : Nat) (entry : Entry) : ArityCheck :=
  let arity := Arity.ofParameters entry.parameters
  { location := entry.locationText
    owner := entry.owner
    required := arity.required
    maximum := arity.maximum
    accepts := entry.accepts count }

def line (method : String) (count : Nat) (check : ArityCheck) : String :=
  let owner := match check.owner with
    | some owner => owner ++ "#"
    | none => ""
  let maximum := match check.maximum with
    | some maximum => toString maximum
    | none => "*"
  owner ++ method ++ " (" ++ toString check.required ++ ".." ++ maximum ++ ") " ++
    (if check.accepts then "accepts" else "rejects") ++ " " ++ toString count ++
    " argument(s) - " ++ check.location

def toJson (check : ArityCheck) : Json :=
  .object [("location", .string check.location),
    ("owner", Json.ofOption (check.owner.map .string)),
    ("required", .natural check.required),
    ("max", Json.ofOption (check.maximum.map .natural)),
    ("accepts", .bool check.accepts)]

end ArityCheck

namespace Statistics

def lines (statistics : Statistics) : List String :=
  let kinds := statistics.byKind.map fun kind => "    " ++ kind.1 ++ ": " ++ toString kind.2
  ["Index Statistics:",
    "  Total files: " ++ toString statistics.files,
    "  Total names: " ++ toString statistics.names,
    "  Total entries: " ++ toString statistics.entries] ++
    (if kinds.isEmpty then [] else "" :: "  Entries by kind:" :: kinds)

def toJson (statistics : Statistics) : Json :=
  .object [("total_files", .natural statistics.files),
    ("total_names", .natural statistics.names),
    ("total_entries", .natural statistics.entries),
    ("entries_by_kind",
      .array (statistics.byKind.map fun kind => .array [.string kind.1, .natural kind.2]))]

end Statistics

namespace CommandLine

def programVersion : String := "ruby-indexer 0.1.0"

def configurationName : String := ".index.yml"

def readConfiguration (view : FileView) (path : String) : Except Failure Configuration :=
  match view.read path with
  | .ok document => Configuration.ofText document.text
  | .error error => .error (.file error)

def loadConfiguration (view : FileView) : Option String → Except Failure Configuration
  | some path => readConfiguration view path
  | none =>
      if view.isFile configurationName then readConfiguration view configurationName
      else .ok Configuration.default

def printLines (lines : List String) : String :=
  String.join (lines.map (· ++ "\n"))

def linesOr (nothing : String) (lines : List String) : List String :=
  if lines.isEmpty then [nothing] else lines

def search (index : Index) (query : String) (fuzzy : Bool) (threshold : Float) (limit : Nat) :
    List SearchHit :=
  let hits :=
    if fuzzy then index.similarTo Similarity.jaroWinkler 1.0 query threshold
    else (index.startingWith query).map fun entry => (entry, 1.0)
  (hits.take limit).map fun hit => ⟨hit.1, hit.2⟩

def answer (index : Index) (format : OutputFormat) (command : Command) : String :=
  let print (lines : List String) (json : Json) : String :=
    match format with
    | .text => printLines lines
    | .json => json.pretty ++ "\n"
  match command with
  | .statistics =>
      let statistics := Statistics.ofIndex index
      print statistics.lines statistics.toJson
  | .lookup name =>
      let entries := index.get name
      print (linesOr ("No entries found for: " ++ name) (entries.flatMap Entry.lines))
        (.array (entries.map Entry.toJson))
  | .search query fuzzy threshold limit =>
      let hits := search index query fuzzy threshold limit
      print (linesOr ("No entries found for query: " ++ query) (hits.map SearchHit.line))
        (.array (hits.map SearchHit.toJson))
  | .arity method count =>
      let checks := ((index.get method).filter Entry.isMethod).map (ArityCheck.ofEntry count)
      print (linesOr ("No method named: " ++ method) (checks.map (ArityCheck.line method count)))
        (.array (checks.map ArityCheck.toJson))

def runRequest (view : FileView) (request : Request) : Except Failure (String × String) := do
  let configuration ← loadConfiguration view request.configuration
  let indexer ← Indexer.ofConfiguration configuration
  let (index, report) := indexer.indexPaths view Index.empty request.files
  let warning := if report.filesIndexed == 0 then "No Ruby files were indexed\n" else ""
  .ok (answer index request.format request.command, warning)

def run (view : FileView) (arguments : List String) : Answer :=
  match Arguments.parse arguments with
  | .version => .printed (programVersion ++ "\n") ""
  | .misuse => .misused
  | .request request =>
      match runRequest view request with
      | .ok (output, warning) => .printed output warning
      | .error failure => .failed failure

end CommandLine

end DeclarationIndex
