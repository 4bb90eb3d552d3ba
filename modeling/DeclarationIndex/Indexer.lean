import DeclarationIndex.Configuration.Read
import DeclarationIndex.Declaration.Walk
import DeclarationIndex.File.View
import DeclarationIndex.Glob.Match
import DeclarationIndex.Index.Basic

/-!
Indexing files, one by one or in batches. What a file adds depends on the file and the
configuration alone; a batch leaves out excluded files and, of several paths to one file, all but
the first.
-/

namespace DeclarationIndex

structure Indexer where
  markers : List String
  excluded : List (List GlobToken)
  deriving Inhabited

structure Report where
  filesIndexed : Nat
  filesSkipped : Nat
  entries : Nat
  deriving DecidableEq, Inhabited

namespace Indexer

def ofConfiguration (configuration : Configuration) : Except Failure Indexer := do
  let excluded ← configuration.globs
  .ok ⟨configuration.markers, excluded⟩

def includes (indexer : Indexer) (path : String) : Bool :=
  !indexer.excluded.any (Glob.isMatch · path)

def context (indexer : Indexer) (file : SourceFile) : FileContext where
  path := file.path
  source := file.source
  documentation :=
    ⟨Comment.ofTree file.source file.tree.root, MagicComment.isMagic indexer.markers⟩

def changes (indexer : Indexer) (file : SourceFile) : List Change :=
  changesOf (indexer.context file) file.tree.root

def declared (indexer : Indexer) (file : SourceFile) : List Entry :=
  (indexer.changes file).filterMap Change.declared?

def indexFile (indexer : Indexer) (index : Index) (file : SourceFile) : Index × Nat :=
  (index.applyAll (indexer.changes file), (indexer.declared file).length)

def addFile (indexer : Indexer) (state : Index × Report) (file : SourceFile) : Index × Report :=
  let (index, report) := state
  if indexer.includes file.path then
    let (index, count) := indexer.indexFile index file
    (index, { report with
      filesIndexed := report.filesIndexed + 1, entries := report.entries + count })
  else (index, { report with filesSkipped := report.filesSkipped + 1 })

def indexFiles (indexer : Indexer) (index : Index) (files : List SourceFile) : Index × Report :=
  files.foldl indexer.addFile (index, ⟨0, 0, 0⟩)

def indexPaths (indexer : Indexer) (view : FileView) (index : Index) (paths : List String) :
    Index × Report :=
  let unique := view.firstPaths [] paths
  let files := unique.filterMap fun path => (SourceFile.read view path).toOption
  let (index, report) := indexer.indexFiles index files
  (index, { report with
    filesSkipped := report.filesSkipped + (unique.length - files.length) })

end Indexer

end DeclarationIndex
