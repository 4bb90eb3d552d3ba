import DeclarationIndex.Failure
import DeclarationIndex.MagicComment

/-! What a user can configure: files to leave out, and further markers of magic comments. -/

namespace DeclarationIndex

structure Configuration where
  excludedPatterns : List String
  excludedMagicComments : List String
  deriving DecidableEq, Inhabited

namespace Configuration

def default : Configuration :=
  ⟨[], []⟩

def markers (configuration : Configuration) : List String :=
  MagicComment.builtInMarkers ++ configuration.excludedMagicComments

def glob (pattern : String) : Except Failure (List GlobToken) :=
  (Glob.parse pattern).mapError (.invalidPattern pattern)

def globs (configuration : Configuration) : Except Failure (List (List GlobToken)) :=
  configuration.excludedPatterns.mapM glob

end Configuration

end DeclarationIndex
