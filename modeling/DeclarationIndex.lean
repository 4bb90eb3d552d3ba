import DeclarationIndex.CommandLine.Run
import DeclarationIndex.File.System
import DeclarationIndex.Index.Lookup
import DeclarationIndex.Main
import DeclarationIndex.Tree.Json
import DeclarationIndex.Proofs.Declaration.Retrace
import DeclarationIndex.Proofs.Naming
import DeclarationIndex.Proofs.Declaration.Insertion
import DeclarationIndex.Proofs.Declaration.Nesting
import DeclarationIndex.Proofs.Declaration.Bodies
import DeclarationIndex.Proofs.Declaration.Arguments
import DeclarationIndex.Proofs.Declaration.Sections
import DeclarationIndex.Index.Edit
import DeclarationIndex.Proofs.Index.Append
import DeclarationIndex.Proofs.Batch.OneByOne
import DeclarationIndex.Proofs.Batch.RealFiles
import DeclarationIndex.Proofs.Declaration.Examined
import DeclarationIndex.Proofs.Declaration.Sites
import DeclarationIndex.Proofs.Documentation
import DeclarationIndex.Proofs.Index.LastWrite
import DeclarationIndex.Proofs.Index.Reindex
import DeclarationIndex.Proofs.Visibility.Settled
import DeclarationIndex.Proofs.Visibility.Writes
import DeclarationIndex.Proofs.Visibility.Constants
import DeclarationIndex.Proofs.Visibility.Methods
import DeclarationIndex.Proofs.Json.Number
import DeclarationIndex.Proofs.Json.Text
import DeclarationIndex.Proofs.Json.Written
import DeclarationIndex.Proofs.Json.Record
import DeclarationIndex.Proofs.Entry.RoundTrip
import DeclarationIndex.Proofs.Declaration.Chains
import DeclarationIndex.Proofs.Arity
import DeclarationIndex.Proofs.Documentation.Scan
import DeclarationIndex.Proofs.Visibility.Hiding
import DeclarationIndex.Proofs.Index.Removal
import DeclarationIndex.Proofs.Index.Ranking
import DeclarationIndex.Proofs.Index.ShortQueries
import DeclarationIndex.Proofs.Naming.WellFormed
import DeclarationIndex.Proofs.Declaration.Recovery
import DeclarationIndex.Proofs.Parameter
import DeclarationIndex.Proofs.MagicComment.Expression
import DeclarationIndex.Proofs.MagicComment
import DeclarationIndex.Proofs.Text.ByteOrder
import DeclarationIndex.Proofs.Index.Slices
import DeclarationIndex.Proofs.Index.History
import DeclarationIndex.Proofs.Index.Aliases
import DeclarationIndex.Proofs.Similarity.Order
import DeclarationIndex.Proofs.Index.FloatScores
import DeclarationIndex.Proofs.Index.Enumeration
import DeclarationIndex.Proofs.Statistics.Tally
import DeclarationIndex.Proofs.Statistics.Agreement
import DeclarationIndex.Proofs.Declaration.Balance
import DeclarationIndex.Proofs.Tree.Cursor
import DeclarationIndex.Proofs.Comment
import DeclarationIndex.Proofs.Declaration.Qualification
