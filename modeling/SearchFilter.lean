import SearchFilter.Json.Writer
import SearchFilter.Main
import SearchFilter.Predicate.Compile
import SearchFilter.Statement.Search
import SearchFilter.Proofs.Filter.Leaves
import SearchFilter.Proofs.Predicate.Outline
import SearchFilter.Proofs.Predicate.Compilation
import SearchFilter.Proofs.Sql.Scanning
import SearchFilter.Proofs.Sql.Grammar
import SearchFilter.Proofs.Predicate.Meaning
import SearchFilter.Proofs.Statement.Pieces
import SearchFilter.Proofs.Statement.Supply
import SearchFilter.Proofs.Statement.Rendering
import SearchFilter.Proofs.Filter.Reading
import SearchFilter.Proofs.Filter.Admission
import SearchFilter.Proofs.Predicate.SameShape
import SearchFilter.Proofs.Statement.Indifference
import SearchFilter.Proofs.Predicate.Alignment
import SearchFilter.Proofs.Statement.Substitution
import SearchFilter.Proofs.Filter.Acceptance
import SearchFilter.Proofs.Statement.Tokens
import SearchFilter.Proofs.Statement.Selecting
import SearchFilter.Proofs.Statement.Rows
import SearchFilter.Proofs.Engine.Content
import SearchFilter.Proofs.Table.Content
import SearchFilter.Proofs.Predicate.Collecting
import SearchFilter.Proofs.Filter.Places
import SearchFilter.Proofs.Filter.Complaints
import SearchFilter.Proofs.Json.Names
import SearchFilter.Proofs.Filter.Rebuilding
import SearchFilter.Proofs.Text.Passed
import SearchFilter.Proofs.Statement.Awaited
import SearchFilter.Proofs.Statement.Casts
import SearchFilter.Proofs.Predicate.Reordering
import SearchFilter.Proofs.Filter.Order
import SearchFilter.Proofs.Json.Decoded
import SearchFilter.Proofs.Json.Depth
import SearchFilter.Proofs.Json.Numerals
import SearchFilter.Proofs.Json.Spelled
import SearchFilter.Proofs.Filter.SpelledLeaves
import SearchFilter.Proofs.Numeric.Digits
import SearchFilter.Proofs.Json.Integers
import SearchFilter.Proofs.Numeric.Rounding
import SearchFilter.Proofs.Numeric.Shortest
import SearchFilter.Proofs.Json.Positional
import SearchFilter.Proofs.Json.Decimals
import SearchFilter.Proofs.Json.Kept
import SearchFilter.Proofs.Filter.Numbers
import SearchFilter.Proofs.Settings.Layering
import SearchFilter.Proofs.Schema.Extensions
import SearchFilter.Proofs.Json.Strings
import SearchFilter.Proofs.Json.Extent
import SearchFilter.Proofs.Filter.Room
import SearchFilter.Proofs.Filter.Fans
import SearchFilter.Proofs.Statement.Capacity
import SearchFilter.Proofs.Json.SkippedParts
import SearchFilter.Proofs.Json.Skipping
import SearchFilter.Proofs.Settings.Sections
import SearchFilter.Proofs.Settings.UnknownKeys
import SearchFilter.Proofs.Settings.Expansion
import SearchFilter.Proofs.Except
import SearchFilter.Proofs.Filter.Alone
import SearchFilter.Proofs.Engine.Lookup
import SearchFilter.Proofs.Table.Labels
import SearchFilter.Proofs.Engine.Search
import SearchFilter.Proofs.Engine.Keys
