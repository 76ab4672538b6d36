import QueryBook.Main
import QueryBook.Migration.Memory
import QueryBook.Proofs.Arguments
import QueryBook.Proofs.Binary
import QueryBook.Proofs.Block.Code
import QueryBook.Proofs.Block.Concatenation
import QueryBook.Proofs.Block.Grammar
import QueryBook.Proofs.Block.Layout
import QueryBook.Proofs.Block.Lines
import QueryBook.Proofs.Block.Rendered
import QueryBook.Proofs.Block.Terminator
import QueryBook.Proofs.Catalog.Grouping
import QueryBook.Proofs.Catalog.History
import QueryBook.Proofs.Catalog.Lookup
import QueryBook.Proofs.Console.Line
import QueryBook.Proofs.Console.Machine
import QueryBook.Proofs.Console.Migrate
import QueryBook.Proofs.Database.Rules
import QueryBook.Proofs.Database.Submit
import QueryBook.Proofs.Database.Transaction
import QueryBook.Proofs.Database.VersionTable
import QueryBook.Proofs.Fetch
import QueryBook.Proofs.Files.Directory
import QueryBook.Proofs.Migration.AllOrNothing
import QueryBook.Proofs.Migration.Bookkeeping
import QueryBook.Proofs.Migration.CleanStop
import QueryBook.Proofs.Migration.DatabaseSession
import QueryBook.Proofs.Migration.Failure
import QueryBook.Proofs.Migration.FreshStart
import QueryBook.Proofs.Migration.History
import QueryBook.Proofs.Migration.Independence
import QueryBook.Proofs.Migration.Repetition
import QueryBook.Proofs.Migration.Run
import QueryBook.Proofs.Migration.Selection
import QueryBook.Proofs.Migration.Status
import QueryBook.Proofs.Migration.Transcript
import QueryBook.Proofs.Migration.Unhindered
import QueryBook.Proofs.Operation
import QueryBook.Proofs.Patch.Candidates
import QueryBook.Proofs.Patch.Discover
import QueryBook.Proofs.Patch.Problem
import QueryBook.Proofs.Patch.Version
import QueryBook.Proofs.Row
import QueryBook.Proofs.Sorting
import QueryBook.Proofs.Statement.Numbering
import QueryBook.Proofs.Statement.Pieces
import QueryBook.Proofs.Statement.Placeholders
import QueryBook.Proofs.Statement.Rank
import QueryBook.Proofs.Statement.Rendering
import QueryBook.Proofs.Statement.Replacement
import QueryBook.Proofs.Statement.Slices
import QueryBook.Proofs.Statement.Substitution
import QueryBook.Proofs.Statement.Tokens
import QueryBook.Proofs.Text.Boundary
import QueryBook.Proofs.Text.Decimal
import QueryBook.Proofs.Text.Decoding
import QueryBook.Proofs.Text.Lines
import QueryBook.Proofs.Text.Spacing
import QueryBook.Proofs.Text.Utf8
import QueryBook.Proofs.Text.Words
import QueryBook.Proofs.Wire.Buffer
import QueryBook.Proofs.Wire.Float
import QueryBook.Proofs.Wire.Integer
import QueryBook.Proofs.Wire.Time
import QueryBook.Proofs.Wire.Types
import QueryBook.Proofs.Wire.Word
