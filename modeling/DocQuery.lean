import DocQuery.Text.Case
import DocQuery.Text.Blank
import DocQuery.Text.Letter
import DocQuery.Number.Arithmetic
import DocQuery.Number.Decimal
import DocQuery.Number.Numeral
import DocQuery.Document.Reader
import DocQuery.Value.Order
import DocQuery.Row
import DocQuery.Token.Lexer
import DocQuery.Statement.Basic
import DocQuery.Statement.Parser
import DocQuery.Limits.Settings
import DocQuery.Sorting.Small
import DocQuery.Sorting.Basic
import DocQuery.Store.Scan
import DocQuery.Plan.Query
import DocQuery.Statement.Check
import DocQuery.Result.Group
import DocQuery.Engine.Basic
import DocQuery.Engine.Session
import DocQuery.Proofs.Except
import DocQuery.Proofs.Keyed
import DocQuery.Proofs.Value.Order
import DocQuery.Proofs.Row
import DocQuery.Proofs.Number.Numeral
import DocQuery.Proofs.Text.Case
import DocQuery.Proofs.Text.Quoted
import DocQuery.Proofs.Value.Key
import DocQuery.Proofs.Store.Reachable
import DocQuery.Proofs.Filter
import DocQuery.Proofs.Store.Scan
import DocQuery.Proofs.Plan.Access
import DocQuery.Proofs.Plan.Alike
import DocQuery.Proofs.Plan.Rearranged
import DocQuery.Proofs.Plan.Walk
import DocQuery.Proofs.Sorting.Order
import DocQuery.Proofs.Sorting.Small
import DocQuery.Proofs.Sorting.Quick
import DocQuery.Proofs.Sorting.Stable
import DocQuery.Proofs.Result.Join
import DocQuery.Proofs.Result.Sort
import DocQuery.Proofs.Store.History
import DocQuery.Proofs.Result.Group
import DocQuery.Proofs.Result.Computed
import DocQuery.Proofs.Statement.Grammar
import DocQuery.Proofs.Statement.Reader
import DocQuery.Proofs.Statement.Soundness
import DocQuery.Proofs.Statement.Names
import DocQuery.Proofs.Statement.Completeness
import DocQuery.Proofs.Statement.Spelling
import DocQuery.Proofs.Statement.Exact
import DocQuery.Proofs.Statement.Calls
import DocQuery.Proofs.Statement.Signature
import DocQuery.Proofs.Engine.Prepared
import DocQuery.Proofs.Engine.Run
import DocQuery.Proofs.Engine.Product
import DocQuery.Proofs.Engine.Single
import DocQuery.Proofs.Engine.Hinted
import DocQuery.Proofs.Engine.Limit
import DocQuery.Proofs.Engine.Safety
import DocQuery.Proofs.Engine.JoinHint
import DocQuery.Proofs.Engine.Rearranged
import DocQuery.Proofs.Engine.Found
import DocQuery.Proofs.Engine.Aggregate
import DocQuery.Proofs.Engine.Grouped
import DocQuery.Proofs.Engine.Partition
import DocQuery.Proofs.Engine.Determined
import DocQuery.Proofs.Engine.Qualified
import DocQuery.Proofs.Engine.Rejoined
import DocQuery.Proofs.Engine.Cells
import DocQuery.Proofs.Engine.Having
import DocQuery.Proofs.Engine.Shadowed
import DocQuery.Proofs.Token.Lexeme
import DocQuery.Proofs.Token.Located
import DocQuery.Proofs.Result.Projection
import DocQuery.Proofs.Engine.Columns
import DocQuery.Proofs.Engine.Merged
import DocQuery.Proofs.Engine.Stars
import DocQuery.Proofs.Engine.Tested
import DocQuery.Proofs.Result.Stable
import DocQuery.Proofs.Result.Extremum
import DocQuery.Proofs.Token.Exact
import DocQuery.Proofs.Token.Respaced
import DocQuery.Proofs.Statement.Stopped
import DocQuery.Proofs.Store.Parts
import DocQuery.Proofs.Engine.Enforced
import DocQuery.Proofs.Engine.Snapshot
import DocQuery.Proofs.Engine.Scans
