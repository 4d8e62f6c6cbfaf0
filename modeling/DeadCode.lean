import DeadCode.Main
import DeadCode.Proofs.Tree.Consistent
import DeadCode.Proofs.Tree.Cut
import DeadCode.Proofs.Tree.Edits
import DeadCode.Proofs.Names.Resolution
import DeadCode.Proofs.Names.Lineage
import DeadCode.Proofs.Names.Store
import DeadCode.Proofs.Names.Layout
import DeadCode.Proofs.Names.Records
import DeadCode.Proofs.Names.Declarers
import DeadCode.Proofs.Names.Crawl
import DeadCode.Proofs.Names.Subtraction
import DeadCode.Proofs.Names.Frame
import DeadCode.Proofs.Names.Closed
import DeadCode.Proofs.Names.Preservation
import DeadCode.Proofs.Names.Following
import DeadCode.Proofs.Names.Unreferenced
import DeadCode.Proofs.Engine.Jobs
import DeadCode.Proofs.Names.Current
import DeadCode.Proofs.Names.Sited
import DeadCode.Proofs.Engine.Followers
import DeadCode.Proofs.Engine.Removals
import DeadCode.Proofs.Engine.History
import DeadCode.Proofs.Engine.Walk
import DeadCode.Proofs.Engine.Candidates
import DeadCode.Proofs.Engine.Passes
import DeadCode.Proofs.Names.Meaning
import DeadCode.Proofs.Names.Checks
import DeadCode.Proofs.Engine.Guarantees
import DeadCode.Proofs.Tree.Remains
import DeadCode.Proofs.Tree.CommaList
import DeadCode.Proofs.Engine.ListMembers
import DeadCode.Proofs.Engine.Edits
import DeadCode.Proofs.Engine.Visits
import DeadCode.Proofs.Engine.Trace
import DeadCode.Proofs.Engine.Dangling
import DeadCode.Proofs.Engine.Declarators
import DeadCode.Proofs.Engine.Stable
import DeadCode.Proofs.Engine.Residue
import DeadCode.Proofs.Engine.Clips
import DeadCode.Proofs.Engine.LegalSteps
import DeadCode.Proofs.Engine.Order
import DeadCode.Proofs.Print.RoundTrip
import DeadCode.Proofs.Engine.Upkeep
import DeadCode.Proofs.Engine.Runs
import DeadCode.Proofs.Print.Gaps
import DeadCode.Proofs.Print.Output
import DeadCode.Proofs.Engine.Exports
import DeadCode.Proofs.Names.Balance
import DeadCode.Proofs.Engine.Returns
import DeadCode.Proofs.Engine.Accounts
import DeadCode.Proofs.Tree.Skeleton
import DeadCode.Proofs.Engine.Reaped
import DeadCode.Proofs.Engine.Skeleton
import DeadCode.Proofs.Program.Files
import DeadCode.Proofs.Program.Actions
import DeadCode.Proofs.Program.Cleaning
import DeadCode.Proofs.Names.Occurrences
import DeadCode.Proofs.Names.Revisions
import DeadCode.Proofs.Engine.Queries
import DeadCode.Proofs.Names.Patterns
import DeadCode.Proofs.Engine.Settled
import DeadCode.Proofs.Names.Recrawl
import DeadCode.Proofs.Engine.Recrawl
import DeadCode.Proofs.Tree.Detach
import DeadCode.Proofs.Print.Shares
import DeadCode.Proofs.Print.Detach
import DeadCode.Proofs.Print.LineBreaks
import DeadCode.Proofs.Print.Trivia
import DeadCode.Proofs.Engine.Imports
import DeadCode.Proofs.Program.SyntaxErrors
import DeadCode.Proofs.Text.FileNames
import DeadCode.Proofs.Program.Outputs
import DeadCode.Proofs.Program.Settings
import DeadCode.Proofs.Engine.Membership
import DeadCode.Proofs.Engine.PassLoop
