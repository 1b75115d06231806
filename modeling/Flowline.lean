import Flowline.Action
import Flowline.Bus
import Flowline.CommandLine
import Flowline.Condition.Basic
import Flowline.Condition.Catalogue
import Flowline.Condition.Evaluation
import Flowline.Condition.Operators
import Flowline.Config
import Flowline.Digest
import Flowline.Engine.Basic
import Flowline.Engine.Failure
import Flowline.Engine.Operation
import Flowline.Engine.Segment
import Flowline.Engine.Suspension
import Flowline.Environment
import Flowline.Execution.Basic
import Flowline.Execution.Output
import Flowline.Execution.Record
import Flowline.Execution.Result
import Flowline.Expression.Evaluation
import Flowline.Expression.Library
import Flowline.Expression.Parser
import Flowline.Expression.Syntax
import Flowline.Expression.Token
import Flowline.Fault
import Flowline.Json.Read
import Flowline.Json.Write
import Flowline.Main
import Flowline.Node.Data
import Flowline.Node.Decision
import Flowline.Node.Dispatch
import Flowline.Node.Suspension
import Flowline.Notification
import Flowline.Number.Double
import Flowline.Number.Numeral
import Flowline.Number.Shortest
import Flowline.Path
import Flowline.Proofs.Condition.Comparisons
import Flowline.Proofs.Condition.Faults
import Flowline.Proofs.Condition.Groups
import Flowline.Proofs.Condition.Identity
import Flowline.Proofs.Condition.Windows
import Flowline.Proofs.Engine.Books
import Flowline.Proofs.Engine.Branches
import Flowline.Proofs.Engine.Chain
import Flowline.Proofs.Engine.Deadlines
import Flowline.Proofs.Engine.Deeds
import Flowline.Proofs.Engine.Frame
import Flowline.Proofs.Engine.Freezing
import Flowline.Proofs.Engine.History
import Flowline.Proofs.Engine.Joins
import Flowline.Proofs.Engine.Kept
import Flowline.Proofs.Engine.LifeCycle
import Flowline.Proofs.Engine.Limits
import Flowline.Proofs.Engine.Merges
import Flowline.Proofs.Engine.Moves
import Flowline.Proofs.Engine.Overlap
import Flowline.Proofs.Engine.Parts
import Flowline.Proofs.Engine.Records
import Flowline.Proofs.Engine.Reload
import Flowline.Proofs.Engine.Repetition
import Flowline.Proofs.Engine.Resuming
import Flowline.Proofs.Engine.Retries
import Flowline.Proofs.Engine.Scheduling
import Flowline.Proofs.Engine.Segment
import Flowline.Proofs.Engine.Settling
import Flowline.Proofs.Engine.Signals
import Flowline.Proofs.Engine.Transparency
import Flowline.Proofs.Engine.Upshots
import Flowline.Proofs.Engine.Wakeup
import Flowline.Proofs.Execution.Later
import Flowline.Proofs.Execution.Reload
import Flowline.Proofs.Execution.Sound
import Flowline.Proofs.Execution.Touched
import Flowline.Proofs.Expression.Completeness
import Flowline.Proofs.Expression.Division
import Flowline.Proofs.Expression.Faults
import Flowline.Proofs.Expression.Filling
import Flowline.Proofs.Expression.Grammar
import Flowline.Proofs.Expression.Indices
import Flowline.Proofs.Expression.Lexing
import Flowline.Proofs.Expression.Literals
import Flowline.Proofs.Expression.Numerals
import Flowline.Proofs.Expression.NumericTexts
import Flowline.Proofs.Expression.Paths
import Flowline.Proofs.Expression.Precedence
import Flowline.Proofs.Expression.References
import Flowline.Proofs.Expression.Rendering
import Flowline.Proofs.Expression.Soundness
import Flowline.Proofs.Expression.Tokens
import Flowline.Proofs.Expression.Writing
import Flowline.Proofs.Node.Data
import Flowline.Proofs.Node.Deadline
import Flowline.Proofs.Node.Dispatch
import Flowline.Proofs.Node.Effect
import Flowline.Proofs.Node.Frame
import Flowline.Proofs.Node.Joins
import Flowline.Proofs.Node.Loops
import Flowline.Proofs.Node.Merges
import Flowline.Proofs.Node.Next
import Flowline.Proofs.Node.Resuming
import Flowline.Proofs.Node.Single
import Flowline.Proofs.Node.Suspension
import Flowline.Proofs.Number.Arithmetic
import Flowline.Proofs.Number.Double
import Flowline.Proofs.Number.Exact
import Flowline.Proofs.Number.Nearest
import Flowline.Proofs.Number.Order
import Flowline.Proofs.Number.Rounded
import Flowline.Proofs.Number.Shortest
import Flowline.Proofs.Number.Spelling
import Flowline.Proofs.Path
import Flowline.Proofs.RateLimiter
import Flowline.Proofs.Schedule
import Flowline.Proofs.Session.Frame
import Flowline.Proofs.Session.Leads
import Flowline.Proofs.Sorting
import Flowline.Proofs.Store.Agreement
import Flowline.Proofs.Store.Rows
import Flowline.Proofs.Table
import Flowline.Proofs.Template
import Flowline.Proofs.Time.Iso
import Flowline.Proofs.Time.Reading
import Flowline.Proofs.Value.Distinct
import Flowline.Proofs.Value.Entries
import Flowline.Proofs.Value.Faults
import Flowline.Proofs.Value.Flattening
import Flowline.Proofs.Value.Records
import Flowline.Proofs.Value.Sorting
import Flowline.Proofs.Walk.Account
import Flowline.Proofs.Walk.Bounded
import Flowline.Proofs.Walk.Chain
import Flowline.Proofs.Walk.Frame
import Flowline.Proofs.Walk.Parts
import Flowline.Proofs.Walk.Suspended
import Flowline.Proofs.Walk.Unbounded
import Flowline.Proofs.Walk.Visits
import Flowline.Proofs.Workflow.Chain
import Flowline.Proofs.Workflow.Definitions
import Flowline.Proofs.Workflow.Export
import Flowline.Proofs.Workflow.Reading
import Flowline.Proofs.Workflow.Reload
import Flowline.Proofs.Workflow.Undelayed
import Flowline.Proofs.Yaml.Nodes
import Flowline.Proofs.Yaml.Numbers
import Flowline.Proofs.Yaml.Quoting
import Flowline.Proofs.Yaml.Reread
import Flowline.Proofs.Yaml.Scalars
import Flowline.Proofs.Yaml.Scanning
import Flowline.Proofs.Yaml.Values
import Flowline.RateLimiter
import Flowline.Regex.Matcher
import Flowline.Regex.Parser
import Flowline.Regex.Syntax
import Flowline.Retry
import Flowline.Schedule
import Flowline.Session
import Flowline.Signal
import Flowline.Store
import Flowline.Store.Database
import Flowline.Store.Memory
import Flowline.Store.Page
import Flowline.Table
import Flowline.Template
import Flowline.Text.Blank
import Flowline.Text.Case
import Flowline.Text.Digit
import Flowline.Text.Printable
import Flowline.Text.Quoted
import Flowline.Text.Ranges
import Flowline.Text.Search
import Flowline.Text.Word
import Flowline.Time.Date
import Flowline.Time.Dated
import Flowline.Time.Format
import Flowline.Time.Calendar
import Flowline.Time.Iso
import Flowline.Time.Moment
import Flowline.Time.Reading
import Flowline.Value.Basic
import Flowline.Value.Collection
import Flowline.Value.Convert
import Flowline.Value.Display
import Flowline.Value.Equality
import Flowline.Value.Number
import Flowline.Value.Sorting
import Flowline.Value.Text
import Flowline.Walk
import Flowline.Workflow.Basic
import Flowline.Workflow.Record
import Flowline.Workflow.Source
import Flowline.Workflow.Validation
import Flowline.Yaml.Node
import Flowline.Yaml.Scalar
import Flowline.Yaml.Tag
import Flowline.Yaml.Token
import Flowline.Yaml.Tokens
import Flowline.Yaml.Write
