import TreePath.Text.Blank
import TreePath.Text.Case
import TreePath.Text.Quoted
import TreePath.Binary64.Layout
import TreePath.Binary64.Arithmetic
import TreePath.Json.Reader
import TreePath.Json.Writer
import TreePath.Path.Label
import TreePath.Path.Subscript
import TreePath.Path.Scan
import TreePath.Path.Nesting
import TreePath.Script.Lexemes
import TreePath.Script.Parse
import TreePath.Script.Operand
import TreePath.Script.Eval
import TreePath.Function.Standard
import TreePath.Program.Compile
import TreePath.Trace.Node
import TreePath.Trace.History
import TreePath.Output
import TreePath.Cache
import TreePath.Main
import TreePath.Proofs.Trail.Frames
import TreePath.Proofs.Trail.Sites
import TreePath.Proofs.Trail.Refinement
import TreePath.Proofs.Trail.Steps
import TreePath.Proofs.Path.Quotation
import TreePath.Proofs.Path.Scanning
import TreePath.Proofs.Path.Spelling
import TreePath.Proofs.Path.Continuation
import TreePath.Proofs.Program.Compiled
import TreePath.Proofs.Trail.Locality
import TreePath.Proofs.Program.Suffix
import TreePath.Proofs.Trail.Successors
import TreePath.Proofs.Json.Places
import TreePath.Proofs.Path.Canonical
import TreePath.Proofs.Program.Regular
import TreePath.Proofs.Program.Reselect
import TreePath.Proofs.Script.Lexemes
import TreePath.Proofs.Script.Spacing
import TreePath.Proofs.Script.Embedding
import TreePath.Proofs.Script.Precedence
import TreePath.Proofs.Script.Levels
import TreePath.Proofs.Program.Binding
import TreePath.Proofs.Trail.Visits
import TreePath.Proofs.Trail.Standing
import TreePath.Proofs.Program.Replay
import TreePath.Proofs.Program.Scripts
import TreePath.Proofs.Cache.Recency
import TreePath.Proofs.Json.Descent
import TreePath.Proofs.Program.Descent
import TreePath.Proofs.Trail.Stacks
import TreePath.Proofs.Program.Location
import TreePath.Proofs.Program.Parts
import TreePath.Proofs.Program.Reordering
import TreePath.Proofs.Program.SubPath
import TreePath.Proofs.Program.Flags
import TreePath.Proofs.Program.Outputs
import TreePath.Proofs.Trail.Faults
import TreePath.Proofs.Program.Faults
import TreePath.Proofs.Path.Progression
import TreePath.Proofs.Program.Parents
import TreePath.Proofs.Program.Recall
import TreePath.Proofs.Command.Lines
import TreePath.Proofs.Program.Distinct
import TreePath.Proofs.Path.QuotedNames
import TreePath.Proofs.Program.Literals
import TreePath.Proofs.Program.ComputedKeys
import TreePath.Proofs.Script.Access
import TreePath.Proofs.Script.Comparisons
import TreePath.Proofs.Binary64.Rounding
import TreePath.Proofs.Function.Numbers
import TreePath.Proofs.Program.Listing
import TreePath.Proofs.Trail.KeyPaths
import TreePath.Proofs.Path.Contents
import TreePath.Proofs.Path.QuoteFlags
