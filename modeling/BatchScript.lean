import BatchScript.Main
import BatchScript.Proofs.Cursor.Reach
import BatchScript.Proofs.Rule.Lockstep
import BatchScript.Proofs.Grammar.Nesting
import BatchScript.Proofs.Grammar.Balanced
import BatchScript.Proofs.Rule.Ensures
import BatchScript.Proofs.Rule.Runs
import BatchScript.Proofs.Cursor.Fronts
import BatchScript.Proofs.Tree.Basic
import BatchScript.Proofs.Tree.WellFormed
import BatchScript.Proofs.Grammar.Texts
import BatchScript.Proofs.Grammar.Nodes
import BatchScript.Proofs.Grammar.Shape
import BatchScript.Proofs.Grammar.Limits
import BatchScript.Proofs.Grammar.Misses
import BatchScript.Proofs.Session.Depth
import BatchScript.Proofs.RoundTrip.Words
import BatchScript.Proofs.RoundTrip.Leaves
import BatchScript.Proofs.RoundTrip.Conditions
import BatchScript.Proofs.RoundTrip.Chains
import BatchScript.Proofs.RoundTrip.Bodies
import BatchScript.Proofs.RoundTrip.Statements
import BatchScript.Proofs.Necessity.Leaves
import BatchScript.Proofs.Necessity.Conditions
import BatchScript.Proofs.Necessity.Statements
import BatchScript.Proofs.Session.RoundTrip
import BatchScript.Proofs.Grammar.Alike
import BatchScript.Proofs.Rule.Course
import BatchScript.Proofs.Rule.Record
import BatchScript.Proofs.Grammar.Course
import BatchScript.Proofs.Session.History
import BatchScript.Proofs.Session.GivingUp
import BatchScript.Proofs.Session.Reports
import BatchScript.Proofs.Cursor.Local
import BatchScript.Proofs.Rule.Continued
import BatchScript.Proofs.Grammar.Continued
import BatchScript.Proofs.Grammar.Append
import BatchScript.Proofs.Session.Append
import BatchScript.Proofs.Session.Spelling
import BatchScript.Proofs.Session.Termination
import BatchScript.Proofs.Session.Enclosed
import BatchScript.Proofs.Layout.Nests
import BatchScript.Proofs.Layout.Comments
import BatchScript.Proofs.Layout.Chains
import BatchScript.Proofs.Rule.Marks
import BatchScript.Proofs.Layout.Dangling
import BatchScript.Proofs.Reading.Sources
import BatchScript.Proofs.Reading.Conditions
import BatchScript.Proofs.Reading.Calls
import BatchScript.Proofs.Layout.Redirections
import BatchScript.Proofs.Cursor.Moves
import BatchScript.Proofs.Cursor.Takes
import BatchScript.Proofs.Tree.Json
import BatchScript.Proofs.Outline.Chunks
import BatchScript.Proofs.Outline.Unique
import BatchScript.Proofs.Rule.Notes
import BatchScript.Proofs.Session.Furthest
