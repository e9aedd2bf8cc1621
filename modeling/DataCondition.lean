import DataCondition.Atom.Writing
import DataCondition.Constraint.Document
import DataCondition.Constraint.Parsed
import DataCondition.Tree.Rendering
import DataCondition.Tree.Walk
import DataCondition.Proofs.Grammar.Basic
import DataCondition.Proofs.Token.Depth
import DataCondition.Proofs.Tree.Counter
import DataCondition.Proofs.Tree.Erasure
import DataCondition.Proofs.Tree.Nodes
import DataCondition.Proofs.Tree.Numbers
import DataCondition.Proofs.Tree.DisjunctNumbers
import DataCondition.Proofs.Tree.ConjunctionNumbers
import DataCondition.Proofs.Tree.Shape
import DataCondition.Proofs.Tree.Nesting
import DataCondition.Proofs.Grammar.Disjuncts
import DataCondition.Proofs.Tree.Conjunction
import DataCondition.Proofs.Grammar.Alternatives
import DataCondition.Proofs.Grammar.Soundness
import DataCondition.Proofs.Grammar.LogicTree
import DataCondition.Proofs.Grammar.Acceptance
import DataCondition.Proofs.Grammar.Meaning
import DataCondition.Proofs.Grammar.Shape
import DataCondition.Proofs.Text.Parentheses
import DataCondition.Proofs.Token.Normal
import DataCondition.Proofs.Token.Folding
import DataCondition.Proofs.Token.FlatLists
import DataCondition.Proofs.Token.Parentheses
import DataCondition.Proofs.Grammar.Atoms
import DataCondition.Proofs.Condition.Balance
import DataCondition.Proofs.Atom.Subject
import DataCondition.Proofs.Condition.Subjects
import DataCondition.Proofs.Grammar.Places
import DataCondition.Proofs.Grammar.Numbers
import DataCondition.Proofs.Atom.Comparison
import DataCondition.Proofs.Condition.Comparisons
import DataCondition.Proofs.Token.Item
import DataCondition.Proofs.Token.Written
import DataCondition.Proofs.Token.ItemTokens
import DataCondition.Proofs.Condition.Items
import DataCondition.Proofs.Tree.Printing
import DataCondition.Proofs.Grammar.NormalForms
import DataCondition.Proofs.Token.Enclosed
import DataCondition.Proofs.Token.Membership
import DataCondition.Proofs.Condition.Lists
import DataCondition.Proofs.Text.Spaces
import DataCondition.Proofs.Token.Entry
import DataCondition.Proofs.Atom.Membership
import DataCondition.Proofs.Condition.Entries
import DataCondition.Proofs.Condition.Atoms
import DataCondition.Proofs.Grammar.Frames
import DataCondition.Proofs.Grammar.Redundancy
import DataCondition.Proofs.Cache.Check
import DataCondition.Proofs.Cache.Lookup
import DataCondition.Proofs.Constraint.Parsed
import DataCondition.Proofs.Constraint.Session
import DataCondition.Proofs.Condition.Rendering
import DataCondition.Proofs.Token.Matching
import DataCondition.Proofs.Tree.Parentheses
import DataCondition.Proofs.Token.Neighbours
import DataCondition.Proofs.Tree.DisjunctFaults
import DataCondition.Proofs.Tree.Alternation
import DataCondition.Proofs.Tree.Gathered
import DataCondition.Proofs.Tree.KeptTests
import DataCondition.Proofs.Condition.Height
import DataCondition.Proofs.Condition.Ink
import DataCondition.Proofs.Atom.Redecoding
import DataCondition.Proofs.Condition.Redecoding
import DataCondition.Proofs.Constraint.Window
import DataCondition.Proofs.Constraint.Line
import DataCondition.Proofs.Atom.Range
import DataCondition.Proofs.Tree.Walk
import DataCondition.Proofs.Json.Quoted
import DataCondition.Proofs.Json.Exact
import DataCondition.Proofs.Tree.Document
import DataCondition.Proofs.Condition.Words
