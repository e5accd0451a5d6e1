import TreeLint.Main
import TreeLint.Proofs.Lint.Document
import TreeLint.Proofs.Lint.Independence
import TreeLint.Proofs.Tree.Occurrence
import TreeLint.Proofs.Lint.Events
import TreeLint.Proofs.Tree.Format
import TreeLint.Proofs.Tree.Acceptance
import TreeLint.Proofs.Tree.Clash
import TreeLint.Proofs.Tree.Recorded
import TreeLint.Proofs.Rule.Registration
import TreeLint.Proofs.Config.Directive
import TreeLint.Proofs.Config.History
import TreeLint.Proofs.Config.LastDirective
import TreeLint.Proofs.Config.Modes
import TreeLint.Proofs.Json.Escape
import TreeLint.Proofs.Json.RoundTrip
import TreeLint.Proofs.Report.RoundTrip
import TreeLint.Proofs.Command.Documents
import TreeLint.Proofs.Command.Content
import TreeLint.Proofs.Text.Position
import TreeLint.Proofs.Text.Layout
import TreeLint.Proofs.Rule.Naming
import TreeLint.Proofs.Tree.Places
import TreeLint.Proofs.Tree.Violation
import TreeLint.Proofs.Tree.Refusal
import TreeLint.Proofs.Tree.Unknown
import TreeLint.Proofs.Command.Precedence
import TreeLint.Proofs.Config.Spelling
import TreeLint.Proofs.Report.Token
import TreeLint.Proofs.Lint.Questions
import TreeLint.Proofs.Rule.Findings
import TreeLint.Proofs.Tree.Calls
import TreeLint.Proofs.Report.Caret
import TreeLint.Proofs.Text.Words
import TreeLint.Proofs.Report.PlainText
import TreeLint.Proofs.Rule.Spacing
