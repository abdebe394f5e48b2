import LintReport.Main
import LintReport.Proofs.Diff.Printed
import LintReport.Proofs.Listing
import LintReport.Proofs.Project.MissingConfig
import LintReport.Proofs.Project.PathMeaning
import LintReport.Proofs.Project.SearchPath
import LintReport.Proofs.WellFormed
import LintReport.Proofs.WorkflowCommand
import LintReport.Proofs.OneLine.Records
import LintReport.Proofs.OneLine.Grammar
import LintReport.Proofs.OneLine.Accounting
import LintReport.Proofs.WholeLines
import LintReport.Proofs.OneLine.Concatenation
import LintReport.Proofs.Diff.Trailing
import LintReport.Proofs.Causality
import LintReport.Proofs.Diff.Calls
import LintReport.Proofs.Docstyle.Alignment
import LintReport.Proofs.PrintedPath
import LintReport.Proofs.Validation
import LintReport.Proofs.Defaults
import LintReport.Proofs.Project.NearestConfig
import LintReport.Proofs.Json.Rearranged
import LintReport.Proofs.Console
import LintReport.Proofs.Cursor
import LintReport.Proofs.Diff.HunkStart
