import PrefixCalc.CommandLine.Run
import PrefixCalc.Expr.Stack
import PrefixCalc.Main
import PrefixCalc.Proofs.Expr.Postfix
import PrefixCalc.Proofs.Parse.Completion
import PrefixCalc.Proofs.Parse.FailFast
import PrefixCalc.Proofs.Parse.Layout
import PrefixCalc.Proofs.Parse.Span
import PrefixCalc.Proofs.Expr.Substitution
import PrefixCalc.Proofs.Lexeme.Pushback
import PrefixCalc.Proofs.Lexeme.Spans
import PrefixCalc.Proofs.Text.Quoted
import PrefixCalc.Proofs.Parse.Notes
import PrefixCalc.Proofs.Expr.Construction
import PrefixCalc.Proofs.Parse.Truncation
import PrefixCalc.Proofs.Parse.Ending
import PrefixCalc.Proofs.Parse.Bracketing
import PrefixCalc.Proofs.Parse.Shortage
import PrefixCalc.Proofs.Parse.Unreadable
import PrefixCalc.Proofs.Suite.Run
import PrefixCalc.Proofs.Number.Order
import PrefixCalc.Proofs.Number.Reading
import PrefixCalc.Proofs.Suite.Tolerance
import PrefixCalc.Proofs.Items
import PrefixCalc.Proofs.Expr.Constant
import PrefixCalc.Proofs.Expr.Equality
import PrefixCalc.Proofs.Parse.Nonfinite
import PrefixCalc.Proofs.Suite.Verdict
import PrefixCalc.Proofs.Parse.Progress
import PrefixCalc.Proofs.Suite.Acceptance
import PrefixCalc.Proofs.CommandLine.Agreement
