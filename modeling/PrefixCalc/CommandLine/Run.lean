import PrefixCalc.CommandLine.Request
import PrefixCalc.Suite.Check
import PrefixCalc.Suite.Report

/-! # Running requests

A request gives an exit status, what is printed, and what is said beside it: the notes that
are important enough, and an error of the expression. -/

namespace PrefixCalc.CommandLine
set_option autoImplicit false

structure Outcome where
  status : Nat
  output : Text
  errors : Text
deriving DecidableEq

def line (t : Text) : Text := t ++ ['\n']

/-- A check that ends in a fault tells the fault and nothing else. -/
def Outcome.ofFault (f : CheckFault) : Outcome := ⟨1, [], line f.message⟩

def Outcome.ofRun : Except CheckFault Outcome → Outcome
  | .ok o => o
  | .error f => ofFault f

/-- Warnings are always told, other notes on demand. -/
def notesText (verbose : Bool) (notes : List Note) : Text :=
  (notes.filter fun n => verbose || n.level == .warning).flatMap fun n => line n.toText

def showExpression (verbose : Bool) (expression : Text) (render : Expr → Text) : Outcome :=
  let notes := notesText verbose (Note.ofParse expression)
  match parse expression with
  | .ok e => ⟨0, line (render e), notes⟩
  | .error e => ⟨2, [], notes ++ line ("error: ".toList ++ e.message)⟩

/-- The result as indented text, or as a summary. A value that is not finite is written by
name, so the text is always there. -/
def resultText (asJson : Bool) (r : SuiteResult) : Text :=
  if asJson then (r.toJson.write? 0).getD [] else r.summary

def showCheck (verbose asJson : Bool) (c : Check) : Outcome :=
  ⟨if c.result.valid then 0 else 1, line (resultText asJson c.result),
    notesText verbose c.notes⟩

/-- The outcome of a command, where `files` says what is at each path. -/
def Command.run (loader : Loader) (files : Text → File) (verbose : Bool) :
    Command → Except CheckFault Outcome
  | eval expression point =>
    .ok (showExpression verbose expression fun e => (e.eval point).format)
  | postfixForm expression => .ok (showExpression verbose expression Expr.toPostfix)
  | prefixForm expression => .ok (showExpression verbose expression Expr.toPrefix)
  | check path tolerance asJson =>
    (Check.ofFile loader path (files path.normalPath) tolerance).map (showCheck verbose asJson)

def versionText : Text := Request.program ++ " 1.0.0".toList

def helpText : Text :=
  "usage: ".toList ++ Request.program ++ " [--help] [--version] [--verbose] ".toList
    ++ Text.joinWith ['|'] (CommandName.all.map CommandName.name) ++ " ...".toList

def Request.outcome (loader : Loader) (files : Text → File) :
    Request → Except CheckFault Outcome
  | .help => .ok ⟨0, line helpText, []⟩
  | .version => .ok ⟨0, line versionText, []⟩
  | .run verbose command => command.run loader files verbose

end PrefixCalc.CommandLine
