import PrefixCalc.Text.Basic

/-! # Paths

The parts of a path stand between slashes. Empty parts and parts of one point count for
nothing; two slashes at the start are not the same as one, and three or more are. -/

namespace PrefixCalc.Text
set_option autoImplicit false

def pathParts (path : Text) : List Text :=
  (path.splitOn '/').filter fun part => part != [] && part != ['.']

/-- The slashes that a path starts with, as far as they count. -/
def pathRoot (path : Text) : Text :=
  match (path.takeWhile (· == '/')).length with
  | 0 => []
  | 2 => ['/', '/']
  | _ => ['/']

/-- The shortest writing of a path; a point stands for a path without parts. -/
def normalPath (path : Text) : Text :=
  match pathRoot path ++ joinWith ['/'] (pathParts path) with
  | [] => ['.']
  | p => p

end PrefixCalc.Text
