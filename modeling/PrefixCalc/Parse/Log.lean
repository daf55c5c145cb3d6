import PrefixCalc.Text.Quoted
import PrefixCalc.Parse.Basic

/-! # The notes of a parse as text -/

namespace PrefixCalc.Parse
set_option autoImplicit false

def Event.toText : Event → Text
  | .analyzing l =>
    "Analyzing lexeme ".toList ++ l.text.quoted ++ " at ".toList ++ Text.ofNat (l.start + 1)
  | .built op n =>
    "Built operation ".toList ++ op.symbol ++ " with ".toList ++ Text.ofNat n
      ++ " operands".toList

end PrefixCalc.Parse
