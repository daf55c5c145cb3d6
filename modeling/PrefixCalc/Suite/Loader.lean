import PrefixCalc.Suite.NumberRule
import PrefixCalc.Yaml.Document

/-! # Loaders

A loader says what the text of a document holds, and which of its data are numbers. Suites are
loaded by any loader; `Loader.standard` is the one that the program uses. -/

namespace PrefixCalc
set_option autoImplicit false

structure Loader where
  document : Text → Yaml.Result Datum
  number : NumberRule

def Loader.standard : Loader := ⟨Datum.ofYaml, .standard⟩

end PrefixCalc
