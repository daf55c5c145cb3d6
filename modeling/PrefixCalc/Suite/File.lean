import PrefixCalc.Suite.Loader
import PrefixCalc.Suite.Run
import PrefixCalc.Text.Path

/-! # Suite files

A suite is read from a document in a file. What is wrong with the file or the document is
told in the result; what is wrong with a single scalar, with the tolerance of the run, with the
encoding of the file, or with a path that leads to a folder ends the check. -/

namespace PrefixCalc
set_option autoImplicit false

inductive File where
  | absent
  | folder
  /-- The bytes in the file are no text, for the reason that the decoder gives. -/
  | undecodable (reason : Text)
  | text (content : Text)
deriving DecidableEq

/-- What is at a path below a folder that holds just these files. -/
def File.among (files : List (Text × Text)) (path : Text) : File :=
  let parts := path.pathParts
  if path.pathRoot ≠ [] then if parts = [] then .folder else .absent
  else match files.find? (·.1.pathParts == parts) with
    | some f => .text f.2
    | none =>
      if parts.all (· == "..".toList) || files.any (fun f => parts.isPrefixOf f.1.pathParts) then
        .folder
      else .absent

inductive LoadError where
  | notFound (path : Text)
  | malformed
  | empty
  | invalid (details : List Detail)
deriving DecidableEq

def LoadError.message : LoadError → Text
  | notFound path => "File not found: ".toList ++ path
  | malformed => "YAML parse error".toList
  | empty => "File is empty".toList
  | invalid details =>
    "Invalid suite: ".toList ++ Text.ofNat details.length
      ++ (if details.length = 1 then " validation error".toList else " validation errors".toList)
      ++ " for ".toList ++ Suite.modelName
      ++ details.flatMap fun d => '\n' :: d.toText

inductive CheckFault where
  | run (fault : RunFault)
  | scalar (fault : Yaml.ScalarFault)
  /-- A text of the document holds half of a surrogate pair. -/
  | surrogate (n : Nat)
  | folder (path : Text)
  | undecodable (reason : Text)
deriving DecidableEq

def CheckFault.message : CheckFault → Text
  | run fault => fault.message
  | scalar fault => fault.message
  | surrogate n => "surrogates not allowed: ".toList ++ Text.escapeNumber n
  | folder path => "[Errno 21] Is a directory: ".toList ++ path.quoted
  | undecodable reason => reason

namespace Suite

def ofText (loader : Loader) (content : Text) : Except CheckFault (Except LoadError Suite) :=
  match loader.document content with
  | .error .malformed => .ok (.error .malformed)
  | .error (.scalar f) => .error (.scalar f)
  | .error (.surrogate n) => .error (.surrogate n)
  | .ok .null => .ok (.error .empty)
  | .ok d => .ok ((ofDatum loader.number d).mapError .invalid)

def ofFile (loader : Loader) (path : Text) : File → Except CheckFault (Except LoadError Suite)
  | .absent => .ok (.error (.notFound path))
  | .folder => .error (.folder path)
  | .undecodable reason => .error (.undecodable reason)
  | .text content => ofText loader content

end Suite
end PrefixCalc
