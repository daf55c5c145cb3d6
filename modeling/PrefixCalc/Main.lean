import PrefixCalc.CommandLine.Run

/-! # The program

Reads the arguments and the one file that they may name, and tells the outcome. -/

namespace PrefixCalc.CommandLine
set_option autoImplicit false

/-- What the bytes of a file are as a text. -/
def fileOfBytes (bytes : ByteArray) : File :=
  match String.fromUTF8? bytes with
  | some s => .text s.toList
  | none => .undecodable "the content is not UTF-8".toList

/-- What is at a path. A folder can be opened but not read. -/
def fileAt (path : Text) : IO File := do
  try
    return fileOfBytes (← IO.FS.readBinFile (String.ofList path))
  catch e =>
    match e with
    | .noFileOrDirectory .. => return .absent
    | .inappropriateType _ code _ => return if code == 21 then .folder else .absent
    | e => throw e

def tell (o : Outcome) : IO UInt32 := do
  (← IO.getStderr).putStr (String.ofList o.errors)
  (← IO.getStdout).putStr (String.ofList o.output)
  return .ofNat o.status

def tellFailure (status : UInt32) (message : Text) : IO UInt32 := do
  (← IO.getStderr).putStrLn (String.ofList message)
  return status

def Request.path? : Request → Option Text
  | .run _ (.check path ..) => some path.normalPath
  | _ => none

def answer (request : Request) : IO UInt32 := do
  let file ← match request.path? with
    | some path => fileAt path
    | none => pure .absent
  tell (.ofRun (request.outcome .standard fun _ => file))

def runProgram (arguments : List Text) : IO UInt32 :=
  match Request.ofArguments arguments with
  | .ok request => answer request
  | .error (.usage program fault) =>
    tellFailure 2 (helpText ++ '\n' :: (Refusal.usage program fault).message)
  | .error refusal => tellFailure 1 refusal.message

end PrefixCalc.CommandLine

def main (arguments : List String) : IO UInt32 :=
  PrefixCalc.CommandLine.runProgram (arguments.map String.toList)
