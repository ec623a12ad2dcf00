import Brushwork.CommandLine.Answer

/-!
# The program

Reads and writes the files of the system and prints the answer to the command
line. All decisions are those of `CommandLine.plan`.
-/

namespace Brushwork.CommandLine

/-- The system's number for a path that goes on from a file; some calls report it negated. -/
def notDirectoryCode : UInt32 := 20

/-- The system's number for a name that is too long; some calls report it negated. -/
def nameTooLongCode : UInt32 := 36

def FileFault.ofSystem (e : IO.Error) : FileFault :=
  match e with
  | .noFileOrDirectory .. => .missing
  | .inappropriateType _ code _ =>
    if code = notDirectoryCode || code = -notDirectoryCode then .notDirectory else .isDirectory
  | .invalidArgument _ code _ =>
    if code = nameTooLongCode || code = -nameTooLongCode then .nameTooLong
    else .other (toString e)
  | _ => .other (toString e)

def readSystemFile (path : Text) : IO (Except FileFault Text) := do
  try
    let bytes ← IO.FS.readBinFile (String.ofList path)
    match String.fromUTF8? bytes with
    | some text => return .ok text.toList
    | none => return .error .notText
  catch e => return .error (.ofSystem e)

def writeSystemFile (path text : Text) : IO (Except FileFault Unit) := do
  try
    IO.FS.writeFile (String.ofList path) (String.ofList text)
    return .ok ()
  catch e => return .error (.ofSystem e)

def Invocation.input? : Invocation → Option Text
  | .run request => some request.input
  | .check request => some request.input
  | .colors | .version => none

def Answer.deliver (answer : Answer) : IO UInt32 := do
  IO.print answer.printed
  if let some reason := answer.reason then
    IO.eprintln reason.message
  return answer.exitCode.toUInt32

end Brushwork.CommandLine

open Brushwork.CommandLine

def main (arguments : List String) : IO UInt32 := do
  let words := arguments.map String.toList
  let input ← match (Invocation.read? words).bind Invocation.input? with
    | some path => readSystemFile path
    | none => pure (.error .missing)
  match plan (fun _ => input) words with
  | .error refusal => refusal.answer.deliver
  | .ok plan =>
    match plan.file with
    | none => plan.answer.deliver
    | some (path, text) =>
      match ← writeSystemFile path text with
      | .ok () => plan.answer.deliver
      | .error fault => (Refusal.cannotWrite path fault).answer.deliver
