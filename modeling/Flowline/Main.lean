import Flowline.CommandLine
import Flowline.Environment
import Std.Time.DateTime.Timestamp

/-!
The program: it reads the environment, the files that its arguments name and the clock, and leaves the rest
to the command line.
-/

open Flowline

namespace Flowline.Main

def readFile? (path : String) : IO (Option String) := do
  try
    return some (← IO.FS.readFile path)
  catch _ => return none

def readFiles (paths : List String) : IO (Table String String) := do
  let mut files : Table String String := []
  for path in paths do
    match ← readFile? path with
    | some content => files := files.put path content
    | none => pure ()
  return files

/-- The variables of the environment among some names. -/
def readVariables (names : List String) : IO (Table String String) := do
  let mut vars : Table String String := []
  for name in names do
    match ← IO.getEnv name with
    | some value => vars := vars.put name value
    | none => pure ()
  return vars

def present : IO Moment := do
  let time ← Std.Time.Timestamp.now
  let nanoseconds : Int := time.toNanosecondsSinceUnixEpoch.val
  return (Moment.ofMicros? (nanoseconds / 1000)).getD default

def newName : IO String := do
  let bytes ← IO.getRandomBytes 16
  return String.join (bytes.toList.map fun b => String.ofList (Text.hexDigits 2 b.toNat))

def world (arguments : List String) : IO CommandWorld := do
  let files ← readFiles arguments
  let outer ← readVariables Config.variableNames
  let inner := match ← readFile? ".env" with
    | some text => Environment.ofText outer.get? text
    | none => []
  return {
    environment := Environment.value? outer.get? inner
    file? := files.get?
    now := ← present
    newId := ← newName
    newUuid := ← newName }

end Flowline.Main

def main (arguments : List String) : IO UInt32 := do
  let result := CommandLine.perform (← Main.world arguments) arguments
  (← IO.getStdout).putStr result.output
  match result.complaint? with
  | some text => (← IO.getStderr).putStrLn ("Error: " ++ text)
  | none => pure ()
  return result.exitCode
