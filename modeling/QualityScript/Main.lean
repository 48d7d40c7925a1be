import QualityScript.Tool.Curve
import QualityScript.Tool.Linter
import QualityScript.Tool.Shell

/-!
# The command line

The first argument names a tool, the others are its own. Files are read before the tool runs; the
preview shell reads its input line by line.
-/

namespace QualityScript.Command

open Tool

/-- The number of nested steps that an evaluation may make, and of points that a table may have. -/
def fuel : Nat := 1000000

def readText? (path : String) : IO (Option (String × String)) := do
  try
    return some (path, ← IO.FS.readFile path)
  catch _ => return none

/-- The disk as far as the arguments name its files. A folder is known by the files in it that are
named, so `content_linter content content/*.ron` lints a folder. -/
def readDisk (arguments : List String) : IO Disk := do
  let files ← arguments.filterMapM readText?
  return fun path =>
    match files.lookup path with
    | some text => .file (some text)
    | none => Disk.ofFiles files path

/-- A source with a key of 32 bytes from the system. -/
def readEntropy : IO Randomness.Source := do
  let bytes := (← IO.getRandomBytes 32).toList
  let word (i : Nat) : UInt32 :=
    (bytes.drop (4 * i)).take 4 |>.foldr (fun byte word => word * 256 + byte.toUInt32) 0
  return .keyed ((List.range 8).map word).toArray

def finish (printout : Printout) : IO UInt32 := do
  IO.print printout.output
  IO.eprint printout.errors
  return UInt32.ofNat printout.code

partial def converse (input : IO.FS.Stream) (session : Shell.Session) : IO UInt32 := do
  IO.print Shell.prompt
  (← IO.getStdout).flush
  let line ← input.getLine
  if line.isEmpty then return 0
  match session.reply fuel line with
  | .next output session =>
    IO.print (lines output)
    converse input session
  | .done output =>
    IO.print (lines output)
    return 0
  | .broken => finish (.broken "")

def preview (disk : Disk) (arguments : List String) : IO UInt32 := do
  match Shell.start (← readEntropy) disk arguments with
  | .error printout => finish printout
  | .ok (session, errors) =>
    IO.eprint (lines errors)
    IO.print (lines (Shell.greeting session))
    converse (← IO.getStdin) session

end QualityScript.Command

def main (arguments : List String) : IO UInt32 := do
  let disk ← QualityScript.Command.readDisk (arguments.drop 1)
  match arguments with
  | "chance_curve" :: rest =>
    QualityScript.Command.finish (QualityScript.Tool.Curve.run QualityScript.Command.fuel disk rest)
  | "content_linter" :: rest =>
    QualityScript.Command.finish (QualityScript.Tool.Linter.run QualityScript.Command.fuel disk rest)
  | "preview" :: rest => QualityScript.Command.preview disk rest
  | _ =>
    IO.eprintln "Usage: <chance_curve | content_linter | preview> <arguments>"
    return 1
