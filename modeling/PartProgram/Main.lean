import PartProgram.CommandLine.Run
import Std.Time

/-!
# PartProgram.Main

The command itself: it fetches the program file and the date, runs the request, and carries out what
the request came to.
-/

open PartProgram PartProgram.CommandLine

/-- The part of the file system that a request may look at. -/
def fetch (r : Request) : IO Directory := do
  let path := Path.ofString r.command.file
  try
    return { files := [(path.names, ← IO.FS.readFile path.render)] }
  catch _ => return {}

def store (names : List String) (text : String) : IO Unit := do
  IO.FS.createDirAll ("/".intercalate ("." :: names.dropLast))
  IO.FS.writeFile ("/".intercalate ("." :: names)) text

def main (arguments : List String) : IO UInt32 := do
  match Request.parse? arguments with
  | none =>
    IO.eprintln "usage: partprogram [-v] [-q] [--log-level LEVEL] (optimize | toolpath) FILE ..."
    return 2
  | some r =>
    let day ← Std.Time.PlainDate.now
    let tracing := Setting.isOn (← IO.getEnv "PARTPROGRAM_TRACE")
    match r.run (← fetch r) day.toLeanDateString tracing with
    | .error fault =>
      IO.eprintln fault.message
      return 1
    | .ok o =>
      IO.print o.output
      for (names, text) in o.written do
        store names text
      for record in o.log do
        IO.eprintln (record.level.name ++ " " ++ record.message)
      return o.exitCode.toUInt32
