import SearchFilter.Program.Run

/-!
# The command

Runs the program on the files, the environment and the standard input that it finds.
-/

namespace SearchFilter.Program

/-- What stands at a path of the file system. Reading a folder fails with code 21. -/
def lookAt (path : String) : IO (Option Settings.Entry) := do
  try
    let bytes ← IO.FS.readBinFile path
    match String.fromUTF8? bytes with
    | some text => return some (.text text)
    | none => return some .binary
  catch
    | .inappropriateType _ 21 _ => return some .folder
    | _ => return none

def readInput : IO (Option String) := do
  let bytes ← (← IO.getStdin).readBinToEnd
  return String.fromUTF8? bytes

def surroundings : IO (Surroundings IO) := do
  return {
    home := (← IO.getEnv "HOME").getD "/"
    workingDirectory := (← IO.currentDir).toString
    environment := fun name => IO.getEnv name
    look := lookAt
    input := readInput }

end SearchFilter.Program

/-- Prints what the program prints. Unknown keys are warned about unless the log is off. -/
def main (arguments : List String) : IO UInt32 := do
  let level := (← IO.getEnv SearchFilter.Environment.logVariable).getD "info"
  if let some notice := SearchFilter.startNotice level then IO.eprintln notice
  let outcome ← SearchFilter.Program.run (← SearchFilter.Program.surroundings) arguments
  if level ≠ "off" then
    for keys in outcome.unknownKeys do
      IO.eprintln ("Unknown fields in config file (possible typos): " ++ ", ".intercalate keys)
  IO.print outcome.output
  IO.eprint outcome.complaint
  return UInt32.ofNat outcome.exitCode
