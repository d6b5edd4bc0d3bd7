/-
# The program

Commands on the files of the machine.  Nothing is transferred from the network, and of a picture
only the background is drawn.
-/
import ShaderFabric.Command.Run

namespace ShaderFabric

/-- The fault that an error of the machine stands for. -/
def faultOfError : IO.Error → FileFault
  | .noFileOrDirectory .. => .missing
  | error => .other (toString error)

/-- An action that may fail, with its fault. -/
def attempt {α : Type} (action : IO α) : IO (Except FileFault α) := do
  try return .ok (← action) catch error => return .error (faultOfError error)

/-- The bytes of a file. -/
def readFile (path : String) : IO (Except FileFault (List UInt8)) :=
  attempt do return (← IO.FS.readBinFile path).toList

/-- Makes a file. -/
def writeFile (path : String) (bytes : List UInt8) : IO (Except FileFault Unit) :=
  attempt (IO.FS.writeBinFile path bytes.toByteArray)

/-- The host that the machine is. -/
def Host.machine : Host IO where
  read := readFile
  isThere path := return (← readFile path) matches .ok _ | .error (.other _)
  transfer location := return .error (.unanswered location.url "there is no network")
  create path := writeFile path []
  draw path format drawing := do
    let ⟨width, height, background, _, _⟩ := drawing.options
    let _ ← writeFile path (format.plainFile width height background)

/-- The directory of the user's configurations. -/
def configHome (home xdg : Option String) : String :=
  match xdg with
  | some dir => if Path.isAbsolute dir then dir else Path.join (home.getD "/") ".config"
  | none => Path.join (home.getD "/") ".config"

/-- What the environment of the program says. -/
def surroundings : IO Surroundings := do
  return {
    config := ← IO.getEnv "LOOM_CONFIG"
    configDir := ← IO.getEnv "LOOM_CONFIG_DIR"
    configHome := configHome (← IO.getEnv "HOME") (← IO.getEnv "XDG_CONFIG_HOME") }

end ShaderFabric

open ShaderFabric in
def main (words : List String) : IO UInt32 := do
  let answer ← runCommandLine Host.machine (← surroundings) words
  IO.print answer.printed
  IO.eprint answer.reported
  return answer.status.toUInt32
