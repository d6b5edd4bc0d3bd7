/-
# A host in memory

Files are a tree, pictures are kept as what they show, and nothing answers on the network.  Paths
that do not start at the root are seen from a working directory.
-/
import ShaderFabric.Command.Host

namespace ShaderFabric

/-- What a file in memory holds. -/
inductive MemoryFile
  | bytes (bytes : List UInt8)
  | picture (format : PictureFormat) (drawing : Drawing)

namespace MemoryFile

/-- The bytes of a file; of a picture only the background is drawn. -/
def toBytes : MemoryFile → List UInt8
  | bytes data => data
  | picture format ⟨⟨width, height, background, _, _⟩, _, _, _⟩ =>
    format.plainFile width height background

/-- The size of the picture in a file. -/
def pictureSize? : MemoryFile → Option (Nat × Nat)
  | bytes data => (Image.ofFile data).toOption.map fun image => (image.width, image.height)
  | picture _ drawing => some (drawing.options.width, drawing.options.height)

end MemoryFile

/-- Files, seen from a working directory. -/
structure Memory where
  files : FileTree MemoryFile
  workingDirectory : String

namespace Memory

/-- The path from the root; the empty path names nothing. -/
def absolute (memory : Memory) (path : String) : String :=
  if path = "" then "" else Path.join memory.workingDirectory path

/-- The file at a path. -/
def file (memory : Memory) (path : String) : Except FileFault MemoryFile :=
  memory.files.read (memory.absolute path)

/-- Whether there is a file or a directory at a path. -/
def isThere (memory : Memory) (path : String) : Bool := memory.files.exists? (memory.absolute path)

/-- The memory with a file. -/
def write (memory : Memory) (path : String) (file : MemoryFile) : Except FileFault Memory :=
  return { memory with files := ← memory.files.write (memory.absolute path) file }

/-- Writes a file if that is possible. -/
def put (path : String) (file : MemoryFile) : StateM Memory (Except FileFault Unit) := do
  match (← get).write path file with
  | .ok memory =>
    set memory
    return .ok ()
  | .error fault => return .error fault

end Memory

/-- The host that a memory is. -/
def Host.memory : Host (StateM Memory) where
  read path := return ((← get).file path).map MemoryFile.toBytes
  isThere path := return (← get).isThere path
  transfer location := return .error (.unanswered location.url "there is no network")
  create path := Memory.put path (.bytes [])
  draw path format drawing := do
    let _ ← Memory.put path (.picture format drawing)

end ShaderFabric
