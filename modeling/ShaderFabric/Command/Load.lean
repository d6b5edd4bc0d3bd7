/-
# What a command loads

Fabrics and configurations come from files, a configuration also from where the surroundings put it.
The format of a fabric is told by the extension of its file, and that only after the file has been
read.

Component `loom`: `read_fabric`, `load_config`, `build_library`, `build_loader`.
-/
import ShaderFabric.Command.Arguments
import ShaderFabric.Command.Host
import ShaderFabric.Config.Written
import ShaderFabric.Fabric.Written

namespace ShaderFabric

variable {m : Type → Type} [Monad m]

/-- A step of a command. -/
abbrev Step (m : Type → Type) (α : Type) := ExceptT Failure m α

/-- The text of bytes. -/
def textOfBytes (bytes : List UInt8) : Except String String :=
  match String.fromUTF8? bytes.toByteArray with
  | some text => .ok text
  | none => .error "stream did not contain valid UTF-8"

/-- The text of a file; `what` names the file in a report. -/
def readText (host : Host m) (what path : String) : Step m String := do
  let failed (cause : String) : Failure :=
    .because ("failed to read " ++ what ++ " at " ++ path) [cause]
  match ← host.read path with
  | .error fault => throw (failed fault.message)
  | .ok bytes =>
    match textOfBytes bytes with
    | .ok text => return text
    | .error cause => throw (failed cause)

/-! ## 1. Fabrics -/

/-- The form of a text that is no fabric, in words. -/
def faultText (fault : Fault) : String :=
  "failed to parse fabric: " ++ fault.message?.getD "the text is not a fabric"

/-- The fabric of a text, by the extension of its file. -/
def fabricOfText (path text : String) : Except Failure Fabric :=
  let parsed (fabric : Except Fault Fabric) : Except Failure Fabric :=
    match fabric with
    | .ok fabric => .ok fabric
    | .error fault => .error (.because ("failed to parse fabric at " ++ path) [faultText fault])
  match (Path.extension? path).map fun extension => extension.map Char.toLower with
  | some "json" => parsed (Fabric.ofJson text)
  | some "toml" => parsed (Fabric.ofToml text)
  | some other =>
    .error (.plain ("unsupported fabric format '." ++ other ++ "' for " ++ path
      ++ "; expected .json or .toml"))
  | none => .error (.plain ("fabric path " ++ path ++ " has no extension; expected .json or .toml"))

/-- The fabric of a file. -/
def readFabric (host : Host m) (path : String) : Step m Fabric := do
  let text ← readText host "fabric" path
  ExceptT.mk (pure (fabricOfText path text))

/-- The fabric of a source. -/
def FabricSource.load (host : Host m) : FabricSource → Step m Fabric
  | template name => return Fabric.ofType name
  | file path => readFabric host path

/-! ## 2. Configurations -/

/-- Why a text gives no configuration, the nearest cause first. -/
def configCauses : ConfigFault → List String
  | .rule error => [((ConfigFault.rule error).message?).getD ""]
  | fault =>
    let detail := fault.message?.getD "the text is not a configuration"
    ["failed to parse configuration: " ++ detail, detail]

/-- Where the configuration lies when no file is named. -/
def Surroundings.configPath (surroundings : Surroundings) : String :=
  let dir :=
    match surroundings.configDir with
    | some dir => if dir = "" then Path.join surroundings.configHome "loom" else dir
    | none => Path.join surroundings.configHome "loom"
  Path.join dir "config.toml"

/-- The configuration of a file, its paths seen from the directory of the file. -/
def readConfig (host : Host m) (path : String) : Step m Config := do
  match Config.ofToml (← readText host "config" path) with
  | .error .tooLong => throw .stopped
  | .error fault => throw (.because ("failed to load config at " ++ path) (configCauses fault))
  | .ok config =>
    match Path.parent? path with
    | some dir => return config.relativeTo dir
    | none => return config

/-- The configuration of a file that is named, or else of the usual place if there is one. -/
def loadConfig (host : Host m) (surroundings : Surroundings) (named : Option String) :
    Step m Config := do
  match named with
  | some path => readConfig host path
  | none =>
    let path := surroundings.configPath
    if ← host.isThere path then readConfig host path else return {}

/-! ## 3. Libraries -/

/-- The library with the templates of files, one after the other. -/
def addTemplates (host : Host m) (library : Library) : Table String → Step m Library
  | [] => return library
  | (name, path) :: rest => do
    let fabric ← readFabric host path
    match library.register ⟨name, fabric, .never⟩ with
    | (.error error, _) =>
      throw (.because ("failed to register template '" ++ name ++ "'") [error.message])
    | (.ok (), library) => addTemplates host library rest

/-- The library of a configuration. -/
def buildLibrary (host : Host m) (config : Config) : Step m Library :=
  addTemplates host .empty config.templates

/-! ## 4. Textures -/

/-- The loader of a configuration, for a device that samples some families of compression. -/
def buildLoader (config : Config) (supported : List Codec) : Loader :=
  if config.textures.enabled then .ofPreference supported config.textures.codecs else .disabled

/-- The directory that paths of images start from. -/
def imageDir (config : Config) (source : FabricSource) : String :=
  config.textures.baseDir.getD source.baseDir

/-- What locations hold, fetched one after the other. -/
def fetchEach (host : Host m) (base : String) :
    List Location → m (List (Location × Except FetchFault Resource))
  | [] => return []
  | location :: rest => do
    let fetched ← fetchBytes host.read host.transfer base location
    return (location, fetched.map .bytes) :: (← fetchEach host base rest)

end ShaderFabric
