/-
# Configurations

What can be configured, the values that hold when nothing is said, and the rules a configuration
has to keep.

Component `loomconfig`: `LoomConfig`, `validate`, `relative_to`.
-/
import ShaderFabric.Config.Duration
import ShaderFabric.Path
import ShaderFabric.Template.Library

namespace ShaderFabric

/-- Settings of texture loading. -/
structure TextureSettings where
  enabled : Bool := true
  workers : Nat := 2
  /-- The directory that paths of images start from. -/
  baseDir : Option String := none
  fetchTimeout : Duration := .ofSeconds 30
  /-- The families of compression to use, in order of preference. -/
  codecs : List Codec := Codec.all
  deriving DecidableEq

/-- Settings of rendering. -/
structure RenderSettings where
  width : Nat := 64
  height : Nat := 64
  background : Rgba := ⟨0, 0, 255, 255⟩
  deriving DecidableEq

/-- A configuration. -/
structure Config where
  version : Nat := 1
  /-- Whether materials are checked strictly. -/
  strict : Bool := true
  textures : TextureSettings := {}
  render : RenderSettings := {}
  /-- Files of further templates by name. -/
  templates : Table String := []
  deriving DecidableEq

/-- A broken rule. -/
inductive ConfigError
  | version (found : Nat)
  | workers (found : Nat)
  | timeout
  | repeatedCodec (codec : Codec)
  | size (width height : Nat)
  | emptyName
  | builtinName (name : String)
  | emptyPath (name : String)
  deriving Repr, DecidableEq

/-- The largest edge of a rendered image. -/
def maxRenderEdge : Nat := 8192

/-- The largest number of workers. -/
def maxWorkers : Nat := 64

/-- What a report says of a broken rule. -/
def ConfigError.message : ConfigError → String
  | version found => "unsupported config version " ++ toString found ++ "; expected 1"
  | workers found =>
    "textures.workers must be between 1 and " ++ toString maxWorkers ++ ", got " ++ toString found
  | timeout => "textures.fetch_timeout must be greater than zero"
  | repeatedCodec codec => "textures.codecs lists '" ++ codec.key ++ "' more than once"
  | size width height =>
    "render.size must be within 1..=" ++ toString maxRenderEdge ++ " on both axes, got "
      ++ toString width ++ "x" ++ toString height
  | emptyName => "template name may not be empty"
  | builtinName name => "template '" ++ name ++ "' shadows a built-in type"
  | emptyPath name => "template '" ++ name ++ "' has an empty path"

namespace Config

/-- The first family of a list that has come before. -/
def firstRepeat (seen : List Codec) : List Codec → Option Codec
  | [] => none
  | codec :: rest => if codec ∈ seen then some codec else firstRepeat (codec :: seen) rest

/-- The rules of one template. -/
def checkTemplate (name path : String) : Except ConfigError Unit :=
  if trimBlanks name = "" then .error .emptyName
  else if (Template.builtins.find? name).isSome then .error (.builtinName name)
  else if path = "" then .error (.emptyPath name)
  else .ok ()

/-- The rules of all templates, in order. -/
def checkTemplates : Table String → Except ConfigError Unit
  | [] => .ok ()
  | (name, path) :: rest => do
    checkTemplate name path
    checkTemplates rest

/-- The rules of a configuration; the first broken one is the answer. -/
def validate (config : Config) : Except ConfigError Unit := do
  if config.version ≠ 1 then throw (.version config.version)
  let workers := config.textures.workers
  if workers = 0 ∨ maxWorkers < workers then throw (.workers workers)
  if config.textures.fetchTimeout.isZero then throw .timeout
  match firstRepeat [] config.textures.codecs with
  | some codec => throw (.repeatedCodec codec)
  | none => pure ()
  let ⟨width, height, _⟩ := config.render
  if width = 0 ∨ height = 0 ∨ maxRenderEdge < width ∨ maxRenderEdge < height then
    throw (.size width height)
  checkTemplates config.templates

/-- The same configuration with its relative paths seen from a directory. -/
def relativeTo (config : Config) (dir : String) : Config :=
  { config with
    textures := { config.textures with baseDir := config.textures.baseDir.map (Path.join dir) }
    templates := Table.mapValues (Path.join dir) config.templates }

end Config

end ShaderFabric
