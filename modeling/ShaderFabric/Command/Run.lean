/-
# Running commands

A command line ends in an `Answer`: what is printed, what is reported, and a number that says how it
went.

* 0: the command did what it was told;
* 1: it failed, and the report says why;
* 2: the command line is not one;
* 101: the configuration asks for more time than can be counted.

The configuration is read first, then the name of the fabric, the library of the configuration, and
only then the fabric itself.

Component `loom`: `handle_compose`, `handle_check`, `handle_types`, `render`, `wait_for_textures`.
-/
import ShaderFabric.Command.Load
import ShaderFabric.Material.Lifecycle

namespace ShaderFabric

/-- What a command line leaves. -/
structure Answer where
  status : Nat
  printed : String
  reported : String
  deriving Repr, DecidableEq

/-! ## 1. Texts -/

/-- A text with blanks after it, so that it is at least `width` characters long. -/
def padded (width : Nat) (text : String) : String :=
  text ++ String.ofList (List.replicate (width - text.length) ' ')

/-- A value as `check` shows it. -/
def Value.describe : Value → String
  | bool value => if value then "true" else "false"
  | float value => value.toText
  | texture .neutral => "default image"
  | texture (.location location) => location.url
  | texture (.decoded _) => "in-memory image"
  | texture (.compressed _) => "compressed set"
  | cube .neutral => "default cube map"
  | cube (.faces faces) => "cube map (" ++ faces.positiveX.url ++ ")"
  | channels selector => "\"" ++ selector ++ "\""
  | value => "[" ++ ", ".intercalate ((value.floats?.getD []).map Single.toText) ++ "]"

/-- The line of a binding. -/
def Binding.describe (binding : Binding) : String :=
  let declared := ".".intercalate (binding.path ++ [binding.declared])
  "  " ++ padded 24 binding.name ++ " " ++ padded 12 binding.kind.glslName ++ " "
    ++ padded 24 declared ++ " " ++ binding.value.describe ++ "\n"

/-- What `check` says of a material. -/
def Material.describe (material : Material) : String :=
  let bindings := material.bindings
  "Material: " ++ material.typeName.getD "custom" ++ " ("
    ++ (if material.translucent then "translucent" else "opaque") ++ ")\n"
    ++ "Entry point: " ++ material.function ++ "\n"
    ++ (if bindings.isEmpty then "No uniforms are bound.\n"
      else "Bindings:\n" ++ String.join (bindings.map Binding.describe))

/-- The lines of names; the first `custom` of them belong to one's own templates. -/
def typeLines (custom : Nat) : List String → String
  | [] => ""
  | name :: rest =>
    let origin := if 0 < custom then "custom" else "built-in"
    "  " ++ padded 20 name ++ " " ++ origin ++ "\n" ++ typeLines (custom - 1) rest

/-- What `types` says of a library. -/
def Library.describe (custom : Nat) (library : Library) : String :=
  "Material types:\n" ++ typeLines custom library.names

/-! ## 2. Materials -/

variable {m : Type → Type} [Monad m] (host : Host m)

/-- What a value error, which needs no cause, leaves of a step. -/
def valueStep {α : Type} : Except ValueError α → Step m α
  | .ok value => return value
  | .error error => throw (.plain error.message)

/-- The material of a fabric on the command line. -/
def makeMaterial (config : Config) (arguments : FabricArguments) (library : Library)
    (source : FabricSource) (loader : Loader) (studio : Studio) : Step m (Material × Studio) := do
  let fabric ← source.load host
  let options : MaterialOptions := ⟨arguments.strictness.getD config.strict, none⟩
  match Material.ofFabric library options loader fabric studio with
  | (.ok material, studio) => return (material, studio)
  | (.error error, _) =>
    throw (.because ("failed to build material from '" ++ arguments.fabric ++ "'") [error.message])

/-- The material of a fabric on the command line, without its textures. -/
def bareMaterial (config : Config) (arguments : FabricArguments) : Step m Material := do
  let source ← valueStep (FabricSource.ofText arguments.fabric)
  let library ← buildLibrary host config
  return (← makeMaterial host config arguments library source .disabled ⟨.start 0, .empty⟩).1

/-! ## 3. Pictures -/

/-- The device that pictures are drawn on. -/
def headless : Device := ⟨[.bc, .etc2], 2147483647⟩

/-- The material and the studio after the loads that are done have been applied. -/
def pollNow (device : Device) (material : Material) (studio : Studio) : Material × Studio :=
  let ((_, material), studio) := material.poll device.uploader studio
  (material, studio)

/-- Waits for the textures of a material, unless there is no time for it. -/
def awaitTextures (device : Device) (base : String) (timeout : Duration) (material : Material)
    (studio : Studio) : m (Material × Studio) := do
  let (material, studio) := pollNow device material studio
  if material.pendingTextures = 0 ∨ timeout.isZero then return (material, studio)
  let fetched ← fetchEach host base (studio.pool.queue.flatMap fun work => work.job.locations)
  let drained := studio.drain (Job.run Image.ofFile fun location => fetched.lookup location)
  return pollNow device material drained

/-- Writes a picture.  The format is settled before the file is made, but only once it is there
does a format turn out not to hold pictures of four channels. -/
def writePicture (output : String) (drawing : Drawing) : Step m Unit := do
  let failed (cause : String) : Failure := .because ("failed to write " ++ output) [cause]
  match PictureFormat.ofPath output with
  | .error cause => throw (failed cause)
  | .ok format =>
    match ← host.create output with
    | .error fault => throw (failed fault.message)
    | .ok () =>
      match format.refusal? with
      | some cause => throw (failed cause)
      | none => host.draw output format drawing

/-- Renders a fabric on the command line. -/
def renderFabric (config : Config) (arguments : RenderArguments) : Step m Unit := do
  let source ← valueStep (FabricSource.ofText arguments.fabric.fabric)
  let library ← buildLibrary host config
  let loader := buildLoader config headless.codecs
  let studio : Studio := ⟨.start config.textures.workers, .empty⟩
  let (material, studio) ← makeMaterial host config arguments.fabric library source loader studio
  let waiting : m (Material × Studio) :=
    awaitTextures host headless (imageDir config source) arguments.textureTimeout material studio
  let (material, _) ← waiting
  let (width, height) := arguments.size.getD (config.render.width, config.render.height)
  let options : DrawOptions :=
    { width, height
      background := arguments.background.getD config.render.background
      time := arguments.time
      frame := arguments.frame }
  match ((Renderer.new headless).render material options).1 with
  | .error fault => throw (.plain fault.message)
  | .ok drawing => writePicture host arguments.output drawing

/-! ## 4. Commands -/

/-- Carries out a command and gives what it prints. -/
def Command.run (config : Config) : Command → Step m String
  | types => return (← buildLibrary host config).describe config.templates.length
  | compose arguments => return (← bareMaterial host config arguments).source
  | check arguments => return (← bareMaterial host config arguments).describe
  | render arguments => do
    renderFabric host config arguments
    return ""

/-- What is said to somebody who asks for help. -/
def helpText : String :=
  "Usage: loom [--config FILE] COMMAND\n\nCommands:\n"
    ++ "  compose FABRIC [--strict | --lenient]\n"
    ++ "  check FABRIC [--strict | --lenient]\n"
    ++ "  types\n"
    ++ "  render FABRIC -o PATH [--size WxH] [--background R,G,B,A] [--time SECONDS]\n"
    ++ "         [--frame NUMBER] [--texture-timeout DURATION] [--strict | --lenient]\n"

/-- The name of the program and its version. -/
def versionText : String := "loom 0.1.0\n"

/-- What is left when a command line is not carried out. -/
def Usage.answer : Usage → Answer
  | help => ⟨0, helpText, ""⟩
  | version => ⟨0, versionText, ""⟩
  | _ => ⟨2, "", helpText⟩

/-- Runs a command line. -/
def runCommandLine (surroundings : Surroundings) (words : List String) : m Answer := do
  match Arguments.read surroundings.config words with
  | .error usage => return usage.answer
  | .ok arguments =>
    let steps : Step m String := do
      let config ← loadConfig host surroundings arguments.config
      arguments.command.run host config
    match ← steps.run with
    | .ok printed => return ⟨0, printed, ""⟩
    | .error failure => return ⟨failure.status, "", failure.report⟩

end ShaderFabric
