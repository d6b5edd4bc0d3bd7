/-
# Drawing materials

A renderer draws materials on a device and keeps the programs it has made.  A program is known by
its shader and by whether it is blended; the shader shows the whole layout, so materials that share
a program also share their layout.

Component `renderer`: `HeadlessRenderer` with `render`, `PipelineKey`, `PipelineCache`.
-/
import ShaderFabric.Render.Device
import ShaderFabric.Render.Shader

namespace ShaderFabric

/-- What a program is known by. -/
structure ProgramKey where
  shader : String
  translucent : Bool
  deriving Repr, DecidableEq

/-- The program of a material. -/
def Material.programKey (material : Material) : ProgramKey :=
  ⟨wrapFragment material.source (Layout.ofBindings material.bindings), material.translucent⟩

/-- The picture to draw. -/
structure DrawOptions where
  width : Nat := 64
  height : Nat := 64
  background : Rgba := ⟨0, 0, 255, 255⟩
  time : Single := Single.zero
  frame : Nat := 0
  deriving Repr, DecidableEq

/-- Why a picture is not drawn. -/
inductive DrawFault
  | destroyed
  | destroyedChild
  | empty (width height : Nat)
  | tooLarge (width height limit : Nat)
  | wideRow (width : Nat)
  deriving Repr, DecidableEq

/-- What a report says of a picture that is not drawn. -/
def DrawFault.message : DrawFault → String
  | destroyed => "cannot render a destroyed material"
  | destroyedChild => "cannot render a material with a destroyed sub-material"
  | empty width height =>
    "render target must not be empty, got " ++ toString width ++ "x" ++ toString height
  | tooLarge width height limit =>
    "render target " ++ toString width ++ "x" ++ toString height ++ " exceeds the device limit of "
      ++ toString limit ++ " pixels per edge"
  | wideRow width => "render target width " ++ toString width ++ " overflows a row"

/-- A program that has been made, with the places that it was made for. -/
structure Pipeline where
  key : ProgramKey
  places : List (Nat × Layout.EntryKind)
  deriving Repr, DecidableEq

/-- A picture as it is handed to the device. -/
structure Drawing where
  options : DrawOptions
  program : Pipeline
  frame : List UInt8
  bound : List (Nat × Layout.Bound)
  deriving Repr, DecidableEq

/-- A device and the programs made so far, in the order in which they were made. -/
structure Renderer where
  device : Device
  programs : List Pipeline
  deriving Repr, DecidableEq

namespace Renderer

/-- A renderer that has not drawn yet. -/
def new (device : Device) : Renderer := ⟨device, []⟩

/-- The program of a key, and the renderer that has it.  A program that is missing is made for the
places of a layout; one that is there is taken for what it was made for. -/
def program (renderer : Renderer) (key : ProgramKey) (layout : Layout) : Pipeline × Renderer :=
  match renderer.programs.find? fun program => program.key = key with
  | some program => (program, renderer)
  | none =>
    let made : Pipeline := ⟨key, layout.entries⟩
    (made, { renderer with programs := renderer.programs ++ [made] })

/-- The first rule that a material or a picture breaks before a program is made. -/
def check (device : Device) (material : Material) (options : DrawOptions) :
    Except DrawFault Unit := do
  if material.destroyed then throw .destroyed
  if !material.isIntact then throw .destroyedChild
  if options.width = 0 ∨ options.height = 0 then throw (.empty options.width options.height)
  if device.edgeLimit < options.width ∨ device.edgeLimit < options.height then
    throw (.tooLarge options.width options.height device.edgeLimit)

/-- The bytes of a row are counted below this. -/
def rowLimit : Nat := 0x100000000

/-- The drawing of a material with a program. -/
def drawing (program : Pipeline) (material : Material) (options : DrawOptions) : Drawing where
  options := options
  program := program
  frame := frameBytes options.width options.height options.time options.frame
  bound := (Layout.ofBindings material.bindings).bound material.bindings

/-- Draws a material.  The program is made before the row is found too wide. -/
def render (renderer : Renderer) (material : Material) (options : DrawOptions) :
    Except DrawFault Drawing × Renderer :=
  match check renderer.device material options with
  | .error fault => (.error fault, renderer)
  | .ok () =>
    let (program, kept) :=
      renderer.program material.programKey (Layout.ofBindings material.bindings)
    if rowLimit ≤ 4 * options.width then (.error (.wideRow options.width), kept)
    else (.ok (drawing program material options), kept)

end Renderer

end ShaderFabric
