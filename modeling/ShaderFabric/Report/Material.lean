/-
# Reports of materials

Resolved trees, programs, textures and materials as data, for tools that show or compare them.
-/
import ShaderFabric.Material.Basic
import ShaderFabric.Report.Value

namespace ShaderFabric

namespace Report

open Document

/-! ## 1. Trees and programs -/

def body : Body → Document
  | .plain => text "default"
  | .components entries =>
    Document.single "components" (list (entries.map fun entry => texts [entry.1.name, entry.2]))
  | .source written => Document.single "source" (text written)

mutual

def node : Node → Document
  | ⟨path, typeName, uniforms, materials, content, hint⟩ =>
    let initially := Node.initiallyTranslucent ⟨path, typeName, uniforms, [], content, hint⟩
    object [("path", text (dotted path)), ("type", optionalText typeName),
      ("uniforms", list (uniforms.map fun uniform =>
        object [("name", text uniform.name), ("used", bool uniform.used),
          ("typed", value uniform.value)])),
      ("materials", list (nodes materials)), ("body", body content), ("text", text content.text),
      ("translucency", translucency hint), ("translucent", bool initially)]

def nodes : List (Declared Node) → List Document
  | [] => []
  | ⟨name, child, used⟩ :: rest =>
    object [("name", text name), ("used", bool used), ("node", node child)] :: nodes rest

end

mutual

/-- A program without its text. -/
def program : Program → Document
  | ⟨path, typeName, function, emitted, own, uniforms, materials, translucent⟩ =>
    let whole := Program.sources materials ++ own
    object [("path", texts path), ("type", optionalText typeName), ("function", text function),
      ("emitted", bool emitted),
      ("uniforms", list (uniforms.map fun uniform =>
        object [("name", text uniform.name), ("mangled", optionalText uniform.mangled),
          ("type", text uniform.value.kind.glslName)])),
      ("materials", list (programs materials)), ("translucent", bool translucent),
      ("any_translucent", bool (translucent || Program.anyTranslucents materials)),
      ("source_bytes", nat whole.utf8ByteSize)]

def programs : List (String × Program) → List Document
  | [] => []
  | (name, child) :: rest => object [("name", text name), ("node", program child)] :: programs rest

end

/-! ## 2. Textures -/

def textureKind : TextureKind → Document
  | .flat => text "2d"
  | .cube => text "cube"

def decoded (texture : Decoded) : Document :=
  object (("kind", textureKind texture.kind) :: ("width", nat texture.width)
    :: ("height", nat texture.height) ::
    match texture with
    | .image pixels => [("pixels", bytes pixels.pixels)]
    | .cube _ faces => [("faces", list (faces.map bytes))]
    | .compressed held =>
      [("format", text held.format.name), ("codec", text held.format.codec.key),
        ("levels", list (held.levels.map bytes))])

/-- What a slot holds; `fault` says how faults are reported. -/
def textureState (fault : TextureFault → Document) (state : TextureState) :
    List (String × Document) :=
  ("state", text state.name) ::
    match state with
    | .ready texture =>
      [("texture", object [("kind", textureKind texture.kind), ("width", nat texture.width),
        ("height", nat texture.height)])]
    | .failed reason => [("failure", fault reason)]
    | _ => []

/-- The textures alive on a device, and the attempts to upload, in the order of their texts. -/
def gpu (device : Gpu) : List (String × Document) :=
  let attempt (a : Attempt) : String :=
    a.label ++ " " ++ (textureKind a.kind).toText ++ " " ++ toString a.width ++ "x"
      ++ toString a.height
  [("live", nat device.live.length),
    ("uploads", texts ((device.attempts.map attempt).mergeSort fun a b => a ≤ b))]

/-! ## 3. Materials -/

def binding (fault : TextureFault → Document) (b : Binding) : Document :=
  object [("name", text b.name), ("declared", text b.declared), ("path", texts b.path),
    ("type", text b.kind.glslName), ("typed", value b.value),
    ("texture", optional (b.texture.map fun state => object (textureState fault state)))]

def slotState (fault : TextureFault → Document) (slot : Option Slot) : Document :=
  optional (slot.map fun slot => object (textureState fault slot.state))

/-- A material without those below it. -/
def material (fault : TextureFault → Document) (m : Material) : Document :=
  object [("type", optionalText m.typeName), ("function", text m.function),
    ("source", text m.source), ("translucent", bool m.translucent),
    ("destroyed", bool m.destroyed), ("intact", bool m.isIntact), ("pending", nat m.pendingTextures),
    ("uniforms", list (m.uniforms.map fun uniform =>
      list [text uniform.name, value uniform.value, slotState fault uniform.texture])),
    ("materials", texts (m.materials.map Prod.fst)),
    ("bindings", list (m.bindings.map (binding fault)))]

end Report

end ShaderFabric
