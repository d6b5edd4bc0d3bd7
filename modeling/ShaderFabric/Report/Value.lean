/-
# Reports of values

Values as data, for tools that show or compare them.  A number is reported by its bits, so that two
reports agree exactly when the numbers do; only all that is not a number counts as one.  Bytes are
reported in hexadecimal.
-/
import ShaderFabric.Document.Access
import ShaderFabric.Template.Library
import ShaderFabric.Text.Hex
import ShaderFabric.Uniform.Value

namespace ShaderFabric

namespace Report

open Document

/-! ## 1. Numbers, images and places -/

def singleBits (x : Single) : Document :=
  text (if x.isNaN then "nan" else Hex.ofNat 8 x.bits.toNat)

def doubleBits (x : Double) : Document :=
  text (if x.isNaN then "nan" else Hex.ofNat 16 x.bits.toNat)

def bytes (data : List UInt8) : Document := text (Hex.ofBytes data)

def image (pixels : Image) : Document :=
  object [("w", nat pixels.width), ("h", nat pixels.height), ("px", bytes pixels.pixels),
    ("debug", text pixels.summary)]

def location (place : Location) : Document :=
  object [("url", text place.url),
    ("headers", object (place.headers.map fun header => (header.1, text header.2))),
    ("remote", bool place.isRemote)]

/-! ## 2. Literals and values -/

def field : Field → Document
  | .number x => Document.single "number" (doubleBits x)
  | .text t => Document.single "text" (text t)

def literal : Literal → Document
  | .bool b => Document.single "bool" (bool b)
  | .number x => Document.single "number" (doubleBits x)
  | .sequence xs => Document.single "sequence" (list (xs.map doubleBits))
  | .text t => Document.single "text" (text t)
  | .object fields => Document.single "object" (object (Table.mapValues field fields))
  | .location place => Document.single "location" (location place)
  | .image pixels => Document.single "image" (image pixels)

/-- A value without its type. -/
def bareValue : Value → Document
  | .bool b => bool b
  | .channels selector => text selector
  | .texture .neutral | .cube .neutral => text "default"
  | .texture (.location place) => Document.single "location" (location place)
  | .texture (.decoded pixels) => Document.single "image" (image pixels)
  | .texture (.compressed set) =>
    Document.single "compressed"
      (list (set.entries.map fun entry => texts [entry.1.key, entry.2.url]))
  | .cube (.faces faces) => Document.single "faces" (texts (faces.toList.map Location.url))
  | other => list ((other.floats?.getD []).map singleBits)

def value (v : Value) : Document :=
  object [("type", text v.kind.glslName), ("value", bareValue v)]

/-! ## 3. Fabrics and templates -/

mutual

def fabric : Fabric → Document
  | ⟨typeName, uniforms, materials, components, source, unknown⟩ =>
    object [("type", optionalText typeName),
      ("uniforms", object (uniforms.map fun entry => (entry.1, literal entry.2))),
      ("materials", object (fabrics materials)),
      ("components", optional (components.map fun entries =>
        list (entries.map fun entry => texts [entry.1, entry.2]))),
      ("source", optionalText source), ("unknown", object unknown)]

def fabrics : List (String × Fabric) → List (String × Document)
  | [] => []
  | (name, child) :: rest => (name, fabric child) :: fabrics rest

end

def translucency : Translucency → Document
  | .never => text "opaque"
  | .always => text "translucent"
  | .alphaOf names => texts names

def template (t : Template) : Document :=
  object [("name", text t.name), ("fabric", fabric t.fabric),
    ("translucency", translucency t.translucency)]

end Report

end ShaderFabric
