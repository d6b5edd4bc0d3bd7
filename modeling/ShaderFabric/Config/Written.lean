/-
# The written form of a configuration

`Config.ofToml` reads a configuration and checks it; `Config.toToml` writes one.

The settings of a section may also be given as a list, in a fixed order.  Members without a meaning
are passed over, as are items of a list after those that have one.  The mistake that comes first in
the text is the answer; that the version is missing is known only at the end.

Component `loomconfig`: `from_toml_str`.
-/
import ShaderFabric.Config.Basic
import ShaderFabric.Toml.Printer
import ShaderFabric.Toml.Reader

namespace ShaderFabric

/-- Why a text gives no configuration. -/
inductive ConfigFault
  /-- The text is not well formed, or a setting has the wrong shape. -/
  | form
  | negativeDuration
  | notDuration
  | invalidDuration (text : String)
  /-- A duration beyond what the program can hold: it stops on the spot. -/
  | tooLong
  /-- A broken rule. -/
  | rule (error : ConfigError)
  deriving Repr, DecidableEq

/-- The text of a fault of form that has one of its own. -/
def ConfigFault.message? : ConfigFault → Option String
  | form | tooLong => none
  | negativeDuration => some "duration must be non-negative"
  | notDuration => some "a duration as number of seconds or human-readable string"
  | invalidDuration text => some ("invalid duration '" ++ text ++ "'")
  | rule error => some ("invalid configuration: " ++ error.message)

namespace Config

/-! ## 1. Settings -/

/-- A natural number of at most `bits` bits. -/
def word (bits : Nat) : Document → Except ConfigFault Nat
  | .int value => if 0 ≤ value ∧ value < Nat.pow 2 bits then .ok value.toNat else .error .form
  | _ => .error .form

def flag : Document → Except ConfigFault Bool
  | .bool value => .ok value
  | _ => .error .form

def string : Document → Except ConfigFault String
  | .text value => .ok value
  | _ => .error .form

/-- A number of seconds, or a duration as text. -/
def duration : Document → Except ConfigFault Duration
  | .int value => if value < 0 then .error .negativeDuration else .ok (.ofSeconds value.toNat)
  | .float value =>
    if !value.isFinite ∨ value.negative then .error .negativeDuration
    else
      match Duration.ofDouble value with
      | .ok d => .ok d
      | .error _ => .error .tooLong
  | .text value =>
    match Duration.ofText value with
    | .ok d => .ok d
    | .error .invalid => .error (.invalidDuration value)
    | .error .tooLong => .error .tooLong
  | _ => .error .notDuration

/-- Whether a value holds nothing. -/
def isEmpty : Document → Bool
  | .list items => items.isEmpty
  | .object members => members.isEmpty
  | _ => false

/-- A family of compression, by its key or as a table with that key alone. -/
def codec : Document → Except ConfigFault Codec
  | .text key => (Codec.ofKey? key).elim (.error .form) .ok
  | .object [(key, value)] =>
    match Codec.ofKey? key with
    | some codec => if isEmpty value then .ok codec else .error .form
    | none => .error .form
  | _ => .error .form

def codecs : Document → Except ConfigFault (List Codec)
  | .list items => items.mapM codec
  | _ => .error .form

/-- The first `count` items of a list, each of them a word. -/
def words (count bits : Nat) : Document → Except ConfigFault (List Nat)
  | .list items =>
    if items.length < count then .error .form else (items.take count).mapM (word bits)
  | _ => .error .form

/-! ## 2. Sections -/

/-- The settings of a section, whether they are given by name or by place. -/
def settings (names : List String) : Document → Except ConfigFault (List (String × Document))
  | .object members => .ok members
  | .list items => .ok (names.zip items)
  | _ => .error .form

def setMaterial (strict : Bool) (member : String × Document) : Except ConfigFault Bool :=
  if member.1 = "strict" then flag member.2 else .ok strict

def setTextures (read : TextureSettings) (member : String × Document) :
    Except ConfigFault TextureSettings :=
  match member.1 with
  | "enabled" => (fun enabled => { read with enabled }) <$> flag member.2
  | "workers" => (fun workers => { read with workers }) <$> word 64 member.2
  | "base_dir" => (fun dir => { read with baseDir := some dir }) <$> string member.2
  | "fetch_timeout" => (fun fetchTimeout => { read with fetchTimeout }) <$> duration member.2
  | "codecs" => (fun codecs => { read with codecs }) <$> codecs member.2
  | _ => .ok read

def setRender (read : RenderSettings) (member : String × Document) :
    Except ConfigFault RenderSettings :=
  match member.1 with
  | "size" => do
    match ← words 2 32 member.2 with
    | [width, height] => return { read with width, height }
    | _ => throw .form
  | "background" => do
    match ← words 4 8 member.2 with
    | [red, green, blue, alpha] =>
      return { read with background := Rgba.ofNats red green blue alpha }
    | _ => throw .form
  | _ => .ok read

def setTemplates (read : Table String) (member : String × Document) :
    Except ConfigFault (Table String) :=
  (fun path => read.insert member.1 path) <$> string member.2

/-- One section, or the version; `none` stands for a version not yet read. -/
def setSection (read : Option Nat × Config) (member : String × Document) :
    Except ConfigFault (Option Nat × Config) :=
  let (version, config) := read
  match member.1 with
  | "version" => (fun found => (some found, config)) <$> word 32 member.2
  | "materials" => do
    let members ← settings ["strict"] member.2
    return (version, { config with strict := ← members.foldlM setMaterial true })
  | "textures" => do
    let members ← settings ["enabled", "workers", "base_dir", "fetch_timeout", "codecs"] member.2
    return (version, { config with textures := ← members.foldlM setTextures {} })
  | "render" => do
    let members ← settings ["size", "background"] member.2
    return (version, { config with render := ← members.foldlM setRender {} })
  | "templates" =>
    match member.2 with
    | .object members => do
      return (version, { config with templates := ← members.foldlM setTemplates [] })
    | _ => .error .form
  | _ => .ok read

/-- Reads a configuration without checking its rules. -/
def ofDocument : Document → Except ConfigFault Config
  | .object members => do
    match ← members.foldlM setSection (none, {}) with
    | (some version, config) => return { config with version }
    | (none, _) => throw .form
  | _ => .error .form

/-- Reads a configuration and checks its rules. -/
def ofToml (text : String) : Except ConfigFault Config := do
  let some document := Toml.read text | throw .form
  let config ← ofDocument document
  match config.validate with
  | .ok () => return config
  | .error error => throw (.rule error)

/-! ## 3. Writing -/

def boolText (value : Bool) : String := if value then "true" else "false"

/-- A list on one line. -/
def listText (items : List String) : String := "[" ++ ", ".intercalate items ++ "]"

/-- A setting on a line of its own. -/
def line (name value : String) : String := name ++ " = " ++ value ++ "\n"

/-- Writes a configuration. -/
def toToml (config : Config) : String :=
  let textures := config.textures
  let render := config.render
  line "version" (toString config.version)
    ++ "\n[materials]\n" ++ line "strict" (boolText config.strict)
    ++ "\n[textures]\n" ++ line "enabled" (boolText textures.enabled)
    ++ line "workers" (toString textures.workers)
    ++ (textures.baseDir.map fun dir => line "base_dir" (Toml.quote dir)).getD ""
    ++ line "fetch_timeout" (Toml.quote textures.fetchTimeout.toText)
    ++ line "codecs" (listText (textures.codecs.map fun codec => Toml.quote codec.key))
    ++ "\n[render]\n" ++ line "size" (listText [toString render.width, toString render.height])
    ++ line "background"
      (listText (render.background.toList.map fun channel => toString channel.toNat))
    ++ "\n[templates]\n"
    ++ String.join
      (config.templates.map fun entry => line (Toml.keyText entry.1) (Toml.quote entry.2))

end Config

end ShaderFabric
