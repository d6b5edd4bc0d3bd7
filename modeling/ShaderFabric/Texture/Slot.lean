/-
# Texture slots

A slot holds what one texture uniform shows: nothing yet, a load under way, a texture on the device,
or a fault.  Assigning or releasing starts a new generation, gives up the texture and the ticket of
any load, and so nothing of an earlier request can arrive later.

Textures on the device are counted in a `Gpu`; a `Studio` is a pool of workers with a device.

Component `textures`: `TextureLoader`, `TextureSlot` with `assign`, `poll`, `release`.
-/
import ShaderFabric.Texture.Pool

namespace ShaderFabric

/-! ## 1. The device -/

/-- A texture on the device. -/
structure GpuTexture where
  id : Nat
  kind : TextureKind
  width : Nat
  height : Nat
  deriving Repr, DecidableEq

/-- An attempt to upload. -/
structure Attempt where
  label : String
  kind : TextureKind
  width : Nat
  height : Nat
  deriving Repr, DecidableEq

/-- The textures alive on the device, and the attempts to upload so far. -/
structure Gpu where
  nextId : Nat
  live : List Nat
  attempts : List Attempt
  deriving Repr

/-- Which uploads the device refuses, and why. -/
abbrev Uploader := String → Decoded → Option String

namespace Gpu

def empty : Gpu := ⟨0, [], []⟩

/-- Uploads a texture. -/
def upload (gpu : Gpu) (uploader : Uploader) (label : String) (texture : Decoded) :
    Except String GpuTexture × Gpu :=
  let attempts := gpu.attempts ++ [⟨label, texture.kind, texture.width, texture.height⟩]
  match uploader label texture with
  | some reason => (.error reason, { gpu with attempts })
  | none =>
    (.ok ⟨gpu.nextId, texture.kind, texture.width, texture.height⟩,
      ⟨gpu.nextId + 1, gpu.nextId :: gpu.live, attempts⟩)

/-- Frees a texture. -/
def free (gpu : Gpu) (texture : GpuTexture) : Gpu := { gpu with live := gpu.live.erase texture.id }

end Gpu

/-- A pool of workers and a device. -/
structure Studio where
  pool : Pool
  gpu : Gpu

/-! ## 2. Loaders -/

/-- What a texture uniform asks for. -/
inductive TextureRequest
  | image (source : ImageSource)
  | cube (source : CubeSource)
  deriving DecidableEq

namespace TextureRequest

/-- The request of a value, if it is a texture. -/
def ofValue? : Value → Option TextureRequest
  | .texture source => some (image source)
  | .cube source => some (cube source)
  | _ => none

def kind : TextureRequest → TextureKind
  | image _ => .flat
  | cube _ => .cube

end TextureRequest

/-- Whether textures are loaded at all, and which compressed ones. -/
structure Loader where
  enabled : Bool
  supported : List Codec
  preference : List Codec
  deriving Repr, DecidableEq

namespace Loader

/-- A loader that starts no load. -/
def disabled : Loader := ⟨false, [], Codec.all⟩

/-- A loader; no preference stands for the default one. -/
def ofPreference (supported preference : List Codec) : Loader :=
  ⟨true, supported, if preference.isEmpty then Codec.all else preference⟩

/-- What a report says of a loader. -/
def summary (loader : Loader) : String :=
  "TextureLoader \x7b enabled: " ++ (if loader.enabled then "true" else "false")
    ++ ", preference: ["
    ++ ", ".intercalate (loader.preference.map Codec.name) ++ "] \x7d"

/-- The entry of a compressed set to load. -/
def select (loader : Loader) (set : CompressedSet) : Option (Codec × Location) :=
  set.select loader.preference fun codec => loader.supported.contains codec

/-- What a request leads to. -/
inductive Plan
  | nothing
  | load (job : Job)
  | done (texture : Decoded)

/-- A load, if there are loads. -/
def load (loader : Loader) (job : Job) : Plan := if loader.enabled then .load job else .nothing

/-- What a request leads to.  Pixels at hand need no load. -/
def plan (loader : Loader) : TextureRequest → Plan
  | .image .neutral | .cube .neutral => .nothing
  | .image (.location location) => loader.load (.image location)
  | .image (.decoded image) => .done (.image image)
  | .image (.compressed set) =>
    match loader.select set with
    | some (codec, location) => loader.load (.compressed location codec)
    | none => .nothing
  | .cube (.faces faces) => loader.load (.cube faces)

end Loader

/-! ## 3. Slots -/

/-- What a slot holds. -/
inductive TextureState
  | unset
  | loading
  | ready (texture : GpuTexture)
  | failed (fault : TextureFault)
  deriving Repr, DecidableEq

/-- The name of a state. -/
def TextureState.name : TextureState → String
  | unset => "unset"
  | loading => "loading"
  | ready _ => "ready"
  | failed _ => "failed"

/-- A slot; `pending` is the ticket of the reply it waits for. -/
structure Slot where
  label : String
  kind : TextureKind
  generation : Nat
  state : TextureState
  pending : Option Nat
  deriving Repr, DecidableEq

namespace Slot

/-- A slot that has not been assigned. -/
def new (label : String) (kind : TextureKind) : Slot := ⟨label, kind, 0, .unset, none⟩

def isLoading (slot : Slot) : Bool := slot.state = .loading

/-- The device without the texture of a slot. -/
def freed (slot : Slot) (gpu : Gpu) : Gpu :=
  match slot.state with
  | .ready texture => gpu.free texture
  | _ => gpu

/-- Gives up the texture and any load. -/
def release (slot : Slot) : StateM Studio Slot := do
  modify fun studio => { studio with gpu := slot.freed studio.gpu }
  return { slot with generation := slot.generation + 1, state := .unset, pending := none }

/-- The slot while it waits for a reply. -/
def awaiting (slot : Slot) (ticket : Nat) : Slot :=
  { slot with state := .loading, pending := some ticket }

/-- Starts showing what a request asks for, in place of whatever the slot held. -/
def assign (loader : Loader) (request : TextureRequest) (slot : Slot) : StateM Studio Slot := do
  let slot := { (← slot.release) with kind := request.kind }
  match loader.plan request with
  | .nothing => return slot
  | .load job =>
    modifyGet fun studio =>
      let (ticket, pool) := studio.pool.submit slot.generation job
      (slot.awaiting ticket, { studio with pool })
  | .done texture =>
    modifyGet fun studio =>
      let (ticket, pool) := studio.pool.complete slot.generation texture
      (slot.awaiting ticket, { studio with pool })

/-- Uploads what a load came to. -/
def apply (uploader : Uploader) (slot : Slot) (result : LoadResult) : StateM Studio Slot :=
  match result with
  | .error fault => return { slot with state := .failed fault }
  | .ok texture =>
    modifyGet fun studio =>
      let (uploaded, gpu) := studio.gpu.upload uploader slot.label texture
      let state : TextureState :=
        match uploaded with
        | .ok uploaded => .ready uploaded
        | .error reason => .failed (.upload reason)
      ({ slot with state }, { studio with gpu })

/-- Takes the reply to the slot's load, if it is there, and says whether the state changed.  A reply
of another generation is thrown away. -/
def poll (uploader : Uploader) (slot : Slot) : StateM Studio (Slot × Bool) := do
  match slot.pending with
  | none => return (slot, false)
  | some ticket =>
    match (← get).pool.place ticket with
    | .awaited => return (slot, false)
    | .abandoned => return ({ slot with pending := none, state := .failed .workerLost }, true)
    | .holding outcome =>
      modify fun studio => { studio with pool := studio.pool.take ticket }
      let slot := { slot with pending := none }
      if outcome.generation ≠ slot.generation then return (slot, false)
      return (← slot.apply uploader outcome.result, true)

end Slot

/-- Lets the workers deal with everything that waits. -/
def Studio.drain (run : Job → Option LoadResult) (studio : Studio) : Studio :=
  { studio with pool := studio.pool.drain run }

end ShaderFabric
