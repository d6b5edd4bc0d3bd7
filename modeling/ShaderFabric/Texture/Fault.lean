/-
# Why a texture does not come to be

A texture is fetched, decoded and uploaded; each step has its own faults.

Component `textures`: `FetchError`, `DecodeError`, `TextureError`.
-/
import ShaderFabric.Texture.Ktx

namespace ShaderFabric

/-- Why nothing was fetched. -/
inductive FetchFault
  | unread (path reason : String)
  | unanswered (url reason : String)
  | status (url : String) (code : Nat)
  | unsupported (url : String)
  deriving Repr, DecidableEq

/-- What a report says of a fetch. -/
def FetchFault.message : FetchFault → String
  | unread path reason => "failed to read " ++ path ++ ": " ++ reason
  | unanswered url reason => "request for " ++ url ++ " failed: " ++ reason
  | status url code => "request for " ++ url ++ " returned status " ++ toString code
  | unsupported url => "unsupported image location '" ++ url ++ "'"

/-- Why the file of an image gives none. -/
inductive ImageFault
  /-- The file is not sound, or of no known format. -/
  | broken
  /-- The reader itself breaks down over the file. -/
  | breakdown
  deriving Repr, DecidableEq

/-- Why fetched data is no texture. -/
inductive DecodeFault
  | image (fault : ImageFault)
  | faceCount (count : Nat)
  | oblongFace (face width height : Nat)
  | unequalFace (face edge expected : Nat)
  | container (fault : Ktx.Fault)
  | mismatch (expected found : Codec)
  | noContainer
  | rawPixels (url : String) (expected : Codec)
  deriving Repr, DecidableEq

namespace DecodeFault

/-- Whether a reader breaks down, so that nobody is left to report the fault. -/
def isBreakdown : DecodeFault → Bool
  | image .breakdown | container .breakdown => true
  | _ => false

def cubeText (detail : String) : String :=
  "cube-map faces must be square and equally sized: " ++ detail

def unsupportedText (detail : String) : String := "unsupported texture data: " ++ detail

/-- What a report says of data; of an image only that it could not be decoded. -/
def message : DecodeFault → String
  | image _ => "failed to decode image"
  | faceCount count => cubeText ("expected 6 faces, found " ++ toString count)
  | oblongFace face width height =>
    cubeText ("face " ++ toString face ++ " is " ++ toString width ++ "x" ++ toString height)
  | unequalFace face edge expected =>
    cubeText ("face " ++ toString face ++ " is " ++ toString edge ++ "px, face 0 is "
      ++ toString expected ++ "px")
  | container fault =>
    if fault.isUnsupported then unsupportedText fault.message
    else "invalid KTX container: " ++ fault.message
  | mismatch expected found =>
    "expected a " ++ expected.key ++ " texture but the container holds " ++ found.key
  | noContainer => unsupportedText "compressed textures must be KTX 1.1 containers"
  | rawPixels url expected =>
    unsupportedText (url ++ " resolved to raw pixels, expected a " ++ expected.key ++ " container")

end DecodeFault

/-- Why a texture could not be had. -/
inductive TextureFault
  | fetch (fault : FetchFault)
  | decode (fault : DecodeFault)
  /-- The device refused the texture, for a reason of its own. -/
  | upload (reason : String)
  /-- The worker stopped before it answered. -/
  | workerLost
  deriving Repr, DecidableEq

/-- What a report says of a texture. -/
def TextureFault.message : TextureFault → String
  | fetch fault => fault.message
  | decode fault => fault.message
  | upload reason => "texture upload failed: " ++ reason
  | workerLost => "texture worker stopped before delivering a result"

end ShaderFabric
