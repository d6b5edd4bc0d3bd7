/-
# Fetching what locations name

A location is an address on the network, a path, or `file://` and a path; paths are seen from a
base directory.  Any other scheme is not supported.

Component `textures`: `ResourceFetcher`, `DefaultFetcher`.
-/
import ShaderFabric.File.Tree
import ShaderFabric.Texture.Decoded

namespace ShaderFabric

/-- The mark between a scheme and the rest of an address. -/
def schemeMark : List Char := "://".toList

/-- Whether a text has another inside it. -/
def hasInside (inner : List Char) : List Char → Bool
  | [] => inner.isEmpty
  | c :: rest => inner.isPrefixOf (c :: rest) || hasInside inner rest

namespace Location

/-- The scheme of files. -/
def fileScheme : List Char := "file://".toList

/-- Whether the location starts with the scheme of files. -/
def isFile (location : Location) : Bool := fileScheme.isPrefixOf location.url.toList

/-- Whether the location is neither an address nor a path. -/
def isForeign (location : Location) : Bool :=
  location.url.isEmpty || (hasInside schemeMark location.url.toList && !location.isFile)

/-- The path of a location, seen from a directory. -/
def path (base : String) (location : Location) : String :=
  let url := location.url.toList
  let raw := if location.isFile then url.drop fileScheme.length else url
  Path.join base (String.ofList raw)

end Location

/-- A way to fetch.  No answer at all stands for a fetch that breaks down. -/
abbrev Fetcher := Location → Option (Except FetchFault Resource)

/-- Fetches by reading files below a directory and transferring from the network. -/
def fetchBytes {m : Type → Type} [Monad m] (read : String → m (Except FileFault (List UInt8)))
    (transfer : Location → m (Except FetchFault (List UInt8))) (base : String)
    (location : Location) : m (Except FetchFault (List UInt8)) :=
  if location.isRemote then transfer location
  else if location.isForeign then return .error (.unsupported location.url)
  else do
    let path := location.path base
    match ← read path with
    | .ok bytes => return .ok bytes
    | .error fault => return .error (.unread path fault.message)

end ShaderFabric
