/-
# The pool of workers

Jobs wait in one queue.  A worker takes the first of them, and then either puts what came of it into
the reply place of that job, or dies with the job.  Every job has a reply place of its own, named by
a ticket; a place whose job is gone without a reply is abandoned.  Once no worker is left, all that
waits is abandoned, and so is all that is submitted later.

Component `textures`: `Job`, `run_job`, `worker_loop`, `submit`, `completed`.
-/
import ShaderFabric.Texture.Fetch

namespace ShaderFabric

/-! ## 1. Jobs -/

/-- What a worker is to load. -/
inductive Job
  | image (location : Location)
  | compressed (location : Location) (codec : Codec)
  | cube (faces : Faces Location)
  deriving Repr, DecidableEq

/-- What comes of a job. -/
abbrev LoadResult := Except TextureFault Decoded

namespace Job

/-- What a job fetches, in order. -/
def locations : Job → List Location
  | image location | compressed location _ => [location]
  | cube faces => faces.toList

/-- What decoding leaves of a job; nothing when a reader breaks down. -/
def decoded : Except DecodeFault Decoded → Option LoadResult
  | .ok texture => some (.ok texture)
  | .error fault => if fault.isBreakdown then none else some (.error (.decode fault))

/-- Fetches locations in order, up to the first that is refused. -/
def fetchAll (fetch : Fetcher) : List Location → Option (Except FetchFault (List Resource))
  | [] => some (.ok [])
  | location :: rest =>
    match fetch location with
    | none => none
    | some (.error fault) => some (.error fault)
    | some (.ok resource) => (fetchAll fetch rest).map fun others => others.map (resource :: ·)

/-- The texture of an image that was fetched. -/
def imageOf (images : ImageReader) : Resource → Option LoadResult
  | .bytes bytes => decoded (decodeImage images bytes)
  | .pixels pixels => some (.ok (.image pixels))

/-- The texture of a container that was fetched. -/
def compressedOf (location : Location) (codec : Codec) : Resource → Option LoadResult
  | .bytes bytes => decoded (decodeCompressed codec bytes)
  | .pixels _ => some (.error (.decode (.rawPixels location.url codec)))

/-- What comes of fetching and decoding; nothing when a fetch or a reader breaks down. -/
def run (images : ImageReader) (fetch : Fetcher) : Job → Option LoadResult
  | image location =>
    (fetch location).bind fun
      | .ok resource => imageOf images resource
      | .error fault => some (.error (.fetch fault))
  | compressed location codec =>
    (fetch location).bind fun
      | .ok resource => compressedOf location codec resource
      | .error fault => some (.error (.fetch fault))
  | cube faces =>
    (fetchAll fetch faces.toList).bind fun
      | .ok resources => decoded (decodeCube images resources)
      | .error fault => some (.error (.fetch fault))

end Job

/-! ## 2. Replies -/

/-- What came of a job, and for which generation of its slot it was asked for. -/
structure Outcome where
  generation : Nat
  result : LoadResult

/-- A place for one reply. -/
inductive ReplyPlace
  | awaited
  | holding (outcome : Outcome)
  /-- Empty for ever: the reply has been taken, or the job is gone. -/
  | abandoned

/-- A job on its way, with the ticket of its reply place. -/
structure Work where
  ticket : Nat
  generation : Nat
  job : Job
  deriving DecidableEq

/-! ## 3. The pool -/

/-- The jobs that wait, those that workers hold, the workers without one, and all reply places by
their tickets. -/
structure Pool where
  queue : List Work
  running : List Work
  idle : Nat
  places : List ReplyPlace

namespace Pool

/-- A pool of workers. -/
def start (workers : Nat) : Pool := ⟨[], [], workers, []⟩

/-- Whether any worker is alive. -/
def isAlive (pool : Pool) : Bool := 0 < pool.idle || !pool.running.isEmpty

/-- The reply place of a ticket. -/
def place (pool : Pool) (ticket : Nat) : ReplyPlace := pool.places[ticket]?.getD .abandoned

/-- Changes a reply place. -/
def setPlace (pool : Pool) (ticket : Nat) (place : ReplyPlace) : Pool :=
  { pool with places := pool.places.set ticket place }

/-- Opens a reply place. -/
def openPlace (pool : Pool) (place : ReplyPlace) : Nat × Pool :=
  (pool.places.length, { pool with places := pool.places ++ [place] })

/-- Queues a job and gives the ticket of its reply. -/
def submit (pool : Pool) (generation : Nat) (job : Job) : Nat × Pool :=
  if pool.isAlive then
    let (ticket, pool) := pool.openPlace .awaited
    (ticket, { pool with queue := pool.queue ++ [⟨ticket, generation, job⟩] })
  else pool.openPlace .abandoned

/-- A reply that needs no worker. -/
def complete (pool : Pool) (generation : Nat) (texture : Decoded) : Nat × Pool :=
  pool.openPlace (.holding ⟨generation, .ok texture⟩)

/-- Takes the reply out of a place. -/
def take (pool : Pool) (ticket : Nat) : Pool := pool.setPlace ticket .abandoned

/-! ## 4. Workers -/

/-- An idle worker takes the first job. -/
def begin (pool : Pool) : Option (Work × Pool) :=
  match pool.idle, pool.queue with
  | idle + 1, work :: rest =>
    some (work, { pool with queue := rest, running := work :: pool.running, idle })
  | _, _ => none

/-- Drops work from those that workers hold. -/
def drop (pool : Pool) (work : Work) : Pool :=
  { pool with running := pool.running.filter fun other => other.ticket ≠ work.ticket }

/-- A worker replies and is idle again. -/
def reply (pool : Pool) (work : Work) (result : LoadResult) : Pool :=
  let pool := (pool.drop work).setPlace work.ticket (.holding ⟨work.generation, result⟩)
  { pool with idle := pool.idle + 1 }

/-- Abandons all that waits if no worker is left. -/
def abandonQueue (pool : Pool) : Pool :=
  if pool.isAlive then pool
  else
    let places :=
      pool.queue.foldl (fun places work => places.set work.ticket .abandoned) pool.places
    { pool with queue := [], places }

/-- A worker dies with its job. -/
def die (pool : Pool) (work : Work) : Pool :=
  ((pool.drop work).setPlace work.ticket .abandoned).abandonQueue

/-- One worker deals with the first job. -/
def turn (run : Job → Option LoadResult) (pool : Pool) : Pool :=
  match pool.begin with
  | none => pool
  | some (work, pool) =>
    match run work.job with
    | some result => pool.reply work result
    | none => pool.die work

/-- The workers deal with everything that waits. -/
def drain (run : Job → Option LoadResult) (pool : Pool) : Pool :=
  pool.queue.foldl (fun pool _ => pool.turn run) pool

end Pool

end ShaderFabric
