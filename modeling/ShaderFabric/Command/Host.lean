/-
# What a command needs around it

A `Host` reads files, reaches the network and draws pictures into files, in whatever monad it lives;
a command is the same on every host.  A command that fails says what it was about to do, and why it
could not.
-/
import ShaderFabric.Render.Picture
import ShaderFabric.Render.Renderer

namespace ShaderFabric

/-! ## 1. Hosts -/

/-- What commands run on. -/
structure Host (m : Type → Type) where
  /-- The bytes of a file. -/
  read : String → m (Except FileFault (List UInt8))
  /-- Whether there is anything at a path. -/
  isThere : String → m Bool
  /-- The bytes at an address on the network. -/
  transfer : Location → m (Except FetchFault (List UInt8))
  /-- Makes an empty file. -/
  create : String → m (Except FileFault Unit)
  /-- Draws a picture into a file. -/
  draw : String → PictureFormat → Drawing → m Unit

/-- What a command finds in the environment. -/
structure Surroundings where
  /-- The configuration to read when none is named on the command line. -/
  config : Option String
  /-- The directory of the configuration; an empty name stands for none. -/
  configDir : Option String
  /-- The directory of the configurations of all programs of the user. -/
  configHome : String
  deriving Repr, DecidableEq

/-! ## 2. Failures -/

/-- Why a command fails. -/
inductive Failure
  /-- What it was about to do, and the causes, the nearest first. -/
  | because (context : String) (causes : List String)
  /-- A time was asked for that cannot be counted; nothing can go on. -/
  | stopped
  deriving Repr, DecidableEq

namespace Failure

/-- A failure that is its own cause. -/
def plain (context : String) : Failure := because context []

/-- The number that says how the command went. -/
def status : Failure → Nat
  | because .. => 1
  | stopped => 101

/-- A text whose later lines start with blanks. -/
def indent (blanks text : String) : String := ("\n" ++ blanks).intercalate (text.splitOn "\n")

/-- Causes with their numbers. -/
def numbered (number : Nat) : List String → String
  | [] => ""
  | cause :: rest =>
    let written := toString number
    let space := String.ofList (List.replicate (5 - written.length) ' ')
    "\n" ++ space ++ written ++ ": " ++ indent "       " cause ++ numbered (number + 1) rest

/-- The causes as a report gives them. -/
def causesText : List String → String
  | [] => ""
  | [cause] => "\n\nCaused by:\n    " ++ indent "    " cause
  | causes => "\n\nCaused by:" ++ numbered 0 causes

/-- What a report says of a failure; several causes are numbered. -/
def report : Failure → String
  | because context causes => "Error: " ++ context ++ causesText causes ++ "\n"
  | stopped => "the program has stopped: a duration is too long\n"

end Failure

end ShaderFabric
