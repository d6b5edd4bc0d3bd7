/-
# Arguments of the command line

    loom [--config FILE] compose|check FABRIC [--strict | --lenient]
    loom [--config FILE] render FABRIC -o PATH [--size WxH] [--background R,G,B,A] ...
    loom [--config FILE] types

The words before a subcommand belong to the program, those after it to the subcommand; `--config`
is known to both, and the one nearer to the end wins.  A value that follows its option as a word of
its own is read only when the next thing is settled, so a mistake in it may be overtaken by a word
that nobody knows.

Component `loom`: `Cli`, `parse_size`, `parse_background`.
-/
import ShaderFabric.Config.Basic
import ShaderFabric.Number.Decimal

namespace ShaderFabric

/-! ## 1. Values -/

/-- Why a value of an option is refused. -/
inductive ValueError
  | noSize
  | width (text : String)
  | height (text : String)
  | emptySize
  | largeSize (width height : Nat)
  | channelCount (count : Nat)
  | channel (text : String)
  | noType (text : String)
  deriving Repr, DecidableEq

/-- What a report says of a refused value. -/
def ValueError.message : ValueError → String
  | noSize => "expected WIDTHxHEIGHT"
  | .width text => "invalid width '" ++ text ++ "'"
  | .height text => "invalid height '" ++ text ++ "'"
  | emptySize => "render size must be greater than zero"
  | largeSize w h =>
    "render size " ++ toString w ++ "x" ++ toString h ++ " exceeds "
      ++ toString maxRenderEdge ++ " pixels per edge"
  | channelCount count => "expected four comma-separated channels, got " ++ toString count
  | channel text => "invalid channel '" ++ text ++ "'; expected 0-255"
  | noType text => "'" ++ text ++ "' names no material type"

/-- A size such as `256x128`. -/
def readSize (text : String) : Except ValueError (Nat × Nat) := do
  let cs := (trimBlanks text).toList
  let isMark (c : Char) : Bool := c = 'x' || c = 'X'
  let before := cs.takeWhile fun c => !isMark c
  let _ :: after := cs.drop before.length | throw .noSize
  let first := trimBlanks (String.ofList before)
  let second := trimBlanks (String.ofList after)
  let some width := natOfText? 32 first | throw (.width first)
  let some height := natOfText? 32 second | throw (.height second)
  if width = 0 ∨ height = 0 then throw .emptySize
  if maxRenderEdge < width ∨ maxRenderEdge < height then throw (.largeSize width height)
  return (width, height)

/-- The pieces between commas. -/
def splitCommas (piece : List Char) : List Char → List (List Char)
  | [] => [piece.reverse]
  | c :: rest =>
    if c = ',' then piece.reverse :: splitCommas [] rest else splitCommas (c :: piece) rest

/-- A number of eight bits. -/
def readChannel (text : String) : Except ValueError UInt8 :=
  match natOfText? 8 text with
  | some value => .ok (UInt8.ofNat value)
  | none => .error (.channel text)

/-- A colour such as `0,0,255,255`. -/
def readBackground (text : String) : Except ValueError Rgba := do
  let pieces := (splitCommas [] text.toList).map fun piece => trimBlanks (String.ofList piece)
  match pieces with
  | [r, g, b, a] =>
    return ⟨← readChannel r, ← readChannel g, ← readChannel b, ← readChannel a⟩
  | _ => throw (.channelCount pieces.length)

/-- Where a fabric comes from. -/
inductive FabricSource
  /-- Nothing but a template. -/
  | template (name : String)
  | file (path : String)
  deriving Repr, DecidableEq

namespace FabricSource

/-- Reads `type:<Name>`, or else a path. -/
def ofText (text : String) : Except ValueError FabricSource :=
  let mark := "type:".toList
  if mark.isPrefixOf text.toList then
    let name := trimBlanks (String.ofList (text.toList.drop mark.length))
    if name = "" then .error (.noType text) else .ok (.template name)
  else .ok (.file text)

/-- The directory that paths of images start from. -/
def baseDir : FabricSource → String
  | template _ => "."
  | file path =>
    match Path.parent? path with
    | some dir => if dir = "" then "." else dir
    | none => "."

end FabricSource

/-! ## 2. What a command line says -/

/-- A fabric and how to check it. -/
structure FabricArguments where
  fabric : String
  strict : Bool
  lenient : Bool
  deriving Repr, DecidableEq

/-- The check asked for, if any. -/
def FabricArguments.strictness (arguments : FabricArguments) : Option Bool :=
  if arguments.strict then some true else if arguments.lenient then some false else none

/-- What to render, how, and where to put it. -/
structure RenderArguments where
  fabric : FabricArguments
  output : String
  size : Option (Nat × Nat)
  background : Option Rgba
  time : Single
  frame : Nat
  textureTimeout : Duration
  deriving Repr, DecidableEq

/-- What is to be done. -/
inductive Command
  | types
  | compose (arguments : FabricArguments)
  | check (arguments : FabricArguments)
  | render (arguments : RenderArguments)
  deriving Repr, DecidableEq

/-- A command line. -/
structure Arguments where
  config : Option String
  command : Command
  deriving Repr, DecidableEq

/-- Why a command line is not carried out. -/
inductive Usage
  /-- Help has been asked for. -/
  | help
  /-- The version has been asked for. -/
  | version
  /-- Nothing has been said at all. -/
  | nothing
  | missingSubcommand
  | unknownSubcommand
  | unknownArgument
  | missingArgument
  | conflict
  | missingValue
  | needlessValue
  | invalidValue
  deriving Repr, DecidableEq

/-! ## 3. Options -/

/-- An option with a value. -/
inductive Setting
  | config
  | output
  | size
  | background
  | time
  | frame
  | textureTimeout
  deriving Repr, DecidableEq

/-- A word that stands for itself. -/
inductive Switch
  | help
  | version
  | strict
  | lenient
  deriving Repr, DecidableEq

/-- To whom a word belongs. -/
inductive Level
  | program
  | types
  | fabric
  | render
  deriving Repr, DecidableEq

/-- What the word after two dashes names at a level. -/
def Level.long? (level : Level) (name : String) : Option (Setting ⊕ Switch) :=
  match level, name with
  | _, "config" => some (.inl .config)
  | _, "help" => some (.inr .help)
  | .program, "version" => some (.inr .version)
  | .fabric, "strict" | .render, "strict" => some (.inr .strict)
  | .fabric, "lenient" | .render, "lenient" => some (.inr .lenient)
  | .render, "output" => some (.inl .output)
  | .render, "size" => some (.inl .size)
  | .render, "background" => some (.inl .background)
  | .render, "time" => some (.inl .time)
  | .render, "frame" => some (.inl .frame)
  | .render, "texture-timeout" => some (.inl .textureTimeout)
  | _, _ => none

/-- What the letter after one dash names at a level. -/
def Level.short? (level : Level) (letter : Char) : Option (Setting ⊕ Switch) :=
  match level, letter with
  | _, 'h' => some (.inr .help)
  | .program, 'V' => some (.inr .version)
  | .render, 'o' => some (.inl .output)
  | _, _ => none

/-- Whether a fabric is named at a level. -/
def Level.takesFabric : Level → Bool
  | .fabric | .render => true
  | _ => false

/-- What has been said at a level. -/
structure Given where
  config : Option String := none
  fabric : Option String := none
  strict : Bool := false
  lenient : Bool := false
  output : Option String := none
  size : Option (Nat × Nat) := none
  background : Option Rgba := none
  time : Option Single := none
  frame : Option Nat := none
  textureTimeout : Option Duration := none

/-- A path; it must not be empty. -/
def readPath (text : String) : Except Usage String :=
  if text = "" then .error .missingValue else .ok text

/-- A value that could be read, or else the mistake. -/
def valueOr {α : Type} : Option α → Except Usage α
  | some value => .ok value
  | none => .error .invalidValue

/-- Sets what may be set once. -/
def once {α : Type} (old : Option α) (read : Except Usage α) (set : α → Given) :
    Except Usage Given :=
  if old.isSome then .error .conflict else set <$> read

/-- Sets an option. -/
def Given.set (given : Given) (setting : Setting) (text : String) : Except Usage Given :=
  match setting with
  | .config => once given.config (readPath text) fun config => { given with config := some config }
  | .output => once given.output (readPath text) fun output => { given with output := some output }
  | .size =>
    once given.size (valueOr (readSize text).toOption) fun size => { given with size := some size }
  | .background =>
    once given.background (valueOr (readBackground text).toOption) fun background =>
      { given with background := some background }
  | .time =>
    once given.time (valueOr (singleOfText? text)) fun time => { given with time := some time }
  | .frame =>
    once given.frame (valueOr (natOfSignedText? 32 text)) fun frame =>
      { given with frame := some frame }
  | .textureTimeout =>
    once given.textureTimeout (valueOr (Duration.ofText text).toOption) fun textureTimeout =>
      { given with textureTimeout := some textureTimeout }

/-- Throws a switch. -/
def Given.throwSwitch (given : Given) : Switch → Except Usage Given
  | .help => .error .help
  | .version => .error .version
  | .strict => if given.strict then .error .conflict else .ok { given with strict := true }
  | .lenient => if given.lenient then .error .conflict else .ok { given with lenient := true }

/-- The fabric a subcommand has been told. -/
def Given.fabricArguments (given : Given) : FabricArguments :=
  ⟨given.fabric.getD "", given.strict, given.lenient⟩

/-- What a subcommand does. -/
def Given.renderArguments (given : Given) : RenderArguments :=
  { fabric := given.fabricArguments
    output := given.output.getD ""
    size := given.size
    background := given.background
    time := given.time.getD .zero
    frame := given.frame.getD 0
    textureTimeout := given.textureTimeout.getD (.ofSeconds 10) }

/-- The level of a subcommand, and the command that its words make. -/
def subcommand? : String → Option (Level × (Given → Command))
  | "compose" => some (.fabric, fun given => .compose given.fabricArguments)
  | "check" => some (.fabric, fun given => .check given.fabricArguments)
  | "types" => some (.types, fun _ => .types)
  | "render" => some (.render, fun given => .render given.renderArguments)
  | _ => none

/-- Whether a word is the name of a subcommand; help is one too. -/
def isSubcommand (word : String) : Bool := word = "help" || (subcommand? word).isSome

/-! ## 4. Words -/

/-- An option whose value is not settled yet. -/
inductive Pending
  | none
  | awaiting (setting : Setting)
  | unread (setting : Setting) (text : String)

/-- How far the words of a level have been read. -/
structure Reader where
  given : Given := {}
  pending : Pending := .none
  /-- Two dashes alone have been seen: no options any more. -/
  plain : Bool := false

namespace Reader

/-- Settles the option that is pending. -/
def settle (reader : Reader) : Except Usage Reader :=
  match reader.pending with
  | .none => .ok reader
  | .awaiting _ => .error .missingValue
  | .unread setting text => do
    return { reader with given := ← reader.given.set setting text, pending := .none }

/-- An option or a switch, with the value attached to it. -/
def named (reader : Reader) (value : Option String) : Setting ⊕ Switch → Except Usage Reader
  | .inl setting => do
    let reader ← reader.settle
    match value with
    | some text => return { reader with given := ← reader.given.set setting text }
    | none => return { reader with pending := .awaiting setting }
  | .inr switch => do
    if value.isSome then throw .needlessValue
    let reader ← reader.settle
    return { reader with given := ← reader.given.throwSwitch switch }

/-- The characters after two dashes. -/
def longWord (reader : Reader) (level : Level) (cs : List Char) : Except Usage Reader :=
  let name := cs.takeWhile (· ≠ '=')
  let value := match cs.drop name.length with
    | _ :: rest => some (String.ofList rest)
    | [] => none
  match level.long? (String.ofList name) with
  | some what => reader.named value what
  | none => .error .unknownArgument

/-- The characters after one dash: a letter, and perhaps the value of its option. -/
def shortWord (reader : Reader) (level : Level) (letter : Char) (rest : List Char) :
    Except Usage Reader :=
  match level.short? letter with
  | some (.inl setting) =>
    let value := match rest with
      | [] => none
      | '=' :: rest => some (String.ofList rest)
      | rest => some (String.ofList rest)
    reader.named value (.inl setting)
  | some (.inr switch) => reader.named none (.inr switch)
  | none => .error .unknownArgument

/-- A word that is no option: the fabric, if one may be named. -/
def plainWord (reader : Reader) (level : Level) (word : String) : Except Usage Reader :=
  if level.takesFabric ∧ reader.given.fabric.isNone then do
    let reader ← reader.settle
    return { reader with given := { reader.given with fabric := some word } }
  else if level = .program ∧ !(reader.plain ∧ isSubcommand word) then .error .unknownSubcommand
  else .error .unknownArgument

/-- One word. -/
def word (reader : Reader) (level : Level) (word : String) : Except Usage Reader :=
  if reader.plain then reader.plainWord level word
  else
    match word.toList with
    | ['-', '-'] => .ok { reader with plain := true }
    | '-' :: '-' :: rest => reader.longWord level rest
    | '-' :: letter :: rest => reader.shortWord level letter rest
    | _ =>
      match reader.pending with
      | .awaiting setting => .ok { reader with pending := .unread setting word }
      | _ => reader.plainWord level word

end Reader

/-! ## 5. Levels -/

/-- The configuration named by the surroundings stands where a level names none. -/
def checkEnvironment (environment : Option String) (given : Given) : Except Usage Unit :=
  if given.config.isNone ∧ environment = some "" then .error .missingValue else .ok ()

/-- What a subcommand has been told, checked. -/
def readSubcommand (level : Level) (environment : Option String) (words : List String) :
    Except Usage Given := do
  let reader ← words.foldlM (fun reader word => reader.word level word) ({} : Reader)
  let given := (← reader.settle).given
  checkEnvironment environment given
  if given.strict ∧ given.lenient then throw .conflict
  if level.takesFabric ∧ given.fabric.isNone then throw .missingArgument
  if level = .render ∧ given.output.isNone then throw .missingArgument
  return given

/-- What help is asked for. -/
def readHelp : List String → Usage
  | [] => .help
  | [word] => if isSubcommand word then .help else .unknownSubcommand
  | _ => .unknownSubcommand

/-- Reads the words of the program up to its subcommand, and then those of the subcommand. -/
def readProgram (environment : Option String) (reader : Reader) :
    List String → Except Usage Arguments
  | [] => do
    let given := (← reader.settle).given
    checkEnvironment environment given
    if given.config.isNone ∧ environment.isNone then throw .nothing else throw .missingSubcommand
  | word :: rest =>
    let awaits := match reader.pending with
      | .awaiting _ => true
      | _ => false
    if !reader.plain ∧ !awaits ∧ word = "help" then .error (readHelp rest)
    else
      match (if reader.plain ∨ awaits then none else subcommand? word) with
      | some (level, command) => do
        let given ← readSubcommand level environment rest
        let own := (← reader.settle).given
        checkEnvironment environment own
        return ⟨(given.config.or own.config).or environment, command given⟩
      | none => do readProgram environment (← reader.word .program word) rest

/-- Reads a command line; `environment` is the configuration that the surroundings name. -/
def Arguments.read (environment : Option String) (words : List String) : Except Usage Arguments :=
  readProgram environment {} words

end ShaderFabric
