/-
# Reading JSON

Tokens are put together by a machine with a stack of open containers.  Where no token fits, the
open containers are closed around an `unread` leaf.  A container inside 127 others is not entered.
-/
import ShaderFabric.Json.Token

namespace ShaderFabric

namespace Json

/-- A container that waits for its next value; what it holds so far is newest first. -/
inductive Frame
  | list (items : List Document)
  | object (members : List (String × Document)) (key : String)

/-- How many containers may be open at once. -/
def depthLimit : Nat := 127

/-- Where the machine stands. -/
inductive State
  /-- A value must come. -/
  | value (frames : List Frame)
  /-- A list has just been opened: a value or its end must come. -/
  | listStart (frames : List Frame)
  /-- A value of a list has been read: a comma or the end must come. -/
  | listNext (items : List Document) (frames : List Frame)
  /-- An object has just been opened: a key or its end must come. -/
  | objectStart (frames : List Frame)
  /-- After a comma in an object: a key must come. -/
  | objectKey (members : List (String × Document)) (frames : List Frame)
  /-- After a key: a colon must come. -/
  | objectColon (members : List (String × Document)) (key : String) (frames : List Frame)
  /-- A member of an object has been read: a comma or the end must come. -/
  | objectNext (members : List (String × Document)) (frames : List Frame)
  | finished (reading : Reading)

/-- The tree of a text that stops making sense at `leaf`. -/
def abandon (leaf : Document) : List Frame → Document
  | [] => leaf
  | .list items :: frames => abandon (.list (leaf :: items).reverse) frames
  | .object members key :: frames => abandon (.object ((key, leaf) :: members).reverse) frames

/-- A finished value goes to the innermost open container. -/
def give (value : Document) : List Frame → State
  | [] => .finished ⟨value, true⟩
  | .list items :: frames => .listNext (value :: items) frames
  | .object members key :: frames => .objectNext ((key, value) :: members) frames

namespace State

/-- The member that stands for the unreadable rest of an object. -/
def unreadMember : String × Document := ("", .unread)

/-- The machine stops where it stands. -/
def stop : State → State
  | value frames => .finished ⟨abandon .unread frames, false⟩
  | listStart frames => .finished ⟨abandon (.list [.unread]) frames, false⟩
  | listNext items frames => .finished ⟨abandon (.list (.unread :: items).reverse) frames, false⟩
  | objectStart frames => .finished ⟨abandon (.object [unreadMember]) frames, false⟩
  | objectKey members frames | objectNext members frames =>
    .finished ⟨abandon (.object (unreadMember :: members).reverse) frames, false⟩
  | objectColon members key frames =>
    .finished ⟨abandon (.object ((key, .unread) :: members).reverse) frames, false⟩
  | finished reading => .finished ⟨reading.document, false⟩

/-- A token where a value must come. -/
def takeValue (state : State) (frames : List Frame) : Token → State
  | .scalar v => give v frames
  | .openList =>
    if frames.length < depthLimit then .listStart frames
    else .finished ⟨abandon (.list [.unread]) frames, false⟩
  | .openObject =>
    if frames.length < depthLimit then .objectStart frames
    else .finished ⟨abandon (.object [unreadMember]) frames, false⟩
  | _ => state.stop

/-- One token. -/
def step (state : State) (token : Token) : State :=
  match state, token with
  | value frames, token => takeValue state frames token
  | listStart frames, .closeList => give (.list []) frames
  | listStart frames, token => takeValue state (.list [] :: frames) token
  | listNext items frames, .comma => .value (.list items :: frames)
  | listNext items frames, .closeList => give (.list items.reverse) frames
  | objectStart frames, .closeObject => give (.object []) frames
  | objectStart frames, .scalar (.text key) => .objectColon [] key frames
  | objectKey members frames, .scalar (.text key) => .objectColon members key frames
  | objectColon members key frames, .colon => .value (.object members key :: frames)
  | objectNext members frames, .comma => .objectKey members frames
  | objectNext members frames, .closeObject => give (.object members.reverse) frames
  | state, _ => state.stop

/-- What has been read when the tokens end. -/
def reading (state : State) : Reading :=
  match state with
  | finished reading => reading
  | state =>
    match state.stop with
    | finished reading => reading
    | _ => ⟨.unread, false⟩

end State

/-- Runs the machine, up to the first token it cannot use. -/
def run (state : State) : List Token → Reading
  | [] => state.reading
  | token :: rest =>
    match state with
    | .finished reading => ⟨reading.document, false⟩
    | state => run (state.step token) rest

/-- Reads a JSON text. -/
def read (text : String) : Reading :=
  run (.value []) (Token.scan 0 text.toList)

end Json

end ShaderFabric
