/-
# What a JSON text can hold

Whatever is read from a JSON text to its end has no unread leaf, whole numbers of sixty-four bits,
finite floats, and at most 127 containers inside one another.  `Document.Plain` says so of a
document, with the number of containers that may still be inside one another.

The machine keeps this as an invariant (`State.Plain`): what an open container holds so far has one
level less than the container itself has left.

* `plain_of_mem_scan` -- the scalars among the tokens;
* `plain_step` -- one token;
* `plain_read` -- what has been read.
-/
import ShaderFabric.Json.Reader
import ShaderFabric.Proofs.Json.Number

namespace ShaderFabric

/-! ## 1. Plain documents -/

/-- **Data that a JSON text can hold**, with at most `depth` containers inside one another. -/
def Document.Plain : Nat → Document → Prop
  | _, .null | _, .bool _ | _, .text _ => True
  | _, .int value => -0x8000000000000000 ≤ value ∧ value ≤ Json.largestWord
  | _, .float x => x.isFinite = true
  | depth + 1, .list items => ∀ item ∈ items, Plain depth item
  | depth + 1, .object members => ∀ name value, (name, value) ∈ members → Plain depth value
  | 0, .list _ | 0, .object _ => False
  | _, .unread => False

namespace Document.Plain

theorem succ {depth : Nat} : ∀ {document : Document}, Plain depth document →
    Plain (depth + 1) document := by
  induction depth with
  | zero =>
    intro document h
    cases document with
    | list items | object members | unread => exact h.elim
    | null | bool value | text value => trivial
    | int value | float x => exact h
  | succ depth ih =>
    intro document h
    cases document with
    | list items => exact fun item hmem => ih (h item hmem)
    | object members => exact fun name value hmem => ih (h name value hmem)
    | unread => exact h.elim
    | null | bool value | text value => trivial
    | int value | float x => exact h

theorem int {depth : Nat} {value : Int} (h : Plain depth (.int value)) :
    -0x8000000000000000 ≤ value ∧ value ≤ Json.largestWord := by
  cases depth <;> exact h

theorem isFinite {depth : Nat} {x : Double} (h : Plain depth (.float x)) : x.isFinite = true := by
  cases depth <;> exact h

theorem ne_unread {depth : Nat} : ¬ Plain depth .unread := by
  cases depth <;> exact id

theorem text {depth : Nat} {value : String} : Plain depth (.text value) := by
  cases depth <;> trivial

theorem float {depth : Nat} {x : Double} (h : x.isFinite = true) : Plain depth (.float x) := by
  cases depth <;> exact h

/-- What a list holds has one level less. -/
theorem list {depth : Nat} {items : List Document} (h : Plain depth (.list items)) :
    ∃ below, depth = below + 1 ∧ ∀ item ∈ items, Plain below item := by
  cases depth with
  | zero => exact h.elim
  | succ below => exact ⟨below, rfl, h⟩

theorem object {depth : Nat} {members : List (String × Document)}
    (h : Plain depth (.object members)) :
    ∃ below, depth = below + 1 ∧ ∀ name value, (name, value) ∈ members → Plain below value := by
  cases depth with
  | zero => exact h.elim
  | succ below => exact ⟨below, rfl, h⟩

/-- There may be more room. -/
theorem mono {depth depth' : Nat} {document : Document} (h : Plain depth document)
    (hle : depth ≤ depth') : Plain depth' document := by
  induction hle with
  | refl => exact h
  | step _ ih => exact ih.succ

end Document.Plain

namespace Json

open Document (Plain)

/-! ## 2. Tokens -/

/-- A token that stands for plain data without containers, if it stands for data. -/
def Token.Plain : Token → Prop
  | .scalar value => value.Plain 0
  | _ => True

theorem Token.IsNumber.plain {token : Token} (h : token.IsNumber) : token.Plain := by
  cases token with
  | scalar value =>
    cases value with
    | int value | float x => exact h
    | _ => exact h.elim
  | _ => trivial

theorem plain_first (c : Char) (rest : List Char) : (Token.first c rest).1.Plain := by
  unfold Token.first
  split
  · trivial
  · trivial
  · trivial
  · trivial
  · trivial
  · trivial
  · split
    · trivial
    · trivial
  · exact (isNumber_unsigned true rest).plain
  · split
    · trivial
    · trivial
  · split
    · trivial
    · trivial
  · split
    · trivial
    · trivial
  · split
    · exact (isNumber_unsigned false (c :: rest)).plain
    · trivial

/-- **The tokens of a text stand for plain data.** -/
theorem plain_of_mem_scan {token : Token} : ∀ {cs : List Char} {skip : Nat},
    token ∈ Token.scan skip cs → token.Plain
  | [], _, h => absurd h List.not_mem_nil
  | c :: rest, skip + 1, h => by
    rw [Token.scan] at h
    exact plain_of_mem_scan h
  | c :: rest, 0, h => by
    rw [Token.scan] at h
    split at h
    · exact plain_of_mem_scan h
    · have hfirst := plain_first c rest
      split at h
      · rw [List.mem_singleton.mp h]
        trivial
      · rename_i first length _ heq
        rw [heq] at hfirst
        rcases List.mem_cons.mp h with rfl | h
        · exact hfirst
        · exact plain_of_mem_scan h

/-! ## 3. The machine -/

/-- What a container holds so far is plain. -/
def Frame.Plain (depth : Nat) : Frame → Prop
  | .list items => ∀ item ∈ items, item.Plain depth
  | .object members _ => ∀ name value, (name, value) ∈ members → value.Plain depth

/-- **Open containers that are plain**: each has as many levels left as the limit leaves it. -/
def PlainFrames : List Frame → Prop
  | [] => True
  | frame :: rest => rest.length < depthLimit ∧ frame.Plain (depthLimit - 1 - rest.length) ∧
    PlainFrames rest

/-- **Where the machine stands, everything read so far is plain.**  What it gives up on need not
be. -/
def State.Plain : State → Prop
  | value frames => PlainFrames frames
  | listStart frames | objectStart frames => frames.length < depthLimit ∧ PlainFrames frames
  | listNext items frames => PlainFrames (.list items :: frames)
  | objectKey members frames | objectNext members frames =>
    PlainFrames (.object members "" :: frames)
  | objectColon members key frames => PlainFrames (.object members key :: frames)
  | finished reading => reading.complete = true → reading.document.Plain depthLimit

theorem plain_stop (state : State) : state.stop.Plain := by
  cases state <;> exact nofun

theorem plain_give {value : Document} {frames : List Frame} (h : PlainFrames frames)
    (hvalue : value.Plain (depthLimit - frames.length)) : (give value frames).Plain := by
  cases frames with
  | nil => exact fun _ => hvalue
  | cons frame rest =>
    obtain ⟨hlength, hframe, hrest⟩ := h
    have hdepth : depthLimit - (frame :: rest).length = depthLimit - 1 - rest.length := by
      rw [List.length_cons]
      omega
    rw [hdepth] at hvalue
    cases frame with
    | list items => exact ⟨hlength, List.forall_mem_cons.mpr ⟨hvalue, hframe⟩, hrest⟩
    | object members key =>
      refine ⟨hlength, fun name other hmem => ?_, hrest⟩
      rcases List.mem_cons.mp hmem with heq | hmem
      · cases heq
        exact hvalue
      · exact hframe name other hmem

theorem plain_takeValue {state : State} {frames : List Frame} (h : PlainFrames frames)
    {token : Token} (htoken : token.Plain) : (state.takeValue frames token).Plain := by
  cases token with
  | scalar value => exact plain_give h (Document.Plain.mono htoken (Nat.zero_le _))
  | openList =>
    rw [State.takeValue]
    split
    · rename_i hlength
      exact ⟨hlength, h⟩
    · exact nofun
  | openObject =>
    rw [State.takeValue]
    split
    · rename_i hlength
      exact ⟨hlength, h⟩
    · exact nofun
  | closeList | closeObject | comma | colon | fault => exact plain_stop state

/-- A container that is closed has one level more than what it holds. -/
theorem depth_eq {frames : List Frame} (h : frames.length < depthLimit) :
    depthLimit - frames.length = depthLimit - 1 - frames.length + 1 := by
  omega

theorem plain_closeList {items : List Document} {frames : List Frame}
    (h : PlainFrames (.list items :: frames)) : (give (.list items.reverse) frames).Plain := by
  obtain ⟨hlength, hitems, hframes⟩ := h
  refine plain_give hframes ?_
  rw [depth_eq hlength]
  exact fun item hmem => hitems item (List.mem_reverse.mp hmem)

theorem plain_closeObject {members : List (String × Document)} {key : String}
    {frames : List Frame} (h : PlainFrames (.object members key :: frames)) :
    (give (.object members.reverse) frames).Plain := by
  obtain ⟨hlength, hmembers, hframes⟩ := h
  refine plain_give hframes ?_
  rw [depth_eq hlength]
  exact fun name value hmem => hmembers name value (List.mem_reverse.mp hmem)

/-- **One token** keeps what has been read plain. -/
theorem plain_step {state : State} (h : state.Plain) {token : Token} (htoken : token.Plain) :
    (state.step token).Plain := by
  unfold State.step
  split
  · exact plain_takeValue h htoken
  · exact @plain_closeList [] _ ⟨h.1, nofun, h.2⟩
  · exact @plain_takeValue _ (.list [] :: _) ⟨h.1, nofun, h.2⟩ _ htoken
  · exact h
  · exact plain_closeList h
  · exact @plain_closeObject [] "" _ ⟨h.1, nofun, h.2⟩
  · exact ⟨h.1, nofun, h.2⟩
  · exact h
  · exact h
  · exact h
  · exact plain_closeObject h
  · exact plain_stop state

/-- What the machine has read when the tokens end is plain, if it is complete. -/
theorem plain_reading {state : State} (h : state.Plain) :
    state.reading.complete = true → state.reading.document.Plain depthLimit := by
  cases state with
  | finished reading => exact h
  | _ => exact nofun

/-- A token goes to the machine, unless it has finished: then the text goes on after its tree. -/
theorem run_cons (state : State) (token : Token) (rest : List Token) :
    run state (token :: rest) = run (state.step token) rest ∨
      (run state (token :: rest)).complete = false := by
  cases state with
  | finished reading => exact .inr rfl
  | _ => exact .inl rfl

theorem plain_run : ∀ {tokens : List Token} {state : State}, state.Plain →
    (∀ token ∈ tokens, token.Plain) →
      (run state tokens).complete = true → (run state tokens).document.Plain depthLimit
  | [], _, h, _ => plain_reading h
  | token :: rest, state, h, htokens => by
    obtain ⟨hfirst, hrest⟩ := List.forall_mem_cons.mp htokens
    rcases run_cons state token rest with heq | hincomplete
    · rw [heq]
      exact plain_run (plain_step h hfirst) hrest
    · rw [hincomplete]
      exact nofun

/-- **What has been read to its end is plain**, with at most 127 containers inside one another. -/
theorem plain_read {text : String} (h : (read text).complete = true) :
    (read text).document.Plain depthLimit :=
  @plain_run _ (.value []) trivial (fun _ hmem => plain_of_mem_scan hmem) h

end Json

end ShaderFabric
