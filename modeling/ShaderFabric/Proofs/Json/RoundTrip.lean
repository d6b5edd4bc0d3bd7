/-
# Documents are read back

The machine puts the tokens of a document together to that document again, inside whatever
containers are open, as long as there are not too many of them.  So a plain document whose floats
are read back is read back from its layout.

* `run_tokens` -- the machine on the tokens of a document;
* `read_pretty` -- what is written is read back.
-/
import ShaderFabric.Proofs.Json.Scan

namespace ShaderFabric

namespace Json

section Opening

variable {frames : List Frame} (h : frames.length < depthLimit) (rest : List Token)

include h

theorem run_openList : run (.value frames) (.openList :: rest) = run (.listStart frames) rest := by
  show run (State.takeValue (.value frames) frames .openList) rest = _
  rw [State.takeValue, if_pos h]

theorem run_openObject :
    run (.value frames) (.openObject :: rest) = run (.objectStart frames) rest := by
  show run (State.takeValue (.value frames) frames .openObject) rest = _
  rw [State.takeValue, if_pos h]

end Opening

/-- A container that has just been opened takes its first item as it takes any other. -/
theorem run_listStart {document : Document} {depth : Nat} (h : document.Plain depth)
    (frames : List Frame) (rest : List Token) :
    run (.listStart frames) (document.tokens ++ rest) =
      run (.value (.list [] :: frames)) (document.tokens ++ rest) := by
  cases document with
  | unread => exact absurd h Document.Plain.ne_unread
  | list items => cases items <;> rfl
  | object members =>
    cases members with
    | nil => rfl
    | cons member more => rfl
  | null | bool value | int value | float x | text value => rfl

mutual

/-- **The tokens of a document are put together to it**, inside any containers that leave room. -/
theorem run_tokens : ∀ (document : Document) {depth : Nat} {frames : List Frame}
    (rest : List Token), document.Plain depth → frames.length + depth ≤ depthLimit →
      run (.value frames) (document.tokens ++ rest) = run (give document frames) rest
  | .null, _, _, _, _, _ | .bool _, _, _, _, _, _ | .int _, _, _, _, _, _
  | .float _, _, _, _, _, _ | .text _, _, _, _, _, _ => rfl
  | .unread, _, _, _, h, _ => absurd h Document.Plain.ne_unread
  | .list [], depth, frames, rest, h, hroom => by
    obtain ⟨below, rfl, -⟩ := h.list
    exact run_openList (by omega) (.closeList :: rest)
  | .list (item :: more), depth, frames, rest, h, hroom => by
    obtain ⟨below, rfl, hitems⟩ := h.list
    obtain ⟨hfirst, hmore⟩ := List.forall_mem_cons.mp hitems
    have hinside : frames.length + 1 + below ≤ depthLimit := by omega
    rw [Document.tokens, List.cons_append, List.append_assoc, List.append_assoc,
      run_openList (by omega), run_listStart hfirst]
    exact (@run_tokens item below (.list [] :: frames) _ hfirst hinside).trans
      (run_items more rest hmore hinside)
  | .object [], depth, frames, rest, h, hroom => by
    obtain ⟨below, rfl, -⟩ := h.object
    exact run_openObject (by omega) (.closeObject :: rest)
  | .object ((name, value) :: more), depth, frames, rest, h, hroom => by
    obtain ⟨below, rfl, hmembers⟩ := h.object
    have hfirst := hmembers name value List.mem_cons_self
    have hmore := fun key other hmem => hmembers key other (List.mem_cons_of_mem _ hmem)
    have hinside : frames.length + 1 + below ≤ depthLimit := by omega
    rw [Document.tokens, List.cons_append, List.cons_append, List.cons_append, List.append_assoc,
      List.append_assoc, run_openObject (by omega)]
    exact (@run_tokens value below (.object [] name :: frames) _ hfirst hinside).trans
      (run_members more rest hmore hinside)

/-- The items after the ones that a list holds already. -/
theorem run_items : ∀ (items : List Document) {held : List Document} {below : Nat}
    {frames : List Frame} (rest : List Token), (∀ item ∈ items, item.Plain below) →
      frames.length + 1 + below ≤ depthLimit →
        run (.listNext held frames) (Document.itemTokens items ++ ([.closeList] ++ rest)) =
          run (give (.list (held.reverse ++ items)) frames) rest
  | [], held, _, frames, rest, _, _ => by
    rw [List.append_nil]
    rfl
  | item :: more, held, below, frames, rest, h, hroom => by
    obtain ⟨hfirst, hmore⟩ := List.forall_mem_cons.mp h
    rw [Document.itemTokens, List.cons_append, List.append_assoc]
    refine (@run_tokens item below (.list held :: frames) _ hfirst hroom).trans ?_
    refine (@run_items more (item :: held) below frames rest hmore hroom).trans ?_
    rw [List.reverse_cons, List.append_assoc]
    rfl

theorem run_members : ∀ (members : List (String × Document)) {held : List (String × Document)}
    {below : Nat} {frames : List Frame} (rest : List Token),
      (∀ name value, (name, value) ∈ members → value.Plain below) →
        frames.length + 1 + below ≤ depthLimit →
          run (.objectNext held frames)
              (Document.memberTokens members ++ ([.closeObject] ++ rest)) =
            run (give (.object (held.reverse ++ members)) frames) rest
  | [], held, _, frames, rest, _, _ => by
    rw [List.append_nil]
    rfl
  | (name, value) :: more, held, below, frames, rest, h, hroom => by
    have hfirst := h name value List.mem_cons_self
    have hmore := fun key other hmem => h key other (List.mem_cons_of_mem _ hmem)
    rw [Document.memberTokens, List.cons_append, List.cons_append, List.cons_append,
      List.append_assoc]
    refine (@run_tokens value below (.object held name :: frames) _ hfirst hroom).trans ?_
    refine (@run_members more ((name, value) :: held) below frames rest hmore hroom).trans ?_
    rw [List.reverse_cons, List.append_assoc]
    rfl

end

/-- **What is written is read back**: data that a text can hold, if its floats are read back. -/
theorem read_pretty {document : Document} (h : document.Plain depthLimit)
    (hfloats : ∀ x ∈ document.floats, ReadsBack x) : read (pretty document) = ⟨document, true⟩ := by
  have hscan := @scan_layout document depthLimit 0 [] h hfloats nofun
  rw [List.append_nil] at hscan
  unfold read pretty
  rw [hscan]
  exact run_tokens document [] h (by rw [List.length_nil, Nat.zero_add])

end Json

end ShaderFabric
