/-
# Parts of a text between places

A place in a text counts the bytes before it, and it is one only if a character ends there.  A part
between two places exists only if both are places of the text and they are in order; a program that
cuts there without asking stops otherwise.

* `IsPart` -- a part of a text, between its places;
* `slice?_eq_some_iff` -- the part between two places, if there is one;
* `joinKept` -- removal as it is done in one pass: what stands between the spans is copied, with a
  cursor at the end of the last span;
* `joinKept_of_cut` -- for declarations that stand apart this cuts at places only, and leaves what
  is left without them;
* `utf8_removeSpans` -- removal of spans between places takes their bytes, and no others.
-/
import ShaderFabric.Proofs.Text.Removal
import ShaderFabric.Proofs.Text.Rewriting

namespace ShaderFabric

/-! ## 1. Places -/

/-- The text before a place and the text from it on. -/
def cutAt : Nat → List Char → Option (List Char × List Char)
  | 0, cs => some ([], cs)
  | _ + 1, [] => none
  | size + 1, c :: cs =>
    if c.utf8Size ≤ size + 1 then
      (cutAt (size + 1 - c.utf8Size) cs).map fun cut => (c :: cut.1, cut.2)
    else none

theorem textSize_cons (c : Char) (cs : List Char) :
    textSize (c :: cs) = c.utf8Size + textSize cs := rfl

theorem cutAt_append (back : List Char) : ∀ front : List Char,
    cutAt (textSize front) (front ++ back) = some (front, back)
  | [] => by rw [textSize, List.foldr_nil, List.nil_append, cutAt]
  | c :: front => by
    have hpos := c.utf8Size_pos
    obtain ⟨size, hsize⟩ : ∃ size, textSize (c :: front) = size + 1 :=
      Nat.exists_eq_succ_of_ne_zero (by rw [textSize_cons]; omega)
    rw [textSize_cons] at hsize
    have hrest : size + 1 - c.utf8Size = textSize front := by omega
    rw [textSize_cons, hsize, List.cons_append, cutAt, if_pos (by omega), hrest,
      cutAt_append back front]
    rfl

theorem cutAt_eq_some : ∀ {cs front back : List Char} {place : Nat},
    cutAt place cs = some (front, back) → cs = front ++ back ∧ place = textSize front
  | cs, front, back, 0, h => by
    rw [cutAt] at h
    cases h
    exact ⟨rfl, rfl⟩
  | [], front, back, size + 1, h => by
    rw [cutAt] at h
    cases h
  | c :: cs, front, back, size + 1, h => by
    rw [cutAt] at h
    split at h
    · obtain ⟨⟨front', back'⟩, hcut, heq⟩ := Option.map_eq_some_iff.mp h
      cases heq
      obtain ⟨rfl, hsize⟩ := cutAt_eq_some hcut
      dsimp only at hsize ⊢
      exact ⟨rfl, by rw [textSize_cons]; omega⟩
    · cases h

theorem cutAt_eq_some_iff {cs front back : List Char} {place : Nat} :
    cutAt place cs = some (front, back) ↔ cs = front ++ back ∧ place = textSize front := by
  refine ⟨cutAt_eq_some, ?_⟩
  rintro ⟨rfl, rfl⟩
  exact cutAt_append back front

/-! ## 2. Parts -/

/-- **A part of a text, between its places.** -/
def IsPart (cs : List Char) (start stop : Nat) (part : List Char) : Prop :=
  ∃ front back, cs = front ++ (part ++ back) ∧ start = textSize front ∧
    stop = start + textSize part

/-- The part between two places. -/
def slice? (cs : List Char) (start stop : Nat) : Option (List Char) :=
  if start ≤ stop then
    (cutAt start cs).bind fun behind => (cutAt (stop - start) behind.2).map Prod.fst
  else none

theorem slice?_eq_some_iff {cs part : List Char} {start stop : Nat} :
    slice? cs start stop = some part ↔ IsPart cs start stop part := by
  constructor
  · intro h
    unfold slice? at h
    split at h
    · obtain ⟨⟨front, behind⟩, hfront, h⟩ := Option.bind_eq_some_iff.mp h
      obtain ⟨⟨inside, back⟩, hinside, rfl⟩ := Option.map_eq_some_iff.mp h
      obtain ⟨rfl, rfl⟩ := cutAt_eq_some hfront
      obtain ⟨rfl, hsize⟩ := cutAt_eq_some hinside
      exact ⟨front, back, rfl, rfl, by dsimp only; omega⟩
    · cases h
  · rintro ⟨front, back, rfl, rfl, rfl⟩
    have hsize : textSize front + textSize part - textSize front = textSize part := by omega
    rw [slice?, if_pos (Nat.le_add_right _ _), cutAt_append, Option.bind_some, hsize, cutAt_append]
    rfl

theorem IsPart.stop_le {cs part : List Char} {start stop : Nat} (h : IsPart cs start stop part) :
    stop ≤ textSize cs := by
  obtain ⟨front, back, rfl, rfl, rfl⟩ := h
  rw [textSize_append, textSize_append]
  omega

/-- Between two places stands one part only. -/
theorem IsPart.unique {cs part other : List Char} {start stop : Nat} (h : IsPart cs start stop part)
    (hother : IsPart cs start stop other) : part = other := by
  rw [← slice?_eq_some_iff] at h hother
  exact Option.some.inj (h.symm.trans hother)

/-- A character ends here. -/
def IsPlace (cs : List Char) (place : Nat) : Prop :=
  ∃ front back, cs = front ++ back ∧ place = textSize front

theorem IsPart.isPlace {cs part : List Char} {start stop : Nat} (h : IsPart cs start stop part) :
    IsPlace cs start ∧ IsPlace cs stop := by
  obtain ⟨front, back, rfl, rfl, rfl⟩ := h
  refine ⟨⟨front, part ++ back, rfl, rfl⟩, ⟨front ++ part, back, ?_, ?_⟩⟩
  · rw [List.append_assoc]
  · rw [textSize_append]

/-- No place lies inside of a character. -/
theorem IsPlace.outside {front rest : List Char} {c : Char} {place : Nat}
    (h : IsPlace (front ++ c :: rest) place) :
    place ≤ textSize front ∨ textSize front + c.utf8Size ≤ place := by
  obtain ⟨before, behind, heq, rfl⟩ := h
  rcases List.append_eq_append_iff.mp heq with ⟨more, rfl, hmore⟩ | ⟨more, rfl, -⟩
  · cases more with
    | nil => exact .inl (by rw [List.append_nil])
    | cons d more =>
      rw [List.cons_append] at hmore
      cases hmore
      right
      rw [textSize_append, textSize_cons]
      omega
  · left
    rw [textSize_append]
    omega

/-! ## 3. Removal in one pass -/

/-- What stands before, between and behind spans, from a cursor on. -/
def joinKept (cs : List Char) : Nat → List (Nat × Nat) → Option (List Char)
  | cursor, [] => (cutAt cursor cs).map Prod.snd
  | cursor, (start, stop) :: rest =>
    (slice? cs cursor start).bind fun kept => (joinKept cs stop rest).map fun later => kept ++ later

/-- Along the declarations that are taken out: the cursor is where the last one ended. -/
theorem joinKept_of_cut {offset : Nat} {found : List Declaration} {cs short : List Char}
    (h : Cut offset found cs short) : ∀ front : List Char, offset = textSize front →
      joinKept (front ++ cs) offset (found.map Declaration.span) = some short := by
  induction h with
  | done offset rest =>
    rintro front rfl
    rw [List.map_nil, joinKept, cutAt_append]
    rfl
  | @next offset declaration later kept removed rest short start stop declares cut ih =>
    rintro front rfl
    have hkept : slice? (front ++ (kept ++ (removed ++ rest))) (textSize front)
        declaration.start = some kept :=
      slice?_eq_some_iff.mpr ⟨front, removed ++ rest, rfl, rfl, start⟩
    have hlater := ih (front ++ (kept ++ removed)) (by
      rw [stop, start, textSize_append, textSize_append, Nat.add_assoc])
    rw [List.append_assoc, List.append_assoc] at hlater
    rw [List.map_cons, Declaration.span, joinKept, hkept, Option.bind_some, hlater]
    rfl

namespace Cut

variable {offset : Nat} {found picked : List Declaration} {cs short : List Char}

/-- Some of the declarations that stand apart do so too. -/
theorem sublist (h : Cut offset found cs short) (hpicked : picked.Sublist found) :
    ∃ short, Cut offset picked cs short := by
  induction h generalizing picked with
  | done offset rest =>
    rw [List.sublist_nil.mp hpicked]
    exact ⟨rest, .done offset rest⟩
  | @next offset declaration later kept removed rest short start stop declares cut ih =>
    rcases List.sublist_cons_iff.mp hpicked with hpicked | ⟨others, rfl, hothers⟩
    · obtain ⟨short, hcut⟩ := ih hpicked
      rw [stop, start, Nat.add_assoc, ← textSize_append] at hcut
      rw [← List.append_assoc]
      exact ⟨_, hcut.after⟩
    · obtain ⟨short, hcut⟩ := ih hothers
      exact ⟨_, .next start stop declares hcut⟩

/-- Each of them is a part of the text, and none is empty. -/
theorem isPart (h : Cut offset found cs short) : ∀ front : List Char, offset = textSize front →
    ∀ declaration ∈ found, declaration.start < declaration.stop ∧
      ∃ part, IsPart (front ++ cs) declaration.start declaration.stop part := by
  induction h with
  | done offset rest => exact fun _ _ declaration hmem => absurd hmem List.not_mem_nil
  | @next offset declaration later kept removed rest short start stop declares cut ih =>
    rintro front rfl other hmem
    rcases List.mem_cons.mp hmem with rfl | hmem
    · refine ⟨?_, removed, front ++ kept, rest, ?_, ?_, stop⟩
      · obtain ⟨c, tail, rfl⟩ : ∃ c tail, removed = c :: tail := by
          refine List.exists_cons_of_ne_nil ?_
          rintro rfl
          obtain ⟨_, _, _, _, -, -, -, -, heq⟩ := declares
          rw [lexemes] at heq
          cases heq
        have hpos := c.utf8Size_pos
        rw [stop, textSize_cons]
        omega
      · rw [List.append_assoc]
      · rw [start, textSize_append]
    · have hlater := ih (front ++ (kept ++ removed)) (by
        rw [stop, start, textSize_append, textSize_append, Nat.add_assoc]) other hmem
      rwa [List.append_assoc, List.append_assoc] at hlater

/-- They stand in their order. -/
theorem pairwise (h : Cut offset found cs short) :
    found.Pairwise fun earlier later => earlier.stop ≤ later.start := by
  induction h with
  | done => exact .nil
  | next start stop declares cut ih =>
    exact .cons (fun other hmem => (cut.le_start other hmem).1) ih

end Cut

/-- The declarations of a text stand apart in it. -/
theorem exists_cut_declarations (source : String) :
    ∃ short, Cut 0 (declarations source) source.toList short := by
  have hcut := cut_removeSpans (fun _ => true) source
  rw [List.filter_true] at hcut
  exact ⟨_, hcut⟩

/-! ## 4. The bytes that are left -/

/-- A byte lies in one of the spans. -/
def covers (spans : List (Nat × Nat)) (place : Nat) : Bool :=
  spans.any fun span => span.1 ≤ place && place < span.2

/-- The bytes from an offset on that lie in none of the spans. -/
def bytesOutside (spans : List (Nat × Nat)) (offset : Nat) (bytes : List UInt8) : List UInt8 :=
  ((bytes.zipIdx offset).filter fun byte => !covers spans byte.2).map Prod.fst

theorem bytesOutside_append (spans : List (Nat × Nat)) (offset : Nat) (front back : List UInt8) :
    bytesOutside spans offset (front ++ back) =
      bytesOutside spans offset front ++ bytesOutside spans (offset + front.length) back := by
  unfold bytesOutside
  rw [List.zipIdx_append, List.filter_append, List.map_append]

/-- Bytes that lie in the same spans stay or go together. -/
theorem bytesOutside_of_covers {spans : List (Nat × Nat)} {offset : Nat} {bytes : List UInt8}
    (h : ∀ place, offset ≤ place → place < offset + bytes.length →
      covers spans place = covers spans offset) :
    bytesOutside spans offset bytes = if covers spans offset then [] else bytes := by
  have hsame : ∀ byte ∈ bytes.zipIdx offset,
      (!covers spans byte.2) = !covers spans offset := by
    rintro ⟨byte, place⟩ hmem
    have hplace := List.mem_zipIdx hmem
    rw [h place hplace.1 (by omega)]
  unfold bytesOutside
  rw [List.filter_congr hsame]
  cases covers spans offset with
  | true => simp
  | false =>
    simp only [Bool.not_false, List.filter_true]
    exact List.zipIdx_map_fst offset bytes

/-- Between places, the bytes of one character lie in the same spans. -/
theorem covers_of_isPlace {spans : List (Nat × Nat)} {front rest : List Char} {c : Char}
    (h : ∀ span ∈ spans, IsPlace (front ++ c :: rest) span.1 ∧ IsPlace (front ++ c :: rest) span.2)
    {place : Nat} (hstart : textSize front ≤ place) (hstop : place < textSize front + c.utf8Size) :
    covers spans place = covers spans (textSize front) := by
  rw [Bool.eq_iff_iff]
  simp only [covers, List.any_eq_true, Bool.and_eq_true, decide_eq_true_eq]
  refine exists_congr fun span => and_congr_right fun hspan => ?_
  have hfirst := (h span hspan).1.outside
  have hlast := (h span hspan).2.outside
  omega

/-- Along the characters. -/
theorem bytesOutside_charBytes {spans : List (Nat × Nat)} : ∀ cs front : List Char,
    (∀ span ∈ spans, IsPlace (front ++ cs) span.1 ∧ IsPlace (front ++ cs) span.2) →
      bytesOutside spans (textSize front) (charBytes cs) =
        charBytes (removeFrom spans (textSize front) cs)
  | [], front, _ => rfl
  | c :: cs, front, h => by
    have hlength : (String.utf8EncodeChar c).length = c.utf8Size := String.length_utf8EncodeChar c
    have hfirst : bytesOutside spans (textSize front) (String.utf8EncodeChar c) =
        if covers spans (textSize front) then [] else String.utf8EncodeChar c := by
      refine bytesOutside_of_covers fun place hstart hstop => covers_of_isPlace h hstart ?_
      rwa [hlength] at hstop
    have hrest := bytesOutside_charBytes cs (front ++ [c]) (by
      rwa [List.append_assoc, List.singleton_append])
    have hend : textSize (front ++ [c]) = textSize front + c.utf8Size := textSize_append front [c]
    rw [hend] at hrest
    have hbytes : charBytes (c :: cs) = String.utf8EncodeChar c ++ charBytes cs := List.flatMap_cons
    rw [hbytes, bytesOutside_append, hfirst, hlength, hrest, removeFrom, ← covers]
    split
    · rfl
    · exact List.flatMap_cons.symm

/-- **Removal of spans between places** takes their bytes, and no others. -/
theorem utf8_removeSpans {spans : List (Nat × Nat)} {source : String}
    (h : ∀ span ∈ spans, IsPlace source.toList span.1 ∧ IsPlace source.toList span.2) :
    utf8 (removeSpans spans source) = bytesOutside spans 0 (utf8 source) := by
  rw [removeSpans, utf8_ofList, utf8_eq]
  exact (bytesOutside_charBytes source.toList [] h).symm

end ShaderFabric
