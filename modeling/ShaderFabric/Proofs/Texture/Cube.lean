/-
# A cube map is loaded whole or not at all

Six faces are fetched in order, and only when all of them are there are they decoded, again in
order.  The first face has no edge to be compared with and sets the one for the others.  So there is
one reason at most why a cube map fails: the first fetch that fails, and if none does, the first
face that is no image, no square, or of another edge.

* `Job.fetchAll_eq_ok_iff`, `Job.fetchAll_eq_error_iff` -- fetching: everything, or what comes of
  the first location that is not fetched;
* `EvenFaces`, `FaceFault`, `FirstFaulty` -- faces of one edge, and the first face that is wrong;
* `decodeCube_eq_ok_iff`, `decodeCube_eq_error_iff` -- decoding: the faces in order, or the fault of
  the first that is wrong;
* `Literal.faces_of_infer` -- the faces of a cube map stand in the order of `faceKeys`, whatever
  order the literal has them in;
* `Job.cube_whole_or_first_fault` -- what this comes to for a job.
-/
import Mathlib.Data.List.Forall2
import ShaderFabric.Proofs.Texture.Job
import ShaderFabric.Proofs.Uniform.Object
import ShaderFabric.Texture.Slot

namespace ShaderFabric

/-! ## 1. Fetching -/

/-- **The first location in order that is not fetched**, with the fault that comes of it, or with
none where the fetch breaks down. -/
def FirstUnfetched (fetch : Fetcher) (locations : List Location) (fault : Option FetchFault) :
    Prop :=
  ∃ before location after, locations = before ++ location :: after ∧
    (∀ earlier ∈ before, ∃ resource, fetch earlier = some (.ok resource)) ∧
    fetch location = fault.map Except.error

namespace Job

variable {fetch : Fetcher}

/-- **Everything is fetched**, each location to a resource of its own. -/
theorem fetchAll_eq_ok_iff : ∀ {locations : List Location} {resources : List Resource},
    fetchAll fetch locations = some (.ok resources) ↔
      List.Forall₂ (fun location resource => fetch location = some (.ok resource))
        locations resources
  | [], resources => by simp [fetchAll, eq_comm]
  | location :: rest, resources => by
    rw [List.forall₂_cons_left_iff, fetchAll]
    cases hfetch : fetch location with
    | none => simp
    | some result =>
      cases result with
      | error fault => simp
      | ok resource =>
        constructor
        · intro h
          obtain ⟨result, hrest, hmap⟩ := Option.map_eq_some_iff.mp h
          cases result with
          | error fault => cases hmap
          | ok others =>
            cases hmap
            exact ⟨resource, others, rfl, fetchAll_eq_ok_iff.mp hrest, rfl⟩
        · rintro ⟨_, others, heq, hrest, rfl⟩
          cases heq
          rw [fetchAll_eq_ok_iff.mpr hrest]
          rfl

/-- The first location that is not fetched is the one in front, or comes after it. -/
theorem firstUnfetched_cons {location : Location} {rest : List Location}
    {fault : Option FetchFault} : FirstUnfetched fetch (location :: rest) fault ↔
      fetch location = fault.map Except.error ∨
        (∃ resource, fetch location = some (.ok resource)) ∧ FirstUnfetched fetch rest fault := by
  constructor
  · rintro ⟨before, other, after, hsplit, hbefore, hfault⟩
    cases before with
    | nil =>
      cases hsplit
      exact .inl hfault
    | cons first before =>
      cases hsplit
      obtain ⟨hfirst, hbefore⟩ := List.forall_mem_cons.mp hbefore
      exact .inr ⟨hfirst, before, other, after, rfl, hbefore, hfault⟩
  · rintro (hfault | ⟨hfirst, before, other, after, rfl, hbefore, hfault⟩)
    · exact ⟨[], location, rest, rfl, fun _ h => absurd h List.not_mem_nil, hfault⟩
    · exact ⟨location :: before, other, after, rfl, List.forall_mem_cons.mpr ⟨hfirst, hbefore⟩,
        hfault⟩

/-- **Not everything is fetched** exactly if there is a first location that is not, and then that
decides. -/
theorem fetchAll_eq_error_iff {fault : Option FetchFault} : ∀ {locations : List Location},
    fetchAll fetch locations = fault.map Except.error ↔ FirstUnfetched fetch locations fault
  | [] => by
    refine iff_of_false ?_ ?_
    · cases fault <;> simp [fetchAll]
    · rintro ⟨before, location, after, hsplit, -⟩
      cases before <;> cases hsplit
  | location :: rest => by
    rw [firstUnfetched_cons, ← fetchAll_eq_error_iff, fetchAll]
    cases hfetch : fetch location with
    | none => cases fault <;> simp
    | some result =>
      cases result with
      | error refused => cases fault <;> simp
      | ok resource =>
        cases fault with
        | none => simp
        | some refused =>
          rcases hrest : fetchAll fetch rest with _ | (other | others) <;> simp [Except.map]

end Job

/-! ## 2. Decoding -/

section Faces

variable (images : ImageReader)

/-- Faces that decode to square images of one edge. -/
def EvenFaces (edge : Nat) (faces : List Resource) (pictures : List Image) : Prop :=
  List.Forall₂ (fun face picture => decodeFace images face = .ok picture ∧ picture.width = edge ∧
    picture.height = edge) faces pictures

/-- **What is wrong with a face**: it is no image, no square, or not of the edge that is expected.
Of the first face none is. -/
inductive FaceFault (expected : Option Nat) (index : Nat) (face : Resource) : DecodeFault → Prop
  | undecoded {fault : DecodeFault} (h : decodeFace images face = .error fault) :
    FaceFault expected index face fault
  | oblong {picture : Image} (h : decodeFace images face = .ok picture)
    (hoblong : picture.width ≠ picture.height) :
    FaceFault expected index face (.oblongFace index picture.width picture.height)
  | unequal {picture : Image} {edge : Nat} (h : decodeFace images face = .ok picture)
    (hsquare : picture.width = picture.height) (hexpected : expected = some edge)
    (hunequal : picture.width ≠ edge) :
    FaceFault expected index face (.unequalFace index picture.width edge)

/-- **The first face in order that is wrong**: those before it are squares of one edge, which is the
edge that is expected of it. -/
def FirstFaulty (faces : List Resource) (fault : DecodeFault) : Prop :=
  ∃ before face after edge pictures, faces = before ++ face :: after ∧
    EvenFaces images edge before pictures ∧
    FaceFault images (pictures.head?.map Image.width) before.length face fault

variable {images} {index : Nat} {expected : Option Nat} {face : Resource} {rest : List Resource}

/-- A row of faces decodes if the one in front does what is expected of it and the others decode. -/
theorem decodeFaces_cons_eq_ok_iff {pictures : List Image} :
    decodeFaces images index expected (face :: rest) = .ok pictures ↔
      ∃ picture others, decodeFace images face = .ok picture ∧ picture.width = picture.height ∧
        picture.width = expected.getD picture.width ∧
        decodeFaces images (index + 1) (some picture.width) rest = .ok others ∧
        pictures = picture :: others := by
  simp only [decodeFaces, bind_eq_ok, refuse_eq_ok, pure_eq_ok, ne_eq, not_not]
  constructor
  · rintro ⟨picture, hface, hsquare, hedge, others, hrest, rfl⟩
    exact ⟨picture, others, hface, hsquare, hedge, hedge ▸ hrest, rfl⟩
  · rintro ⟨picture, others, hface, hsquare, hedge, hrest, rfl⟩
    exact ⟨picture, hface, hsquare, hedge, others, hedge ▸ hrest, rfl⟩

/-- It fails if the one in front is wrong, or is not and the others fail. -/
theorem decodeFaces_cons_eq_error_iff {fault : DecodeFault} :
    decodeFaces images index expected (face :: rest) = .error fault ↔
      FaceFault images expected index face fault ∨
        ∃ picture, decodeFace images face = .ok picture ∧ picture.width = picture.height ∧
          picture.width = expected.getD picture.width ∧
          decodeFaces images (index + 1) (some picture.width) rest = .error fault := by
  simp only [decodeFaces, bind_eq_error, refuse_eq_error, ne_eq, not_not]
  constructor
  · rintro (hfault | ⟨picture, hface, ⟨hoblong, rfl⟩ | ⟨hsquare, ⟨hunequal, rfl⟩ | ⟨hedge, hrest⟩⟩⟩)
    · exact .inl (.undecoded hfault)
    · exact .inl (.oblong hface hoblong)
    · cases expected with
      | none => exact absurd rfl hunequal
      | some edge => exact .inl (.unequal hface hsquare rfl hunequal)
    · rcases hrest with hrest | ⟨others, -, hpure⟩
      · exact .inr ⟨picture, hface, hsquare, hedge, hedge ▸ hrest⟩
      · cases hpure
  · rintro (hfault | ⟨picture, hface, hsquare, hedge, hrest⟩)
    · cases hfault with
      | undecoded h => exact .inl h
      | @oblong picture h hoblong => exact .inr ⟨picture, h, .inl ⟨hoblong, rfl⟩⟩
      | @unequal picture edge h hsquare hexpected hunequal =>
        subst hexpected
        exact .inr ⟨picture, h, .inr ⟨hsquare, .inl ⟨hunequal, rfl⟩⟩⟩
    · exact .inr ⟨picture, hface, .inr ⟨hsquare, .inr ⟨hedge, .inl (hedge ▸ hrest)⟩⟩⟩

/-- **A row of faces decodes** exactly if its faces are squares of one edge, which is the one that is
expected, if any is. -/
theorem decodeFaces_eq_ok_iff : ∀ {faces : List Resource} {index : Nat} {expected : Option Nat}
    {pictures : List Image}, decodeFaces images index expected faces = .ok pictures ↔
      ∃ edge, expected.getD edge = edge ∧ EvenFaces images edge faces pictures
  | [], index, expected, pictures => by
    constructor
    · intro h
      cases h
      exact ⟨expected.getD 0, by cases expected <;> rfl, .nil⟩
    · rintro ⟨edge, -, heven⟩
      cases heven
      rfl
  | face :: rest, index, expected, pictures => by
    simp only [decodeFaces_cons_eq_ok_iff, EvenFaces, List.forall₂_cons_left_iff]
    constructor
    · rintro ⟨picture, others, hface, hsquare, hedge, hrest, rfl⟩
      obtain ⟨edge, hsame, heven⟩ := decodeFaces_eq_ok_iff.mp hrest
      obtain rfl : picture.width = edge := hsame
      exact ⟨picture.width, hedge.symm, picture, others, ⟨hface, rfl, hsquare.symm⟩, heven, rfl⟩
    · rintro ⟨_, hedge, picture, others, ⟨hface, rfl, hsquare⟩, heven, rfl⟩
      exact ⟨picture, others, hface, hsquare.symm, hedge.symm,
        decodeFaces_eq_ok_iff.mpr ⟨picture.width, rfl, heven⟩, rfl⟩

/-- **It fails** exactly with the fault of the first face that is wrong.  What is expected of a face
behind others is their edge. -/
theorem decodeFaces_eq_error_iff {fault : DecodeFault} : ∀ {faces : List Resource} {index : Nat}
    {expected : Option Nat}, decodeFaces images index expected faces = .error fault ↔
      ∃ before face after edge pictures, faces = before ++ face :: after ∧
        expected.getD edge = edge ∧ EvenFaces images edge before pictures ∧
        FaceFault images (expected.or (pictures.head?.map Image.width)) (index + before.length)
          face fault
  | [], index, expected => by
    refine iff_of_false (fun h => by cases h) ?_
    rintro ⟨before, face, after, _, _, hsplit, -⟩
    cases before <;> cases hsplit
  | face :: rest, index, expected => by
    rw [decodeFaces_cons_eq_error_iff]
    constructor
    · rintro (hfault | ⟨picture, hface, hsquare, hedge, hrest⟩)
      · refine ⟨[], face, rest, expected.getD 0, [], rfl, by cases expected <;> rfl, .nil, ?_⟩
        rwa [List.head?_nil, Option.map_none, Option.or_none]
      · obtain ⟨before, bad, after, edge, pictures, rfl, hsame, heven, hfault⟩ :=
          decodeFaces_eq_error_iff.mp hrest
        obtain rfl : picture.width = edge := hsame
        rw [Nat.add_right_comm, Nat.add_assoc] at hfault
        refine ⟨face :: before, bad, after, picture.width, picture :: pictures, rfl, hedge.symm,
          .cons ⟨hface, rfl, hsquare.symm⟩ heven, ?_⟩
        rwa [List.head?_cons, Option.map_some, Option.or_some, ← hedge]
    · rintro ⟨before, bad, after, edge, pictures, hsplit, hedge, heven, hfault⟩
      cases before with
      | nil =>
        cases hsplit
        cases heven
        rw [List.head?_nil, Option.map_none, Option.or_none] at hfault
        exact .inl hfault
      | cons first before =>
        cases hsplit
        obtain ⟨picture, others, ⟨hface, rfl, hsquare⟩, hothers, rfl⟩ :=
          List.forall₂_cons_left_iff.mp heven
        rw [List.head?_cons, Option.map_some, Option.or_some, hedge, List.length_cons,
          ← Nat.add_assoc, Nat.add_right_comm] at hfault
        exact .inr ⟨picture, hface, hsquare.symm, hedge.symm, decodeFaces_eq_error_iff.mpr
          ⟨before, bad, after, picture.width, others, rfl, rfl, hothers, hfault⟩⟩

/-- Of a whole row no edge is expected but that of its first face. -/
theorem decodeFaces_none_eq_error_iff {faces : List Resource} {fault : DecodeFault} :
    decodeFaces images 0 none faces = .error fault ↔ FirstFaulty images faces fault := by
  simp only [decodeFaces_eq_error_iff, FirstFaulty, Option.getD_none, Option.none_or, true_and,
    Nat.zero_add]

/-- Over faces it is only the reader of images that can break down. -/
theorem FirstFaulty.isBreakdown_iff {faces : List Resource} {fault : DecodeFault}
    (h : FirstFaulty images faces fault) :
    fault.isBreakdown = true ↔ fault = .image .breakdown := by
  obtain ⟨_, face, _, _, _, -, -, hfault⟩ := h
  cases hfault with
  | oblong | unequal => simp [DecodeFault.isBreakdown]
  | undecoded h =>
    cases face with
    | pixels picture => cases h
    | bytes bytes =>
      simp only [decodeFace, decodePixels] at h
      split at h
      · cases h
      · rename_i imageFault _
        cases h
        cases imageFault <;> simp [DecodeFault.isBreakdown]

variable {faces : List Resource}

/-- **Six faces are a cube map** exactly if they are squares of one edge, which is then its edge. -/
theorem decodeCube_eq_ok_iff {texture : Decoded} : decodeCube images faces = .ok texture ↔
    faces.length = 6 ∧ ∃ edge pictures, EvenFaces images edge faces pictures ∧
      texture = .cube edge (pictures.map Image.pixels) := by
  simp only [decodeCube, refuse_eq_ok, ne_eq, not_not, bind_eq_ok, pure_eq_ok,
    decodeFaces_eq_ok_iff, Option.getD_none, true_and]
  refine and_congr_right fun hlength => ?_
  have hedge : ∀ {edge : Nat} {pictures : List Image}, EvenFaces images edge faces pictures →
      (pictures.head?.map Image.width).getD 1 = edge := by
    intro edge pictures heven
    cases heven with
    | nil => cases hlength
    | cons hfirst _ => exact hfirst.2.1
  constructor
  · rintro ⟨pictures, ⟨edge, heven⟩, rfl⟩
    exact ⟨edge, pictures, heven, by rw [hedge heven]⟩
  · rintro ⟨edge, pictures, heven, rfl⟩
    exact ⟨pictures, ⟨edge, heven⟩, by rw [hedge heven]⟩

/-- **Faces are no cube map** exactly if they are not six, or there is a first that is wrong. -/
theorem decodeCube_eq_error_iff {fault : DecodeFault} : decodeCube images faces = .error fault ↔
    (faces.length ≠ 6 ∧ fault = .faceCount faces.length) ∨
      (faces.length = 6 ∧ FirstFaulty images faces fault) := by
  have hcount : DecodeFault.faceCount faces.length = fault ↔ fault = .faceCount faces.length :=
    eq_comm
  simp only [decodeCube, refuse_eq_error, ne_eq, not_not, bind_eq_error,
    decodeFaces_none_eq_error_iff, pure_ne_error, and_false, exists_false, or_false, hcount]

end Faces

/-! ## 3. The order of the faces -/

namespace Literal

/-- **The faces of a cube map stand in the order of `faceKeys`**, each at the place that the literal
gives under its key. -/
theorem faces_of_infer {literal : Literal} {faces : Faces Location}
    (h : literal.infer = .ok (.cube (.faces faces))) :
    ∃ fields, literal = .object fields ∧ LocationsOf fields faceKeys faces.toList := by
  cases literal with
  | object fields =>
    refine ⟨fields, rfl, ?_⟩
    have h : inferObject fields = .ok (.cube (.faces faces)) := h
    unfold inferObject at h
    split at h
    · obtain ⟨locations, hlocations, h⟩ := bind_eq_ok.mp h
      split at h
      · rename_i found hfound
        cases h
        rw [ofList?_eq_some_iff.mp hfound]
        exact mapM_faceLocation_eq_ok_iff.mp hlocations
      · cases h
    · split at h
      · obtain ⟨set, -, h⟩ := bind_eq_ok.mp h
        cases h
      · split at h
        · rename_i vector hvector
          cases h
          unfold inferVector at hvector
          split at hvector <;> cases hvector
        · cases h
  | sequence values =>
    have h : inferSequence values = .ok (.cube (.faces faces)) := h
    unfold inferSequence at h
    split at h <;> cases h
  | text written =>
    have h : Except.ok (inferText written) = Except.ok (.cube (.faces faces)) := h
    injection h with h
    unfold inferText at h
    repeat' split at h
    all_goals cases h
  | _ => cases h

end Literal

/-! ## 4. Jobs -/

/-- Every face is fetched, each to a resource of its own. -/
def FetchedFaces (fetch : Fetcher) (faces : Faces Location) (resources : List Resource) : Prop :=
  List.Forall₂ (fun location resource => fetch location = some (.ok resource)) faces.toList
    resources

namespace Job

section Run

variable {images : ImageReader} {fetch : Fetcher} {faces : Faces Location}

theorem length_of_fetchedFaces {resources : List Resource}
    (h : FetchedFaces fetch faces resources) : resources.length = 6 :=
  h.length_eq.symm

/-- What comes of a cube map once its faces are fetched. -/
theorem run_cube_of_fetched {resources : List Resource} (h : FetchedFaces fetch faces resources) :
    (cube faces).run images fetch = decoded (decodeCube images resources) := by
  rw [run, fetchAll_eq_ok_iff.mpr h]
  rfl

/-- What comes of a cube map of which a face is not fetched. -/
theorem run_cube_of_unfetched {fault : Option FetchFault}
    (h : FirstUnfetched fetch faces.toList fault) :
    (cube faces).run images fetch = fault.map fun refused => .error (.fetch refused) := by
  rw [run, fetchAll_eq_error_iff.mpr h]
  cases fault <;> rfl

/-- Either every face is fetched, or there is a first that is not. -/
theorem fetched_or_unfetched (fetch : Fetcher) (faces : Faces Location) :
    (∃ resources, FetchedFaces fetch faces resources) ∨
      ∃ fault, FirstUnfetched fetch faces.toList fault := by
  cases h : fetchAll fetch faces.toList with
  | none => exact .inr ⟨none, fetchAll_eq_error_iff.mp h⟩
  | some result =>
    cases result with
    | error refused => exact .inr ⟨some refused, fetchAll_eq_error_iff.mp h⟩
    | ok resources => exact .inl ⟨resources, fetchAll_eq_ok_iff.mp h⟩

/-- Faces that have been fetched are six, so that only a face can be wrong. -/
theorem decodeCube_of_fetched {resources : List Resource} {fault : DecodeFault}
    (fetched : FetchedFaces fetch faces resources) :
    decodeCube images resources = .error fault ↔ FirstFaulty images resources fault := by
  rw [decodeCube_eq_error_iff]
  constructor
  · rintro (⟨hcount, -⟩ | ⟨-, hfaulty⟩)
    · exact absurd (length_of_fetchedFaces fetched) hcount
    · exact hfaulty
  · exact fun hfaulty => .inr ⟨length_of_fetchedFaces fetched, hfaulty⟩

/-- **A cube map is loaded** exactly if every face is fetched and they decode to squares of one
edge. -/
theorem run_cube_eq_ok_iff {texture : Decoded} :
    (cube faces).run images fetch = some (.ok texture) ↔
      ∃ resources edge pictures, FetchedFaces fetch faces resources ∧
        EvenFaces images edge resources pictures ∧
          texture = .cube edge (pictures.map Image.pixels) := by
  constructor
  · intro h
    rcases fetched_or_unfetched fetch faces with ⟨resources, fetched⟩ | ⟨fault, unfetched⟩
    · rw [run_cube_of_fetched fetched, decoded_eq_ok_iff, decodeCube_eq_ok_iff] at h
      obtain ⟨-, edge, pictures, heven, rfl⟩ := h
      exact ⟨resources, edge, pictures, fetched, heven, rfl⟩
    · rw [run_cube_of_unfetched unfetched] at h
      cases fault <;> cases h
  · rintro ⟨resources, edge, pictures, fetched, heven, rfl⟩
    rw [run_cube_of_fetched fetched, decoded_eq_ok_iff, decodeCube_eq_ok_iff]
    exact ⟨length_of_fetchedFaces fetched, edge, pictures, heven, rfl⟩

/-- **It fails** exactly with the fault of the first fetch that fails, or, if none does, with that
of the first face that is wrong. -/
theorem run_cube_eq_error_iff {fault : TextureFault} :
    (cube faces).run images fetch = some (.error fault) ↔
      (∃ refused, FirstUnfetched fetch faces.toList (some refused) ∧ fault = .fetch refused) ∨
        ∃ resources broken, FetchedFaces fetch faces resources ∧
          FirstFaulty images resources broken ∧ broken ≠ .image .breakdown ∧
            fault = .decode broken := by
  constructor
  · intro h
    rcases fetched_or_unfetched fetch faces with ⟨resources, fetched⟩ | ⟨refused, unfetched⟩
    · rw [run_cube_of_fetched fetched, decoded_eq_error_iff] at h
      obtain ⟨broken, hbroken, hreader, rfl⟩ := h
      have hfaulty := (decodeCube_of_fetched fetched).mp hbroken
      refine .inr ⟨resources, broken, fetched, hfaulty, fun hbreakdown => ?_, rfl⟩
      exact Bool.false_ne_true (hreader.symm.trans (hfaulty.isBreakdown_iff.mpr hbreakdown))
    · rw [run_cube_of_unfetched unfetched] at h
      cases refused with
      | none => cases h
      | some refused =>
        cases h
        exact .inl ⟨refused, unfetched, rfl⟩
  · rintro (⟨refused, unfetched, rfl⟩ | ⟨resources, broken, fetched, hfaulty, hreader, rfl⟩)
    · rw [run_cube_of_unfetched unfetched]
      rfl
    · rw [run_cube_of_fetched fetched, decoded_eq_error_iff]
      have hstands : broken.isBreakdown = false :=
        Bool.eq_false_iff.mpr fun h => hreader (hfaulty.isBreakdown_iff.mp h)
      exact ⟨broken, (decodeCube_of_fetched fetched).mpr hfaulty, hstands, rfl⟩

/-- **Nothing comes of it** exactly if a fetch breaks down before one fails, or the reader of images
over the first face that is wrong. -/
theorem run_cube_eq_none_iff : (cube faces).run images fetch = none ↔
    FirstUnfetched fetch faces.toList none ∨
      ∃ resources, FetchedFaces fetch faces resources ∧
        FirstFaulty images resources (.image .breakdown) := by
  constructor
  · intro h
    rcases fetched_or_unfetched fetch faces with ⟨resources, fetched⟩ | ⟨refused, unfetched⟩
    · rw [run_cube_of_fetched fetched, decoded_eq_none_iff] at h
      obtain ⟨broken, hbroken, hbreakdown⟩ := h
      have hfaulty := (decodeCube_of_fetched fetched).mp hbroken
      obtain rfl := hfaulty.isBreakdown_iff.mp hbreakdown
      exact .inr ⟨resources, fetched, hfaulty⟩
    · rw [run_cube_of_unfetched unfetched] at h
      cases refused with
      | none => exact .inl unfetched
      | some refused => cases h
  · rintro (unfetched | ⟨resources, fetched, hfaulty⟩)
    · rw [run_cube_of_unfetched unfetched]
      rfl
    · rw [run_cube_of_fetched fetched, decoded_eq_none_iff]
      exact ⟨_, (decodeCube_of_fetched fetched).mpr hfaulty, rfl⟩

end Run

/-- **A cube map is loaded whole, or fails for one reason.**

* It is loaded exactly if every face is fetched and they decode to squares of one edge; the texture
  has this edge and the texels of the faces, in order.
* It fails with the fault of the first fetch that fails, and only if none does with that of the
  first face that is wrong.  Where it is the fetch or the reader of images that breaks down there,
  nothing comes of it.
* Faces that are not six are no cube map, whatever the reader of images would make of them.
* The faces of a cube map that a literal gives stand in the order of `faceKeys`. -/
theorem cube_whole_or_first_fault (images : ImageReader) (fetch : Fetcher)
    (faces : Faces Location) :
    (∀ texture, (cube faces).run images fetch = some (.ok texture) ↔
      ∃ resources edge pictures, FetchedFaces fetch faces resources ∧
        EvenFaces images edge resources pictures ∧
          texture = .cube edge (pictures.map Image.pixels)) ∧
    (∀ fault, (cube faces).run images fetch = some (.error fault) ↔
      (∃ refused, FirstUnfetched fetch faces.toList (some refused) ∧ fault = .fetch refused) ∨
        ∃ resources broken, FetchedFaces fetch faces resources ∧
          FirstFaulty images resources broken ∧ broken ≠ .image .breakdown ∧
            fault = .decode broken) ∧
    ((cube faces).run images fetch = none ↔ FirstUnfetched fetch faces.toList none ∨
      ∃ resources, FetchedFaces fetch faces resources ∧
        FirstFaulty images resources (.image .breakdown)) ∧
    (∀ resources, resources.length ≠ 6 →
      decodeCube images resources = .error (.faceCount resources.length)) ∧
    ∀ literal : Literal, literal.infer = .ok (.cube (.faces faces)) →
      ∃ fields, literal = .object fields ∧ LocationsOf fields faceKeys faces.toList :=
  ⟨fun _ => run_cube_eq_ok_iff, fun _ => run_cube_eq_error_iff, run_cube_eq_none_iff,
    fun _ hcount => decodeCube_eq_error_iff.mpr (.inl ⟨hcount, rfl⟩),
    fun _ => Literal.faces_of_infer⟩

namespace Example

/-- A literal with a place for each face. -/
def lettered : Literal := .cube ["a", "ab", "abc", "abcd", "abcde", "abcdef"]

/-- The places of the faces, in the order of the layers. -/
def letters : Faces Location :=
  ⟨.plain "a", .plain "ab", .plain "abc", .plain "abcd", .plain "abcde", .plain "abcdef"⟩

/-- A picture of one texel. -/
def texel (level : UInt8) : Image := ⟨1, 1, [level, level, level, 255], rfl⟩

/-- Every place has a picture as bright as its name is long. -/
def bright : Fetcher := fun location =>
  some (.ok (.pixels (texel (UInt8.ofNat location.url.utf8ByteSize))))

/-- Places with long names have none. -/
def dim : Fetcher := fun location =>
  if location.url.utf8ByteSize < 4 then bright location
  else some (.error (.unsupported location.url))

/-- **Six texels are a cube map in order**, and where three are missing the first of these
decides. -/
theorem letters_whole_or_first_fault :
    lettered.infer = .ok (.cube (.faces letters)) ∧
    (∃ fields, lettered = .object fields ∧ LocationsOf fields faceKeys letters.toList) ∧
    (cube letters).run Image.ofFile bright =
      some (.ok (.cube 1 ([1, 2, 3, 4, 5, 6].map fun level => [level, level, level, 255]))) ∧
    (cube letters).run Image.ofFile dim = some (.error (.fetch (.unsupported "abcd"))) ∧
    decodeCube Image.ofFile [] = .error (.faceCount 0) := by
  have hinfer : lettered.infer = .ok (.cube (.faces letters)) := by decide +kernel
  have whole := cube_whole_or_first_fault Image.ofFile bright letters
  have partly := cube_whole_or_first_fault Image.ofFile dim letters
  refine ⟨hinfer, whole.2.2.2.2 _ hinfer, (whole.1 _).mpr ?_, (partly.2.1 _).mpr (.inl ?_),
    whole.2.2.2.1 [] (by decide)⟩
  · refine ⟨[1, 2, 3, 4, 5, 6].map fun level => .pixels (texel level), 1,
      [1, 2, 3, 4, 5, 6].map texel, ?_, ?_, rfl⟩
    · exact .cons rfl (.cons rfl (.cons rfl (.cons rfl (.cons rfl (.cons rfl .nil)))))
    · simp [EvenFaces, decodeFace, texel]
  · refine ⟨_, ⟨[.plain "a", .plain "ab", .plain "abc"], .plain "abcd", _, rfl, ?_, rfl⟩, rfl⟩
    simp only [List.forall_mem_cons]
    exact ⟨⟨_, rfl⟩, ⟨_, rfl⟩, ⟨_, rfl⟩, fun _ h => absurd h List.not_mem_nil⟩

end Example

end Job

end ShaderFabric
