/-
# A compressed set is loaded in the family that was chosen

A compressed set offers one image in several families.  The family is chosen when the set is
assigned, and goes into the job; what is fetched for the job is data that nobody has vouched for, so
the worker looks at the family once more.  A slot takes a reply only for its own latest request, and
this puts the two together: whatever reaches the uploader for a set is a container of the family
that was chosen for it.

* `CompressedSet.Chosen`, `select_eq_some_iff`, `select_eq_none_iff` -- the earliest family of a
  preference that is supported and offered;
* `Loader.Configured`, `Loader.plan_compressed` -- what a set leads to;
* `Scene.answer_of_job` -- an answer that a slot takes is one to the job of its last request;
* `Scene.assigns_chosen`, `Scene.polls_chosen` -- what assigning a set does, and what a poll of its
  slot may do;
* `Scene.compressed_as_chosen` -- both, along every run.
-/
import ShaderFabric.Proofs.Texture.Container
import ShaderFabric.Proofs.Texture.Job
import ShaderFabric.Proofs.Texture.Scene

namespace ShaderFabric

/-! ## 1. The family that is chosen -/

/-- The preference that a loader goes by; none stands for the default one. -/
def Codec.order (preference : List Codec) : List Codec :=
  if preference.isEmpty then Codec.all else preference

namespace CompressedSet

variable {set : CompressedSet} {preference : List Codec} {supported : Codec → Bool}

/-- **The family that is chosen from a set** is supported and offered, and the families before it in
the preference are not. -/
structure Chosen (set : CompressedSet) (preference : List Codec) (supported : Codec → Bool)
    (codec : Codec) (location : Location) : Prop where
  sampled : supported codec = true
  offered : set.get? codec = some location
  earliest : ∃ before after, preference = before ++ codec :: after ∧
    ∀ other ∈ before, supported other = true → set.get? other = none

theorem select_eq_findSome? : set.select preference supported =
    preference.findSome? fun codec =>
      if supported codec then (set.get? codec).map fun location => (codec, location) else none := by
  unfold select
  induction preference with
  | nil => rfl
  | cons codec rest ih =>
    rw [List.filter_cons, List.findSome?_cons, ← ih]
    cases supported codec with
    | true => rfl
    | false => rfl

/-- **A selection is the family that is chosen**, with its location. -/
theorem select_eq_some_iff {codec : Codec} {location : Location} :
    set.select preference supported = some (codec, location) ↔
      set.Chosen preference supported codec location := by
  rw [select_eq_findSome?, List.findSome?_eq_some_iff]
  constructor
  · rintro ⟨before, other, after, hsplit, hother, hbefore⟩
    obtain ⟨hsupported, hmap⟩ := Option.ite_none_right_eq_some.mp hother
    obtain ⟨found, hoffered, hpair⟩ := Option.map_eq_some_iff.mp hmap
    obtain ⟨rfl, rfl⟩ := Prod.mk.inj hpair
    refine ⟨hsupported, hoffered, before, after, hsplit, fun earlier hearlier hs => ?_⟩
    have hnone := hbefore earlier hearlier
    rw [if_pos hs] at hnone
    exact Option.map_eq_none_iff.mp hnone
  · rintro ⟨hsupported, hoffered, before, after, hsplit, hbefore⟩
    refine ⟨before, codec, after, hsplit, by rw [if_pos hsupported, hoffered]; rfl, ?_⟩
    intro earlier hearlier
    cases hs : supported earlier with
    | false => rfl
    | true => rw [if_pos rfl, hbefore earlier hearlier hs]; rfl

/-- There is no selection where no family of the preference is both supported and offered. -/
theorem select_eq_none_iff : set.select preference supported = none ↔
    ¬ ∃ codec ∈ preference, supported codec = true ∧ set.get? codec ≠ none := by
  rw [select_eq_findSome?, List.findSome?_eq_none_iff]
  push Not
  refine forall₂_congr fun codec _ => ?_
  cases supported codec with
  | true => simp
  | false => simp

/-- A choice is a family that is listed, supported and offered. -/
theorem Chosen.exists_codec {codec : Codec} {location : Location}
    (h : set.Chosen preference supported codec location) :
    ∃ codec ∈ preference, supported codec = true ∧ set.get? codec ≠ none := by
  obtain ⟨before, after, rfl, -⟩ := h.earliest
  exact ⟨codec, by simp, h.sampled, by simp [h.offered]⟩

/-- **There is one choice at most.** -/
theorem Chosen.unique {codec other : Codec} {location elsewhere : Location}
    (h : set.Chosen preference supported codec location)
    (h' : set.Chosen preference supported other elsewhere) :
    codec = other ∧ location = elsewhere := by
  have heq := (select_eq_some_iff.mpr h).symm.trans (select_eq_some_iff.mpr h')
  exact Prod.mk.inj (Option.some.inj heq)

end CompressedSet

/-! ## 2. Requests -/

/-- **A loader of a configuration**: it starts no load, or goes by a preference and a test for
support. -/
inductive Loader.Configured (preference : List Codec) (supported : Codec → Bool) : Loader → Prop
  | off : Configured preference supported .disabled
  | on : Configured preference supported (.ofPreference (Codec.all.filter supported) preference)

namespace Loader

variable {loader : Loader} {preference : List Codec} {supported : Codec → Bool}
  {set : CompressedSet}

/-- A loader of a configuration selects by its preference and its test. -/
theorem Configured.select_eq (configured : loader.Configured preference supported)
    (henabled : loader.enabled = true) :
    loader.select set = set.select (Codec.order preference) supported := by
  cases configured with
  | off => cases henabled
  | on =>
    have hsupported : (fun codec => (Codec.all.filter supported).contains codec) = supported := by
      funext codec
      rw [Bool.eq_iff_iff, List.contains_iff_mem, List.mem_filter]
      exact and_iff_right (by cases codec <;> decide)
    exact congrArg (set.select (Codec.order preference)) hsupported

/-- **What a set leads to**: a job for the family that is chosen, if there are loads and there is
such a family, and nothing otherwise. -/
theorem plan_compressed (configured : loader.Configured preference supported)
    (set : CompressedSet) :
    (∃ codec location, loader.enabled = true ∧
      set.Chosen (Codec.order preference) supported codec location ∧
        loader.plan (.image (.compressed set)) = .load (.compressed location codec)) ∨
      (¬ (loader.enabled = true ∧ ∃ codec ∈ Codec.order preference, supported codec = true ∧
        set.get? codec ≠ none) ∧ loader.plan (.image (.compressed set)) = .nothing) := by
  cases henabled : loader.enabled with
  | false =>
    refine .inr ⟨fun h => Bool.false_ne_true h.1, ?_⟩
    simp only [plan, load, henabled]
    split <;> rfl
  | true =>
    have hselect : loader.select set = _ := configured.select_eq henabled
    cases hchosen : set.select (Codec.order preference) supported with
    | none =>
      refine .inr ⟨fun h => CompressedSet.select_eq_none_iff.mp hchosen h.2, ?_⟩
      simp only [plan, hselect, hchosen]
    | some chosen =>
      obtain ⟨codec, location⟩ := chosen
      refine .inl ⟨codec, location, rfl, CompressedSet.select_eq_some_iff.mp hchosen, ?_⟩
      simp only [plan, hselect, hchosen, load, henabled, if_true]

end Loader

/-! ## 3. Slots -/

namespace Scene

variable {loader : Loader} {first scene : Scene} {events before since : List Event} {index : Nat}
  {request : TextureRequest}

/-- The events of workers that do their jobs. -/
def Event.Honest : Event → Prop
  | .act done => done.Honest
  | _ => True

/-- **The last event of a kind is one event**, however a run is cut at it. -/
theorem eq_of_last {α : Type} {P : α → Prop} {x y : α} {after after' : List α} :
    ∀ {before before' : List α}, before ++ x :: after = before' ++ y :: after' → P x → P y →
      (∀ z ∈ after, ¬ P z) → (∀ z ∈ after', ¬ P z) → x = y ∧ after = after'
  | [], [], h, _, _, _, _ => List.cons.inj h
  | [], _ :: before', h, _, hy, hafter, _ => by
    obtain ⟨-, rfl⟩ := List.cons.inj h
    exact absurd hy (hafter y (by simp))
  | _ :: before, [], h, hx, _, _, hafter' => by
    obtain ⟨-, rfl⟩ := List.cons.inj h
    exact absurd hx (hafter' x (by simp))
  | _ :: before, _ :: before', h, hx, hy, hafter, hafter' =>
    eq_of_last (List.cons.inj h).2 hx hy hafter hafter'

/-- The latest request of a slot that waits is the last event that renewed it. -/
theorem Latest.eq_request {ticket : Nat} {latest : TextureRequest} {after : List Event}
    (h : Latest loader first events index latest ticket after)
    (hsplit : events = before ++ .assign index request :: since)
    (huntouched : ∀ event ∈ since, ¬ event.Renews index) : latest = request ∧ after = since := by
  obtain ⟨earlier, _, heq, -⟩ := h.opened
  obtain ⟨hevent, hafter⟩ := eq_of_last (P := Event.Renews index) (heq.symm.trans hsplit) rfl rfl
    h.untouched huntouched
  cases hevent
  exact ⟨rfl, hafter⟩

/-- **What a slot waits for is what its last request leads to**, and an answer that is there is one
to the job of this request. -/
theorem answer_of_job {slot : Slot} {ticket : Nat} {job : Job} {result : LoadResult}
    (traced : AllTraced loader first events scene)
    (honest : ∀ event ∈ events, event.Honest)
    (hsplit : events = before ++ .assign index request :: since)
    (huntouched : ∀ event ∈ since, ¬ event.Renews index)
    (hplan : loader.plan request = .load job)
    (hslot : scene.slots[index]? = some slot) (hpending : slot.pending = some ticket)
    (hstands : scene.studio.pool.Stands ticket (.answered ⟨slot.generation, result⟩)) :
    ∃ images fetch, job.run images fetch = some result := by
  obtain ⟨other, after, latest, accounts⟩ := traced index slot ticket hslot hpending
  obtain ⟨rfl, rfl⟩ := latest.eq_request hsplit huntouched
  obtain ⟨-, answered⟩ := accounts _ hstands
  cases answered with
  | atHand hdone => cases hplan.symm.trans hdone
  | replied hload hreply =>
    cases hplan.symm.trans hload
    exact honest _ (hsplit ▸ List.mem_append_right _ (List.mem_cons_of_mem _ hreply))

/-- **What assigning a set to a slot does**, by a preference and a test for support. -/
structure AssignsChosen (loader : Loader) (preference : List Codec) (supported : Codec → Bool)
    (set : CompressedSet) (slot : Slot) (studio : Studio) : Prop where
  /-- A load starts exactly if there are loads and some family is listed, supported and offered. -/
  loading_iff : ((slot.assign loader (.image (.compressed set))).run studio).1.state = .loading ↔
    loader.enabled = true ∧
      ∃ codec ∈ Codec.order preference, supported codec = true ∧ set.get? codec ≠ none
  /-- The job is for the family that is chosen, at its location. -/
  job : ∀ codec location, loader.enabled = true →
    set.Chosen (Codec.order preference) supported codec location →
      (slot.assign loader (.image (.compressed set))).run studio =
        ({ slot.renewed with kind := .flat }.awaiting studio.pool.places.length,
          ⟨(studio.pool.submit (slot.generation + 1) (.compressed location codec)).2,
            slot.freed studio.gpu⟩)
  /-- Otherwise the slot is unset, and nothing is queued. -/
  unset : ((slot.assign loader (.image (.compressed set))).run studio).1.state ≠ .loading →
    (slot.assign loader (.image (.compressed set))).run studio =
      ({ slot.renewed with kind := .flat, state := .unset },
        { studio with gpu := slot.freed studio.gpu })

/-- **What a poll does for a set**: nothing exactly while there is nothing to take; otherwise it
takes what is there.  A container of the family that is chosen goes to the uploader, and what comes
of it is recorded; all else is recorded as a failure, without an upload. -/
inductive PollsChosen (loader : Loader) (preference : List Codec) (supported : Codec → Bool)
    (set : CompressedSet) (slot : Slot) (studio : Studio) (uploader : Uploader) : Prop
  /-- The slot awaits nothing: what came of its last request has been recorded. -/
  | settled (hpending : slot.pending = none) (hstate : slot.state ≠ .loading)
    (h : (slot.poll uploader).run studio = ((slot, false), studio))
  /-- The worker has not replied yet. -/
  | waiting {ticket : Nat} (hpending : slot.pending = some ticket)
    (hplace : studio.pool.place ticket = .awaited)
    (h : (slot.poll uploader).run studio = ((slot, false), studio))
  /-- The worker has stopped. -/
  | lost {ticket : Nat} (hpending : slot.pending = some ticket)
    (hplace : studio.pool.place ticket = .abandoned)
    (h : (slot.poll uploader).run studio = ((slot.settled (.failed .workerLost), true), studio))
  /-- The worker has replied with a fault. -/
  | failed {ticket : Nat} {fault : TextureFault} (hpending : slot.pending = some ticket)
    (hplace : studio.pool.place ticket = .holding ⟨slot.generation, .error fault⟩)
    (h : (slot.poll uploader).run studio = ((slot.settled (.failed fault), true),
      ⟨studio.pool.take ticket, studio.gpu⟩))
  /-- The worker has replied with a texture, which is one of the family that is chosen. -/
  | uploaded {ticket : Nat} {codec : Codec} {location : Location} {bytes : List UInt8}
    {container : Ktx.Texture} (hpending : slot.pending = some ticket)
    (hplace : studio.pool.place ticket =
      .holding ⟨slot.generation, .ok (.compressed container)⟩)
    (henabled : loader.enabled = true)
    (hchosen : set.Chosen (Codec.order preference) supported codec location)
    (hread : Ktx.read bytes = .ok container) (hcodec : container.format.codec = codec)
    (h : (slot.poll uploader).run studio = ((slot.settled
        (studio.gpu.settle uploader slot.label (.ok (.compressed container))).1, true),
      ⟨studio.pool.take ticket,
        (studio.gpu.settle uploader slot.label (.ok (.compressed container))).2⟩))

section Configured

variable {preference : List Codec} {supported : Codec → Bool} {set : CompressedSet}
  (configured : loader.Configured preference supported)

include configured

theorem assigns_chosen (slot : Slot) (studio : Studio) :
    AssignsChosen loader preference supported set slot studio := by
  rcases Loader.plan_compressed configured set with
    ⟨codec, location, henabled, hchosen, hplan⟩ | ⟨hnone, hplan⟩
  · have hassign := slot.run_assign_of_load hplan studio
    constructor
    case loading_iff =>
      rw [hassign]
      exact iff_of_true rfl ⟨henabled, hchosen.exists_codec⟩
    case job =>
      intro other elsewhere _ hother
      obtain ⟨rfl, rfl⟩ := hchosen.unique hother
      exact hassign
    case unset =>
      rw [hassign]
      exact fun h => absurd rfl h
  · have hassign := slot.run_assign_of_nothing hplan studio
    constructor
    case loading_iff =>
      rw [hassign]
      exact iff_of_false (fun h => by cases h) hnone
    case job =>
      intro codec location henabled hchosen
      exact absurd ⟨henabled, hchosen.exists_codec⟩ hnone
    case unset => exact fun _ => hassign

/-- **A poll of a slot whose latest request is a set** does what it may do for the set: the answer
is one to the job that the set has led to. -/
theorem polls_chosen {slot : Slot} (holds : scene.Holds)
    (traced : AllTraced loader first events scene) (honest : ∀ event ∈ events, event.Honest)
    (hsplit : events = before ++ .assign index (.image (.compressed set)) :: since)
    (huntouched : ∀ event ∈ since, ¬ event.Renews index)
    (hslot : scene.slots[index]? = some slot) (uploader : Uploader) :
    PollsChosen loader preference supported set slot scene.studio uploader := by
  have hmem := List.mem_of_getElem? hslot
  rcases Studio.Holds.poll_cases holds hmem uploader with
    ⟨hidle, heq⟩ | ⟨ticket, hpending, hstands, heq⟩ | ⟨ticket, result, hpending, hstands, heq⟩
  · cases hpending : slot.pending with
    | none =>
      refine .settled hpending (fun hloading => ?_) heq
      have hsome := (holds.fits slot hmem).loading_iff.mp hloading
      rw [hpending] at hsome
      cases hsome
    | some ticket =>
      obtain ⟨work, hstands⟩ := hidle ticket hpending
      exact .waiting hpending (holds.sound.place_eq hstands) heq
  · exact .lost hpending (holds.sound.place_eq hstands) heq
  · have hplace := holds.sound.place_eq hstands
    cases result with
    | error fault => exact .failed hpending hplace heq
    | ok texture =>
      rcases Loader.plan_compressed configured set with
        ⟨codec, location, henabled, hchosen, hplan⟩ | ⟨-, hplan⟩
      · obtain ⟨images, fetch, hrun⟩ :=
          answer_of_job traced honest hsplit huntouched hplan hslot hpending hstands
        obtain ⟨bytes, container, -, hread, hcodec, rfl⟩ := Job.run_compressed_eq_ok_iff.mp hrun
        exact .uploaded hpending hplace henabled hchosen hread hcodec heq
      · -- a set that leads to nothing opens no ticket
        obtain ⟨other, after, latest, -⟩ := traced index slot ticket hslot hpending
        obtain ⟨rfl, -⟩ := latest.eq_request hsplit huntouched
        obtain ⟨_, _, -, -, -, hne⟩ := latest.opened
        exact absurd hplan hne

/-- **A compressed set is loaded in the family that was chosen.**  Assigning it starts a load
exactly if there are loads and some family of the preference is supported and offered, and the load
is of the earliest of these.  Whatever is fetched for it, it comes to a texture exactly if that are
the bytes of a container of the family.  Along every run a poll of the slot takes what is there:
nothing goes to the uploader for the set but such a container, and everything else is recorded as a
failure, without an upload. -/
theorem compressed_as_chosen (set : CompressedSet) :
    (∀ slot studio, AssignsChosen loader preference supported set slot studio) ∧
    (∀ images fetch location codec texture,
      (Job.compressed location codec).run images fetch = some (.ok texture) ↔
        ∃ bytes container, fetch location = some (.ok (.bytes bytes)) ∧
          Ktx.read bytes = .ok container ∧ container.format.codec = codec ∧
          texture = .compressed container) ∧
    ∀ workers slots events scene, run loader events (start workers slots) = some scene →
      (∀ event ∈ events, event.Honest) →
      ∀ before index since slot,
        events = before ++ .assign index (.image (.compressed set)) :: since →
        (∀ event ∈ since, ¬ event.Renews index) → scene.slots[index]? = some slot →
          ∀ uploader, PollsChosen loader preference supported set slot scene.studio uploader := by
  refine ⟨assigns_chosen configured, fun _ _ _ _ _ => Job.run_compressed_eq_ok_iff, ?_⟩
  intro workers slots events scene hrun honest before index since slot hsplit huntouched hslot
  exact polls_chosen configured (holds_run hrun (holds_start workers slots)) (allTraced_start hrun)
    honest hsplit huntouched hslot

end Configured

namespace Example

/-- A set in two families. -/
def twofold : CompressedSet :=
  { CompressedSet.empty with
    s3tc := some (.plain "a.s3tc.ktx")
    etc1 := some (.plain "a.etc1.ktx") }

/-- The families that a device samples. -/
def samples : Codec → Bool
  | .s3tc | .etc1 => true
  | .pvrtc => false

/-- A preference for what the device does not sample, and then for a family that is listed twice. -/
def choosy : List Codec := [.pvrtc, .etc1, .s3tc, .etc1]

/-- What a worker reads off a container. -/
def etc1 : Ktx.Texture := Ktx.contained .mostFirst .etc1Rgb Ktx.Example.mostFirst

/-- The set is assigned, and a worker replies. -/
def delivered : List Event :=
  [.assign 0 (.image (.compressed twofold)), .act .begin,
    .act (.reply ⟨0, 1, .compressed (.plain "a.etc1.ktx") .etc1⟩ (.ok (.compressed etc1)))]

/-- The reply is there, and the slot still waits for it. -/
def arrived : Scene :=
  ⟨⟨⟨[], [], 1, [.holding ⟨1, .ok (.compressed etc1)⟩]⟩, .empty⟩,
    [⟨"a", .flat, 1, .loading, some 0⟩]⟩

theorem run_delivered : run (.ofPreference (Codec.all.filter samples) choosy) delivered
    (start 1 [("a", .flat)]) = some arrived := rfl

/-- The worker has read what it replies with. -/
theorem delivered_honest : ∀ event ∈ delivered, event.Honest := by
  have hreply : Event.Honest (.act (.reply ⟨0, 1, .compressed (.plain "a.etc1.ktx") .etc1⟩
      (.ok (.compressed etc1)))) :=
    ⟨Image.ofFile, fun _ => some (.ok (.bytes Ktx.Example.mostFirst)),
      Job.run_compressed_eq_ok_iff.mpr
        ⟨_, etc1, rfl, Ktx.read_of_container Ktx.Example.container_mostFirst, rfl, rfl⟩⟩
  simp only [delivered, List.forall_mem_cons]
  exact ⟨trivial, trivial, hreply, fun _ h => absurd h List.not_mem_nil⟩

/-- **The set is loaded in the second family of the preference**, and its slot shows it. -/
theorem twofold_as_chosen :
    run (.ofPreference (Codec.all.filter samples) choosy) delivered (start 1 [("a", .flat)]) =
      some arrived ∧
    twofold.Chosen (Codec.order choosy) samples .etc1 (.plain "a.etc1.ktx") ∧
    ∃ slot, arrived.slots[0]? = some slot ∧
      PollsChosen (.ofPreference (Codec.all.filter samples) choosy) choosy samples twofold slot
        arrived.studio (fun _ _ => none) ∧
      ((slot.poll fun _ _ => none).run arrived.studio).1.1.state = .ready ⟨0, .flat, 6, 1⟩ := by
  refine ⟨run_delivered, CompressedSet.select_eq_some_iff.mp (by decide), _, rfl, ?_, by decide⟩
  exact (compressed_as_chosen .on twofold).2.2 1 _ _ _ run_delivered delivered_honest [] 0 _ _ rfl
    (by simp [Event.Renews]) rfl _

end Example

end Scene

end ShaderFabric
