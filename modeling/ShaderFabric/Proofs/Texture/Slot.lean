/-
# Slots that share a studio

What holds of a studio and of all slots that use it.  The slots are a list only so that they can be
counted: the invariant does not depend on their order, so that a step of one slot is stated for the
first.

* `Slot.Fits` -- a slot waits exactly while it loads, and whatever its ticket can bring is of its
  own generation;
* `Studio.Holds` -- every slot fits, no ticket is waited for twice, and the textures alive are those
  that the slots show;
* `assign_cases` -- what assigning can do: nothing but give up what was there, or wait for the next
  ticket;
* `poll_cases` -- what a poll can do: nothing, fail, or apply the reply to the slot's own request;
* `Studio.Holds.release`, `assign`, `poll`, `act` -- each step keeps the invariant;
* `Studio.Invariant` -- what it takes to be such an invariant (`Studio.invariant_holds`).
-/
import Mathlib.Data.List.Perm.Basic
import ShaderFabric.Proofs.Texture.Pool
import ShaderFabric.Texture.Slot

namespace ShaderFabric

/-! ## 1. What a slot shows -/

namespace Slot

/-- The texture that a slot shows, by its id. -/
def shown (slot : Slot) : Option Nat :=
  match slot.state with
  | .ready texture => some texture.id
  | _ => none

def isReady (slot : Slot) : Bool := slot.shown.isSome

/-- A slot after its texture and its load have been given up. -/
def renewed (slot : Slot) : Slot :=
  { slot with generation := slot.generation + 1, state := .unset, pending := none }

theorem run_release (slot : Slot) (studio : Studio) :
    slot.release.run studio = (slot.renewed, { studio with gpu := slot.freed studio.gpu }) := rfl

end Slot

namespace Gpu

/-- What the device makes of the result of a load: the state of the slot, and the device then. -/
def settle (gpu : Gpu) (uploader : Uploader) (label : String) : LoadResult → TextureState × Gpu
  | .error fault => (.failed fault, gpu)
  | .ok texture =>
    match gpu.upload uploader label texture with
    | (.ok uploaded, gpu) => (.ready uploaded, gpu)
    | (.error reason, gpu) => (.failed (.upload reason), gpu)

/-- **What the device makes of a result**: a texture with the next id, or a failure. -/
theorem settle_cases (gpu : Gpu) (uploader : Uploader) (label : String) (result : LoadResult) :
    (∃ texture later, gpu.settle uploader label result = (.ready texture, later) ∧
        texture.id = gpu.nextId ∧ later.nextId = gpu.nextId + 1 ∧
        later.live = gpu.nextId :: gpu.live ∧ later.attempts.length = gpu.attempts.length + 1) ∨
      ∃ fault later, gpu.settle uploader label result = (.failed fault, later) ∧
        later.nextId = gpu.nextId ∧ later.live = gpu.live ∧
        later.attempts.length ≤ gpu.attempts.length + 1 ∧
        gpu.attempts.length ≤ later.attempts.length := by
  cases result with
  | error fault => exact .inr ⟨fault, gpu, rfl, rfl, rfl, Nat.le_succ _, Nat.le_refl _⟩
  | ok texture =>
    simp only [settle, upload]
    cases uploader label texture with
    | none => exact .inl ⟨_, _, rfl, rfl, rfl, rfl, by simp⟩
    | some reason => exact .inr ⟨_, _, rfl, rfl, rfl, by simp, by simp⟩

end Gpu

theorem Slot.run_apply (slot : Slot) (uploader : Uploader) (result : LoadResult)
    (studio : Studio) :
    (slot.apply uploader result).run studio =
      ({ slot with state := (studio.gpu.settle uploader slot.label result).1 },
        { studio with gpu := (studio.gpu.settle uploader slot.label result).2 }) := by
  cases result with
  | error fault => rfl
  | ok texture =>
    unfold Slot.apply Gpu.settle Gpu.upload
    cases h : uploader slot.label texture with
    | none =>
      simp only [h, modifyGet, StateT.run]
      rfl
    | some reason =>
      simp only [h, modifyGet, StateT.run]
      rfl

/-! ## 2. The invariant -/

/-- A stage belongs to a generation: what is under way or has been answered was asked for in it. -/
def Pool.Stage.IsOf (generation : Nat) : Pool.Stage → Prop
  | .underway work => work.generation = generation
  | .answered outcome => outcome.generation = generation
  | .lost => True

/-- **What holds of one slot**: it waits exactly while it loads, for a ticket that has been given
out and that stands at a stage of the slot's own generation. -/
structure Slot.Fits (slot : Slot) (pool : Pool) : Prop where
  loading_iff : slot.state = .loading ↔ slot.pending.isSome
  given : ∀ ticket, slot.pending = some ticket → ticket < pool.places.length
  own : ∀ ticket, slot.pending = some ticket → ∀ stage, pool.Stands ticket stage →
    stage.IsOf slot.generation

/-- **What holds of a studio and all its slots.** -/
structure Studio.Holds (studio : Studio) (slots : List Slot) : Prop where
  sound : studio.pool.Sound
  fits : ∀ slot ∈ slots, slot.Fits studio.pool
  tickets : (slots.filterMap Slot.pending).Nodup
  live : studio.gpu.live.Perm (slots.filterMap Slot.shown)
  fresh : ∀ id ∈ studio.gpu.live, id < studio.gpu.nextId
  distinct : studio.gpu.live.Nodup

/-- A slot that waits for nothing and does not load fits every pool. -/
theorem Slot.Fits.of_settled {slot : Slot} {pool : Pool} (hstate : slot.state ≠ .loading)
    (hpending : slot.pending = none) : slot.Fits pool where
  loading_iff := iff_of_false hstate (by simp [hpending])
  given := fun ticket h => by rw [hpending] at h; cases h
  own := fun ticket h => by rw [hpending] at h; cases h

/-- **A slot still fits when its ticket stands where it stood, or at a stage of the slot.** -/
theorem Slot.Fits.later {slot : Slot} {pool later : Pool} (fits : slot.Fits pool)
    (hlength : pool.places.length ≤ later.places.length)
    (hstands : ∀ ticket stage, slot.pending = some ticket → later.Stands ticket stage →
      pool.Stands ticket stage ∨ stage.IsOf slot.generation) : slot.Fits later where
  loading_iff := fits.loading_iff
  given := fun ticket h => Nat.lt_of_lt_of_le (fits.given ticket h) hlength
  own := fun ticket h stage hs => (hstands ticket stage h hs).elim (fits.own ticket h stage) id

namespace Studio.Holds

variable {studio : Studio} {slot : Slot} {slots others : List Slot}

theorem start (workers : Nat) : Studio.Holds ⟨.start workers, .empty⟩ [] where
  sound := Pool.sound_start workers
  fits := nofun
  tickets := List.nodup_nil
  live := .refl _
  fresh := nofun
  distinct := List.nodup_nil

/-- **The order of the slots does not matter.** -/
theorem perm {later : List Slot} (holds : studio.Holds slots) (h : slots.Perm later) :
    studio.Holds later where
  sound := holds.sound
  fits := fun slot hslot => holds.fits slot (h.mem_iff.mpr hslot)
  tickets := (h.filterMap Slot.pending).nodup_iff.mp holds.tickets
  live := holds.live.trans (h.filterMap Slot.shown)
  fresh := holds.fresh
  distinct := holds.distinct

/-- **As many textures are alive as slots show one.** -/
theorem length_live (holds : studio.Holds slots) :
    studio.gpu.live.length = slots.countP Slot.isReady := by
  rw [holds.live.length_eq, List.length_filterMap_eq_countP]
  rfl

/-- **A slot that has not been assigned can join.** -/
theorem new (holds : studio.Holds slots) (label : String) (kind : TextureKind) :
    studio.Holds (Slot.new label kind :: slots) where
  sound := holds.sound
  fits := List.forall_mem_cons.mpr ⟨.of_settled (by simp [Slot.new]) rfl, holds.fits⟩
  tickets := holds.tickets
  live := holds.live
  fresh := holds.fresh
  distinct := holds.distinct

/-! ## 3. Assigning and releasing -/

/-- Giving up the texture of a slot leaves those of the others. -/
theorem renew (holds : studio.Holds (slot :: others)) :
    Studio.Holds { studio with gpu := slot.freed studio.gpu } (slot.renewed :: others) := by
  have hlive := holds.live
  have hfits := (List.forall_mem_cons.mp holds.fits).2
  have htickets : (others.filterMap Slot.pending).Nodup :=
    holds.tickets.sublist ((List.sublist_cons_self slot others).filterMap Slot.pending)
  have hfreed : (slot.freed studio.gpu).nextId = studio.gpu.nextId ∧
      (slot.freed studio.gpu).live.Perm (others.filterMap Slot.shown) ∧
      (slot.freed studio.gpu).live.Sublist studio.gpu.live := by
    unfold Slot.freed
    cases hstate : slot.state with
    | ready texture =>
      have hshown : slot.shown = some texture.id := by rw [Slot.shown, hstate]
      rw [List.filterMap_cons_some hshown] at hlive
      have herase := hlive.erase texture.id
      rw [List.erase_cons_head] at herase
      exact ⟨rfl, herase, List.erase_sublist⟩
    | _ =>
      have hshown : slot.shown = none := by rw [Slot.shown, hstate]
      rw [List.filterMap_cons_none hshown] at hlive
      exact ⟨rfl, hlive, .refl _⟩
  obtain ⟨hnext, hperm, hsub⟩ := hfreed
  exact {
    sound := holds.sound
    fits := List.forall_mem_cons.mpr ⟨.of_settled (by simp [Slot.renewed]) rfl, hfits⟩
    tickets := htickets
    live := hperm
    fresh := fun id hid => hnext ▸ holds.fresh id (hsub.mem hid)
    distinct := holds.distinct.sublist hsub }

/-- The kind of a slot is no part of the invariant. -/
theorem withKind (holds : studio.Holds (slot :: others)) (kind : TextureKind) :
    studio.Holds ({ slot with kind } :: others) := by
  obtain ⟨hslot, hothers⟩ := List.forall_mem_cons.mp holds.fits
  exact {
    sound := holds.sound
    fits := List.forall_mem_cons.mpr ⟨⟨hslot.loading_iff, hslot.given, hslot.own⟩, hothers⟩
    tickets := holds.tickets
    live := holds.live
    fresh := holds.fresh
    distinct := holds.distinct }

/-- **A slot that holds nothing may wait for the next ticket**, if that ticket and no other is new
and stands at a stage of the slot's generation. -/
theorem await (holds : studio.Holds (slot :: others)) {later : Pool}
    (hpending : slot.pending = none) (hshown : slot.shown = none) (sound : later.Sound)
    (hlength : later.places.length = studio.pool.places.length + 1)
    (hstands : ∀ ticket stage, later.Stands ticket stage → studio.pool.Stands ticket stage ∨
      ticket = studio.pool.places.length ∧ stage.IsOf slot.generation) :
    Studio.Holds { studio with pool := later }
      (slot.awaiting studio.pool.places.length :: others) := by
  have hothers := (List.forall_mem_cons.mp holds.fits).2
  have htickets := holds.tickets
  have hlive := holds.live
  rw [List.filterMap_cons_none hpending] at htickets
  rw [List.filterMap_cons_none hshown] at hlive
  refine {
    sound
    fits := List.forall_mem_cons.mpr ⟨?_, fun other hother => ?_⟩
    tickets := ?_
    live := hlive
    fresh := holds.fresh
    distinct := holds.distinct }
  · refine ⟨iff_of_true rfl rfl, ?_, ?_⟩
    · rintro ticket heq
      cases heq
      show _ < later.places.length
      omega
    · rintro ticket heq stage h
      cases heq
      rcases hstands _ stage h with h | ⟨-, h⟩
      · exact absurd (holds.sound.lt_of_stands h) (Nat.lt_irrefl _)
      · exact h
  · refine (hothers other hother).later (by simp [hlength]) fun ticket stage heq h => ?_
    rcases hstands ticket stage h with h | ⟨rfl, -⟩
    · exact .inl h
    · exact absurd ((hothers other hother).given _ heq) (Nat.lt_irrefl _)
  · refine List.nodup_cons.mpr ⟨fun hmem => ?_, htickets⟩
    obtain ⟨other, hother, heq⟩ := List.mem_filterMap.mp hmem
    exact absurd ((hothers other hother).given _ heq) (Nat.lt_irrefl _)

end Studio.Holds

/-- The stages to which a plan can lead the ticket that is opened for it. -/
inductive Loader.Plan.Leads (ticket generation : Nat) : Loader.Plan → Pool.Stage → Prop
  | underway (job : Job) :
    Leads ticket generation (.load job) (.underway ⟨ticket, generation, job⟩)
  | lost (job : Job) : Leads ticket generation (.load job) .lost
  | answered (texture : Decoded) :
    Leads ticket generation (.done texture) (.answered ⟨generation, .ok texture⟩)

theorem Loader.Plan.Leads.isOf {plan : Loader.Plan} {ticket generation : Nat} {stage : Pool.Stage}
    (h : plan.Leads ticket generation stage) : stage.IsOf generation := by
  cases h with
  | underway job => rfl
  | lost job => trivial
  | answered texture => rfl

/-- **A later pool has opened a ticket for a plan**: the next ticket is where the plan leads, and
every other ticket stands where it stood. -/
structure Pool.OpenedFor (plan : Loader.Plan) (generation : Nat) (pool later : Pool) : Prop where
  length : later.places.length = pool.places.length + 1
  sound : pool.Sound → later.Sound
  stands : pool.Sound → ∀ {ticket : Nat} {stage : Stage}, later.Stands ticket stage →
    pool.Stands ticket stage ∨
      ticket = pool.places.length ∧ plan.Leads ticket generation stage

theorem Pool.openedFor_submit (pool : Pool) (generation : Nat) (job : Job) :
    OpenedFor (.load job) generation pool (pool.submit generation job).2 where
  length := pool.length_places_submit generation job
  sound := fun sound => sound.submit generation job
  stands := fun sound ticket stage h => by
    rcases sound.stands_submit h with h | ⟨hticket, rfl | rfl⟩
    · exact .inl h
    · exact .inr ⟨hticket, .underway job⟩
    · exact .inr ⟨hticket, .lost job⟩

theorem Pool.openedFor_complete (pool : Pool) (generation : Nat) (texture : Decoded) :
    OpenedFor (.done texture) generation pool (pool.complete generation texture).2 where
  length := List.length_append
  sound := fun sound => sound.complete generation texture
  stands := fun sound ticket stage h => by
    rcases sound.stands_complete h with h | ⟨hticket, rfl⟩
    · exact .inl h
    · exact .inr ⟨hticket, .answered texture⟩

/-- A request that leads to nothing leaves the slot without anything to show. -/
theorem Slot.run_assign_of_nothing {loader : Loader} {request : TextureRequest}
    (h : loader.plan request = .nothing) (slot : Slot) (studio : Studio) :
    (slot.assign loader request).run studio =
      ({ slot.renewed with kind := request.kind },
        { studio with gpu := slot.freed studio.gpu }) := by
  unfold Slot.assign
  rw [h]
  rfl

/-- A request that leads to a load queues its job. -/
theorem Slot.run_assign_of_load {loader : Loader} {request : TextureRequest} {job : Job}
    (h : loader.plan request = .load job) (slot : Slot) (studio : Studio) :
    (slot.assign loader request).run studio =
      ({ slot.renewed with kind := request.kind }.awaiting studio.pool.places.length,
        ⟨(studio.pool.submit (slot.generation + 1) job).2, slot.freed studio.gpu⟩) := by
  rw [← studio.pool.submit_fst (slot.generation + 1) job]
  unfold Slot.assign
  rw [h]
  rfl

/-- **What assigning does**: the slot is renewed, and waits for the next ticket unless the request
leads to nothing. -/
theorem Slot.assign_cases (loader : Loader) (request : TextureRequest) (slot : Slot)
    (studio : Studio) :
    (loader.plan request = .nothing ∧ (slot.assign loader request).run studio =
      ({ slot.renewed with kind := request.kind },
        { studio with gpu := slot.freed studio.gpu })) ∨
    loader.plan request ≠ .nothing ∧
      ∃ later, Pool.OpenedFor (loader.plan request) (slot.generation + 1) studio.pool later ∧
        (slot.assign loader request).run studio =
          ({ slot.renewed with kind := request.kind }.awaiting studio.pool.places.length,
            ⟨later, slot.freed studio.gpu⟩) := by
  cases hplan : loader.plan request with
  | nothing => exact .inl ⟨rfl, slot.run_assign_of_nothing hplan studio⟩
  | load job =>
    exact .inr ⟨nofun, _, studio.pool.openedFor_submit _ job, slot.run_assign_of_load hplan studio⟩
  | done texture =>
    refine .inr ⟨nofun, _, studio.pool.openedFor_complete _ texture, ?_⟩
    unfold Slot.assign
    rw [hplan]
    rfl

namespace Studio.Holds

variable {studio : Studio} {slot : Slot} {slots others : List Slot}

theorem release (holds : studio.Holds (slot :: others)) :
    Studio.Holds (slot.release.run studio).2 ((slot.release.run studio).1 :: others) :=
  holds.renew

theorem assign (holds : studio.Holds (slot :: others)) (loader : Loader)
    (request : TextureRequest) :
    Studio.Holds ((slot.assign loader request).run studio).2
      (((slot.assign loader request).run studio).1 :: others) := by
  have renewed := holds.renew.withKind request.kind
  rcases slot.assign_cases loader request studio with ⟨-, heq⟩ | ⟨-, later, opened, heq⟩
  · rw [heq]
    exact renewed
  · rw [heq]
    refine renewed.await rfl rfl (opened.sound holds.sound) opened.length fun ticket stage h => ?_
    exact (opened.stands holds.sound h).imp_right fun ⟨hticket, hleads⟩ => ⟨hticket, hleads.isOf⟩

end Studio.Holds

/-! ## 4. Polling -/

/-- A slot whose load came to a state. -/
def Slot.settled (slot : Slot) (state : TextureState) : Slot := { slot with pending := none, state }

/-- **What a poll does**, where the slots fit: nothing where there is no ticket or while that of the
slot is under way; a failure when it is lost; otherwise it applies the reply, which is of the slot's
own generation.  The reply of another generation that the code of a poll looks out for does not
occur. -/
theorem Studio.Holds.poll_cases {studio : Studio} {slots : List Slot} {slot : Slot}
    (holds : studio.Holds slots) (hslot : slot ∈ slots) (uploader : Uploader) :
    ((∀ ticket, slot.pending = some ticket → ∃ work, studio.pool.Stands ticket (.underway work)) ∧
        (slot.poll uploader).run studio = ((slot, false), studio)) ∨
      (∃ ticket, slot.pending = some ticket ∧ studio.pool.Stands ticket .lost ∧
        (slot.poll uploader).run studio = ((slot.settled (.failed .workerLost), true), studio)) ∨
      ∃ ticket result, slot.pending = some ticket ∧
        studio.pool.Stands ticket (.answered ⟨slot.generation, result⟩) ∧
        (slot.poll uploader).run studio =
          ((slot.settled (studio.gpu.settle uploader slot.label result).1, true),
            ⟨studio.pool.take ticket, (studio.gpu.settle uploader slot.label result).2⟩) := by
  have fits := holds.fits slot hslot
  unfold Slot.poll
  cases hpending : slot.pending with
  | none => exact .inl ⟨fun _ h => absurd h (Option.some_ne_none _).symm, rfl⟩
  | some ticket =>
    obtain ⟨stage, hstands⟩ := holds.sound.exists_stands (fits.given ticket hpending)
    have hplace := holds.sound.place_eq hstands
    cases stage with
    | underway work =>
      refine .inl ⟨fun other hother => ⟨work, Option.some.inj hother ▸ hstands⟩, ?_⟩
      simp only [StateT.run_bind, StateT.run_get, pure_bind, hplace, Pool.Stage.place]
      rfl
    | lost =>
      refine .inr (.inl ⟨ticket, rfl, hstands, ?_⟩)
      simp only [StateT.run_bind, StateT.run_get, pure_bind, hplace, Pool.Stage.place]
      rfl
    | answered outcome =>
      obtain ⟨generation, result⟩ := outcome
      obtain rfl : generation = slot.generation := fits.own ticket hpending _ hstands
      refine .inr (.inr ⟨ticket, result, rfl, hstands, ?_⟩)
      simp only [StateT.run_bind, StateT.run_get, pure_bind, hplace, Pool.Stage.place,
        StateT.run_modify, ne_eq, not_true_eq_false, if_false, Slot.run_apply]
      rfl

/-- Polling opens no places. -/
theorem Slot.places_poll (slot : Slot) (uploader : Uploader) (studio : Studio) :
    ((slot.poll uploader).run studio).2.pool.places.length = studio.pool.places.length := by
  have htake (ticket : Nat) : (studio.pool.take ticket).places.length =
    studio.pool.places.length := List.length_set
  unfold Slot.poll
  cases slot.pending with
  | none => rfl
  | some ticket =>
    simp only [StateT.run_bind, StateT.run_get, pure_bind]
    cases studio.pool.place ticket with
    | awaited => rfl
    | abandoned => rfl
    | holding outcome =>
      simp only [StateT.run_bind, StateT.run_modify, pure_bind]
      split
      · exact htake ticket
      · simp only [StateT.run_bind, Slot.run_apply]
        exact htake ticket

theorem Slot.Fits.loading {slot : Slot} {pool : Pool} {ticket : Nat} (fits : slot.Fits pool)
    (h : slot.pending = some ticket) : slot.state = .loading :=
  fits.loading_iff.mpr (by rw [h]; rfl)

namespace Studio.Holds

variable {studio : Studio} {slot : Slot} {slots others : List Slot}

/-- A slot that waits fails without a trace on the device. -/
theorem fail (holds : studio.Holds (slot :: others)) {ticket : Nat}
    (hpending : slot.pending = some ticket) (fault : TextureFault) :
    studio.Holds (slot.settled (.failed fault) :: others) := by
  obtain ⟨hslot, hothers⟩ := List.forall_mem_cons.mp holds.fits
  have hshown : slot.shown = none := by rw [Slot.shown, hslot.loading hpending]
  have hlive := holds.live
  rw [List.filterMap_cons_none hshown] at hlive
  exact {
    sound := holds.sound
    fits := List.forall_mem_cons.mpr ⟨.of_settled (by simp [Slot.settled]) rfl, hothers⟩
    tickets := holds.tickets.sublist ((List.sublist_cons_self slot others).filterMap Slot.pending)
    live := hlive
    fresh := holds.fresh
    distinct := holds.distinct }

/-- Of the device only the textures alive and the next id are part of the invariant. -/
theorem withGpu (holds : studio.Holds slots) {gpu : Gpu} (hlive : gpu.live = studio.gpu.live)
    (hnext : gpu.nextId = studio.gpu.nextId) : Studio.Holds { studio with gpu } slots where
  sound := holds.sound
  fits := holds.fits
  tickets := holds.tickets
  live := hlive ▸ holds.live
  fresh := fun id hid => hnext ▸ holds.fresh id (hlive ▸ hid)
  distinct := hlive ▸ holds.distinct

/-- A slot that waits shows a texture with the next id. -/
theorem succeed (holds : studio.Holds (slot :: others)) {ticket : Nat}
    (hpending : slot.pending = some ticket) {texture : GpuTexture} {gpu : Gpu}
    (hid : texture.id = studio.gpu.nextId) (hnext : gpu.nextId = studio.gpu.nextId + 1)
    (hadded : gpu.live = studio.gpu.nextId :: studio.gpu.live) :
    Studio.Holds { studio with gpu } (slot.settled (.ready texture) :: others) := by
  obtain ⟨hslot, hothers⟩ := List.forall_mem_cons.mp holds.fits
  have hshown : slot.shown = none := by rw [Slot.shown, hslot.loading hpending]
  have hlive := holds.live
  rw [List.filterMap_cons_none hshown] at hlive
  exact {
    sound := holds.sound
    fits := List.forall_mem_cons.mpr ⟨.of_settled (by simp [Slot.settled]) rfl, hothers⟩
    tickets := holds.tickets.sublist ((List.sublist_cons_self slot others).filterMap Slot.pending)
    live := by
      show gpu.live.Perm (texture.id :: others.filterMap Slot.shown)
      rw [hadded, hid]
      exact hlive.cons _
    fresh := by
      rw [hadded, hnext]
      rintro id (_ | ⟨_, hid⟩)
      · exact Nat.lt_succ_self _
      · exact Nat.lt_succ_of_lt (holds.fresh id hid)
    distinct := by
      rw [hadded]
      exact List.nodup_cons.mpr
        ⟨fun hmem => Nat.lt_irrefl _ (holds.fresh _ hmem), holds.distinct⟩ }

/-- A reply may be taken that nobody waits for any more. -/
theorem take (holds : studio.Holds slots) {ticket : Nat} {outcome : Outcome}
    (hstands : studio.pool.Stands ticket (.answered outcome))
    (hnobody : ∀ slot ∈ slots, slot.pending ≠ some ticket) :
    Studio.Holds { studio with pool := studio.pool.take ticket } slots where
  sound := holds.sound.take hstands
  fits := fun slot hslot => by
    refine (holds.fits slot hslot).later (by simp [Pool.take, Pool.setPlace]) ?_
    rintro other stage hpending h
    exact .inl (Pool.stands_take h fun heq => hnobody slot hslot (heq ▸ hpending))
  tickets := holds.tickets
  live := holds.live
  fresh := holds.fresh
  distinct := holds.distinct

theorem poll (holds : studio.Holds (slot :: others)) (uploader : Uploader) :
    Studio.Holds ((slot.poll uploader).run studio).2
      (((slot.poll uploader).run studio).1.1 :: others) := by
  rcases holds.poll_cases List.mem_cons_self uploader with
    ⟨-, heq⟩ | ⟨ticket, hpending, -, heq⟩ | ⟨ticket, result, hpending, hstands, heq⟩
  · rw [heq]
    exact holds
  · rw [heq]
    exact holds.fail hpending .workerLost
  · rw [heq]
    have hnobody (state : TextureState) :
        ∀ other ∈ slot.settled state :: others, other.pending ≠ some ticket := by
      have htickets := holds.tickets
      rw [List.filterMap_cons_some hpending] at htickets
      refine List.forall_mem_cons.mpr ⟨by simp [Slot.settled], fun other hother hother' => ?_⟩
      exact (List.nodup_cons.mp htickets).1 (List.mem_filterMap.mpr ⟨other, hother, hother'⟩)
    rcases studio.gpu.settle_cases uploader slot.label result with
      ⟨texture, later, hsettle, hid, hnext, hlive, -⟩ | ⟨fault, later, hsettle, hnext, hlive, -⟩
    · rw [hsettle]
      exact (holds.succeed hpending hid hnext hlive).take hstands (hnobody _)
    · rw [hsettle]
      exact ((holds.fail hpending fault).withGpu hlive hnext).take hstands (hnobody _)

/-- **What workers do keeps the invariant.** -/
theorem act (holds : studio.Holds slots) {done : Pool.Act} {later : Pool}
    (h : studio.pool.act done = some later) :
    Studio.Holds { studio with pool := later } slots where
  sound := holds.sound.act h
  fits := fun slot hslot => by
    have hlength := Pool.length_places_act h
    refine (holds.fits slot hslot).later (Nat.le_of_eq hlength.symm) fun ticket stage hp hs => ?_
    rcases holds.sound.stands_act h hs with ⟨hs, -⟩ | ⟨work, hwork, ⟨rfl, -⟩ | ⟨result, -, rfl⟩⟩
    · exact .inl hs
    · exact .inr trivial
    · have hgeneration := (holds.fits slot hslot).own ticket hp _ hwork
      exact .inr hgeneration
  tickets := holds.tickets
  live := holds.live
  fresh := holds.fresh
  distinct := holds.distinct

end Studio.Holds

/-- **A poll says that it changed something exactly when it changed the state.** -/
theorem Studio.Holds.poll_changed {studio : Studio} {slots : List Slot} {slot : Slot}
    (holds : studio.Holds slots) (hslot : slot ∈ slots) (uploader : Uploader) :
    ((slot.poll uploader).run studio).1.2 =
      decide (slot.state ≠ ((slot.poll uploader).run studio).1.1.state) := by
  have fits := holds.fits slot hslot
  rcases holds.poll_cases hslot uploader with
    ⟨-, heq⟩ | ⟨ticket, hpending, -, heq⟩ | ⟨ticket, result, hpending, -, heq⟩
  · rw [heq]
    simp
  · rw [heq, fits.loading hpending]
    simp [Slot.settled]
  · rw [heq, fits.loading hpending]
    rcases studio.gpu.settle_cases uploader slot.label result with
      ⟨_, _, hsettle, -⟩ | ⟨_, _, hsettle, -⟩ <;> simp [Slot.settled, hsettle]

/-! ## 5. Invariants -/

/-- **An invariant of a studio and the slots that use it**: it holds of a new studio, the order of
the slots does not matter, a slot that has not been assigned may join, and each change of a slot
keeps it whatever other slots there are, as do the acts of workers that are fair. -/
structure Studio.Invariant (fair : Pool.Act → Prop) (P : Studio → List Slot → Prop) : Prop where
  start : ∀ workers, P ⟨.start workers, .empty⟩ []
  perm : ∀ {studio : Studio} {slots later : List Slot}, P studio slots → slots.Perm later →
    P studio later
  new : ∀ {studio : Studio} {slots : List Slot}, P studio slots → ∀ label kind,
    P studio (Slot.new label kind :: slots)
  release : ∀ {studio : Studio} {slot : Slot} {others : List Slot}, P studio (slot :: others) →
    P (slot.release.run studio).2 ((slot.release.run studio).1 :: others)
  assign : ∀ {studio : Studio} {slot : Slot} {others : List Slot}, P studio (slot :: others) →
    ∀ loader request, P ((slot.assign loader request).run studio).2
      (((slot.assign loader request).run studio).1 :: others)
  poll : ∀ {studio : Studio} {slot : Slot} {others : List Slot}, P studio (slot :: others) →
    ∀ uploader, P ((slot.poll uploader).run studio).2
      (((slot.poll uploader).run studio).1.1 :: others)
  act : ∀ {studio : Studio} {slots : List Slot}, P studio slots → ∀ {done : Pool.Act}
    {later : Pool}, studio.pool.act done = some later → fair done →
      P { studio with pool := later } slots

theorem Studio.invariant_holds : Studio.Invariant (fun _ => True) Studio.Holds where
  start := .start
  perm := .perm
  new := .new
  release := .release
  assign := .assign
  poll := .poll
  act := fun holds _ _ h _ => holds.act h

end ShaderFabric
