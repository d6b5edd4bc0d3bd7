/-
# Tickets of the pool

A ticket is at one of three stages: its job is under way, its place holds a reply, or it is lost.
This module says once what each operation of the pool does to the stage of every ticket; what holds
of slots and of whole runs is derived from that alone.

* `Pool.Sound` -- no two jobs under way have one ticket, and a place is awaited exactly while the
  job of its ticket is under way;
* `Pool.Stands` -- a ticket and the stage it is at;
* `stands_submit`, `stands_complete`, `stands_take`, `stands_begin`, `stands_reply`, `stands_die` --
  where a ticket can stand after each operation.
-/
import Mathlib.Data.List.Nodup
import ShaderFabric.Texture.Pool

namespace ShaderFabric

namespace Pool

/-! ## 1. Stages -/

/-- The jobs under way: those that wait and those that workers hold. -/
def outstanding (pool : Pool) : List Work := pool.queue ++ pool.running

/-- **The invariant of the pool.** -/
structure Sound (pool : Pool) : Prop where
  nodup : (pool.outstanding.map Work.ticket).Nodup
  awaited_iff : ∀ ticket, pool.places[ticket]? = some .awaited ↔
    ∃ work ∈ pool.outstanding, work.ticket = ticket

/-- How far the request of a ticket has come. -/
inductive Stage
  | underway (work : Work)
  | answered (outcome : Outcome)
  | lost

/-- A ticket of the pool stands at a stage. -/
def Stands (pool : Pool) (ticket : Nat) : Stage → Prop
  | .underway work => work ∈ pool.outstanding ∧ work.ticket = ticket
  | .answered outcome => pool.places[ticket]? = some (.holding outcome)
  | .lost => pool.places[ticket]? = some .abandoned

theorem sound_start (workers : Nat) : (start workers).Sound where
  nodup := List.nodup_nil
  awaited_iff := fun ticket => by simp [start, outstanding]

/-- **Two jobs under way with one ticket are one job.** -/
theorem Sound.eq_of_ticket_eq {pool : Pool} (sound : pool.Sound) {work other : Work}
    (hw : work ∈ pool.outstanding) (ho : other ∈ pool.outstanding)
    (h : work.ticket = other.ticket) : work = other :=
  List.inj_on_of_nodup_map sound.nodup hw ho h

theorem Sound.place_of_mem {pool : Pool} (sound : pool.Sound) {work : Work}
    (h : work ∈ pool.outstanding) : pool.places[work.ticket]? = some .awaited :=
  (sound.awaited_iff work.ticket).mpr ⟨work, h, rfl⟩

/-- What the place of a ticket shows at a stage. -/
def Stage.place : Stage → ReplyPlace
  | .underway _ => .awaited
  | .answered outcome => .holding outcome
  | .lost => .abandoned

theorem Sound.getElem?_of_stands {pool : Pool} (sound : pool.Sound) {ticket : Nat} {stage : Stage}
    (h : pool.Stands ticket stage) : pool.places[ticket]? = some stage.place := by
  cases stage with
  | underway work =>
    obtain ⟨hw, rfl⟩ := h
    exact sound.place_of_mem hw
  | answered outcome => exact h
  | lost => exact h

theorem Sound.place_eq {pool : Pool} (sound : pool.Sound) {ticket : Nat} {stage : Stage}
    (h : pool.Stands ticket stage) : pool.place ticket = stage.place := by
  rw [Pool.place, sound.getElem?_of_stands h]
  rfl

/-- **Only a ticket that has been given out stands anywhere.** -/
theorem Sound.lt_of_stands {pool : Pool} (sound : pool.Sound) {ticket : Nat} {stage : Stage}
    (h : pool.Stands ticket stage) : ticket < pool.places.length :=
  (List.getElem?_eq_some_iff.mp (sound.getElem?_of_stands h)).1

/-- **Every ticket that has been given out stands somewhere.** -/
theorem Sound.exists_stands {pool : Pool} (sound : pool.Sound) {ticket : Nat}
    (h : ticket < pool.places.length) : ∃ stage, pool.Stands ticket stage := by
  have hplace := List.getElem?_eq_getElem h
  cases place : pool.places[ticket] with
  | awaited =>
    obtain ⟨work, hw, hticket⟩ := (sound.awaited_iff ticket).mp (place ▸ hplace)
    exact ⟨.underway work, hw, hticket⟩
  | holding outcome =>
    rw [place] at hplace
    exact ⟨.answered outcome, hplace⟩
  | abandoned =>
    rw [place] at hplace
    exact ⟨.lost, hplace⟩

/-- **A ticket stands at one stage only.** -/
theorem Sound.stage_unique {pool : Pool} (sound : pool.Sound) {ticket : Nat} {stage other : Stage}
    (hs : pool.Stands ticket stage) (ho : pool.Stands ticket other) : stage = other := by
  have hplace : stage.place = other.place :=
    Option.some.inj ((sound.getElem?_of_stands hs).symm.trans (sound.getElem?_of_stands ho))
  cases stage with
  | underway work =>
    cases other with
    | underway other => rw [sound.eq_of_ticket_eq hs.1 ho.1 (hs.2.trans ho.2.symm)]
    | answered _ => cases hplace
    | lost => cases hplace
  | answered _ => cases other <;> cases hplace; rfl
  | lost => cases other <;> cases hplace; rfl

/-! ## 2. Places -/

@[simp] theorem outstanding_setPlace (pool : Pool) (ticket : Nat) (place : ReplyPlace) :
    (pool.setPlace ticket place).outstanding = pool.outstanding := rfl

@[simp] theorem outstanding_openPlace (pool : Pool) (place : ReplyPlace) :
    (pool.openPlace place).2.outstanding = pool.outstanding := rfl

/-- A place that has just been opened is that of the next ticket; no other place has changed. -/
theorem getElem?_openPlace (pool : Pool) (place : ReplyPlace) (ticket : Nat) :
    (pool.openPlace place).2.places[ticket]? =
      if ticket = pool.places.length then some place else pool.places[ticket]? := by
  simp only [openPlace, List.getElem?_append, List.getElem?_singleton]
  rcases Nat.lt_trichotomy ticket pool.places.length with h | rfl | h
  · rw [if_pos h, if_neg (by omega)]
  · simp
  · rw [if_neg (by omega), if_neg (by omega), if_neg (by omega), List.getElem?_eq_none (by omega)]

/-- **A ticket whose place and whose jobs are as before stands where it stood.** -/
theorem Stands.of_unchanged {pool later : Pool} {ticket : Nat} {stage : Stage}
    (h : later.Stands ticket stage) (hplace : later.places[ticket]? = pool.places[ticket]?)
    (hwork : ∀ work ∈ later.outstanding, work.ticket = ticket → work ∈ pool.outstanding) :
    pool.Stands ticket stage := by
  cases stage with
  | underway work => exact ⟨hwork work h.1 h.2, h.2⟩
  | answered outcome => exact hplace.symm.trans h
  | lost => exact hplace.symm.trans h

theorem Sound.eq_answered {pool : Pool} (sound : pool.Sound) {ticket : Nat} {stage : Stage}
    {outcome : Outcome} (h : pool.Stands ticket stage)
    (hplace : pool.places[ticket]? = some (.holding outcome)) : stage = .answered outcome :=
  sound.stage_unique h hplace

theorem Sound.eq_lost {pool : Pool} (sound : pool.Sound) {ticket : Nat} {stage : Stage}
    (h : pool.Stands ticket stage) (hplace : pool.places[ticket]? = some .abandoned) :
    stage = .lost :=
  sound.stage_unique h hplace

/-- Opening a place that nobody is to fill keeps the invariant. -/
theorem Sound.openPlace {pool : Pool} (sound : pool.Sound) {place : ReplyPlace}
    (h : place ≠ .awaited) : (pool.openPlace place).2.Sound where
  nodup := sound.nodup
  awaited_iff := fun ticket => by
    rw [getElem?_openPlace, outstanding_openPlace, ← sound.awaited_iff]
    split
    · rename_i heq
      subst heq
      simp [h]
    · rfl

/-! ## 3. Requests -/

theorem submit_fst (pool : Pool) (generation : Nat) (job : Job) :
    (pool.submit generation job).1 = pool.places.length := by
  unfold submit
  split <;> rfl

theorem length_places_submit (pool : Pool) (generation : Nat) (job : Job) :
    (pool.submit generation job).2.places.length = pool.places.length + 1 := by
  unfold submit
  split <;> exact List.length_append

/-- The jobs under way once one more waits. -/
theorem mem_outstanding_push {pool : Pool} {queued work : Work} {places : List ReplyPlace} :
    work ∈ ({ pool with queue := pool.queue ++ [queued], places } : Pool).outstanding ↔
      work ∈ pool.outstanding ∨ work = queued := by
  simp only [outstanding, List.mem_append, List.mem_singleton]
  tauto

theorem Sound.submit {pool : Pool} (sound : pool.Sound) (generation : Nat) (job : Job) :
    (pool.submit generation job).2.Sound := by
  unfold Pool.submit
  split
  · refine ⟨?_, fun ticket => ?_⟩
    · have hfresh : pool.places.length ∉ pool.outstanding.map Work.ticket := by
        rintro h
        obtain ⟨work, hw, hticket⟩ := List.mem_map.mp h
        have hstands : pool.Stands pool.places.length (.underway work) := ⟨hw, hticket⟩
        exact absurd (sound.lt_of_stands hstands) (Nat.lt_irrefl _)
      let queued : Work := ⟨pool.places.length, generation, job⟩
      have hperm : (pool.queue ++ [queued] ++ pool.running).Perm (queued :: pool.outstanding) := by
        rw [List.append_assoc, List.singleton_append]
        exact List.perm_middle
      exact (hperm.map Work.ticket).nodup_iff.mpr (List.nodup_cons.mpr ⟨hfresh, sound.nodup⟩)
    · refine (iff_of_eq (congrArg (· = _) (getElem?_openPlace pool .awaited ticket))).trans ?_
      simp only [Pool.openPlace, mem_outstanding_push]
      split
      · rename_i heq
        exact iff_of_true rfl ⟨_, .inr rfl, heq.symm⟩
      · rename_i hne
        rw [sound.awaited_iff]
        constructor
        · rintro ⟨work, hw, hticket⟩
          exact ⟨work, .inl hw, hticket⟩
        · rintro ⟨work, hw | rfl, hticket⟩
          · exact ⟨work, hw, hticket⟩
          · exact absurd hticket.symm hne
  · exact sound.openPlace (by simp)

/-- **Where a ticket can stand after a job has been submitted**: where it stood, or, if it is the
next ticket, with that job under way or lost. -/
theorem Sound.stands_submit {pool : Pool} (sound : pool.Sound) {generation : Nat} {job : Job}
    {ticket : Nat} {stage : Stage} (h : (pool.submit generation job).2.Stands ticket stage) :
    pool.Stands ticket stage ∨ ticket = pool.places.length ∧
      (stage = .underway ⟨ticket, generation, job⟩ ∨ stage = .lost) := by
  have later := sound.submit generation job
  unfold Pool.submit at h later
  split at h
  · rename_i halive
    rw [if_pos halive] at later
    have hplace := getElem?_openPlace pool .awaited ticket
    split at hplace
    · rename_i heq
      subst heq
      refine .inr ⟨rfl, .inl ?_⟩
      exact later.stage_unique h ⟨mem_outstanding_push.mpr (.inr rfl), rfl⟩
    · rename_i hne
      refine .inl (h.of_unchanged hplace fun work hw hticket => ?_)
      rcases mem_outstanding_push.mp hw with hw | rfl
      · exact hw
      · exact absurd hticket.symm hne
  · rename_i hdead
    rw [if_neg hdead] at later
    have hplace := getElem?_openPlace pool .abandoned ticket
    split at hplace
    · exact .inr ⟨‹_›, .inr (later.eq_lost h hplace)⟩
    · exact .inl (h.of_unchanged hplace fun _ hw _ => hw)

theorem Sound.complete {pool : Pool} (sound : pool.Sound) (generation : Nat) (texture : Decoded) :
    (pool.complete generation texture).2.Sound := sound.openPlace (by simp)

/-- **Where a ticket can stand after a request that needs no worker.** -/
theorem Sound.stands_complete {pool : Pool} (sound : pool.Sound) {generation : Nat}
    {texture : Decoded} {ticket : Nat} {stage : Stage}
    (h : (pool.complete generation texture).2.Stands ticket stage) :
    pool.Stands ticket stage ∨
      ticket = pool.places.length ∧ stage = .answered ⟨generation, .ok texture⟩ := by
  have hplace := getElem?_openPlace pool (.holding ⟨generation, .ok texture⟩) ticket
  split at hplace
  · exact .inr ⟨‹_›, (sound.complete generation texture).eq_answered h hplace⟩
  · exact .inl (h.of_unchanged hplace fun _ hw _ => hw)

/-! ## 4. Replies and workers -/

theorem getElem?_setPlace (pool : Pool) (changed ticket : Nat) (place : ReplyPlace) :
    (pool.setPlace changed place).places[ticket]? =
      if ticket = changed then pool.places[ticket]?.map fun _ => place
      else pool.places[ticket]? := by
  simp only [setPlace]
  rcases eq_or_ne ticket changed with rfl | hne
  · rw [List.getElem?_set_self', if_pos rfl]
    rfl
  · rw [List.getElem?_set_ne hne.symm, if_neg hne]

/-- Changing a place that nobody is to fill keeps the invariant. -/
theorem Sound.take {pool : Pool} (sound : pool.Sound) {taken : Nat} {outcome : Outcome}
    (h : pool.Stands taken (.answered outcome)) : (pool.take taken).Sound where
  nodup := sound.nodup
  awaited_iff := fun ticket => by
    unfold Pool.take
    rw [getElem?_setPlace, outstanding_setPlace, ← sound.awaited_iff]
    split
    · rename_i heq
      subst heq
      rw [sound.getElem?_of_stands h]
      exact iff_of_false (by simp) (by simp [Stage.place])
    · rfl

/-- **Where a ticket can stand after a reply has been taken.** -/
theorem stands_take {pool : Pool} {taken ticket : Nat} {stage : Stage}
    (h : (pool.take taken).Stands ticket stage) (hne : ticket ≠ taken) :
    pool.Stands ticket stage :=
  h.of_unchanged ((getElem?_setPlace pool taken ticket .abandoned).trans (if_neg hne))
    fun _ hw _ => hw

/-- What taking a job does: the first that waits is now held. -/
theorem begin_eq_some {pool later : Pool} {work : Work} (h : pool.begin = some (work, later)) :
    work ∈ later.running ∧ later.places = pool.places ∧
      later.outstanding.Perm pool.outstanding := by
  unfold begin at h
  split at h
  · rename_i rest hidle hqueue
    cases h
    refine ⟨List.mem_cons_self, rfl, ?_⟩
    simp only [outstanding, hqueue]
    exact List.perm_middle
  · cases h

theorem Sound.begin {pool later : Pool} {work : Work} (sound : pool.Sound)
    (h : pool.begin = some (work, later)) : later.Sound := by
  obtain ⟨-, hplaces, hperm⟩ := begin_eq_some h
  refine ⟨(hperm.map Work.ticket).nodup_iff.mpr sound.nodup, fun ticket => ?_⟩
  simp only [hplaces, sound.awaited_iff, hperm.mem_iff]

/-- **Taking a job moves no ticket.** -/
theorem stands_begin {pool later : Pool} {work : Work} {ticket : Nat} {stage : Stage}
    (hbegin : pool.begin = some (work, later)) (h : later.Stands ticket stage) :
    pool.Stands ticket stage := by
  obtain ⟨-, hplaces, hperm⟩ := begin_eq_some hbegin
  exact h.of_unchanged (by rw [hplaces]) fun _ hw _ => hperm.mem_iff.mp hw

/-- A pool in which a job that a worker held is settled: its place shows something else. -/
def settle (pool : Pool) (work : Work) (place : ReplyPlace) : Pool :=
  (pool.drop work).setPlace work.ticket place

theorem mem_outstanding_settle {pool : Pool} (sound : pool.Sound) {work other : Work}
    {place : ReplyPlace} (held : work ∈ pool.running) :
    other ∈ (pool.settle work place).outstanding ↔
      other ∈ pool.outstanding ∧ other.ticket ≠ work.ticket := by
  have hqueue : ∀ waiting ∈ pool.queue, waiting.ticket ≠ work.ticket := by
    intro waiting hw heq
    have hdisjoint := sound.nodup
    rw [outstanding, List.map_append] at hdisjoint
    exact List.disjoint_of_nodup_append hdisjoint (List.mem_map.mpr ⟨waiting, hw, heq⟩)
      (List.mem_map.mpr ⟨work, held, rfl⟩)
  unfold settle
  rw [outstanding_setPlace]
  simp only [outstanding, drop, List.mem_append, List.mem_filter, decide_eq_true_eq]
  constructor
  · rintro (hw | ⟨hw, hne⟩)
    · exact ⟨.inl hw, hqueue other hw⟩
    · exact ⟨.inr hw, hne⟩
  · rintro ⟨hw | hw, hne⟩
    · exact .inl hw
    · exact .inr ⟨hw, hne⟩

theorem Sound.settle {pool : Pool} (sound : pool.Sound) {work : Work} {place : ReplyPlace}
    (held : work ∈ pool.running) (h : place ≠ .awaited) : (pool.settle work place).Sound := by
  refine ⟨?_, fun ticket => ?_⟩
  · have hsub : (pool.settle work place).outstanding.Sublist pool.outstanding :=
      (List.Sublist.refl _).append List.filter_sublist
    exact sound.nodup.sublist (hsub.map Work.ticket)
  · simp only [mem_outstanding_settle sound held]
    refine (iff_of_eq (congrArg (· = _) (getElem?_setPlace _ _ ticket place))).trans ?_
    split
    · rename_i heq
      subst heq
      refine iff_of_false ?_ (by rintro ⟨other, ⟨-, hne⟩, heq⟩; exact hne heq)
      rw [Option.map_eq_some_iff]
      rintro ⟨_, -, hawaited⟩
      exact h hawaited
    · rename_i hne
      refine (sound.awaited_iff ticket).trans ?_
      constructor
      · rintro ⟨other, hw, rfl⟩
        exact ⟨other, ⟨hw, hne⟩, rfl⟩
      · rintro ⟨other, ⟨hw, -⟩, hticket⟩
        exact ⟨other, hw, hticket⟩

/-- The place of a job that has been settled. -/
theorem getElem?_settle {pool : Pool} (sound : pool.Sound) {work : Work} (place : ReplyPlace)
    (held : work ∈ pool.running) : (pool.settle work place).places[work.ticket]? = some place := by
  have hplace := sound.place_of_mem (List.mem_append_right pool.queue held)
  refine (getElem?_setPlace _ _ _ place).trans ?_
  rw [if_pos rfl, drop, hplace]
  rfl

theorem stands_settle {pool : Pool} (sound : pool.Sound) {work : Work} {place : ReplyPlace}
    {ticket : Nat} {stage : Stage} (held : work ∈ pool.running)
    (h : (pool.settle work place).Stands ticket stage) (hne : ticket ≠ work.ticket) :
    pool.Stands ticket stage :=
  h.of_unchanged ((getElem?_setPlace _ _ ticket place).trans (if_neg hne)) fun _ hw _ =>
    ((mem_outstanding_settle sound held).mp hw).1

theorem Sound.reply {pool : Pool} (sound : pool.Sound) {work : Work} (held : work ∈ pool.running)
    (result : LoadResult) : (pool.reply work result).Sound := by
  have settled : (pool.settle work (.holding ⟨work.generation, result⟩)).Sound :=
    sound.settle held (by simp)
  exact ⟨settled.nodup, settled.awaited_iff⟩

/-- **Where a ticket can stand after a reply**: the ticket of the job is answered, and every other
stands where it stood. -/
theorem Sound.stands_reply {pool : Pool} (sound : pool.Sound) {work : Work} {result : LoadResult}
    {ticket : Nat} {stage : Stage} (held : work ∈ pool.running)
    (h : (pool.reply work result).Stands ticket stage) :
    ticket ≠ work.ticket ∧ pool.Stands ticket stage ∨
      ticket = work.ticket ∧ stage = .answered ⟨work.generation, result⟩ := by
  rcases eq_or_ne ticket work.ticket with rfl | hne
  · exact .inr ⟨rfl, (sound.reply held result).eq_answered h (getElem?_settle sound _ held)⟩
  · have hsettled :
        (pool.settle work (.holding ⟨work.generation, result⟩)).Stands ticket stage := by
      cases stage <;> exact h
    exact .inl ⟨hne, stands_settle sound held hsettled hne⟩

/-! ## 5. Deaths -/

theorem getElem?_foldl_abandon (ticket : Nat) : ∀ (works : List Work) (places : List ReplyPlace),
    (works.foldl (fun places work => places.set work.ticket .abandoned) places)[ticket]? =
      if ticket ∈ works.map Work.ticket then places[ticket]?.map fun _ => .abandoned
      else places[ticket]?
  | [], places => by simp
  | work :: rest, places => by
    rw [List.foldl_cons, getElem?_foldl_abandon ticket rest]
    simp only [List.map_cons, List.mem_cons]
    rcases eq_or_ne ticket work.ticket with rfl | hne
    · rw [List.getElem?_set_self']
      split
      · simp [Function.const_def]
      · simp [Function.const_def]
    · rw [List.getElem?_set_ne hne.symm]
      simp [hne]

/-- **Where a ticket can stand once all that waits is abandoned**: where it stood, if no worker was
needed for it, or lost. -/
theorem abandonQueue_of_not_isAlive {pool : Pool} (h : ¬ pool.isAlive) :
    pool.abandonQueue.outstanding = [] ∧ pool.outstanding = pool.queue ∧
      ∀ ticket, pool.abandonQueue.places[ticket]? =
        if ∃ work ∈ pool.outstanding, work.ticket = ticket then
          pool.places[ticket]?.map fun _ => .abandoned
        else pool.places[ticket]? := by
  have hrunning : pool.running = [] := by
    simp only [isAlive, Bool.or_eq_true, Bool.not_eq_true', not_or, Bool.not_eq_false] at h
    exact List.isEmpty_iff.mp h.2
  have houtstanding : pool.outstanding = pool.queue := by
    rw [outstanding, hrunning, List.append_nil]
  unfold abandonQueue
  rw [if_neg h, houtstanding]
  refine ⟨hrunning, rfl, fun ticket => ?_⟩
  simpa only [List.mem_map] using getElem?_foldl_abandon ticket pool.queue pool.places

theorem Sound.abandonQueue {pool : Pool} (sound : pool.Sound) : pool.abandonQueue.Sound := by
  by_cases halive : pool.isAlive
  · rwa [Pool.abandonQueue, if_pos halive]
  · obtain ⟨hnone, -, hplaces⟩ := abandonQueue_of_not_isAlive halive
    refine ⟨by rw [hnone]; exact List.nodup_nil, fun ticket => ?_⟩
    rw [hnone, hplaces]
    refine iff_of_false ?_ (by simp)
    split
    · rw [Option.map_eq_some_iff]
      rintro ⟨_, -, h⟩
      cases h
    · rename_i hticket
      rwa [sound.awaited_iff]

theorem Sound.stands_abandonQueue {pool : Pool} (sound : pool.Sound) {ticket : Nat} {stage : Stage}
    (h : pool.abandonQueue.Stands ticket stage) :
    pool.Stands ticket stage ∨
      stage = .lost ∧ ∃ work ∈ pool.outstanding, work.ticket = ticket := by
  by_cases halive : pool.isAlive
  · rw [Pool.abandonQueue, if_pos halive] at h
    exact .inl h
  · obtain ⟨hnone, -, hplaces⟩ := abandonQueue_of_not_isAlive halive
    have hplace := hplaces ticket
    split at hplace
    · rename_i hticket
      refine .inr ⟨sound.abandonQueue.eq_lost h ?_, hticket⟩
      rw [hplace, (sound.awaited_iff ticket).mpr hticket]
      rfl
    · exact .inl (h.of_unchanged hplace fun _ hw _ => by rw [hnone] at hw; cases hw)

theorem Sound.die {pool : Pool} (sound : pool.Sound) {work : Work} (held : work ∈ pool.running) :
    (pool.die work).Sound :=
  (sound.settle held (by simp)).abandonQueue

/-- **Where a ticket can stand after a worker has died**: where it stood, unless its job was the
worker's, or lost, and then its job was under way. -/
theorem Sound.stands_die {pool : Pool} (sound : pool.Sound) {work : Work} {ticket : Nat}
    {stage : Stage} (held : work ∈ pool.running) (h : (pool.die work).Stands ticket stage) :
    ticket ≠ work.ticket ∧ pool.Stands ticket stage ∨
      stage = .lost ∧ ∃ other ∈ pool.outstanding, other.ticket = ticket := by
  have settled : (pool.settle work .abandoned).Sound := sound.settle held (by simp)
  rcases settled.stands_abandonQueue h with h | ⟨hlost, other, hw, hticket⟩
  · rcases eq_or_ne ticket work.ticket with rfl | hne
    · exact .inr ⟨settled.eq_lost h (getElem?_settle sound _ held), work,
        List.mem_append_right _ held, rfl⟩
    · exact .inl ⟨hne, stands_settle sound held h hne⟩
  · exact .inr ⟨hlost, other, ((mem_outstanding_settle sound held).mp hw).1, hticket⟩

/-! ## 6. What workers do

A worker takes a job, replies to the job it holds, or dies with it.  An act that no worker can do at
the time is not an act of the pool. -/

/-- What a worker may do next. -/
inductive Act
  | begin
  | reply (work : Work) (result : LoadResult)
  | die (work : Work)

/-- **Workers that do their jobs**: a reply is what fetching and decoding come to, whatever is
fetched. -/
def Act.Honest : Act → Prop
  | reply work result => ∃ images fetch, work.job.run images fetch = some result
  | _ => True

/-- The pool after an act, if the act is possible. -/
def act (pool : Pool) : Act → Option Pool
  | .begin => pool.begin.map Prod.snd
  | .reply work result => if work ∈ pool.running then some (pool.reply work result) else none
  | .die work => if work ∈ pool.running then some (pool.die work) else none

/-- **What each act is.** -/
theorem act_eq_some {pool later : Pool} {done : Act} (h : pool.act done = some later) :
    (done = .begin ∧ ∃ work, pool.begin = some (work, later)) ∨
      (∃ work result, done = .reply work result ∧ work ∈ pool.running ∧
        later = pool.reply work result) ∨
      ∃ work, done = .die work ∧ work ∈ pool.running ∧ later = pool.die work := by
  cases done with
  | begin =>
    obtain ⟨⟨work, _⟩, hbegin, rfl⟩ := Option.map_eq_some_iff.mp h
    exact .inl ⟨rfl, work, hbegin⟩
  | reply work result =>
    obtain ⟨held, hlater⟩ := Option.ite_none_right_eq_some.mp h
    exact .inr (.inl ⟨work, result, rfl, held, (Option.some.inj hlater).symm⟩)
  | die work =>
    obtain ⟨held, hlater⟩ := Option.ite_none_right_eq_some.mp h
    exact .inr (.inr ⟨work, rfl, held, (Option.some.inj hlater).symm⟩)

theorem Sound.act {pool later : Pool} (sound : pool.Sound) {done : Act}
    (h : pool.act done = some later) : later.Sound := by
  rcases act_eq_some h with ⟨-, _, hbegin⟩ | ⟨work, result, -, held, rfl⟩ | ⟨work, -, held, rfl⟩
  · exact sound.begin hbegin
  · exact sound.reply held result
  · exact sound.die held

theorem length_foldl_abandon : ∀ (works : List Work) (places : List ReplyPlace),
    (works.foldl (fun places work => places.set work.ticket .abandoned) places).length =
      places.length
  | [], _ => rfl
  | _ :: rest, _ => (length_foldl_abandon rest _).trans List.length_set

theorem length_places_abandonQueue (pool : Pool) :
    pool.abandonQueue.places.length = pool.places.length := by
  unfold abandonQueue
  split
  · rfl
  · exact length_foldl_abandon _ _

/-- Workers open no places. -/
theorem length_places_act {pool later : Pool} {done : Act} (h : pool.act done = some later) :
    later.places.length = pool.places.length := by
  rcases act_eq_some h with ⟨-, _, hbegin⟩ | ⟨work, result, -, -, rfl⟩ | ⟨work, -, -, rfl⟩
  · rw [(begin_eq_some hbegin).2.1]
  · exact List.length_set
  · exact (length_places_abandonQueue _).trans List.length_set

/-- **Where a ticket can stand after an act of a worker**: where it stood, and then the act was no
reply to it; answered by the act; or lost in it. -/
theorem Sound.stands_act {pool later : Pool} (sound : pool.Sound) {done : Act} {ticket : Nat}
    {stage : Stage} (h : pool.act done = some later) (hstands : later.Stands ticket stage) :
    pool.Stands ticket stage ∧ (∀ work result, done = .reply work result → work.ticket ≠ ticket) ∨
      ∃ work, pool.Stands ticket (.underway work) ∧
        ((stage = .lost ∧ ∃ dead, done = .die dead) ∨
          ∃ result, done = .reply work result ∧ stage = .answered ⟨work.generation, result⟩) := by
  rcases act_eq_some h with
    ⟨rfl, _, hbegin⟩ | ⟨work, result, rfl, held, rfl⟩ | ⟨dead, rfl, held, rfl⟩
  · exact .inl ⟨stands_begin hbegin hstands, nofun⟩
  · rcases sound.stands_reply held hstands with ⟨hne, hstands⟩ | ⟨rfl, rfl⟩
    · refine .inl ⟨hstands, ?_⟩
      rintro _ _ heq
      cases heq
      exact hne.symm
    · exact .inr ⟨work, ⟨List.mem_append_right _ held, rfl⟩, .inr ⟨result, rfl, rfl⟩⟩
  · rcases sound.stands_die held hstands with ⟨-, hstands⟩ | ⟨rfl, work, hw, hticket⟩
    · exact .inl ⟨hstands, nofun⟩
    · exact .inr ⟨work, ⟨hw, hticket⟩, .inl ⟨rfl, dead, rfl⟩⟩

end Pool

end ShaderFabric
