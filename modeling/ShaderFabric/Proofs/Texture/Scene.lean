/-
# Slots, workers and their interleavings

Any number of slots share a studio.  In a run the slots are assigned, released and polled and the
workers take jobs, reply or die, in any order.  Whatever the order, a slot shows only what its own
latest request came to.

* `Scene.run` -- runs as lists of events;
* `Scene.holds_run` -- the invariant of slots that share a studio holds at the end of every run;
* `Scene.traced_run` -- the ticket a slot waits for is that of its latest request, and each stage
  of the ticket is accounted for by the events since;
* `Scene.uploads_le_one` -- between two requests a slot uploads at most once;
* `Scene.reachable` -- what this comes to for every state that can be reached.
-/
import Mathlib.Algebra.BigOperators.Ring.Finset
import Mathlib.Data.List.Induction
import ShaderFabric.Proofs.Texture.Slot

namespace ShaderFabric

/-! ## 1. Runs -/

/-- Slots and the studio they share. -/
structure Scene where
  studio : Studio
  slots : List Slot

namespace Scene

/-- What can happen next: a slot is assigned, released or polled, or a worker acts. -/
inductive Event
  | assign (index : Nat) (request : TextureRequest)
  | release (index : Nat)
  | poll (index : Nat) (uploader : Uploader)
  | act (done : Pool.Act)

/-- No job, no texture, and slots that have not been assigned. -/
def start (workers : Nat) (slots : List (String × TextureKind)) : Scene :=
  ⟨⟨.start workers, .empty⟩, slots.map fun (label, kind) => Slot.new label kind⟩

/-- The scene after a change of one slot, if there is such a slot. -/
def change (scene : Scene) (index : Nat) (change : Slot → StateM Studio Slot) : Option Scene :=
  scene.slots[index]?.map fun slot =>
    let (slot, studio) := (change slot).run scene.studio
    ⟨studio, scene.slots.set index slot⟩

variable (loader : Loader)

/-- The scene after an event, if it is possible. -/
def step (scene : Scene) : Event → Option Scene
  | .assign index request => scene.change index (Slot.assign loader request)
  | .release index => scene.change index Slot.release
  | .poll index uploader => scene.change index fun slot => Prod.fst <$> slot.poll uploader
  | .act done =>
    (scene.studio.pool.act done).map fun pool => { scene with studio.pool := pool }

/-- The scene after events in order, if each is possible in its turn. -/
def run : List Event → Scene → Option Scene
  | [], scene => some scene
  | event :: rest, scene => (scene.step loader event).bind (run rest)

/-- How many uploads have been tried. -/
def attempts (scene : Scene) : Nat := scene.studio.gpu.attempts.length

/-- How many uploads an event that leads to a later scene tries for a slot. -/
def tried (index : Nat) (scene later : Scene) : Event → Nat
  | .poll polled _ => if polled = index then later.attempts - scene.attempts else 0
  | _ => 0

/-- How many uploads a run tries for a slot. -/
def uploads (index : Nat) : List Event → Scene → Nat
  | [], _ => 0
  | event :: rest, scene =>
    match scene.step loader event with
    | none => 0
    | some later => tried index scene later event + uploads index rest later

/-! ## 2. Requests -/

/-- An event gives up what a slot held. -/
def Event.Renews (index : Nat) : Event → Prop
  | .assign other _ | .release other => other = index
  | _ => False

/-- An event is a request of a slot. -/
def Event.Requests (index : Nat) : Event → Prop
  | .assign other _ => other = index
  | _ => False

/-- **A request opens a ticket**: the ticket was the next one when the request was made, and the
request leads to something. -/
def Opened (first : Scene) (events : List Event) (index : Nat) (request : TextureRequest)
    (ticket : Nat) (since : List Event) : Prop :=
  ∃ before middle, events = before ++ .assign index request :: since ∧
    run loader before first = some middle ∧ ticket = middle.studio.pool.places.length ∧
    loader.plan request ≠ .nothing

/-- **The latest request of a slot**: since it opened its ticket, the slot has been neither assigned
nor released. -/
structure Latest (first : Scene) (events : List Event) (index : Nat) (request : TextureRequest)
    (ticket : Nat) (since : List Event) : Prop where
  opened : Opened loader first events index request ticket since
  untouched : ∀ event ∈ since, ¬ event.Renews index

/-- **What a request has come to**: the texture at hand, or the result with which a worker has
replied to the very work that the request has queued, or no reply at all. -/
inductive Answered (request : TextureRequest) (ticket generation : Nat) (since : List Event) :
    Option LoadResult → Prop
  | atHand {texture : Decoded} (h : loader.plan request = .done texture) :
    Answered request ticket generation since (some (.ok texture))
  | replied {job : Job} {result : LoadResult} (h : loader.plan request = .load job)
      (hreply : .act (.reply ⟨ticket, generation, job⟩ result) ∈ since) :
    Answered request ticket generation since (some result)
  | lost {job : Job} (h : loader.plan request = .load job)
      (hnone : ∀ result, .act (.reply ⟨ticket, generation, job⟩ result) ∉ since) :
    Answered request ticket generation since none

/-- How the events since a request account for the stage of its ticket. -/
def Accounts (request : TextureRequest) (ticket generation : Nat) (since : List Event) :
    Pool.Stage → Prop
  | .underway work => ∃ job, loader.plan request = .load job ∧ work = ⟨ticket, generation, job⟩ ∧
    ∀ result, .act (.reply work result) ∉ since
  | .answered outcome => outcome.generation = generation ∧
    Answered loader request ticket generation since (some outcome.result)
  | .lost => Answered loader request ticket generation since none

/-- **What a slot waits for**: its ticket is that of its latest request, and the events since then
account for wherever the ticket stands. -/
def Traced (first : Scene) (events : List Event) (pool : Pool) (index ticket generation : Nat) :
    Prop :=
  ∃ request since, Latest loader first events index request ticket since ∧
    ∀ stage, pool.Stands ticket stage → Accounts loader request ticket generation since stage

end Scene

/-- What a device makes a slot show, given what its request has come to. -/
def Gpu.shows (gpu : Gpu) (uploader : Uploader) (label : String) : Option LoadResult → TextureState
  | some result => (gpu.settle uploader label result).1
  | none => .failed .workerLost

namespace Scene

variable {loader : Loader}

/-! ## 3. The invariant along runs -/

/-- **What holds of every scene that can be reached.** -/
def Holds (scene : Scene) : Prop := scene.studio.Holds scene.slots

theorem holds_start (workers : Nat) (slots : List (String × TextureKind)) :
    (start workers slots).Holds := by
  unfold Holds start
  induction slots with
  | nil => exact .start workers
  | cons slot rest ih => exact Studio.Holds.new ih slot.1 slot.2

theorem change_eq_some {scene later : Scene} {index : Nat} {change : Slot → StateM Studio Slot}
    (h : scene.change index change = some later) :
    ∃ slot, scene.slots[index]? = some slot ∧ later =
      ⟨((change slot).run scene.studio).2,
        scene.slots.set index ((change slot).run scene.studio).1⟩ := by
  obtain ⟨slot, hslot, rfl⟩ := Option.map_eq_some_iff.mp h
  exact ⟨slot, hslot, rfl⟩

/-- **A change of the first slot that keeps the invariant keeps it wherever the slot is.** -/
theorem holds_change {scene later : Scene} {index : Nat} {change : Slot → StateM Studio Slot}
    (h : scene.change index change = some later)
    (kept : ∀ {slot : Slot} {others : List Slot}, scene.studio.Holds (slot :: others) →
      Studio.Holds ((change slot).run scene.studio).2
        (((change slot).run scene.studio).1 :: others))
    (holds : scene.Holds) : later.Holds := by
  obtain ⟨slot, hslot, rfl⟩ := change_eq_some h
  obtain ⟨hlt, rfl⟩ := List.getElem?_eq_some_iff.mp hslot
  have first := Studio.Holds.perm holds (List.getElem_cons_eraseIdx_perm hlt).symm
  exact (kept first).perm (List.set_perm_cons_eraseIdx hlt _).symm

theorem holds_step {scene later : Scene} {event : Event}
    (h : scene.step loader event = some later) (holds : scene.Holds) : later.Holds := by
  cases event with
  | assign index request =>
    simp only [step] at h
    exact holds_change h (fun first => first.assign loader request) holds
  | release index =>
    simp only [step] at h
    exact holds_change h (fun first => first.release) holds
  | poll index uploader =>
    simp only [step] at h
    exact holds_change h (fun first => first.poll uploader) holds
  | act done =>
    simp only [step] at h
    obtain ⟨pool, hact, rfl⟩ := Option.map_eq_some_iff.mp h
    exact Studio.Holds.act holds hact

theorem run_cons_eq_some {scene later : Scene} {event : Event} {rest : List Event} :
    run loader (event :: rest) scene = some later ↔
      ∃ next, scene.step loader event = some next ∧ run loader rest next = some later :=
  Option.bind_eq_some_iff

theorem run_append_eq_some {later : Scene} {after : List Event} :
    ∀ {before : List Event} {scene : Scene}, run loader (before ++ after) scene = some later ↔
      ∃ middle, run loader before scene = some middle ∧ run loader after middle = some later
  | [], scene => by simp [run]
  | event :: before, scene => by
    simp only [List.cons_append, run_cons_eq_some, run_append_eq_some]
    constructor
    · rintro ⟨next, hstep, middle, hbefore, hafter⟩
      exact ⟨middle, ⟨next, hstep, hbefore⟩, hafter⟩
    · rintro ⟨middle, ⟨next, hstep, hbefore⟩, hafter⟩
      exact ⟨next, hstep, middle, hbefore, hafter⟩

theorem run_singleton {scene later : Scene} {event : Event} :
    run loader [event] scene = some later ↔ scene.step loader event = some later := by
  simp [run]

/-- **The invariant holds at the end of every run.** -/
theorem holds_run {later : Scene} : ∀ {events : List Event} {scene : Scene},
    run loader events scene = some later → scene.Holds → later.Holds
  | [], scene, h, holds => Option.some.inj h ▸ holds
  | event :: rest, scene, h, holds => by
    obtain ⟨next, hstep, hrest⟩ := run_cons_eq_some.mp h
    exact holds_run hrest (holds_step hstep holds)

/-- **No two slots wait for one ticket.** -/
theorem Holds.index_eq {scene : Scene} (holds : scene.Holds) {i j ticket : Nat}
    {first second : Slot}
    (hi : scene.slots[i]? = some first) (hj : scene.slots[j]? = some second)
    (hfirst : first.pending = some ticket) (hsecond : second.pending = some ticket) : i = j := by
  have hpairs := List.pairwise_iff_getElem.mp (List.pairwise_filterMap.mp holds.tickets)
  obtain ⟨hilt, rfl⟩ := List.getElem?_eq_some_iff.mp hi
  obtain ⟨hjlt, rfl⟩ := List.getElem?_eq_some_iff.mp hj
  rcases Nat.lt_trichotomy i j with h | h | h
  · exact absurd rfl (hpairs i j hilt hjlt h ticket hfirst ticket hsecond)
  · exact h
  · exact absurd rfl (hpairs j i hjlt hilt h ticket hsecond ticket hfirst)

/-! ## 4. Tickets and the requests they are of -/

/-- An event is no reply to the job of a ticket. -/
def Event.IsNoReply (ticket : Nat) (event : Event) : Prop :=
  ∀ work result, event = .act (.reply work result) → work.ticket ≠ ticket

variable {first : Scene} {events since : List Event} {event : Event} {request : TextureRequest}
  {pool next : Pool} {index ticket generation : Nat}

theorem Latest.later (latest : Latest loader first events index request ticket since)
    (h : ¬ event.Renews index) :
    Latest loader first (events ++ [event]) index request ticket (since ++ [event]) where
  opened := by
    obtain ⟨before, middle, rfl, hopened⟩ := latest.opened
    exact ⟨before, middle, by simp, hopened⟩
  untouched := by
    intro other hother
    rcases List.mem_append.mp hother with hother | hother
    · exact latest.untouched other hother
    · rwa [List.mem_singleton.mp hother]

/-- What no reply has been given to has been given none by another event. -/
theorem no_reply_later (h : event.IsNoReply ticket) {job : Job}
    (hnone : ∀ result, Event.act (.reply ⟨ticket, generation, job⟩ result) ∉ since)
    (result : LoadResult) :
    Event.act (.reply ⟨ticket, generation, job⟩ result) ∉ since ++ [event] := by
  rintro hmem
  rcases List.mem_append.mp hmem with hmem | hmem
  · exact hnone result hmem
  · exact h _ _ (List.mem_singleton.mp hmem).symm rfl

theorem Answered.later {answer : Option LoadResult}
    (answered : Answered loader request ticket generation since answer)
    (h : event.IsNoReply ticket) :
    Answered loader request ticket generation (since ++ [event]) answer := by
  cases answered with
  | atHand hplan => exact .atHand hplan
  | replied hplan hreply => exact .replied hplan (List.mem_append_left _ hreply)
  | lost hplan hnone => exact .lost hplan (no_reply_later h hnone)

theorem Accounts.later {stage : Pool.Stage}
    (accounts : Accounts loader request ticket generation since stage)
    (h : event.IsNoReply ticket) :
    Accounts loader request ticket generation (since ++ [event]) stage := by
  cases stage with
  | underway work =>
    obtain ⟨job, hplan, rfl, hnone⟩ := accounts
    exact ⟨job, hplan, rfl, no_reply_later h hnone⟩
  | answered outcome => exact ⟨accounts.1, accounts.2.later h⟩
  | lost => exact Answered.later accounts h

/-- **An event that neither renews a slot nor moves its ticket changes nothing for it.** -/
theorem Traced.later (traced : Traced loader first events pool index ticket generation)
    (hrenews : ¬ event.Renews index) (hreply : event.IsNoReply ticket)
    (hstands : ∀ stage, next.Stands ticket stage → pool.Stands ticket stage) :
    Traced loader first (events ++ [event]) next index ticket generation := by
  obtain ⟨request, since, latest, accounts⟩ := traced
  exact ⟨request, since ++ [event], latest.later hrenews, fun stage h =>
    (accounts stage (hstands stage h)).later hreply⟩

/-- **A worker's act moves the ticket of a slot only as the request allows**: it answers the very
work that the request has queued, or loses it. -/
theorem Traced.act (traced : Traced loader first events pool index ticket generation)
    (sound : pool.Sound) {done : Pool.Act} (hact : pool.act done = some next) :
    Traced loader first (events ++ [.act done]) next index ticket generation := by
  obtain ⟨request, since, latest, accounts⟩ := traced
  have hrenews : ¬ Event.Renews index (.act done) := fun h => h
  refine ⟨request, since ++ [.act done], latest.later hrenews, fun stage h => ?_⟩
  rcases sound.stands_act hact h with
    ⟨h, hother⟩ | ⟨work, hwork, ⟨rfl, dead, rfl⟩ | ⟨result, rfl, rfl⟩⟩
  · refine (accounts stage h).later ?_
    rintro work result heq
    cases heq
    exact hother work result rfl
  · obtain ⟨job, hplan, rfl, hnone⟩ := accounts _ hwork
    exact .lost hplan (no_reply_later (fun _ _ h => by cases h) hnone)
  · obtain ⟨job, hplan, rfl, -⟩ := accounts _ hwork
    exact ⟨rfl, .replied hplan (by simp)⟩

/-- Wherever a plan leads at first, no event is needed to account for it. -/
theorem Accounts.of_leads {stage : Pool.Stage}
    (h : (loader.plan request).Leads ticket generation stage) :
    Accounts loader request ticket generation [] stage := by
  generalize hplan : loader.plan request = plan at h
  cases h with
  | underway job => exact ⟨job, hplan, rfl, nofun⟩
  | lost job => exact .lost hplan nofun
  | answered texture => exact ⟨rfl, .atHand hplan⟩

/-- **A request that has just been made is the latest**, and its ticket is new. -/
theorem Traced.assign {scene : Scene} (hrun : run loader events first = some scene)
    (sound : scene.studio.pool.Sound) (hplan : loader.plan request ≠ .nothing)
    (opened : Pool.OpenedFor (loader.plan request) generation scene.studio.pool next) :
    Traced loader first (events ++ [.assign index request]) next index
      scene.studio.pool.places.length generation := by
  refine ⟨request, [], ⟨⟨events, scene, rfl, hrun, rfl, hplan⟩, nofun⟩, fun stage h => ?_⟩
  rcases opened.stands sound h with h | ⟨-, hleads⟩
  · -- the next ticket stands nowhere before it is opened
    exact absurd (sound.lt_of_stands h) (Nat.lt_irrefl _)
  · exact .of_leads hleads

/-- **Every slot that waits is traced.** -/
def AllTraced (loader : Loader) (first : Scene) (events : List Event) (scene : Scene) : Prop :=
  ∀ index slot ticket, scene.slots[index]? = some slot → slot.pending = some ticket →
    Traced loader first events scene.studio.pool index ticket slot.generation

/-- A change of one slot that moves no ticket of the others leaves the others traced. -/
theorem traced_of_ne {scene : Scene} (traced : AllTraced loader first events scene)
    {changed : Slot} {slot : Slot} {other : Nat} (hne : other ≠ index)
    (hslot : (scene.slots.set other changed)[index]? = some slot)
    (hpending : slot.pending = some ticket) (hrenews : ¬ event.Renews index)
    (hreply : event.IsNoReply ticket)
    (hstands : scene.slots[index]? = some slot → ∀ stage, next.Stands ticket stage →
      scene.studio.pool.Stands ticket stage) :
    Traced loader first (events ++ [event]) next index ticket slot.generation := by
  rw [List.getElem?_set_ne hne] at hslot
  exact (traced index slot ticket hslot hpending).later hrenews hreply (hstands hslot)

theorem traced_release {scene later : Scene} (h : scene.change index Slot.release = some later)
    (traced : AllTraced loader first events scene) :
    AllTraced loader first (events ++ [.release index]) later := by
  obtain ⟨released, hreleased, rfl⟩ := change_eq_some h
  intro other slot ticket hslot hpending
  rw [Slot.run_release] at hslot
  rcases eq_or_ne index other with rfl | hne
  · rw [List.getElem?_set_self (List.getElem?_eq_some_iff.mp hreleased).1] at hslot
    cases hslot
    cases hpending
  · exact traced_of_ne traced hne hslot hpending hne (fun _ _ h => by cases h) fun _ _ h => h

theorem traced_assign {scene later : Scene} (hrun : run loader events first = some scene)
    (h : scene.change index (Slot.assign loader request) = some later) (holds : scene.Holds)
    (traced : AllTraced loader first events scene) :
    AllTraced loader first (events ++ [.assign index request]) later := by
  obtain ⟨assigned, hassigned, rfl⟩ := change_eq_some h
  have hlt := (List.getElem?_eq_some_iff.mp hassigned).1
  intro other slot ticket hslot hpending
  rcases assigned.assign_cases loader request scene.studio with
    ⟨-, heq⟩ | ⟨hplan, pool, opened, heq⟩
  · rw [heq] at hslot ⊢
    rcases eq_or_ne index other with rfl | hne
    · rw [List.getElem?_set_self hlt] at hslot
      cases hslot
      cases hpending
    · exact traced_of_ne traced hne hslot hpending hne (fun _ _ h => by cases h) fun _ _ h => h
  · rw [heq] at hslot ⊢
    rcases eq_or_ne index other with rfl | hne
    · rw [List.getElem?_set_self hlt] at hslot
      cases hslot
      cases hpending
      exact .assign hrun holds.sound hplan opened
    · refine traced_of_ne traced hne hslot hpending hne (fun _ _ h => by cases h) ?_
      intro hold stage h
      -- another slot does not wait for the ticket that has just been opened
      have hgiven := (holds.fits slot (List.mem_of_getElem? hold)).given ticket hpending
      exact (opened.stands holds.sound h).resolve_right fun hticket => Nat.ne_of_lt hgiven hticket.1

/-- Polling one slot moves no ticket that another waits for. -/
theorem stands_poll {scene : Scene} (holds : scene.Holds) {polled slot : Slot} {other : Nat}
    (hpolled : scene.slots[index]? = some polled) (uploader : Uploader) (hne : index ≠ other)
    (hslot : scene.slots[other]? = some slot) (hpending : slot.pending = some ticket)
    {stage : Pool.Stage}
    (h : ((polled.poll uploader).run scene.studio).2.pool.Stands ticket stage) :
    scene.studio.pool.Stands ticket stage := by
  rcases Studio.Holds.poll_cases holds (List.mem_of_getElem? hpolled) uploader with
    ⟨-, heq⟩ | ⟨_, -, -, heq⟩ | ⟨taken, _, htaken, -, heq⟩
  · rwa [heq] at h
  · rwa [heq] at h
  · rw [heq] at h
    refine Pool.stands_take h ?_
    rintro rfl
    exact hne (holds.index_eq hpolled hslot htaken hpending)

theorem traced_poll {scene later : Scene} {uploader : Uploader}
    (h : scene.change index (fun slot => Prod.fst <$> slot.poll uploader) = some later)
    (holds : scene.Holds) (traced : AllTraced loader first events scene) :
    AllTraced loader first (events ++ [.poll index uploader]) later := by
  have hrenews (other : Nat) : ¬ Event.Renews other (.poll index uploader) := fun h => h
  have hreply (ticket : Nat) : Event.IsNoReply ticket (.poll index uploader) :=
    fun _ _ h => by cases h
  obtain ⟨polled, hpolled, rfl⟩ := change_eq_some h
  intro other slot ticket hslot hpending
  have hslot : (scene.slots.set index ((polled.poll uploader).run scene.studio).1.1)[other]? =
    some slot := hslot
  show Traced loader first _ ((polled.poll uploader).run scene.studio).2.pool _ _ _
  rcases eq_or_ne index other with rfl | hne
  · rw [List.getElem?_set_self (List.getElem?_eq_some_iff.mp hpolled).1] at hslot
    obtain rfl := Option.some.inj hslot
    rcases Studio.Holds.poll_cases holds (List.mem_of_getElem? hpolled) uploader with
      ⟨-, heq⟩ | ⟨_, -, -, heq⟩ | ⟨_, _, -, -, heq⟩
    · rw [heq] at hpending ⊢
      exact (traced index polled ticket hpolled hpending).later (hrenews index) (hreply ticket)
        fun _ h => h
    · rw [heq] at hpending
      cases hpending
    · rw [heq] at hpending
      cases hpending
  · exact traced_of_ne traced hne hslot hpending (hrenews other) (hreply ticket)
      fun hold stage h => stands_poll holds hpolled uploader hne hold hpending h

/-- **One step keeps every waiting slot traced.** -/
theorem traced_step {scene later : Scene} (hrun : run loader events first = some scene)
    (h : scene.step loader event = some later) (holds : scene.Holds)
    (traced : AllTraced loader first events scene) :
    AllTraced loader first (events ++ [event]) later := by
  cases event with
  | assign index request =>
    simp only [step] at h
    exact traced_assign hrun h holds traced
  | release index =>
    simp only [step] at h
    exact traced_release h traced
  | poll index uploader =>
    simp only [step] at h
    exact traced_poll h holds traced
  | act done =>
    simp only [step] at h
    obtain ⟨pool, hact, rfl⟩ := Option.map_eq_some_iff.mp h
    intro index slot ticket hslot hpending
    exact (traced index slot ticket hslot hpending).act holds.sound hact

/-- **Every waiting slot is traced at the end of every run** that starts with slots that wait for
nothing. -/
theorem traced_run (holds : first.Holds) (hfirst : ∀ slot ∈ first.slots, slot.pending = none) :
    ∀ {scene : Scene}, run loader events first = some scene →
      AllTraced loader first events scene := by
  induction events using List.reverseRecOn with
  | nil =>
    rintro scene hrun index slot ticket hslot hpending
    cases hrun
    rw [hfirst slot (List.mem_of_getElem? hslot)] at hpending
    cases hpending
  | append_singleton events event ih =>
    intro scene hrun
    obtain ⟨middle, hmiddle, hlast⟩ := run_append_eq_some.mp hrun
    exact traced_step hmiddle (run_singleton.mp hlast) (holds_run hmiddle holds) (ih hmiddle)

/-- Slots that have not been assigned wait for nothing. -/
theorem allTraced_start {workers : Nat} {slots : List (String × TextureKind)} {scene : Scene}
    (h : run loader events (start workers slots) = some scene) :
    AllTraced loader (start workers slots) events scene := by
  refine traced_run (holds_start workers slots) ?_ h
  rintro slot hslot
  obtain ⟨_, -, rfl⟩ := List.mem_map.mp hslot
  rfl

/-- **What a poll shows is what the slot's own latest request came to.** -/
theorem poll_shows {scene : Scene} {slot : Slot} {uploader : Uploader} (holds : scene.Holds)
    (traced : AllTraced loader first events scene) (hslot : scene.slots[index]? = some slot)
    (hchanged : ((slot.poll uploader).run scene.studio).1.1.state ≠ slot.state) :
    ∃ request ticket since answer, Latest loader first events index request ticket since ∧
      Answered loader request ticket slot.generation since answer ∧
      (answer = none → ∀ work ∈ scene.studio.pool.outstanding, work.ticket ≠ ticket) ∧
      ((slot.poll uploader).run scene.studio).1.1.state =
        scene.studio.gpu.shows uploader slot.label answer := by
  rcases Studio.Holds.poll_cases holds (List.mem_of_getElem? hslot) uploader with
    ⟨-, heq⟩ | ⟨ticket, hpending, hstands, heq⟩ | ⟨ticket, result, hpending, hstands, heq⟩
  · rw [heq] at hchanged
    exact absurd rfl hchanged
  · obtain ⟨request, since, latest, accounts⟩ := traced index slot ticket hslot hpending
    refine ⟨request, ticket, since, none, latest, accounts _ hstands, ?_, by rw [heq]; rfl⟩
    intro _ work hwork hticket
    have hunderway : scene.studio.pool.Stands ticket (.underway work) := ⟨hwork, hticket⟩
    cases holds.sound.stage_unique hstands hunderway
  · obtain ⟨request, since, latest, accounts⟩ := traced index slot ticket hslot hpending
    exact ⟨request, ticket, since, some result, latest, (accounts _ hstands).2, nofun,
      by rw [heq]; rfl⟩

/-! ## 5. Tickets are of one request -/

theorem places_step {scene next : Scene} (h : scene.step loader event = some next) :
    scene.studio.pool.places.length ≤ next.studio.pool.places.length ∧
      ∀ index request, event = .assign index request → loader.plan request ≠ .nothing →
        scene.studio.pool.places.length < next.studio.pool.places.length := by
  cases event with
  | assign index request =>
    simp only [step] at h
    obtain ⟨slot, -, rfl⟩ := change_eq_some h
    rcases slot.assign_cases loader request scene.studio with
      ⟨hnothing, heq⟩ | ⟨-, pool, opened, heq⟩
    · rw [heq]
      refine ⟨Nat.le_refl _, ?_⟩
      rintro _ _ hevent hne
      cases hevent
      exact absurd hnothing hne
    · rw [heq]
      have hlength := opened.length
      exact ⟨by simp [hlength], fun _ _ _ _ => by simp [hlength]⟩
  | release index =>
    simp only [step] at h
    obtain ⟨slot, -, rfl⟩ := change_eq_some h
    exact ⟨Nat.le_refl _, nofun⟩
  | poll index uploader =>
    simp only [step] at h
    obtain ⟨slot, -, rfl⟩ := change_eq_some h
    exact ⟨Nat.le_of_eq (slot.places_poll uploader scene.studio).symm, nofun⟩
  | act done =>
    simp only [step] at h
    obtain ⟨pool, hact, rfl⟩ := Option.map_eq_some_iff.mp h
    exact ⟨Nat.le_of_eq (Pool.length_places_act hact).symm, nofun⟩

theorem places_run {later : Scene} : ∀ {events : List Event} {scene : Scene},
    run loader events scene = some later →
    scene.studio.pool.places.length ≤ later.studio.pool.places.length
  | [], _, h => by
    cases h
    exact Nat.le_refl _
  | event :: rest, scene, h => by
    obtain ⟨next, hstep, hrest⟩ := run_cons_eq_some.mp h
    exact Nat.le_trans (places_step hstep).1 (places_run hrest)

/-- A request that opened a ticket did so before any later request opened its own. -/
theorem ticket_lt {before between : List Event} {opening last : Scene}
    (hopening : run loader before first = some opening)
    (hlast : run loader (before ++ .assign index request :: between) first = some last)
    (hplan : loader.plan request ≠ .nothing) :
    opening.studio.pool.places.length < last.studio.pool.places.length := by
  obtain ⟨middle, hmiddle, hrest⟩ := run_append_eq_some.mp hlast
  cases hopening.symm.trans hmiddle
  obtain ⟨next, hstep, hrest⟩ := run_cons_eq_some.mp hrest
  exact Nat.lt_of_lt_of_le ((places_step hstep).2 index request rfl hplan) (places_run hrest)

/-- **A ticket is of one request**: no earlier or later one, of this slot or another, opens it. -/
theorem Opened.unique {other : Nat} {second : TextureRequest} {after : List Event}
    (h : Opened loader first events index request ticket since)
    (h' : Opened loader first events other second ticket after) :
    other = index ∧ second = request ∧ after = since := by
  obtain ⟨before, opening, rfl, hrun, rfl, hplan⟩ := h
  obtain ⟨before', opening', hsplit, hrun', hticket, hplan'⟩ := h'
  rcases List.append_eq_append_iff.mp hsplit with ⟨between, rfl, heq⟩ | ⟨between, rfl, heq⟩
  · rcases List.cons_eq_append_iff.mp heq with ⟨rfl, heq⟩ | ⟨between, rfl, rfl⟩
    · injection heq with hevent hrest
      injection hevent with hindex hrequest
      exact ⟨hindex.symm, hrequest.symm, hrest.symm⟩
    · exact absurd hticket (Nat.ne_of_lt (ticket_lt hrun hrun' hplan))
  · rcases List.cons_eq_append_iff.mp heq with ⟨rfl, heq⟩ | ⟨between, rfl, rfl⟩
    · injection heq with hevent hrest
      injection hevent with hindex hrequest
      exact ⟨hindex, hrequest, hrest⟩
    · exact absurd hticket (Nat.ne_of_gt (ticket_lt hrun' hrun hplan'))

/-! ## 6. Uploads -/

/-- Whether a slot waits, as a number. -/
def waits (index : Nat) (scene : Scene) : Nat :=
  ((scene.slots[index]?.bind Slot.pending).isSome).toNat

theorem waits_le_one (index : Nat) (scene : Scene) : scene.waits index ≤ 1 := Bool.toNat_le _

theorem waits_of_getElem? {scene : Scene} {slot : Slot} (h : scene.slots[index]? = some slot) :
    scene.waits index = slot.pending.isSome.toNat := by
  rw [waits, h]
  rfl

/-- **A poll uploads at most once, and only for a slot that waits and then waits no more.** -/
theorem attempts_poll {studio : Studio} {slots : List Slot} {slot : Slot}
    (holds : studio.Holds slots) (hslot : slot ∈ slots) (uploader : Uploader) :
    studio.gpu.attempts.length ≤ ((slot.poll uploader).run studio).2.gpu.attempts.length ∧
      ((slot.poll uploader).run studio).2.gpu.attempts.length +
          ((slot.poll uploader).run studio).1.1.pending.isSome.toNat ≤
        studio.gpu.attempts.length + slot.pending.isSome.toNat := by
  rcases holds.poll_cases hslot uploader with
    ⟨-, heq⟩ | ⟨ticket, hpending, -, heq⟩ | ⟨ticket, result, hpending, -, heq⟩
  · simp [heq]
  · simp [heq, Slot.settled]
  · have hattempts : studio.gpu.attempts.length ≤
          (studio.gpu.settle uploader slot.label result).2.attempts.length ∧
        (studio.gpu.settle uploader slot.label result).2.attempts.length ≤
          studio.gpu.attempts.length + 1 := by
      rcases studio.gpu.settle_cases uploader slot.label result with
        ⟨_, _, hsettle, -, -, -, hone⟩ | ⟨_, _, hsettle, -, -, hle, hge⟩
      · simp only [hsettle, hone]
        omega
      · simp only [hsettle]
        exact ⟨hge, hle⟩
    rw [heq, hpending]
    exact hattempts

theorem attempts_freed (slot : Slot) (gpu : Gpu) : (slot.freed gpu).attempts = gpu.attempts := by
  unfold Slot.freed
  split <;> rfl

theorem attempts_assign (request : TextureRequest) (slot : Slot) (studio : Studio) :
    ((slot.assign loader request).run studio).2.gpu.attempts = studio.gpu.attempts := by
  rcases slot.assign_cases loader request studio with ⟨-, heq⟩ | ⟨-, pool, -, heq⟩
  · rw [heq]
    exact attempts_freed slot studio.gpu
  · rw [heq]
    exact attempts_freed slot studio.gpu

theorem waits_change_of_ne {scene later : Scene} {changed : Nat}
    {change : Slot → StateM Studio Slot} (h : scene.change changed change = some later)
    (hne : changed ≠ index) : later.waits index = scene.waits index := by
  obtain ⟨slot, -, rfl⟩ := change_eq_some h
  rw [waits, List.getElem?_set_ne hne]
  rfl

theorem waits_change_self {scene later : Scene} {slot : Slot} {change : Slot → StateM Studio Slot}
    (hslot : scene.slots[index]? = some slot) (h : scene.change index change = some later) :
    later.waits index = ((change slot).run scene.studio).1.pending.isSome.toNat ∧
      later.studio = ((change slot).run scene.studio).2 := by
  obtain ⟨other, hother, rfl⟩ := change_eq_some h
  cases hslot.symm.trans hother
  refine ⟨waits_of_getElem? ?_, rfl⟩
  rw [List.getElem?_set_self (List.getElem?_eq_some_iff.mp hslot).1]

/-- **A step that is no request of a slot uploads for it only what it waited for.** -/
theorem tried_add_waits_le {scene later : Scene} (holds : scene.Holds)
    (h : scene.step loader event = some later) (hrequest : ¬ event.Requests index) :
    tried index scene later event + later.waits index ≤ scene.waits index := by
  cases event with
  | assign other request =>
    simp only [step] at h
    simp only [tried, Nat.zero_add]
    exact Nat.le_of_eq (waits_change_of_ne h hrequest)
  | release other =>
    simp only [step] at h
    simp only [tried, Nat.zero_add]
    rcases eq_or_ne other index with rfl | hne
    · obtain ⟨slot, hslot, -⟩ := change_eq_some h
      rw [(waits_change_self hslot h).1]
      exact Nat.zero_le _
    · exact Nat.le_of_eq (waits_change_of_ne h hne)
  | poll other uploader =>
    simp only [step] at h
    rw [tried]
    rcases eq_or_ne other index with rfl | hne
    · obtain ⟨slot, hslot, -⟩ := change_eq_some h
      obtain ⟨hwaits, hstudio⟩ := waits_change_self hslot h
      obtain ⟨hge, hle⟩ := attempts_poll holds (List.mem_of_getElem? hslot) uploader
      rw [if_pos rfl, hwaits, waits_of_getElem? hslot, attempts, attempts, hstudio]
      show ((slot.poll uploader).run scene.studio).2.gpu.attempts.length - _ +
        ((slot.poll uploader).run scene.studio).1.1.pending.isSome.toNat ≤ _
      omega
    · rw [if_neg hne, Nat.zero_add]
      exact Nat.le_of_eq (waits_change_of_ne h hne)
  | act done =>
    simp only [step] at h
    obtain ⟨pool, -, rfl⟩ := Option.map_eq_some_iff.mp h
    simp only [tried, Nat.zero_add]
    exact Nat.le_refl _

/-- **A run without a request of a slot uploads for it only what it waited for.** -/
theorem uploads_le_waits : ∀ {events : List Event} {scene : Scene}, scene.Holds →
    (∀ event ∈ events, ¬ event.Requests index) →
    uploads loader index events scene ≤ scene.waits index
  | [], _, _, _ => Nat.zero_le _
  | event :: rest, scene, holds, hnone => by
    rw [uploads]
    split
    · exact Nat.zero_le _
    · rename_i later hstep
      have hlater := uploads_le_waits (holds_step hstep holds) fun other hother =>
        hnone other (List.mem_cons_of_mem _ hother)
      have htried := tried_add_waits_le holds hstep (hnone event List.mem_cons_self)
      omega

/-- **A request leads to at most one upload**, however the run goes on up to the next request of
the slot. -/
theorem uploads_le_one {scene : Scene} (holds : scene.Holds)
    (hnone : ∀ event ∈ since, ¬ event.Requests index) :
    uploads loader index (.assign index request :: since) scene ≤ 1 := by
  rw [uploads]
  split
  · exact Nat.zero_le _
  · rename_i later hstep
    have hlater : uploads loader index since later ≤ later.waits index :=
      uploads_le_waits (holds_step hstep holds) hnone
    have hwaits := waits_le_one index later
    simp only [tried]
    omega

theorem length_slots_step {scene later : Scene} (h : scene.step loader event = some later) :
    later.slots.length = scene.slots.length := by
  have hchange {index : Nat} {change : Slot → StateM Studio Slot}
      (h : scene.change index change = some later) : later.slots.length = scene.slots.length := by
    obtain ⟨slot, -, rfl⟩ := change_eq_some h
    exact List.length_set
  cases event with
  | act done =>
    simp only [step] at h
    obtain ⟨pool, -, rfl⟩ := Option.map_eq_some_iff.mp h
    rfl
  | _ =>
    simp only [step] at h
    exact hchange h

/-- **Only polls try uploads**, each for its own slot. -/
theorem attempts_step {scene later : Scene} (holds : scene.Holds)
    (h : scene.step loader event = some later) :
    later.attempts = scene.attempts +
      ∑ index ∈ Finset.range scene.slots.length, tried index scene later event := by
  cases event with
  | assign other request =>
    simp only [step] at h
    obtain ⟨slot, -, rfl⟩ := change_eq_some h
    simp [tried, attempts, attempts_assign]
  | release other =>
    simp only [step] at h
    obtain ⟨slot, -, rfl⟩ := change_eq_some h
    simp [tried, attempts, Slot.run_release, attempts_freed]
  | poll other uploader =>
    simp only [step] at h
    obtain ⟨slot, hslot, rfl⟩ := change_eq_some h
    have hlt := (List.getElem?_eq_some_iff.mp hslot).1
    have hge : scene.attempts ≤ _ :=
      (attempts_poll holds (List.mem_of_getElem? hslot) uploader).1
    simp only [tried, Finset.sum_ite_eq, Finset.mem_range, hlt, if_true]
    exact (Nat.add_sub_of_le hge).symm
  | act done =>
    simp only [step] at h
    obtain ⟨pool, -, rfl⟩ := Option.map_eq_some_iff.mp h
    simp [tried, attempts]

/-- **Every upload of a run is counted for one slot.** -/
theorem attempts_run {later : Scene} : ∀ {events : List Event} {scene : Scene}, scene.Holds →
    run loader events scene = some later →
    later.attempts =
      scene.attempts + ∑ index ∈ Finset.range scene.slots.length, uploads loader index events scene
  | [], scene, _, h => by
    cases h
    simp [uploads]
  | event :: rest, scene, holds, h => by
    obtain ⟨next, hstep, hrest⟩ := run_cons_eq_some.mp h
    rw [attempts_run (holds_step hstep holds) hrest, attempts_step holds hstep,
      length_slots_step hstep, Nat.add_assoc, ← Finset.sum_add_distrib]
    simp only [uploads, hstep]

/-! ## 7. Every state that can be reached -/

/-- A reply that is there for a slot is of the slot's own generation. -/
theorem Holds.generation_eq {scene : Scene} (holds : scene.Holds) {slot : Slot} {outcome : Outcome}
    (hslot : slot ∈ scene.slots) (hpending : slot.pending = some ticket)
    (hplace : scene.studio.pool.place ticket = .holding outcome) :
    outcome.generation = slot.generation := by
  have fits := holds.fits slot hslot
  obtain ⟨stage, hstands⟩ := holds.sound.exists_stands (fits.given ticket hpending)
  have hstage := (holds.sound.place_eq hstands).symm.trans hplace
  cases stage with
  | answered =>
    cases hstage
    exact fits.own ticket hpending _ hstands
  | _ => cases hstage

/-- **Slots under every interleaving.**  At the end of every run of any number of slots and workers:

* a slot loads exactly while it waits for a reply;
* a reply that is there for a slot is of the slot's own generation, so that no poll throws one away;
* a poll that changes the state of a slot shows what the latest request of that very slot has come
  to: the request's texture at hand, the reply to its job, or the loss of its job, which is then
  under way no more; and the ticket by which this arrives is of no other request;
* a request leads to at most one upload before the next request of its slot, and every upload is
  one that a poll tries for its slot;
* as many textures are alive as slots show one. -/
theorem reachable {workers : Nat} {slots : List (String × TextureKind)} {scene : Scene}
    (h : run loader events (start workers slots) = some scene) :
    (∀ slot ∈ scene.slots, slot.isLoading = true ↔ slot.pending.isSome = true) ∧
    (∀ slot ∈ scene.slots, ∀ ticket outcome, slot.pending = some ticket →
      scene.studio.pool.place ticket = .holding outcome →
        outcome.generation = slot.generation) ∧
    (∀ index slot uploader, scene.slots[index]? = some slot →
      ((slot.poll uploader).run scene.studio).1.1.state ≠ slot.state →
        ∃ request ticket since answer,
          Latest loader (start workers slots) events index request ticket since ∧
          (∀ other second after,
            Opened loader (start workers slots) events other second ticket after →
              other = index ∧ second = request ∧ after = since) ∧
          Answered loader request ticket slot.generation since answer ∧
          (answer = none → ∀ work ∈ scene.studio.pool.outstanding, work.ticket ≠ ticket) ∧
          ((slot.poll uploader).run scene.studio).1.1.state =
            scene.studio.gpu.shows uploader slot.label answer) ∧
    (∀ before index request since middle, events = before ++ .assign index request :: since →
      run loader before (start workers slots) = some middle →
      (∀ event ∈ since, ¬ event.Requests index) →
        uploads loader index (.assign index request :: since) middle ≤ 1) ∧
    scene.attempts = ∑ index ∈ Finset.range slots.length,
      uploads loader index events (start workers slots) ∧
    scene.studio.gpu.live.length = scene.slots.countP Slot.isReady := by
  have hstart := holds_start workers slots
  have holds := holds_run h hstart
  have traced := allTraced_start h
  refine ⟨?_, ?_, ?_, ?_, ?_, holds.length_live⟩
  · intro slot hslot
    rw [Slot.isLoading, decide_eq_true_iff]
    exact (holds.fits slot hslot).loading_iff
  · intro slot hslot ticket outcome hpending hplace
    exact holds.generation_eq hslot hpending hplace
  · intro index slot uploader hslot hchanged
    obtain ⟨request, ticket, since, answer, latest, answered, hlost, hshows⟩ :=
      poll_shows holds traced hslot hchanged
    exact ⟨request, ticket, since, answer, latest, fun _ _ _ h => latest.opened.unique h, answered,
      hlost, hshows⟩
  · intro before index request since middle _ hbefore hnone
    exact uploads_le_one (holds_run hbefore hstart) hnone
  · have hslots : (start workers slots).slots.length = slots.length := List.length_map _
    have hnone : (start workers slots).attempts = 0 := rfl
    rw [attempts_run hstart h, hslots, hnone, Nat.zero_add]

namespace Example

/-- A request of an image at an address. -/
def image (url : String) : TextureRequest := .image (.location (.plain url))

/-- An image of one row. -/
def row (width : Nat) : Decoded := .image ⟨width, 1, List.replicate (width * 1 * 4) 0, by simp⟩

/-- The work that a request of an image queues. -/
def work (ticket generation : Nat) (url : String) : Work :=
  ⟨ticket, generation, .image (.plain url)⟩

/-- A slow load is given up for a fast one; both come to an end, the slow one last but one. -/
def overtaken : List Event :=
  [.assign 0 (image "slow.png"), .assign 1 (image "other.png"), .act .begin, .act .begin,
    .assign 0 (image "fast.png"), .act (.die (work 1 1 "other.png")),
    .act (.reply (work 0 1 "slow.png") (.ok (row 8))), .act .begin,
    .act (.reply (work 2 2 "fast.png") (.ok (row 2))), .poll 1 fun _ _ => none]

/-- **After a slow load has been overtaken**, the slot that gave it up shows the fast one, by one
upload; the slot whose worker has died has failed. -/
theorem overtaken_shows :
    ∃ scene slot, run ⟨true, [], []⟩ overtaken (start 2 [("a", .flat), ("b", .flat)]) = some scene ∧
      scene.slots[0]? = some slot ∧ scene.attempts = 0 ∧
      scene.studio.gpu.live.length = scene.slots.countP Slot.isReady ∧
      (scene.slots.map fun slot => slot.state.name) = ["loading", "failed"] ∧
      ((slot.poll fun _ _ => none).run scene.studio).1.1.state = .ready ⟨0, .flat, 2, 1⟩ ∧
      ∃ request ticket since answer,
        Latest ⟨true, [], []⟩ (start 2 [("a", .flat), ("b", .flat)]) overtaken 0 request ticket
          since ∧
        Answered ⟨true, [], []⟩ request ticket slot.generation since answer := by
  refine ⟨_, _, rfl, rfl, ?_⟩
  obtain ⟨-, -, hshows, -, hattempts, hlive⟩ :=
    reachable (show run ⟨true, [], []⟩ overtaken (start 2 [("a", .flat), ("b", .flat)]) = some _
      from rfl)
  refine ⟨rfl, hlive, rfl, rfl, ?_⟩
  obtain ⟨request, ticket, since, answer, latest, -, answered, -, -⟩ :=
    hshows 0 _ (fun _ _ => none) rfl (by decide)
  exact ⟨request, ticket, since, answer, latest, answered⟩

end Example

end Scene

end ShaderFabric
