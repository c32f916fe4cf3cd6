import Cordn.Adapter
import Cordn.SubscriptionHandles
import Cordn.ConcurrentPosts

/-!
# Streaming calls

A streaming call subscribes, starts its sink and then passes messages on one by
one until the sink refuses one or is seen to be inactive. It closes a sink that
is still active and lets its subscription go. Its task may be dropped while it
waits. Any number of such calls run between the steps of posts and of other
subscriptions.
-/

set_option autoImplicit false

namespace Cordn.Coordinator
open IndexMap Watermark GroupLogOps

inductive Phase where
  | opening
  | streaming
  | leaving
  | closing
  | returned
  | failed
  | cancelled
  deriving DecidableEq, Repr

namespace Phase

def Running (phase : Phase) : Prop := phase = streaming ∨ phase = leaving ∨ phase = closing

def Over (phase : Phase) : Prop := phase = returned ∨ phase = failed ∨ phase = cancelled

instance (phase : Phase) : Decidable phase.Running := inferInstanceAs (Decidable (_ ∨ _ ∨ _))

theorem Over.not_opening {phase : Phase} (h : phase.Over) : phase ≠ opening := by
  rintro rfl
  simp [Over] at h

theorem Over.not_running {phase : Phase} (h : phase.Over) : ¬phase.Running := by
  rintro (rfl | rfl | rfl) <;> simp [Over] at h

theorem Running.not_opening {phase : Phase} (h : phase.Running) : phase ≠ opening := by
  rintro rfl
  simp [Running] at h

end Phase

/-- A call with its sink: how many messages it received, what it wrote, whether the
stream was started and closed, and the flag that `is_active` reads. -/
structure Session where
  groups : List FetchGroupMessagesInput
  phase : Phase
  received : ℕ
  written : List Adapter.GroupMessage
  started : Bool
  closed : Bool
  active : Bool
  deriving DecidableEq, Repr

/-- The coordinator and the calls, by subscriber id, those that are over included. -/
structure Streaming (σ : Type) where
  system : System σ
  sessions : IndexMap ℕ Session

/-- A step of one call: of its set-up, of its loop with what `write` answers, or behind
the loop. Its client may go away at any time. -/
inductive Turn where
  | fetchBacklog
  | start
  | receive (accepted : Bool)
  | poll
  | deactivate
  | close
  | finish
  | cancel
  deriving DecidableEq, Repr

inductive StreamEvent where
  /-- A step of a post, or of a subscription that is no streaming call's. -/
  | coordinator (event : Event)
  | subscribe (groups : List FetchGroupMessagesInput)
  | turn (id : ℕ) (turn : Turn)
  deriving DecidableEq, Repr

variable {V σ : Type}

def Streaming.init (storage : σ) : Streaming σ := ⟨System.init storage, IndexMap.empty⟩

def wireMessage (externals : Adapter.Externals V) (record : GroupMessageRecord) :
    Adapter.GroupMessage :=
  ⟨record.cursor, record.groupId, externals.b64Encode record.opaqueMessage, record.createdAt⟩

def Event.target : Event → Option ℕ
  | .fetchBacklog id | .finish id | .unsubscribe id => some id
  | _ => none

def subscribeChecks (groups : List FetchGroupMessagesInput) : Except Adapter.AdapterError Unit := do
  Adapter.requireGroups groups
  Adapter.requirePositiveCursors groups

section Step

variable (S : CoordinatorStorage V σ) (externals : Adapter.Externals V)

def Session.receive (record : Option GroupMessageRecord) (accepted : Bool) (x : Session) :
    Session :=
  match record with
  | none => { x with phase := .leaving }
  | some record =>
    if accepted then
      { x with received := x.received+1, written := x.written ++ [wireMessage externals record] }
    else { x with received := x.received+1, phase := .leaving }

def Streaming.put (t : Streaming σ) (id : ℕ) (x : Session) : Streaming σ :=
  { t with sessions := t.sessions.insert id x }

def endSession (id : ℕ) (x : Session) (phase : Phase) (t : Streaming σ) : Option (Streaming σ) :=
  (step S (.unsubscribe id) t.system).map fun system =>
    ⟨system, t.sessions.insert id { x with phase := phase }⟩

def sessionTurn (id : ℕ) (x : Session) (t : Streaming σ) : Turn → Option (Streaming σ)
  | .fetchBacklog =>
    if x.phase = .opening then
      (step S (.fetchBacklog id) t.system).map fun system =>
        -- a failed fetch has unsubscribed
        if (system.subscriptions.get? id).isSome then ⟨system, t.sessions⟩
        else ⟨system, t.sessions.insert id { x with phase := .failed }⟩
    else none
  | .start =>
    if x.phase = .opening then
      (step S (.finish id) t.system).map fun system =>
        ⟨system, t.sessions.insert id { x with phase := .streaming, started := true }⟩
    else none
  | .receive accepted =>
    if x.phase = .streaming then
      match (channel t.system id)[x.received]? with
      | some record => some (t.put id (x.receive externals (some record) accepted))
      | none =>
        -- an open channel that is empty keeps the call waiting
        if (t.system.subscriptions.get? id).isSome then none
        else some (t.put id (x.receive externals none accepted))
    else none
  | .poll =>
    if x.phase = .streaming then
      if x.active then some t else some (t.put id { x with phase := .leaving })
    else none
  | .deactivate => some (t.put id { x with active := false })
  | .close =>
    if x.phase = .leaving then some (t.put id { x with phase := .closing, closed := x.active })
    else none
  | .finish => if x.phase = .closing then endSession S id x .returned t else none
  | .cancel => if x.phase.Running then endSession S id x .cancelled t else none

def streamStep : StreamEvent → Streaming σ → Option (Streaming σ)
  | .coordinator event, t =>
    if ∃ id ∈ event.target, id ∈ t.sessions.keys then none
    else (step S event t.system).map fun system => { t with system := system }
  | .subscribe groups, t =>
    match subscribeChecks groups with
    | .error _ => some t
    | .ok _ => some ⟨register groups t.system,
        t.sessions.insert t.system.registry.nextId ⟨groups, .opening, 0, [], false, false, true⟩⟩
  | .turn id turn, t => (t.sessions.get? id).bind fun x => sessionTurn S externals id x t turn

end Step

inductive Streams (S : CoordinatorStorage V σ) (externals : Adapter.Externals V)
    (t : Streaming σ) : StreamEvent → Streaming σ → Prop where
  | coordinator (event : Event) (system : System σ)
      (hother : ∀ id ∈ event.target, id ∉ t.sessions.keys)
      (hstep : step S event t.system = some system) :
      Streams S externals t (.coordinator event) { t with system := system }
  | refused (groups : List FetchGroupMessagesInput) (e : Adapter.AdapterError)
      (h : subscribeChecks groups = .error e) : Streams S externals t (.subscribe groups) t
  | subscribe (groups : List FetchGroupMessagesInput) (h : subscribeChecks groups = .ok ()) :
      Streams S externals t (.subscribe groups) ⟨register groups t.system,
        t.sessions.insert t.system.registry.nextId ⟨groups, .opening, 0, [], false, false, true⟩⟩
  | fetched (id : ℕ) (x : Session) (system : System σ) (hx : t.sessions.get? id = some x)
      (hphase : x.phase = .opening) (hstep : step S (.fetchBacklog id) t.system = some system)
      (hlive : (system.subscriptions.get? id).isSome = true) :
      Streams S externals t (.turn id .fetchBacklog) ⟨system, t.sessions⟩
  | failed (id : ℕ) (x : Session) (system : System σ) (hx : t.sessions.get? id = some x)
      (hphase : x.phase = .opening) (hstep : step S (.fetchBacklog id) t.system = some system)
      (hgone : system.subscriptions.get? id = none) :
      Streams S externals t (.turn id .fetchBacklog)
        ⟨system, t.sessions.insert id { x with phase := .failed }⟩
  | start (id : ℕ) (x : Session) (system : System σ) (hx : t.sessions.get? id = some x)
      (hphase : x.phase = .opening) (hstep : step S (.finish id) t.system = some system) :
      Streams S externals t (.turn id .start)
        ⟨system, t.sessions.insert id { x with phase := .streaming, started := true }⟩
  | receive (id : ℕ) (x : Session) (record : GroupMessageRecord) (accepted : Bool)
      (hx : t.sessions.get? id = some x) (hphase : x.phase = .streaming)
      (hrecord : (channel t.system id)[x.received]? = some record) :
      Streams S externals t (.turn id (.receive accepted))
        (t.put id (x.receive externals (some record) accepted))
  | drained (id : ℕ) (x : Session) (accepted : Bool) (hx : t.sessions.get? id = some x)
      (hphase : x.phase = .streaming) (hgone : t.system.subscriptions.get? id = none) :
      Streams S externals t (.turn id (.receive accepted))
        (t.put id (x.receive externals none accepted))
  | waits (id : ℕ) (x : Session) (hx : t.sessions.get? id = some x)
      (hphase : x.phase = .streaming) : Streams S externals t (.turn id .poll) t
  | leaves (id : ℕ) (x : Session) (hx : t.sessions.get? id = some x)
      (hphase : x.phase = .streaming) (hactive : x.active = false) :
      Streams S externals t (.turn id .poll) (t.put id { x with phase := .leaving })
  | deactivate (id : ℕ) (x : Session) (hx : t.sessions.get? id = some x) :
      Streams S externals t (.turn id .deactivate) (t.put id { x with active := false })
  | close (id : ℕ) (x : Session) (hx : t.sessions.get? id = some x)
      (hphase : x.phase = .leaving) :
      Streams S externals t (.turn id .close)
        (t.put id { x with phase := .closing, closed := x.active })
  | ends (id : ℕ) (x : Session) (turn : Turn) (phase : Phase) (system : System σ)
      (hx : t.sessions.get? id = some x) (hphase : x.phase.Running) (hover : phase.Over)
      (hstep : step S (.unsubscribe id) t.system = some system) :
      Streams S externals t (.turn id turn)
        ⟨system, t.sessions.insert id { x with phase := phase }⟩

theorem streamStep_streams {S : CoordinatorStorage V σ} {externals : Adapter.Externals V}
    {event : StreamEvent} {t t' : Streaming σ} (h : streamStep S externals event t = some t') :
    Streams S externals t event t' := by
  cases event with
  | coordinator event =>
    simp only [streamStep, Option.ite_none_left_eq_some, Option.map_eq_some_iff] at h
    obtain ⟨hother, system, hstep, rfl⟩ := h
    exact .coordinator event system (fun id hid hin => hother ⟨id, hid, hin⟩) hstep
  | subscribe groups =>
    simp only [streamStep] at h
    split at h
    · rename_i e herror
      obtain rfl := Option.some.inj h
      exact .refused groups e herror
    · rename_i hok
      obtain rfl := Option.some.inj h
      exact .subscribe groups hok
  | turn id turn =>
    obtain ⟨x, hx, h⟩ := Option.bind_eq_some_iff.mp h
    cases turn with
    | fetchBacklog =>
      simp only [sessionTurn, Option.ite_none_right_eq_some, Option.map_eq_some_iff] at h
      obtain ⟨hphase, system, hstep, rfl⟩ := h
      split
      · rename_i hlive
        exact .fetched id x system hx hphase hstep hlive
      · rename_i hgone
        exact .failed id x system hx hphase hstep (by simpa using hgone)
    | start =>
      simp only [sessionTurn, Option.ite_none_right_eq_some, Option.map_eq_some_iff] at h
      obtain ⟨hphase, system, hstep, rfl⟩ := h
      exact .start id x system hx hphase hstep
    | receive accepted =>
      simp only [sessionTurn, Option.ite_none_right_eq_some] at h
      obtain ⟨hphase, h⟩ := h
      split at h
      · rename_i record hrecord
        obtain rfl := Option.some.inj h
        exact .receive id x record accepted hx hphase hrecord
      · simp only [Option.ite_none_left_eq_some, Option.some.injEq] at h
        obtain ⟨hgone, rfl⟩ := h
        exact .drained id x accepted hx hphase (by simpa using hgone)
    | poll =>
      simp only [sessionTurn, Option.ite_none_right_eq_some] at h
      obtain ⟨hphase, h⟩ := h
      split at h
      · obtain rfl := Option.some.inj h
        exact .waits id x hx hphase
      · rename_i hactive
        obtain rfl := Option.some.inj h
        exact .leaves id x hx hphase (by simpa using hactive)
    | deactivate =>
      obtain rfl := Option.some.inj h
      exact .deactivate id x hx
    | close =>
      simp only [sessionTurn, Option.ite_none_right_eq_some, Option.some.injEq] at h
      obtain ⟨hphase, rfl⟩ := h
      exact .close id x hx hphase
    | finish =>
      simp only [sessionTurn, endSession, Option.ite_none_right_eq_some,
        Option.map_eq_some_iff] at h
      obtain ⟨hphase, system, hstep, rfl⟩ := h
      exact .ends id x .finish .returned system hx (Or.inr (Or.inr hphase)) (Or.inl rfl) hstep
    | cancel =>
      simp only [sessionTurn, endSession, Option.ite_none_right_eq_some,
        Option.map_eq_some_iff] at h
      obtain ⟨hphase, system, hstep, rfl⟩ := h
      exact .ends id x .cancel .cancelled system hx hphase (Or.inr (Or.inr rfl)) hstep

theorem step_nextId {S : CoordinatorStorage V σ} {event : Event} {s s' : System σ}
    (hstep : step S event s = some s') : s.registry.nextId ≤ s'.registry.nextId := by
  cases step_takes hstep with
  | append params hroom =>
    unfold append
    split <;> exact le_rfl
  | publishLive record hr => exact (publishLive_nextId record s.registry).ge
  | subscribe groupId =>
    have hnext : (subscribe groupId s).registry.nextId = s.registry.nextId+1 :=
      registerMany_nextId [groupId] _ _
    omega
  | register groups =>
    have hnext : (register groups s).registry.nextId = s.registry.nextId+1 :=
      registerMany_nextId _ _ _
    omega
  | fetchBacklog id w hw hstage =>
    rcases fetchBacklog_cases S id w s with ⟨e, -, hrun⟩ | ⟨backlog, -, hrun⟩
    · rw [hrun]
      exact (removeSubscriber_nextId id w.groupIds s.registry).ge
    · rw [hrun]
  | finish id w backlog hw hstage => exact le_rfl
  | unsubscribe id w hw hstage => exact (removeSubscriber_nextId id w.groupIds s.registry).ge

theorem step_elsewhere {S : CoordinatorStorage V σ} {event : Event} {s s' : System σ} {id : ℕ}
    (hid : id < s.registry.nextId) (hother : id ∉ event.target)
    (hstep : step S event s = some s') :
    s'.subscriptions.get? id = s.subscriptions.get? id := by
  have hne : ∀ id', event.target = some id' → id ≠ id' := by
    rintro id' htarget rfl
    exact hother htarget
  cases step_takes hstep with
  | append params hroom =>
    unfold append
    split <;> rfl
  | publishLive record hr => rfl
  | subscribe groupId => exact (get?_insert _ _ _ _).trans (if_neg hid.ne)
  | register groups => exact (get?_insert _ _ _ _).trans (if_neg hid.ne)
  | fetchBacklog id' w hw hstage =>
    rcases fetchBacklog_cases S id' w s with ⟨e, -, hrun⟩ | ⟨backlog, -, hrun⟩
    · rw [hrun]
      exact (get?_shiftRemove _ _ _).trans (if_neg (hne id' rfl))
    · rw [hrun]
      exact (get?_insert _ _ _ _).trans (if_neg (hne id' rfl))
  | finish id' w backlog hw hstage =>
    exact (get?_insert _ _ _ _).trans (if_neg (hne id' rfl))
  | unsubscribe id' w hw hstage =>
    exact (get?_shiftRemove _ _ _).trans (if_neg (hne id' rfl))

theorem streams_system {S : CoordinatorStorage V σ} {externals : Adapter.Externals V}
    {event : StreamEvent} {t t' : Streaming σ} (h : Streams S externals t event t') :
    t'.system = t.system ∨ ∃ e, step S e t.system = some t'.system ∧
      ∀ params, e = .append params → event = .coordinator e := by
  cases h with
  | coordinator event system hother hstep => exact Or.inr ⟨event, hstep, fun _ _ => rfl⟩
  | subscribe groups h => exact Or.inr ⟨.register groups, rfl, by simp⟩
  | fetched id x system hx hphase hstep hlive => exact Or.inr ⟨.fetchBacklog id, hstep, by simp⟩
  | failed id x system hx hphase hstep hgone => exact Or.inr ⟨.fetchBacklog id, hstep, by simp⟩
  | start id x system hx hphase hstep => exact Or.inr ⟨.finish id, hstep, by simp⟩
  | ends id x turn phase system hx hphase hover hstep =>
    exact Or.inr ⟨.unsubscribe id, hstep, by simp⟩
  | refused | receive | drained | waits | leaves | deactivate | close => exact Or.inl rfl

def Held (s : System σ) (id : ℕ) (x : Session) (P : Stage → Prop) : Prop :=
  ∃ w, s.subscriptions.get? id = some w ∧ w.many = true ∧ w.groups = x.groups ∧ P w.stage

/-- A call holds a subscription until it is over. -/
structure Stands (s : System σ) (id : ℕ) (x : Session) : Prop where
  fresh : id < s.registry.nextId
  opening : x.phase = .opening → Held s id x (fun stage => stage ≠ .opened)
  running : x.phase.Running → Held s id x (fun stage => stage = .opened)
  gone : x.phase.Over → s.subscriptions.get? id = none

theorem Stands.frame {s s' : System σ} {id : ℕ} {x : Session} (h : Stands s id x)
    (hsame : s'.subscriptions.get? id = s.subscriptions.get? id)
    (hnext : s.registry.nextId ≤ s'.registry.nextId) : Stands s' id x where
  fresh := h.fresh.trans_le hnext
  opening hphase := by
    rw [Held, hsame]
    exact h.opening hphase
  running hphase := by
    rw [Held, hsame]
    exact h.running hphase
  gone hphase := hsame.trans (h.gone hphase)

theorem Stands.turn {s : System σ} {id : ℕ} {x y : Session} (h : Stands s id x)
    (hgroups : y.groups = x.groups)
    (hphase : y.phase = x.phase ∨ (x.phase.Running ∧ y.phase.Running)) : Stands s id y := by
  rcases hphase with hsame | ⟨hx, hy⟩
  · exact ⟨h.fresh, by simpa only [Held, hsame, hgroups] using h.opening,
      by simpa only [Held, hsame, hgroups] using h.running, by simpa only [hsame] using h.gone⟩
  · refine ⟨h.fresh, fun ho => ?_, fun _ => ?_, fun ho => ?_⟩
    · exact absurd ho hy.not_opening
    · simpa only [Held, hgroups] using h.running hx
    · exact absurd hy ho.not_running

def AllStand (t : Streaming σ) : Prop :=
  ∀ id x, t.sessions.get? id = some x → Stands t.system id x

theorem allStand_insert {t : Streaming σ} (system : System σ) (id : ℕ)
    (y : Session) (hy : Stands system id y)
    (hothers : ∀ id' x, id' ≠ id → t.sessions.get? id' = some x → Stands system id' x) :
    AllStand ⟨system, t.sessions.insert id y⟩ := by
  intro id' x hx
  rw [get?_insert] at hx
  split at hx
  · rename_i he
    obtain rfl := Option.some.inj hx
    exact he ▸ hy
  · rename_i hne
    exact hothers id' x hne hx

theorem step_fetchBacklog {S : CoordinatorStorage V σ} {s s' : System σ} {id : ℕ}
    (hstep : step S (.fetchBacklog id) s = some s') :
    s'.subscriptions.get? id = none ∨ ∃ w backlog, s.subscriptions.get? id = some w ∧
      s'.subscriptions.get? id =
        some { w with stage := .fetched backlog, fetchedAt := s.appended.length } := by
  cases step_takes hstep with
  | fetchBacklog _ w hw hstage =>
    rcases fetchBacklog_cases S id w s with ⟨e, -, hrun⟩ | ⟨backlog, -, hrun⟩
    · rw [hrun]
      exact Or.inl ((get?_shiftRemove _ _ _).trans (if_pos rfl))
    · rw [hrun]
      exact Or.inr ⟨w, backlog, hw, (get?_insert _ _ _ _).trans (if_pos rfl)⟩

theorem step_finish {S : CoordinatorStorage V σ} {s s' : System σ} {id : ℕ}
    (hstep : step S (.finish id) s = some s') : ∃ w, s.subscriptions.get? id = some w ∧
      s'.subscriptions.get? id = some { w with stage := .opened } := by
  cases step_takes hstep with
  | finish _ w backlog hw hstage => exact ⟨w, hw, (get?_insert _ _ _ _).trans (if_pos rfl)⟩

theorem step_unsubscribe {S : CoordinatorStorage V σ} {s s' : System σ} {id : ℕ}
    (hstep : step S (.unsubscribe id) s = some s') : s'.subscriptions.get? id = none := by
  cases step_takes hstep with
  | unsubscribe _ w hw hstage => exact (get?_shiftRemove _ _ _).trans (if_pos rfl)

theorem receive_keeps (externals : Adapter.Externals V) (record : Option GroupMessageRecord)
    (accepted : Bool) (x : Session) (hphase : x.phase = .streaming) :
    (x.receive externals record accepted).groups = x.groups ∧
      (x.receive externals record accepted).phase.Running := by
  cases record with
  | none => exact ⟨rfl, Or.inr (Or.inl rfl)⟩
  | some record =>
    cases accepted with
    | true => exact ⟨rfl, Or.inl hphase⟩
    | false => exact ⟨rfl, Or.inr (Or.inl rfl)⟩

section Stand

variable {S : CoordinatorStorage V σ} {externals : Adapter.Externals V}

theorem AllStand.elsewhere {t : Streaming σ} (h : AllStand t) {event : Event} {system : System σ}
    (hstep : step S event t.system = some system) (id : ℕ) (x : Session)
    (hx : t.sessions.get? id = some x) (hother : id ∉ event.target) : Stands system id x :=
  (h id x hx).frame (step_elsewhere (h id x hx).fresh hother hstep) (step_nextId hstep)

theorem AllStand.target {t : Streaming σ} (h : AllStand t) {event : Event} {system : System σ}
    (hstep : step S event t.system = some system) (id : ℕ) (htarget : event.target = some id)
    (y : Session) (hy : Stands system id y) : AllStand ⟨system, t.sessions.insert id y⟩ := by
  refine allStand_insert system id y hy fun id' x hne hx => h.elsewhere hstep id' x hx ?_
  rw [htarget]
  exact fun hin => hne (Option.some.inj hin).symm

theorem AllStand.turn {t : Streaming σ} (h : AllStand t) (id : ℕ) (x y : Session)
    (hx : t.sessions.get? id = some x) (hgroups : y.groups = x.groups)
    (hphase : y.phase = x.phase ∨ (x.phase.Running ∧ y.phase.Running)) :
    AllStand (t.put id y) :=
  allStand_insert t.system id y ((h id x hx).turn hgroups hphase)
    fun id' x' _ hx' => h id' x' hx'

theorem streams_allStand {event : StreamEvent} {t t' : Streaming σ} (h : AllStand t)
    (hstep : Streams S externals t event t') : AllStand t' := by
  cases hstep with
  | coordinator event system hother hstep =>
    intro id x hx
    have hin : id ∈ t.sessions.keys := (get?_isSome_iff _ _).mp (by rw [hx]; rfl)
    exact h.elsewhere hstep id x hx fun htarget => hother id htarget hin
  | refused | waits => exact h
  | subscribe groups hok =>
    have hregister : step S (.register groups) t.system = some (register groups t.system) := rfl
    refine allStand_insert (t := t) _ _ _ ?_ fun id x _ hx =>
      h.elsewhere hregister id x hx (by simp [Event.target])
    have hnext : (register groups t.system).registry.nextId = t.system.registry.nextId+1 :=
      registerMany_nextId _ _ _
    exact ⟨by omega, fun _ => ⟨_, (get?_insert _ _ _ _).trans (if_pos rfl), rfl, rfl, by simp⟩,
      by simp [Phase.Running], by simp [Phase.Over]⟩
  | fetched id x system hx hphase hfetch hlive =>
    obtain ⟨w, hw, hmany, hgroups, -⟩ := (h id x hx).opening hphase
    intro id' x' hx'
    by_cases hne : id' = id
    · subst hne
      obtain rfl := Option.some.inj (hx.symm.trans hx')
      refine ⟨(h id' x hx).fresh.trans_le (step_nextId hfetch), fun _ => ?_, ?_, ?_⟩
      · rcases step_fetchBacklog hfetch with hgone | ⟨w', backlog, hw', hnew⟩
        · simp [hgone] at hlive
        · obtain rfl := Option.some.inj (hw.symm.trans hw')
          exact ⟨_, hnew, hmany, hgroups, by simp⟩
      · simp [hphase, Phase.Running]
      · simp [hphase, Phase.Over]
    · exact h.elsewhere hfetch id' x' hx' fun hin => hne (Option.some.inj hin).symm
  | failed id x system hx hphase hfetch hgone =>
    refine h.target hfetch id rfl _ ⟨(h id x hx).fresh.trans_le (step_nextId hfetch), ?_, ?_, ?_⟩
    · simp
    · simp [Phase.Running]
    · exact fun _ => hgone
  | start id x system hx hphase hfinish =>
    obtain ⟨w, hw, hmany, hgroups, -⟩ := (h id x hx).opening hphase
    obtain ⟨w', hw', hopen⟩ := step_finish hfinish
    obtain rfl := Option.some.inj (hw.symm.trans hw')
    refine h.target hfinish id rfl _ ⟨(h id x hx).fresh.trans_le (step_nextId hfinish), ?_, ?_, ?_⟩
    · simp
    · exact fun _ => ⟨_, hopen, hmany, hgroups, rfl⟩
    · simp [Phase.Over]
  | receive id x record accepted hx hphase hrecord =>
    obtain ⟨hgroups, hrunning⟩ := receive_keeps externals (some record) accepted x hphase
    exact h.turn id x _ hx hgroups (Or.inr ⟨Or.inl hphase, hrunning⟩)
  | drained id x accepted hx hphase hgone =>
    obtain ⟨hgroups, hrunning⟩ := receive_keeps externals none accepted x hphase
    exact h.turn id x _ hx hgroups (Or.inr ⟨Or.inl hphase, hrunning⟩)
  | leaves id x hx hphase hactive =>
    exact h.turn id x _ hx rfl (Or.inr ⟨Or.inl hphase, Or.inr (Or.inl rfl)⟩)
  | deactivate id x hx => exact h.turn id x _ hx rfl (Or.inl rfl)
  | close id x hx hphase =>
    exact h.turn id x _ hx rfl (Or.inr ⟨Or.inr (Or.inl hphase), Or.inr (Or.inr rfl)⟩)
  | ends id x turn phase system hx hphase hover hleave =>
    refine h.target hleave id rfl _ ⟨(h id x hx).fresh.trans_le (step_nextId hleave), ?_, ?_, ?_⟩
    · exact fun ho => absurd ho hover.not_opening
    · exact fun hr => absurd hr hover.not_running
    · exact fun _ => step_unsubscribe hleave

end Stand

theorem passed_grows (groups : List FetchGroupMessagesInput)
    {records records' : List GroupMessageRecord} (h : records <+: records') :
    passed groups records <+: passed groups records' := by
  obtain ⟨more, rfl⟩ := h
  rw [passed, passed, passing_append]
  exact List.prefix_append _ _

section Deliver

variable {S : CoordinatorStorage V σ} {limit : FetchLimit} {R : σ → MessageLog → Prop}

theorem step_appended {event : Event} {s s' : System σ} (hstep : step S event s = some s') :
    s.appended <+: s'.appended := by
  rcases step_history event s s' hstep with ⟨params, -, -, rfl⟩ | ⟨r, -, -, rfl⟩ | ⟨-, -, he⟩
  · unfold append
    split
    · exact List.prefix_refl _
    · exact List.prefix_append _ _
  · exact List.prefix_refl _
  · exact he ▸ List.prefix_refl _

variable (hS : KeepsLog S limit R)
include hS

theorem step_stream {event : Event} {s s' : System σ} (hc : Consistent R s)
    (hstep : step S event s = some s') (id : ℕ) (w : Subscription)
    (hw : s.subscriptions.get? id = some w) (hopen : w.stage = .opened) :
    stream s w <+: stream s' w := by
  obtain ⟨sub, -, hf⟩ := hc.subscribers id w hw
  rcases step_history event s s' hstep with ⟨params, rfl, hroom, rfl⟩ | ⟨r, rfl, hr, rfl⟩ |
    ⟨-, hpublished, happended⟩
  · obtain ⟨log, storage, -, -, hrun⟩ := append_eq hS hc params hroom
    have hsame := stream_append s (append S params s) hf.fetchedAt (log.next params)
      (by rw [hrun]) (by rw [hrun])
    exact hsame ▸ List.prefix_refl _
  · rw [stream_publish s (publish r s) hf.registeredAt r rfl rfl]
    exact List.prefix_append _ _
  · have hsame := stream_frame (Goes.refl w (by simp [hopen])) hpublished happended
    exact hsame ▸ List.prefix_refl _

theorem step_channel {event : Event} {s s' : System σ} (hc : Consistent R s)
    (hstep : step S event s = some s') (id : ℕ) (w : Subscription)
    (hw : s.subscriptions.get? id = some w) (hmany : w.many = true) (hopen : w.stage = .opened)
    (hw' : s'.subscriptions.get? id = some w) : channel s id <+: channel s' id := by
  rw [channel_passed hc id w hw hmany hopen,
    channel_passed (step_consistent hS event s s' hc hstep) id w hw' hmany hopen]
  exact passed_grows w.groups (step_stream hS hc hstep id w hw hopen)

end Deliver

structure Wrote (externals : Adapter.Externals V) (s : System σ) (id : ℕ) (x : Session) :
    Prop where
  opening : x.phase = .opening → x.received = 0 ∧ x.written = []
  streaming : x.phase = .streaming → x.received ≤ (channel s id).length ∧
    x.written = ((channel s id).take x.received).map (wireMessage externals)
  running : x.phase.Running → x.written <+: (channel s id).map (wireMessage externals)

section Write

variable {externals : Adapter.Externals V}

theorem Wrote.grows {s s' : System σ} {id : ℕ} {x : Session} (h : Wrote externals s id x)
    (hchannel : x.phase.Running → channel s id <+: channel s' id) :
    Wrote externals s' id x where
  opening := h.opening
  streaming hphase := by
    obtain ⟨hle, hwritten⟩ := h.streaming hphase
    obtain ⟨more, hmore⟩ := hchannel (Or.inl hphase)
    rw [← hmore, List.take_append_of_le_length hle, List.length_append]
    exact ⟨hle.trans (Nat.le_add_right _ _), hwritten⟩
  running hphase := (h.running hphase).trans ((hchannel hphase).map _)

theorem Wrote.ended {s' : System σ} {id : ℕ} {x : Session} {phase : Phase}
    (hover : phase.Over) : Wrote externals s' id { x with phase := phase } where
  opening hphase := absurd hphase hover.not_opening
  streaming hphase := absurd (Or.inl hphase) hover.not_running
  running hphase := absurd hphase hover.not_running

theorem Wrote.leaves {s : System σ} {id : ℕ} {x y : Session} (h : Wrote externals s id x)
    (hphase : x.phase.Running) (hnext : y.phase = .leaving ∨ y.phase = .closing)
    (hwritten : y.written = x.written) : Wrote externals s id y where
  opening ho := by
    rcases hnext with hn | hn <;> simp [hn] at ho
  streaming ho := by
    rcases hnext with hn | hn <;> simp [hn] at ho
  running _ := hwritten ▸ h.running hphase

theorem Wrote.receive {s : System σ} {id : ℕ} {x : Session} (h : Wrote externals s id x)
    (hphase : x.phase = .streaming) (record : GroupMessageRecord) (accepted : Bool)
    (hrecord : (channel s id)[x.received]? = some record) :
    Wrote externals s id (x.receive externals (some record) accepted) := by
  obtain ⟨hle, hwritten⟩ := h.streaming hphase
  obtain ⟨hlt, hget⟩ := List.getElem?_eq_some_iff.mp hrecord
  cases accepted with
  | false => exact h.leaves (Or.inl hphase) (Or.inl rfl) rfl
  | true =>
    have hnext : x.written ++ [wireMessage externals record] =
        ((channel s id).take (x.received+1)).map (wireMessage externals) := by
      rw [hwritten, ← List.take_append_getElem hlt, List.map_append, hget]
      rfl
    refine ⟨fun ho => by simp [Session.receive, hphase] at ho, fun _ => ⟨hlt, hnext⟩, fun _ => ?_⟩
    change x.written ++ [wireMessage externals record] <+: _
    rw [hnext]
    exact (List.take_prefix _ _).map _

theorem Wrote.deactivate {s : System σ} {id : ℕ} {x : Session} (h : Wrote externals s id x) :
    Wrote externals s id { x with active := false } := ⟨h.opening, h.streaming, h.running⟩

end Write

structure Delivering (R : σ → MessageLog → Prop) (externals : Adapter.Externals V)
    (t : Streaming σ) : Prop where
  consistent : Consistent R t.system
  stand : AllStand t
  wrote : ∀ id x, t.sessions.get? id = some x → Wrote externals t.system id x

theorem Delivering.init {R : σ → MessageLog → Prop} (externals : Adapter.Externals V) (storage : σ)
    (h : R storage MessageLog.empty) : Delivering R externals (Streaming.init storage) where
  consistent := Consistent.init storage h
  stand id x hx := by simp [Streaming.init] at hx
  wrote id x hx := by simp [Streaming.init] at hx

section Runs

variable {S : CoordinatorStorage V σ}
  {limit : FetchLimit} {R : σ → MessageLog → Prop} (hS : KeepsLog S limit R)
  {externals : Adapter.Externals V} {t : Streaming σ} (h : Delivering R externals t)
include hS h

theorem Delivering.elsewhere {event : Event} {system : System σ}
    (hstep : step S event t.system = some system) (id : ℕ) (x : Session)
    (hx : t.sessions.get? id = some x) (hother : id ∉ event.target) :
    Wrote externals system id x := by
  refine (h.wrote id x hx).grows fun hrunning => ?_
  obtain ⟨w, hw, hmany, -, hopen⟩ := (h.stand id x hx).running hrunning
  have hsame := step_elsewhere (h.stand id x hx).fresh hother hstep
  exact step_channel hS h.consistent hstep id w hw hmany hopen (hsame.trans hw)

theorem Delivering.target {event : Event} {system : System σ}
    (hstep : step S event t.system = some system) (id : ℕ)
    (htarget : ∀ id' ∈ event.target, id' = id) (y : Session)
    (hy : Wrote externals system id y) (id' : ℕ) (x : Session)
    (hx : (t.sessions.insert id y).get? id' = some x) : Wrote externals system id' x := by
  rw [get?_insert] at hx
  split at hx
  · rename_i he
    obtain rfl := Option.some.inj hx
    exact he ▸ hy
  · rename_i hne
    exact h.elsewhere hS hstep id' x hx fun hin => hne (htarget id' hin)

omit hS in
theorem Delivering.turn (id : ℕ) (y : Session) (hy : Wrote externals t.system id y) (id' : ℕ)
    (x : Session) (hx : (t.sessions.insert id y).get? id' = some x) :
    Wrote externals t.system id' x := by
  rw [get?_insert] at hx
  split at hx
  · rename_i he
    obtain rfl := Option.some.inj hx
    exact he ▸ hy
  · exact h.wrote id' x hx

theorem streams_delivering {event : StreamEvent} {t' : Streaming σ}
    (hstep : Streams S externals t event t') : Delivering R externals t' := by
  have hstand := streams_allStand h.stand hstep
  have hconsistent : Consistent R t'.system := by
    rcases streams_system hstep with hsame | ⟨e, he, -⟩
    · exact hsame ▸ h.consistent
    · exact step_consistent hS e t.system t'.system h.consistent he
  refine ⟨hconsistent, hstand, ?_⟩
  cases hstep with
  | coordinator event system hother hstep =>
    intro id x hx
    have hin : id ∈ t.sessions.keys := (get?_isSome_iff _ _).mp (by rw [hx]; rfl)
    exact h.elsewhere hS hstep id x hx fun htarget => hother id htarget hin
  | refused | waits => exact h.wrote
  | subscribe groups hok =>
    have hregister : step S (.register groups) t.system = some (register groups t.system) := rfl
    refine h.target hS hregister _ (by simp [Event.target]) _ ?_
    exact ⟨fun _ => ⟨rfl, rfl⟩, by simp, by simp [Phase.Running]⟩
  | fetched id x system hx hphase hfetch hlive =>
    intro id' x' hx'
    by_cases hne : id' = id
    · subst hne
      obtain rfl := Option.some.inj (hx.symm.trans hx')
      exact (h.wrote id' x hx).grows fun hrunning => absurd hphase hrunning.not_opening
    · exact h.elsewhere hS hfetch id' x' hx' fun hin => hne (Option.some.inj hin).symm
  | failed id x system hx hphase hfetch hgone =>
    exact h.target hS hfetch id (by simp [Event.target]) _ (.ended (Or.inr (Or.inl rfl)))
  | start id x system hx hphase hfinish =>
    obtain ⟨hreceived, hwritten⟩ := (h.wrote id x hx).opening hphase
    refine h.target hS hfinish id (by simp [Event.target]) _ ⟨by simp, fun _ => ?_, fun _ => ?_⟩
    · simp [hreceived, hwritten]
    · simp [hwritten]
  | receive id x record accepted hx hphase hrecord =>
    exact h.turn id _ ((h.wrote id x hx).receive hphase record accepted hrecord)
  | drained id x accepted hx hphase hgone =>
    exact h.turn id _ ((h.wrote id x hx).leaves (Or.inl hphase) (Or.inl rfl) rfl)
  | leaves id x hx hphase hactive =>
    exact h.turn id _ ((h.wrote id x hx).leaves (Or.inl hphase) (Or.inl rfl) rfl)
  | deactivate id x hx => exact h.turn id _ (h.wrote id x hx).deactivate
  | close id x hx hphase =>
    exact h.turn id _ ((h.wrote id x hx).leaves (Or.inr (Or.inl hphase)) (Or.inr rfl) rfl)
  | ends id x turn phase system hx hphase hover hleave =>
    exact h.target hS hleave id (by simp [Event.target]) _ (.ended hover)

end Runs

end Cordn.Coordinator
