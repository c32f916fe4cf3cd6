import Cordn.SubscriptionHandles

/-!
# One subscription set aside

Two systems that differ in one subscription only stay so: every step that does not
name it does the same on both. So a subscription that fails or is released leaves
no trace on the others, in whatever order the steps come.
-/

set_option autoImplicit false

namespace Cordn.Coordinator
open IndexMap

variable {V σ : Type}

/-- The systems agree but for the subscription `id`, which was given out already. -/
structure AgreeExcept (id : ℕ) (s t : System σ) : Prop where
  storage : t.storage = s.storage
  posting : t.posting = s.posting
  appended : t.appended = s.appended
  published : t.published = s.published
  nextId : t.registry.nextId = s.registry.nextId
  given : id < s.registry.nextId
  subscribers : ∀ x, x ≠ id → t.registry.subscribers.get? x = s.registry.subscribers.get? x
  subscriptions : ∀ x, x ≠ id → t.subscriptions.get? x = s.subscriptions.get? x

theorem AgreeExcept.refl {id : ℕ} (s : System σ) (h : id < s.registry.nextId) :
    AgreeExcept id s s :=
  ⟨rfl, rfl, rfl, rfl, rfl, h, fun _ _ => rfl, fun _ _ => rfl⟩

theorem AgreeExcept.symm {id : ℕ} {s t : System σ} (h : AgreeExcept id s t) :
    AgreeExcept id t s where
  storage := h.storage.symm
  posting := h.posting.symm
  appended := h.appended.symm
  published := h.published.symm
  nextId := h.nextId.symm
  given := h.nextId ▸ h.given
  subscribers x hx := (h.subscribers x hx).symm
  subscriptions x hx := (h.subscriptions x hx).symm

theorem AgreeExcept.trans {id : ℕ} {s t u : System σ} (h : AgreeExcept id s t)
    (h' : AgreeExcept id t u) : AgreeExcept id s u where
  storage := h'.storage.trans h.storage
  posting := h'.posting.trans h.posting
  appended := h'.appended.trans h.appended
  published := h'.published.trans h.published
  nextId := h'.nextId.trans h.nextId
  given := h.given
  subscribers x hx := (h'.subscribers x hx).trans (h.subscribers x hx)
  subscriptions x hx := (h'.subscriptions x hx).trans (h.subscriptions x hx)

theorem AgreeExcept.append {id : ℕ} {s t : System σ} (h : AgreeExcept id s t)
    (S : CoordinatorStorage V σ) (params : AppendGroupMessageParams) :
    AgreeExcept id (append S params s) (append S params t) := by
  unfold Coordinator.append
  rw [h.storage]
  split
  · exact ⟨rfl, h.posting, h.appended, h.published, h.nextId, h.given, h.subscribers,
      h.subscriptions⟩
  · exact ⟨rfl, by simp [h.posting], by simp [h.appended], h.published, h.nextId, h.given,
      h.subscribers, h.subscriptions⟩

theorem publish_subscriber {s : System σ} (hs : RegistrySound s) (record : GroupMessageRecord)
    (x : ℕ) : (publish record s).registry.subscribers.get? x =
      match liveGroups s.subscriptions x with
      | none => none
      | some gs => (s.registry.subscribers.get? x).map
          (fun sub => if record.groupId ∈ gs then sub.push record else sub) := by
  obtain ⟨hreg, hpush⟩ := hs.registered.publishLive record
  cases hlive : liveGroups s.subscriptions x with
  | none =>
    rw [← Option.not_isSome_iff_eq_none]
    change ¬((s.registry.publishLive record).subscribers.get? x).isSome = true
    rw [hreg.subscribers x, hlive]
    simp
  | some gs => exact hpush x gs hlive

theorem AgreeExcept.publish {id : ℕ} {s t : System σ} (h : AgreeExcept id s t)
    (hs : RegistrySound s) (ht : RegistrySound t) (record : GroupMessageRecord) :
    AgreeExcept id (publish record s) (publish record t) where
  storage := h.storage
  posting := congrArg (fun posting => posting.erase record) h.posting
  appended := h.appended
  published := congrArg (fun published => published ++ [record]) h.published
  nextId := (publishLive_nextId _ _).trans (h.nextId.trans (publishLive_nextId _ _).symm)
  given := h.given.trans_le (publishLive_nextId _ _).ge
  subscribers x hx := by
    rw [publish_subscriber hs, publish_subscriber ht, liveGroups, liveGroups,
      h.subscriptions x hx, h.subscribers x hx]
  subscriptions := h.subscriptions

theorem AgreeExcept.enter {id : ℕ} {s t : System σ} (h : AgreeExcept id s t)
    (hs : RegistrySound s) (ht : RegistrySound t) (w : Subscription) (sub : Subscriber) :
    AgreeExcept id (enter w sub s) (enter w sub t) where
  storage := h.storage
  posting := h.posting
  appended := h.appended
  published := h.published
  nextId := by
    change (t.registry.registerMany w.groupIds sub).2.nextId = _
    rw [registerMany_nextId, h.nextId]
    exact (registerMany_nextId _ _ _).symm
  given := h.given.trans_le ((Nat.le_succ _).trans (registerMany_nextId _ _ _).ge)
  subscribers x hx := by
    change (t.registry.registerMany w.groupIds sub).2.subscribers.get? x =
      (s.registry.registerMany w.groupIds sub).2.subscribers.get? x
    rw [(ht.registered.registerMany w.groupIds sub).2.2.2 x,
      (hs.registered.registerMany w.groupIds sub).2.2.2 x, h.nextId, h.subscribers x hx]
  subscriptions x hx := by
    change (t.subscriptions.insert t.registry.nextId w).get? x =
      (s.subscriptions.insert s.registry.nextId w).get? x
    rw [get?_insert, get?_insert, h.nextId, h.subscriptions x hx]

theorem AgreeExcept.leave {id : ℕ} {s t : System σ} (h : AgreeExcept id s t)
    (hs : RegistrySound s) (ht : RegistrySound t) (y : ℕ) (gs : List String) (hy : y ≠ id)
    (hlive : liveGroups s.subscriptions y = some gs) :
    AgreeExcept id (leave y gs s) (leave y gs t) where
  storage := h.storage
  posting := h.posting
  appended := h.appended
  published := h.published
  nextId := (removeSubscriber_nextId _ _ _).trans
    (h.nextId.trans (removeSubscriber_nextId _ _ _).symm)
  given := h.given.trans_le (removeSubscriber_nextId _ _ _).ge
  subscribers x hx := by
    have hlive' : liveGroups t.subscriptions y = some gs := by
      rw [liveGroups, h.subscriptions y hy]
      exact hlive
    change (t.registry.removeSubscriber y gs).subscribers.get? x =
      (s.registry.removeSubscriber y gs).subscribers.get? x
    rw [(ht.registered.removeSubscriber y gs hlive').2 x,
      (hs.registered.removeSubscriber y gs hlive).2 x, h.subscribers x hx]
  subscriptions x hx := by
    change (t.subscriptions.shiftRemove y).get? x = (s.subscriptions.shiftRemove y).get? x
    rw [get?_shiftRemove, get?_shiftRemove, h.subscriptions x hx]

theorem AgreeExcept.fetchBacklog {id : ℕ} {s t : System σ} (h : AgreeExcept id s t)
    (hs : RegistrySound s) (ht : RegistrySound t) (S : CoordinatorStorage V σ) (y : ℕ)
    (w : Subscription) (hy : y ≠ id) (hw : s.subscriptions.get? y = some w) :
    AgreeExcept id (fetchBacklog S y w s) (fetchBacklog S y w t) := by
  have hlive : liveGroups s.subscriptions y = some w.groupIds := by
    rw [liveGroups, hw, Option.map_some]
  have hleft := h.leave hs ht y w.groupIds hy hlive
  unfold Coordinator.fetchBacklog
  rw [h.storage]
  split
  · exact ⟨rfl, hleft.posting, hleft.appended, hleft.published, hleft.nextId, hleft.given,
      hleft.subscribers, hleft.subscriptions⟩
  · refine ⟨rfl, h.posting, h.appended, h.published, h.nextId, h.given, h.subscribers, ?_⟩
    intro x hx
    change (t.subscriptions.insert y _).get? x = (s.subscriptions.insert y _).get? x
    rw [get?_insert, get?_insert, h.appended, h.subscriptions x hx]

theorem AgreeExcept.finish {id : ℕ} {s t : System σ} (h : AgreeExcept id s t) (y : ℕ)
    (w : Subscription) (backlog : List GroupMessageRecord) (hy : y ≠ id) :
    AgreeExcept id (finish y w backlog s) (finish y w backlog t) where
  storage := h.storage
  posting := h.posting
  appended := h.appended
  published := h.published
  nextId := h.nextId
  given := h.given
  subscribers x hx := by
    change (t.registry.subscribers.adjust y _).get? x = (s.registry.subscribers.adjust y _).get? x
    rw [get?_adjust, get?_adjust, h.subscribers x hx, h.subscribers y hy]
  subscriptions x hx := by
    change (t.subscriptions.insert y _).get? x = (s.subscriptions.insert y _).get? x
    rw [get?_insert, get?_insert, h.subscriptions x hx]

structure ClientsAgree (id : ℕ) (c d : Clients σ) : Prop where
  system : AgreeExcept id c.system d.system
  handles : ∀ x, x ≠ id → d.handles.get? x = c.handles.get? x
  received : ∀ x, x ≠ id → d.received x = c.received x

theorem ClientsAgree.refl {id : ℕ} (c : Clients σ) (h : id < c.system.registry.nextId) :
    ClientsAgree id c c :=
  ⟨AgreeExcept.refl _ h, fun _ _ => rfl, fun _ _ => rfl⟩

theorem ClientsAgree.symm {id : ℕ} {c d : Clients σ} (h : ClientsAgree id c d) :
    ClientsAgree id d c :=
  ⟨h.system.symm, fun x hx => (h.handles x hx).symm, fun x hx => (h.received x hx).symm⟩

theorem ClientsAgree.trans {id : ℕ} {c d e : Clients σ} (h : ClientsAgree id c d)
    (h' : ClientsAgree id d e) : ClientsAgree id c e where
  system := h.system.trans h'.system
  handles x hx := (h'.handles x hx).trans (h.handles x hx)
  received x hx := (h'.received x hx).trans (h.received x hx)

theorem ClientsAgree.advance {id : ℕ} {c d : Clients σ} (h : ClientsAgree id c d)
    {s t : System σ} (hst : AgreeExcept id s t) :
    ClientsAgree id (c.advance s) (d.advance t) where
  system := hst
  handles := h.handles
  received x hx := by
    simp only [Clients.advance]
    rw [hst.subscribers x hx, h.received x hx]

theorem ClientsAgree.setHandles {id : ℕ} {c d : Clients σ} (h : ClientsAgree id c d)
    {handles handles' : IndexMap ℕ GroupMessageSubscription}
    (hh : ∀ x, x ≠ id → handles'.get? x = handles.get? x) :
    ClientsAgree id { c with handles := handles } { d with handles := handles' } :=
  ⟨h.system, hh, h.received⟩

theorem ClientsAgree.insertHandle {id : ℕ} {c d : Clients σ} (h : ClientsAgree id c d) (y : ℕ)
    (handle : GroupMessageSubscription) (x : ℕ) (hx : x ≠ id) :
    (d.handles.insert y handle).get? x = (c.handles.insert y handle).get? x := by
  rw [get?_insert, get?_insert, h.handles x hx]

theorem ClientsAgree.unsubscribe {id : ℕ} {c d : Clients σ} (h : ClientsAgree id c d)
    (hc : Sound c) (hd : Sound d) (y : ℕ) (handle : GroupMessageSubscription) (hy : y ≠ id)
    (hh : c.handles.get? y = some handle) :
    ClientsAgree id (handle.unsubscribe c) (handle.unsubscribe d) := by
  obtain ⟨rfl, -, hopen⟩ := hc.held y handle hh
  unfold GroupMessageSubscription.unsubscribe
  split
  · exact h
  · rename_i hfalse
    obtain ⟨w, hw, hgs⟩ := hopen (Bool.eq_false_iff.mpr hfalse)
    have hleft := h.system.leave hc.registry hd.registry handle.subscriberId handle.groupIds hy
      (by rw [liveGroups, hw, Option.map_some, hgs])
    exact (h.advance hleft).setHandles (h.insertHandle _ _)

def Names (id : ℕ) : Action → Bool
  | .fetchBacklog x => decide (x = id)
  | .finish x => decide (x = id)
  | .unsubscribe x => decide (x = id)
  | .drop x => decide (x = id)
  | _ => false

/-- A step of another subscription or of a post does the same on both sides. -/
theorem act_agree {S : CoordinatorStorage V σ} {id : ℕ} (action : Action) {c d c' : Clients σ}
    (hc : Sound c) (hd : Sound d) (h : ClientsAgree id c d) (hother : Names id action = false)
    (hact : Acts S c action c') : ∃ d', Acts S d action d' ∧ ClientsAgree id c' d' := by
  have hsub : ∀ y w, y ≠ id → c.system.subscriptions.get? y = some w →
      d.system.subscriptions.get? y = some w :=
    fun y w hy hw => (h.system.subscriptions y hy).trans hw
  cases hact with
  | append params => exact ⟨_, .append params, h.advance (h.system.append S params)⟩
  | publishLive record hr =>
    exact ⟨_, .publishLive record (h.system.posting ▸ hr),
      h.advance (h.system.publish hc.registry hd.registry record)⟩
  | subscribe groupId =>
    refine ⟨_, .subscribe groupId, ?_⟩
    rw [subscribe_eq, subscribe_eq, h.system.published, h.system.appended, h.system.nextId]
    exact (h.advance (h.system.enter hc.registry hd.registry _ _)).setHandles
      (h.insertHandle _ _)
  | register groups =>
    refine ⟨_, .register groups, ?_⟩
    rw [register_eq, register_eq, h.system.published, h.system.appended]
    exact h.advance (h.system.enter hc.registry hd.registry _ _)
  | fetchBacklog y w hw hstage =>
    have hy : y ≠ id := by simpa [Names] using hother
    exact ⟨_, .fetchBacklog y w (hsub y w hy hw) hstage,
      h.advance (h.system.fetchBacklog hc.registry hd.registry S y w hy hw)⟩
  | finish y w backlog hw hstage =>
    have hy : y ≠ id := by simpa [Names] using hother
    exact ⟨_, .finish y w backlog (hsub y w hy hw) hstage,
      (h.advance (h.system.finish y w backlog hy)).setHandles (h.insertHandle _ _)⟩
  | unsubscribe y handle hh =>
    have hy : y ≠ id := by simpa [Names] using hother
    exact ⟨_, .unsubscribe y handle ((h.handles y hy).trans hh),
      h.unsubscribe hc hd y handle hy hh⟩
  | drop y handle hh =>
    have hy : y ≠ id := by simpa [Names] using hother
    have hreleased := h.unsubscribe hc hd y handle hy hh
    refine ⟨_, .drop y handle ((h.handles y hy).trans hh), hreleased.setHandles ?_⟩
    intro x hx
    rw [get?_shiftRemove, get?_shiftRemove, hreleased.handles x hx]

theorem act_untouched {S : CoordinatorStorage V σ} {id : ℕ} (action : Action) {c c' : Clients σ}
    (hc : Sound c) (hid : id < c.system.registry.nextId) (hother : Names id action = false)
    (hact : Acts S c action c') :
    c'.system.subscriptions.get? id = c.system.subscriptions.get? id := by
  have hreleased : ∀ y (handle : GroupMessageSubscription), y ≠ id →
      c.handles.get? y = some handle → (handle.unsubscribe c).system.subscriptions.get? id =
        c.system.subscriptions.get? id := by
    intro y handle hy hh
    obtain ⟨rfl, -, -⟩ := hc.held y handle hh
    unfold GroupMessageSubscription.unsubscribe
    split
    · rfl
    · exact (get?_shiftRemove _ _ _).trans (if_neg (Ne.symm hy))
  cases hact with
  | append params =>
    simp only [Clients.advance, append]
    split <;> rfl
  | publishLive record hr => rfl
  | subscribe groupId => exact (get?_insert _ _ _ _).trans (if_neg (Nat.ne_of_lt hid))
  | register groups => exact (get?_insert _ _ _ _).trans (if_neg (Nat.ne_of_lt hid))
  | fetchBacklog y w hw hstage =>
    have hy : y ≠ id := by simpa [Names] using hother
    simp only [Clients.advance, fetchBacklog]
    split
    · exact (get?_shiftRemove _ _ _).trans (if_neg (Ne.symm hy))
    · exact (get?_insert _ _ _ _).trans (if_neg (Ne.symm hy))
  | finish y w backlog hw hstage =>
    have hy : y ≠ id := by simpa [Names] using hother
    exact (get?_insert _ _ _ _).trans (if_neg (Ne.symm hy))
  | unsubscribe y handle hh => exact hreleased y handle (by simpa [Names] using hother) hh
  | drop y handle hh => exact hreleased y handle (by simpa [Names] using hother) hh

theorem release_agree {c : Clients σ} (hc : Sound c) (id : ℕ)
    (handle : GroupMessageSubscription) (hh : c.handles.get? id = some handle) :
    ClientsAgree id c (handle.unsubscribe c) ∧ ClientsAgree id c (handle.drop c) := by
  obtain ⟨rfl, -, hopen⟩ := hc.held id handle hh
  have hgiven := hc.fresh handle.subscriberId (by rw [hh]; rfl)
  have hreleased : ClientsAgree handle.subscriberId c (handle.unsubscribe c) := by
    unfold GroupMessageSubscription.unsubscribe
    split
    · exact ClientsAgree.refl c hgiven
    · rename_i hfalse
      obtain ⟨w, hw, hgs⟩ := hopen (Bool.eq_false_iff.mpr hfalse)
      have hget := (hc.registry.registered.removeSubscriber handle.subscriberId handle.groupIds
        (by rw [liveGroups, hw, Option.map_some, hgs])).2
      have hsubscribers : ∀ x, x ≠ handle.subscriberId →
          (leave handle.subscriberId handle.groupIds c.system).registry.subscribers.get? x =
            c.system.registry.subscribers.get? x := fun x hx => (hget x).trans (if_neg hx)
      constructor
      · refine ⟨rfl, rfl, rfl, rfl, removeSubscriber_nextId _ _ _, hgiven, hsubscribers, ?_⟩
        exact fun x hx => (get?_shiftRemove _ _ _).trans (if_neg hx)
      · exact fun x hx => (get?_insert _ _ _ _).trans (if_neg hx)
      · intro x hx
        simp only [Clients.advance]
        rw [hsubscribers x hx]
        cases hsub : c.system.registry.subscribers.get? x with
        | none => rfl
        | some sub => exact (hc.received x sub hsub).symm
  refine ⟨hreleased, hreleased.system, fun x hx => ?_, hreleased.received⟩
  refine ((get?_shiftRemove _ _ _).trans (if_neg hx)).trans (hreleased.handles x hx)

/-- What a released subscription still does, nobody sees. -/
theorem act_released {S : CoordinatorStorage V σ} {id : ℕ} (action : Action) {c c' : Clients σ}
    (hc : Sound c) (hgone : c.system.subscriptions.get? id = none)
    (hown : Names id action = true) (hact : Acts S c action c') :
    c'.system.subscriptions.get? id = none ∧ ClientsAgree id c c' := by
  cases hact with
  | append params => simp [Names] at hown
  | publishLive record hr => simp [Names] at hown
  | subscribe groupId => simp [Names] at hown
  | register groups => simp [Names] at hown
  | fetchBacklog y w hw hstage =>
    obtain rfl : y = id := by simpa [Names] using hown
    simp [hgone] at hw
  | finish y w backlog hw hstage =>
    obtain rfl : y = id := by simpa [Names] using hown
    simp [hgone] at hw
  | unsubscribe y handle hh =>
    obtain rfl : y = id := by simpa [Names] using hown
    exact ⟨(unsubscribe_released hc y handle hh).1, (release_agree hc y handle hh).1⟩
  | drop y handle hh =>
    obtain rfl : y = id := by simpa [Names] using hown
    exact ⟨(unsubscribe_released hc y handle hh).1, (release_agree hc y handle hh).2⟩

theorem act_received {S : CoordinatorStorage V σ} {id : ℕ} (action : Action) {c c' : Clients σ}
    (hc' : Sound c') (hgone : c'.system.subscriptions.get? id = none)
    (hact : Acts S c action c') : c'.received id = c.received id := by
  have hnone : c'.system.registry.subscribers.get? id = none := by
    rw [← Option.not_isSome_iff_eq_none, hc'.registry.registered.subscribers id, liveGroups, hgone]
    simp
  have hadvance : ∀ s : System σ, s.registry.subscribers.get? id = none →
      (c.advance s).received id = c.received id := by
    intro s hs
    simp [Clients.advance, hs]
  cases hact with
  | append params => exact hadvance _ hnone
  | publishLive record hr => exact hadvance _ hnone
  | subscribe groupId => exact hadvance _ hnone
  | register groups => exact hadvance _ hnone
  | fetchBacklog y w hw hstage => exact hadvance _ hnone
  | finish y w backlog hw hstage => exact hadvance _ hnone
  | unsubscribe y handle hh =>
    unfold GroupMessageSubscription.unsubscribe at hnone ⊢
    split
    · rfl
    · rename_i hfalse
      rw [if_neg hfalse] at hnone
      exact hadvance _ hnone
  | drop y handle hh =>
    unfold GroupMessageSubscription.drop GroupMessageSubscription.unsubscribe at hnone ⊢
    dsimp only at hnone ⊢
    split
    · rfl
    · rename_i hfalse
      rw [if_neg hfalse] at hnone
      exact hadvance _ hnone

theorem act_gone {S : CoordinatorStorage V σ} {id : ℕ} (action : Action) {c c' : Clients σ}
    (hc : Sound c) (hid : id < c.system.registry.nextId)
    (hgone : c.system.subscriptions.get? id = none) (hact : Acts S c action c') :
    c'.system.subscriptions.get? id = none ∧ id < c'.system.registry.nextId := by
  cases hname : Names id action with
  | false =>
    obtain ⟨_, _, hagree⟩ := act_agree action hc hc (ClientsAgree.refl c hid) hname hact
    exact ⟨(act_untouched action hc hid hname hact).trans hgone, hagree.system.given⟩
  | true =>
    obtain ⟨hgone', hagree⟩ := act_released action hc hgone hname hact
    exact ⟨hgone', hagree.symm.system.given⟩

theorem step_sound {S : CoordinatorStorage V σ} (action : Action) (c c' : Clients σ)
    (h : Sound c) (hok : NamesGroup action) (hstep : clientStep S action c = some c') :
    Sound c' :=
  act_sound action c c' h hok ((clientStep_iff S action c c').mp hstep)

theorem run_sound {S : CoordinatorStorage V σ} (actions : List Action)
    (hok : ∀ action ∈ actions, NamesGroup action) (c c' : Clients σ) (h : Sound c)
    (hrun : Run.run (clientStep S) actions c = some c') : Sound c' :=
  Run.every_invariant (clientStep S) (fun action _ => NamesGroup action) Sound
    (fun action c₁ c₂ hs hnames hstep => step_sound action c₁ c₂ hs hnames hstep) actions c c' h
    (Run.every_of_forall NamesGroup (clientStep S) actions c hok) hrun

theorem run_agree {S : CoordinatorStorage V σ} {id : ℕ} (actions : List Action)
    (hok : ∀ action ∈ actions, NamesGroup action) (c d c' : Clients σ) (hc : Sound c)
    (hd : Sound d) (h : ClientsAgree id c d)
    (hquiet : c.system.subscriptions.get? id = none ∨ ∀ action ∈ actions, Names id action = false)
    (hrun : Run.run (clientStep S) actions c = some c') :
    c'.system.subscriptions.get? id = c.system.subscriptions.get? id ∧
      ∃ d', Run.run (clientStep S) (actions.filter (fun a => !Names id a)) d = some d' ∧
        Sound d' ∧ ClientsAgree id c' d' := by
  induction actions generalizing c d with
  | nil =>
    obtain rfl := Option.some.inj hrun
    exact ⟨rfl, d, rfl, hd, h⟩
  | cons action actions ih =>
    obtain ⟨m, hm, hrest⟩ := (Run.run_cons _ _ _ _ _).mp hrun
    have hact := (clientStep_iff S action c m).mp hm
    have hms := act_sound action c m hc (hok action (by simp)) hact
    have hoks : ∀ a ∈ actions, NamesGroup a := fun a ha => hok a (by simp [ha])
    have hquiets : c.system.subscriptions.get? id = none ∨
        ∀ a ∈ actions, Names id a = false := hquiet.imp_right (fun hq a ha => hq a (by simp [ha]))
    cases hname : Names id action with
    | false =>
      obtain ⟨m', hact', hagree⟩ := act_agree action hc hd h hname hact
      have hstep' := (clientStep_iff S action d m').mpr hact'
      have hms' := act_sound action d m' hd (hok action (by simp)) hact'
      have hsame := act_untouched action hc h.system.given hname hact
      rw [← hsame] at hquiets
      obtain ⟨hkept, d', hrun', hd', hend⟩ := ih hoks m m' hms hms' hagree hquiets hrest
      refine ⟨hkept.trans hsame, d', ?_, hd', hend⟩
      rw [List.filter_cons_of_pos (by simp [hname])]
      exact (Run.run_cons _ _ _ _ _).mpr ⟨m', hstep', hrun'⟩
    | true =>
      have hgone := hquiet.resolve_right (fun hq => by simp [hq action (by simp)] at hname)
      obtain ⟨hgone', hown⟩ := act_released action hc hgone hname hact
      obtain ⟨hkept, d', hrun', hd', hend⟩ :=
        ih hoks m d hms hd (hown.symm.trans h) (Or.inl hgone') hrest
      refine ⟨hkept.trans (hgone'.trans hgone.symm), d', ?_, hd', hend⟩
      rw [List.filter_cons_of_neg (by simp [hname])]
      exact hrun'

theorem run_received {S : CoordinatorStorage V σ} {id : ℕ} (actions : List Action)
    (hok : ∀ action ∈ actions, NamesGroup action) (c c' : Clients σ) (hc : Sound c)
    (hid : id < c.system.registry.nextId) (hgone : c.system.subscriptions.get? id = none)
    (hrun : Run.run (clientStep S) actions c = some c') : c'.received id = c.received id := by
  induction actions generalizing c with
  | nil => rw [Option.some.inj hrun]
  | cons action actions ih =>
    obtain ⟨m, hm, hrest⟩ := (Run.run_cons _ _ _ _ _).mp hrun
    have hact := (clientStep_iff S action c m).mp hm
    have hms := act_sound action c m hc (hok action (by simp)) hact
    obtain ⟨hgone', hid'⟩ := act_gone action hc hid hgone hact
    rw [ih (fun a ha => hok a (by simp [ha])) m hms hid' hgone' hrest]
    exact act_received action hms hgone' hact

end Cordn.Coordinator
