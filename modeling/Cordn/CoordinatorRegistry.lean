import Cordn.Coordinator

/-!
# The registry of subscribers

The three maps of the registry agree on which subscriptions are live: the sets
of a group hold those that asked for it, the counts their numbers of groups.
A publish reaches each live subscription to the group once and no other.
-/

set_option autoImplicit false

namespace Cordn.Coordinator
open IndexMap SubscriberRegistry

def countOf : List String → Option ℕ
  | [] => none
  | _::gs => some (gs.length+1)

/-- The maps agree with the live subscriptions and the groups of each. -/
structure Registered (reg : SubscriberRegistry) (live : ℕ → Option (List String)) : Prop where
  subscribers : ∀ id, (reg.subscribers.get? id).isSome ↔ (live id).isSome
  members : ∀ g id, id ∈ reg.groupSubscribers.bucket g ↔ ∃ gs, live id = some gs ∧ g ∈ gs
  distinct : ∀ g, (reg.groupSubscribers.bucket g).Nodup
  counts : ∀ id, reg.refcounts.get? id = (live id).bind countOf
  fresh : ∀ id, (live id).isSome → id < reg.nextId

def relive (live : ℕ → Option (List String)) (id : ℕ) (gs : Option (List String)) :
    ℕ → Option (List String) :=
  fun x => if x = id then gs else live x

theorem registered_new : Registered new (fun _ => none) where
  subscribers id := by simp [new]
  members g id := by simp [new]
  distinct g := by simp [new]
  counts id := by simp [new]
  fresh id h := by simp at h

theorem enterGroup_bucket (id : ℕ) (reg : SubscriberRegistry) (g x : String) :
    (enterGroup id reg g).groupSubscribers.bucket x =
      if x = g then (reg.groupSubscribers.bucket g).insert id
      else reg.groupSubscribers.bucket x := by
  simp only [enterGroup, bucket, get?_upsert]
  split <;> rfl

theorem enterAll_bucket (id : ℕ) (gs : List String) (reg : SubscriberRegistry) (x : String) :
    (gs.foldl (enterGroup id) reg).groupSubscribers.bucket x =
      if x ∈ gs then (reg.groupSubscribers.bucket x).insert id
      else reg.groupSubscribers.bucket x := by
  induction gs generalizing reg with
  | nil => simp
  | cons g gs ih =>
    rw [List.foldl_cons, ih, enterGroup_bucket]
    by_cases hg : x = g
    · subst hg
      by_cases hx : x ∈ gs <;> simp [hx]
    · simp [hg]

theorem enterAll_counts (id : ℕ) (gs : List String) (reg : SubscriberRegistry) (x : ℕ) :
    (gs.foldl (enterGroup id) reg).refcounts.get? x =
      if x = id ∧ gs ≠ [] then some ((reg.refcounts.get? id).getD 0 + gs.length)
      else reg.refcounts.get? x := by
  induction gs generalizing reg with
  | nil => simp
  | cons g gs ih =>
    rw [List.foldl_cons, ih]
    by_cases hx : x = id
    · subst hx
      cases gs with
      | nil => simp [enterGroup]
      | cons g' gs =>
        simp [enterGroup]
        omega
    · simp [enterGroup, hx]

theorem enterAll_rest (id : ℕ) (gs : List String) (reg : SubscriberRegistry) :
    (gs.foldl (enterGroup id) reg).subscribers = reg.subscribers ∧
      (gs.foldl (enterGroup id) reg).nextId = reg.nextId := by
  induction gs generalizing reg with
  | nil => exact ⟨rfl, rfl⟩
  | cons g gs ih => exact ih _

theorem leaveGroup_bucket (id : ℕ) (reg : SubscriberRegistry) (g x : String) :
    (leaveGroup id reg g).groupSubscribers.bucket x =
      if x = g then (reg.groupSubscribers.bucket g).filter (fun y => decide (y ≠ id))
      else reg.groupSubscribers.bucket x := by
  simp only [leaveGroup]
  cases hg : reg.groupSubscribers.get? g with
  | none =>
    by_cases hx : x = g
    · simp [hx, bucket, hg]
    · simp [hx]
  | some ids =>
    have hb : reg.groupSubscribers.bucket g = ids := by simp [bucket, hg]
    rw [bucket_putBack, hb]

theorem leaveAll_bucket (id : ℕ) (gs : List String) (reg : SubscriberRegistry) (x : String) :
    (gs.foldl (leaveGroup id) reg).groupSubscribers.bucket x =
      if x ∈ gs then (reg.groupSubscribers.bucket x).filter (fun y => decide (y ≠ id))
      else reg.groupSubscribers.bucket x := by
  induction gs generalizing reg with
  | nil => simp
  | cons g gs ih =>
    rw [List.foldl_cons, ih, leaveGroup_bucket]
    by_cases hg : x = g
    · subst hg
      by_cases hx : x ∈ gs <;> simp [hx]
    · simp [hg]

theorem leaveAll_count (id : ℕ) (gs : List String) (reg : SubscriberRegistry)
    (h : reg.refcounts.get? id = countOf gs) :
    (gs.foldl (leaveGroup id) reg).refcounts.get? id = none := by
  induction gs generalizing reg with
  | nil => exact h
  | cons g gs ih =>
    apply ih
    rw [countOf] at h
    simp only [leaveGroup, h, Nat.add_sub_cancel]
    cases gs with
    | nil => simp [countOf]
    | cons g' gs => simp [countOf]

theorem leaveAll_counts (id : ℕ) (gs : List String) (reg : SubscriberRegistry) (x : ℕ)
    (hx : x ≠ id) :
    (gs.foldl (leaveGroup id) reg).refcounts.get? x = reg.refcounts.get? x := by
  induction gs generalizing reg with
  | nil => rfl
  | cons g gs ih =>
    rw [List.foldl_cons, ih]
    simp only [leaveGroup]
    cases hc : reg.refcounts.get? id with
    | none => rfl
    | some count =>
      dsimp only
      split <;> simp [hx]

theorem leaveAll_rest (id : ℕ) (gs : List String) (reg : SubscriberRegistry) :
    (gs.foldl (leaveGroup id) reg).subscribers = reg.subscribers ∧
      (gs.foldl (leaveGroup id) reg).nextId = reg.nextId := by
  induction gs generalizing reg with
  | nil => exact ⟨rfl, rfl⟩
  | cons g gs ih => exact ih _

theorem Registered.registerMany {reg : SubscriberRegistry} {live : ℕ → Option (List String)}
    (h : Registered reg live) (gs : List String) (sub : Subscriber) :
    Registered (reg.registerMany gs sub).2 (relive live reg.nextId (some gs)) ∧
      live reg.nextId = none ∧ (reg.registerMany gs sub).1 = reg.nextId ∧
      ∀ x, (reg.registerMany gs sub).2.subscribers.get? x =
        if x = reg.nextId then some sub else reg.subscribers.get? x := by
  have hnew : live reg.nextId = none := by
    cases hl : live reg.nextId with
    | none => rfl
    | some gs => exact absurd (h.fresh _ (by simp [hl])) (lt_irrefl _)
  have hcount : reg.refcounts.get? reg.nextId = none := by rw [h.counts, hnew, Option.bind_none]
  obtain ⟨hsubs, hnext⟩ := enterAll_rest reg.nextId gs { reg with
    nextId := reg.nextId+1, subscribers := reg.subscribers.insert reg.nextId sub }
  have hget : ∀ x, (reg.registerMany gs sub).2.subscribers.get? x =
      if x = reg.nextId then some sub else reg.subscribers.get? x := by
    intro x
    simp only [SubscriberRegistry.registerMany, hsubs, get?_insert]
  refine ⟨?_, hnew, rfl, hget⟩
  constructor
  · intro id
    rw [hget, relive]
    split
    · simp
    · exact h.subscribers id
  · intro g id
    simp only [SubscriberRegistry.registerMany, enterAll_bucket, relive]
    by_cases hid : id = reg.nextId
    · subst hid
      by_cases hg : g ∈ gs
      · simp [hg]
      · simp [hg, h.members, hnew]
    · by_cases hg : g ∈ gs
      · simp [hg, hid, h.members]
      · simp [hg, hid, h.members]
  · intro g
    simp only [SubscriberRegistry.registerMany, enterAll_bucket]
    split
    · exact (h.distinct g).insert
    · exact h.distinct g
  · intro id
    simp only [SubscriberRegistry.registerMany, enterAll_counts, relive, hcount]
    by_cases hid : id = reg.nextId
    · subst hid
      cases gs with
      | nil => simp [hcount, countOf]
      | cons g gs => simp [countOf]
    · simp [hid, h.counts]
  · intro id hid
    simp only [SubscriberRegistry.registerMany, hnext]
    simp only [relive] at hid
    split at hid
    · rename_i he
      omega
    · exact Nat.lt_succ_of_lt (h.fresh id hid)

theorem Registered.removeSubscriber {reg : SubscriberRegistry} {live : ℕ → Option (List String)}
    (h : Registered reg live) (id : ℕ) (gs : List String) (hid : live id = some gs) :
    Registered (reg.removeSubscriber id gs) (relive live id none) ∧
      ∀ x, (reg.removeSubscriber id gs).subscribers.get? x =
        if x = id then none else reg.subscribers.get? x := by
  have hcount : reg.refcounts.get? id = countOf gs := by
    rw [h.counts, hid]
    rfl
  have hgone := leaveAll_count id gs reg hcount
  obtain ⟨hsubs, hnext⟩ := leaveAll_rest id gs reg
  have hrun : reg.removeSubscriber id gs = { gs.foldl (leaveGroup id) reg with
      subscribers := reg.subscribers.shiftRemove id } := by
    simp [SubscriberRegistry.removeSubscriber, hgone, hsubs]
  have hget : ∀ x, (reg.removeSubscriber id gs).subscribers.get? x =
      if x = id then none else reg.subscribers.get? x := by
    intro x
    rw [hrun]
    exact get?_shiftRemove _ _ _
  refine ⟨?_, hget⟩
  constructor
  · intro x
    rw [hget, relive]
    split
    · simp
    · exact h.subscribers x
  · intro g x
    rw [hrun]
    simp only [leaveAll_bucket, relive]
    by_cases hx : x = id
    · subst hx
      by_cases hg : g ∈ gs
      · simp [hg]
      · simp [hg, h.members, hid]
    · by_cases hg : g ∈ gs
      · simp [hg, hx, h.members]
      · simp [hg, hx, h.members]
  · intro g
    rw [hrun]
    simp only [leaveAll_bucket]
    split
    · exact (h.distinct g).filter _
    · exact h.distinct g
  · intro x
    rw [hrun]
    by_cases hx : x = id
    · subst hx
      simp [relive, hgone]
    · simp [relive, hx, leaveAll_counts id gs reg x hx, h.counts]
  · intro x hx
    simp only [relive] at hx
    split at hx
    · simp at hx
    · rw [hrun]
      simp only [hnext]
      exact h.fresh x hx

theorem Registered.rewrite {reg reg' : SubscriberRegistry} {live : ℕ → Option (List String)}
    (h : Registered reg live)
    (hsubs : ∀ x, (reg'.subscribers.get? x).isSome = (reg.subscribers.get? x).isSome)
    (hgroups : reg'.groupSubscribers = reg.groupSubscribers)
    (hcounts : reg'.refcounts = reg.refcounts) (hnext : reg'.nextId = reg.nextId) :
    Registered reg' live where
  subscribers id := by
    rw [hsubs]
    exact h.subscribers id
  members g id := by
    rw [hgroups]
    exact h.members g id
  distinct g := by
    rw [hgroups]
    exact h.distinct g
  counts id := by
    rw [hcounts]
    exact h.counts id
  fresh id hid := by
    rw [hnext]
    exact h.fresh id hid

theorem adjustAll_get? (f : Subscriber → Subscriber) (ids : List ℕ) (hids : ids.Nodup)
    (subs : IndexMap ℕ Subscriber) (x : ℕ) :
    (ids.foldl (fun subs id => subs.adjust id f) subs).get? x =
      if x ∈ ids then (subs.get? x).map f else subs.get? x := by
  induction ids generalizing subs with
  | nil => simp
  | cons id ids ih =>
    obtain ⟨hid, hids⟩ := List.nodup_cons.mp hids
    rw [List.foldl_cons, ih hids, get?_adjust]
    by_cases hx : x = id
    · subst hx
      simp [hid]
    · simp [hx]

theorem Registered.publishLive {reg : SubscriberRegistry} {live : ℕ → Option (List String)}
    (h : Registered reg live) (record : GroupMessageRecord) :
    Registered (reg.publishLive record) live ∧
      ∀ x gs, live x = some gs → (reg.publishLive record).subscribers.get? x =
        (reg.subscribers.get? x).map
          (fun sub => if record.groupId ∈ gs then sub.push record else sub) := by
  have hget : ∀ x, (reg.publishLive record).subscribers.get? x =
      if x ∈ reg.groupSubscribers.bucket record.groupId then
        (reg.subscribers.get? x).map (fun sub => sub.push record)
      else reg.subscribers.get? x := by
    intro x
    simp only [SubscriberRegistry.publishLive]
    cases hg : reg.groupSubscribers.get? record.groupId with
    | none => simp [bucket, hg]
    | some ids =>
      have hb : reg.groupSubscribers.bucket record.groupId = ids := by simp [bucket, hg]
      have hn := h.distinct record.groupId
      rw [hb] at hn ⊢
      exact adjustAll_get? _ ids hn _ x
  have hrest : (reg.publishLive record).groupSubscribers = reg.groupSubscribers ∧
      (reg.publishLive record).refcounts = reg.refcounts ∧
      (reg.publishLive record).nextId = reg.nextId := by
    simp only [SubscriberRegistry.publishLive]
    split <;> exact ⟨rfl, rfl, rfl⟩
  obtain ⟨hgroups, hcounts, hnext⟩ := hrest
  constructor
  · refine h.rewrite (fun x => ?_) hgroups hcounts hnext
    rw [hget]
    split
    · exact Option.isSome_map
    · rfl
  · intro x gs hx
    rw [hget]
    by_cases hg : record.groupId ∈ gs
    · rw [if_pos ((h.members _ _).mpr ⟨gs, hx, hg⟩)]
      simp [hg]
    · have hn : x ∉ reg.groupSubscribers.bucket record.groupId := by
        rw [h.members]
        rintro ⟨gs', hx', hg'⟩
        rw [hx] at hx'
        exact hg (Option.some.inj hx' ▸ hg')
      rw [if_neg hn]
      simp [hg]

theorem registerMany_nextId (gs : List String) (sub : Subscriber) (reg : SubscriberRegistry) :
    (reg.registerMany gs sub).2.nextId = reg.nextId+1 :=
  (enterAll_rest _ _ _).2

theorem removeSubscriber_nextId (id : ℕ) (gs : List String) (reg : SubscriberRegistry) :
    (reg.removeSubscriber id gs).nextId = reg.nextId := by
  have hrest := (leaveAll_rest id gs reg).2
  simp only [SubscriberRegistry.removeSubscriber]
  split <;> exact hrest

theorem publishLive_nextId (r : GroupMessageRecord) (reg : SubscriberRegistry) :
    (reg.publishLive r).nextId = reg.nextId := by
  simp only [SubscriberRegistry.publishLive]
  split <;> rfl

theorem enterAll_filled (id : ℕ) (gs : List String) (reg : SubscriberRegistry)
    (h : Filled reg.groupSubscribers) :
    Filled (gs.foldl (enterGroup id) reg).groupSubscribers := by
  induction gs generalizing reg with
  | nil => exact h
  | cons g gs ih =>
    apply ih
    refine alter_filled g _ _ (fun o => ?_) h
    exact List.ne_nil_of_mem List.mem_insert_self

theorem registerMany_filled (gs : List String) (sub : Subscriber) (reg : SubscriberRegistry)
    (h : Filled reg.groupSubscribers) : Filled (reg.registerMany gs sub).2.groupSubscribers :=
  enterAll_filled _ gs _ h

theorem leaveAll_filled (id : ℕ) (gs : List String) (reg : SubscriberRegistry)
    (h : Filled reg.groupSubscribers) :
    Filled (gs.foldl (leaveGroup id) reg).groupSubscribers := by
  induction gs generalizing reg with
  | nil => exact h
  | cons g gs ih =>
    apply ih
    simp only [leaveGroup]
    split
    · exact h
    · exact h.putBack _ _

theorem removeSubscriber_filled (id : ℕ) (gs : List String) (reg : SubscriberRegistry)
    (h : Filled reg.groupSubscribers) : Filled (reg.removeSubscriber id gs).groupSubscribers := by
  have hleft := leaveAll_filled id gs reg h
  simp only [SubscriberRegistry.removeSubscriber]
  split <;> exact hleft

theorem publishLive_filled (r : GroupMessageRecord) (reg : SubscriberRegistry)
    (h : Filled reg.groupSubscribers) : Filled (reg.publishLive r).groupSubscribers := by
  simp only [SubscriberRegistry.publishLive]
  split <;> exact h

end Cordn.Coordinator
