import Mathlib.Data.List.Induction
import Cordn.AdapterConcurrent

/-!
# Removals among concurrent calls

A removal checks who owns the package under a ref and then deletes by that ref.
In between another call can take the package out, and another client can publish
one of its own under the ref.
-/

set_option autoImplicit false

namespace Cordn.Adapter
open Call KeyPackageOps

variable {V σ L : Type}

def OwnDeletions (server : Server V σ L) : Prop := ∀ d ∈ server.deleted, d.2.stablePubkey = d.1

/-- What the step of a call takes out of the shelf. A last-resort package stays
when it is consumed. -/
def Task.takes (shelf : KeyShelf V) : Task V → Option (PublishedKeyPackageRecord V)
  | .evict _ _ next _ => withRef shelf next.keyPackageRef
  | .remove _ kpRef _ _ => withRef shelf kpRef
  | .consume id => (taken shelf id).filter (fun r => !r.isLastResort)
  | _ => none

section Steps

variable (A : CoordinatorAdapter V σ L)

def named (kpRef : String) (server : Server V σ L) : Option (PublishedKeyPackageRecord V) :=
  withRef (stored A.storage server.storage) kpRef

def ChecksOwn (i : ℕ) (client kpRef : String) (server : Server V σ L) : Prop :=
  ∃ call kpRefs removed record, server.calls[i]? = some call ∧
    call.caller.clientPubkey = client ∧ call.task = .check kpRef kpRefs removed ∧
    named A kpRef server = some record ∧ record.stablePubkey = client

def TakesNamed (kpRef : String) (event : Event) (server : Server V σ L) : Prop :=
  ∃ i call record, event = .advance i ∧ server.calls[i]? = some call ∧
    call.task.takes (stored A.storage server.storage) = some record ∧
    named A kpRef server = some record

def PublishesRival (client kpRef : String) (event : Event) (server : Server V σ L) : Prop :=
  ∃ i call rival records, event = .advance i ∧ server.calls[i]? = some call ∧
    call.task = .insert rival records ∧ rival.keyPackageRef = kpRef ∧
    rival.stablePubkey ≠ client

/-- Behind a check of the run, and before the call's delete, a rival's publish or the
take of what stood before a rival's package hands the ref over to the rival, and what
the ref names stays. -/
def HandedOver (events : List Event) (server : Server V σ L) : Prop :=
  ∃ before i between event later after client kpRef rival,
    events = before ++ .advance i::(between ++ event::later ++ .advance i::after) ∧
    ChecksOwn A i client kpRef (Run.after (serve A) before server) ∧
    (∀ e ∈ between ++ event::later, e ≠ .advance i) ∧
    (TakesNamed A kpRef event (Run.after (serve A) (before ++ .advance i::between) server) ∨
      PublishesRival client kpRef event
        (Run.after (serve A) (before ++ .advance i::between) server)) ∧
    named A kpRef (Run.after (serve A) (before ++ .advance i::between) server) ≠ some rival ∧
    named A kpRef (Run.after (serve A) (before ++ .advance i::(between ++ [event])) server) =
      some rival ∧ rival.stablePubkey ≠ client ∧
    Run.Along (fun e m => named A kpRef (serve A e m).2 = named A kpRef m) (serve A) later
      (Run.after (serve A) (before ++ .advance i::(between ++ [event])) server)

/-- Behind a check of the run, and before the call's delete, another call takes the
package out, then another client publishes under the ref, and nobody takes that
package out. -/
def Replaced (events : List Event) (server : Server V σ L) : Prop :=
  ∃ before i between take gap publish later after client kpRef,
    events = before ++ .advance i::(between ++ take::(gap ++ publish::later) ++
      .advance i::after) ∧
    ChecksOwn A i client kpRef (Run.after (serve A) before server) ∧
    (∀ e ∈ between ++ take::(gap ++ publish::later), e ≠ .advance i) ∧
    TakesNamed A kpRef take (Run.after (serve A) (before ++ .advance i::between) server) ∧
    PublishesRival client kpRef publish
      (Run.after (serve A) (before ++ .advance i::(between ++ take::gap)) server) ∧
    named A kpRef (Run.after (serve A) (before ++ .advance i::(between ++ take::gap)) server) =
      none ∧
    Run.Along (fun e m => ¬TakesNamed A kpRef e m) (serve A) later
      (Run.after (serve A) (before ++ .advance i::(between ++ take::(gap ++ [publish]))) server)

def DeletesForeign (event : Event) (server : Server V σ L) : Prop :=
  ∃ i call record kpRef kpRefs removed rival, event = .advance i ∧
    server.calls[i]? = some call ∧ call.task = .remove record kpRef kpRefs removed ∧
    named A kpRef server = some rival ∧ rival.stablePubkey ≠ call.caller.clientPubkey

end Steps

theorem withRef_inserted {l l' : KeyShelf V} {r : PublishedKeyPackageRecord V}
    (h : Inserted l r l') (kpRef : String) : withRef l' kpRef = withRef l kpRef ∨
      r.keyPackageRef = kpRef ∧ withRef l' kpRef = some r := by
  obtain ⟨before, behind, rfl, rfl⟩ := h
  simp only [withRef, List.find?_append, List.find?_cons]
  by_cases href : r.keyPackageRef = kpRef
  · have hr : hasRef kpRef r = true := decide_eq_true href
    rw [hr]
    cases before.find? (hasRef kpRef) with
    | none => exact Or.inr ⟨href, rfl⟩
    | some q => exact Or.inl rfl
  · have hr : hasRef kpRef r = false := decide_eq_false href
    rw [hr]
    exact Or.inl rfl

theorem withRef_entered {l l' : KeyShelf V} {r : PublishedKeyPackageRecord V}
    (h : Inserted l r l') (hnone : withRef l r.keyPackageRef = none) :
    withRef l' r.keyPackageRef = some r := by
  obtain ⟨before, behind, rfl, rfl⟩ := h
  rw [withRef, List.find?_append, Option.or_eq_none_iff] at hnone
  rw [withRef, List.find?_append, hnone.1, Option.none_or, List.find?_cons,
    show hasRef r.keyPackageRef r = true from decide_eq_true rfl]

theorem withRef_taken {l l' : KeyShelf V} {r : PublishedKeyPackageRecord V}
    (hunique : UniqueRefs l) (h : Inserted l' r l) : withRef l' r.keyPackageRef = none := by
  have hl' : UniqueRefs l' := by
    obtain ⟨before, behind, rfl, rfl⟩ := h
    exact hunique.sublist ((List.sublist_cons_self r behind).append_left before |>.map _)
  have hfresh := (hl'.inserted h).mp hunique
  apply List.find?_eq_none.mpr
  intro q hq
  simpa [hasRef] using hfresh q hq

theorem eraseP_inserted (l : KeyShelf V) (kpRef : String) :
    match withRef l kpRef with
    | none => l.eraseP (hasRef kpRef) = l
    | some r => Inserted (l.eraseP (hasRef kpRef)) r l := by
  cases h : withRef l kpRef with
  | none => exact List.eraseP_of_forall_not (List.find?_eq_none.mp h)
  | some r =>
    obtain ⟨hr, before, behind, rfl, hbefore⟩ := List.find?_eq_some_iff_append.mp h
    refine ⟨before, behind, ?_, rfl⟩
    rw [List.eraseP_append_right _ (fun q hq => by simpa using hbefore q hq),
      List.eraseP_cons_of_pos hr]

section Backend

variable {A : CoordinatorAdapter V σ L} {Kept : σ → Prop} {unique : Bool}

theorem advance_shelf (hA : KeepsShelf A.storage Kept unique) (c : Caller) (task : Task V) (s : σ)
    (hs : Kept s) :
    match task.takes (stored A.storage s) with
    | some r => Inserted (stored A.storage (advance A c task s).2) r (stored A.storage s)
    | none => stored A.storage (advance A c task s).2 = stored A.storage s ∨
      ∃ record records, task = .insert record records ∧
        ¬Refused unique record (stored A.storage s) ∧
        Inserted (stored A.storage s) record (stored A.storage (advance A c task s).2) := by
  cases task with
  | list record =>
    rw [advance_list hA c record s hs _ rfl]
    exact Or.inl rfl
  | evict record records next oldest =>
    obtain ⟨s', hstep, -, hleft⟩ := advance_evict hA c record next records oldest s hs
    have herase := eraseP_inserted (stored A.storage s) next.keyPackageRef
    rw [hstep]
    simp only [Task.takes, hleft]
    split at herase
    · rename_i hnone
      simp only [hnone]
      exact Or.inl herase
    · rename_i r hr
      simpa only [hr] using herase
  | insert record records =>
    by_cases href : Refused unique record (stored A.storage s)
    · obtain ⟨e, hstep⟩ := advance_refused hA c record records s hs href
      rw [hstep]
      exact Or.inl rfl
    · obtain ⟨result, s', hstep, -, hin⟩ := advance_insert hA c record records s hs href
      rw [hstep]
      exact Or.inr ⟨record, records, rfl, href, hin⟩
  | check kpRef kpRefs removed =>
    rcases advance_check hA c kpRef kpRefs removed s hs with ⟨e, hstep⟩ | ⟨r, -, -, hstep⟩ <;>
      rw [hstep] <;> exact Or.inl rfl
  | remove record kpRef kpRefs removed =>
    obtain ⟨removed', s', hstep, -, hleft⟩ := advance_remove hA c record kpRef kpRefs removed s hs
    have herase := eraseP_inserted (stored A.storage s) kpRef
    rw [hstep]
    simp only [Task.takes, hleft]
    split at herase
    · rename_i hnone
      simp only [hnone]
      exact Or.inl herase
    · rename_i r hr
      simpa only [hr] using herase
  | consume id =>
    obtain ⟨result, s', hstep, -, hleft⟩ := advance_consume hA c id s hs
    rw [hstep]
    cases ht : taken (stored A.storage s) id with
    | none =>
      rw [ht] at hleft
      simp only [Task.takes, ht]
      exact Or.inl hleft
    | some r =>
      rw [ht] at hleft
      cases hlast : r.isLastResort with
      | true =>
        simp only [Consumed, hlast, if_true] at hleft
        simp only [Task.takes, ht, Option.filter_some, hlast, Bool.not_true, Bool.false_eq_true,
          if_false]
        exact Or.inl hleft
      | false =>
        simp only [Consumed, hlast, Bool.false_eq_true, if_false] at hleft
        simpa only [Task.takes, ht, Option.filter_some, hlast, Bool.not_false, if_true] using hleft
  | done result => exact Or.inl rfl

theorem serve_kept (hA : KeepsShelf A.storage Kept unique) (event : Event)
    (server : Server V σ L) (h : Kept server.storage) :
    Kept (serve A event server).2.storage := by
  cases event with
  | start c request =>
    rw [serve]
    split <;> exact h
  | advance i =>
    rw [serve]
    split
    · exact h
    · exact advance_kept hA _ _ _ h

theorem named_step (hA : KeepsShelf A.storage Kept unique) (kpRef : String) (event : Event)
    (server : Server V σ L) (h : Kept server.storage) :
    named A kpRef (serve A event server).2 = named A kpRef server ∨
      TakesNamed A kpRef event server ∨
      ∃ i call rival records, event = .advance i ∧ server.calls[i]? = some call ∧
        call.task = .insert rival records ∧ rival.keyPackageRef = kpRef ∧
        named A kpRef (serve A event server).2 = some rival := by
  cases event with
  | start c request =>
    refine Or.inl ?_
    rw [serve]
    split <;> rfl
  | advance i =>
    cases hget : server.calls[i]? with
    | none =>
      refine Or.inl ?_
      simp only [serve, hget]
    | some call =>
      have hstorage : (serve A (.advance i) server).2.storage =
          (advance A call.caller call.task server.storage).2 := by simp only [serve, hget]
      have hshelf := advance_shelf hA call.caller call.task server.storage h
      simp only [named, hstorage]
      split at hshelf
      · rename_i r htakes
        rcases withRef_inserted hshelf kpRef with hsame | ⟨-, hnamed⟩
        · exact Or.inl hsame.symm
        · exact Or.inr (Or.inl ⟨i, call, r, rfl, hget, htakes, hnamed⟩)
      · rcases hshelf with hsame | ⟨record, records, htask, -, hin⟩
        · exact Or.inl (by rw [hsame])
        · rcases withRef_inserted hin kpRef with hsame | ⟨href, hnamed⟩
          · exact Or.inl hsame
          · exact Or.inr (Or.inr ⟨i, call, record, records, rfl, hget, htask, href, hnamed⟩)

theorem named_taken (hA : KeepsShelf A.storage Kept true) (kpRef : String) (event : Event)
    (server : Server V σ L) (h : Kept server.storage) (htakes : TakesNamed A kpRef event server) :
    named A kpRef (serve A event server).2 = none := by
  obtain ⟨i, call, record, rfl, hget, hrecord, hnamed⟩ := htakes
  have hunique := hA.distinct server.storage h rfl
  obtain ⟨-, rfl⟩ := (withRef_eq_some _ hunique kpRef record).mp hnamed
  have hshelf := advance_shelf hA call.caller call.task server.storage h
  rw [hrecord] at hshelf
  have hstorage : (serve A (.advance i) server).2.storage =
      (advance A call.caller call.task server.storage).2 := by simp only [serve, hget]
  rw [named, hstorage]
  exact withRef_taken hunique hshelf

theorem named_published (hA : KeepsShelf A.storage Kept true) (kpRef : String) (event : Event)
    (server : Server V σ L) (h : Kept server.storage) {rival : PublishedKeyPackageRecord V}
    (hnext : named A kpRef (serve A event server).2 = some rival)
    (hchanged : named A kpRef server ≠ some rival) : named A kpRef server = none := by
  cases event with
  | start c request =>
    refine absurd ?_ hchanged
    rw [← hnext, serve]
    split <;> rfl
  | advance i =>
    cases hget : server.calls[i]? with
    | none =>
      refine absurd ?_ hchanged
      simpa only [serve, hget] using hnext
    | some call =>
      have hstorage : (serve A (.advance i) server).2.storage =
          (advance A call.caller call.task server.storage).2 := by simp only [serve, hget]
      have hshelf := advance_shelf hA call.caller call.task server.storage h
      simp only [named, hstorage] at hnext hchanged ⊢
      split at hshelf
      · rcases withRef_inserted hshelf kpRef with hsame | ⟨rfl, hnamed⟩
        · exact absurd (hsame.trans hnext) hchanged
        · rw [withRef_taken (hA.distinct server.storage h rfl) hshelf] at hnext
          cases hnext
      · rcases hshelf with hsame | ⟨record, records, -, haccepted, hin⟩
        · exact absurd (hsame ▸ hnext) hchanged
        · rcases withRef_inserted hin kpRef with hsame | ⟨rfl, -⟩
          · exact absurd (hsame.symm.trans hnext) hchanged
          · cases hold : withRef (stored A.storage server.storage) record.keyPackageRef with
            | none => rfl
            | some q =>
              refine absurd ⟨rfl, q, List.mem_of_find?_eq_some hold, ?_⟩ haccepted
              simpa [hasRef] using List.find?_some hold

theorem mem_deletedBy (hA : KeepsShelf A.storage Kept unique) (call : InFlight V) (s : σ)
    (hs : Kept s) (d : String × PublishedKeyPackageRecord V) :
    d ∈ deletedBy A call s ↔ ∃ record kpRef kpRefs removed,
      call.task = .remove record kpRef kpRefs removed ∧
        withRef (stored A.storage s) kpRef = some d.2 ∧ d.1 = call.caller.clientPubkey := by
  obtain ⟨client, r⟩ := d
  rw [deletedBy]
  split
  · rename_i record kpRef kpRefs removed htask
    rw [(hA.remove s kpRef hs).1]
    constructor
    · intro hd
      split at hd
      · rename_i q hq
        obtain ⟨rfl, rfl⟩ := Prod.mk.inj (List.mem_singleton.mp hd)
        exact ⟨record, kpRef, kpRefs, removed, htask, Except.ok.inj hq, rfl⟩
      · simp at hd
    · rintro ⟨record', kpRef', kpRefs', removed', htask', hr, rfl⟩
      obtain ⟨-, rfl, -, -⟩ := Task.remove.inj (htask.symm.trans htask')
      rw [hr]
      exact List.mem_singleton_self _
  · rename_i hother
    simp only [List.not_mem_nil, false_iff]
    rintro ⟨record, kpRef, kpRefs, removed, htask, -⟩
    exact hother _ _ _ _ htask

theorem serve_ownDeletions (hA : KeepsShelf A.storage Kept unique) (event : Event)
    (server : Server V σ L) (h : Kept server.storage) (hown : OwnDeletions server) :
    OwnDeletions (serve A event server).2 ↔ ¬DeletesForeign A event server := by
  cases event with
  | start c request =>
    refine iff_of_true ?_ ?_
    · rw [serve]
      split <;> exact hown
    · rintro ⟨i, _, _, _, _, _, _, hevent, -⟩
      cases hevent
  | advance i =>
    cases hget : server.calls[i]? with
    | none =>
      have hstep : (serve A (.advance i) server).2 = server := by simp only [serve, hget]
      rw [hstep]
      refine iff_of_true hown ?_
      rintro ⟨j, call, _, _, _, _, _, hevent, hcall, -⟩
      obtain rfl := Event.advance.inj hevent
      rw [hget] at hcall
      cases hcall
    | some call =>
      have hdeleted : (serve A (.advance i) server).2.deleted =
          server.deleted ++ deletedBy A call server.storage := by simp only [serve, hget]
      have hmem := mem_deletedBy hA call server.storage h
      rw [OwnDeletions, hdeleted]
      constructor
      · rintro hall ⟨j, call', record, kpRef, kpRefs, removed, rival, hevent, hcall, htask, hrival,
          howner⟩
        obtain rfl := Event.advance.inj hevent
        obtain rfl := Option.some.inj (hget.symm.trans hcall)
        have hd := (hmem (call.caller.clientPubkey, rival)).mpr
          ⟨record, kpRef, kpRefs, removed, htask, hrival, rfl⟩
        exact howner (hall _ (List.mem_append_right _ hd))
      · intro hnot d hd
        rcases List.mem_append.mp hd with hd | hd
        · exact hown d hd
        · obtain ⟨record, kpRef, kpRefs, removed, htask, hr, hclient⟩ := (hmem d).mp hd
          by_contra howner
          exact hnot ⟨i, call, record, kpRef, kpRefs, removed, d.2, rfl, hget, htask, hr,
            fun he => howner (he.trans hclient.symm)⟩

theorem run_ownDeletions (hA : KeepsShelf A.storage Kept unique) (events : List Event) (init : σ)
    (l : L) (hi : Kept init) :
    Run.Throughout OwnDeletions (serve A) events (Server.new init l) ↔
      ∀ before event later, events = before ++ event::later →
        ¬DeletesForeign A event (Run.after (serve A) before (Server.new init l)) := by
  rw [← Run.along_iff (fun event server => ¬DeletesForeign A event server)]
  refine Run.throughout_iff_along (serve A) (fun server => Kept server.storage) OwnDeletions
    (fun _ _ => True) (DeletesForeign A) ?_ ?_ events _ (Run.along_true _ _ _) hi ?_
  · exact fun event server h _ => serve_kept hA event server h
  · exact fun event server h _ hown => serve_ownDeletions hA event server h hown
  · simp [OwnDeletions, Server.new]

theorem evicting_not_remove {record r : PublishedKeyPackageRecord V} {records : KeyShelf V}
    {oldest : List (PublishedKeyPackageRecord V)} {kpRef : String} {kpRefs removed : List String} :
    evicting A record records oldest ≠ .remove r kpRef kpRefs removed := by
  cases oldest with
  | cons next oldest => simp [evicting]
  | nil =>
    rw [evicting]
    split <;> simp

theorem removing_not_remove {r : PublishedKeyPackageRecord V} {done : List String}
    {left : List String} {kpRef : String} {kpRefs removed : List String} :
    (removing done left : Task V) ≠ .remove r kpRef kpRefs removed := by
  cases left <;> simp [removing]

theorem start_not_remove (c : Caller) (request : PackageRequest)
    {r : PublishedKeyPackageRecord V} {kpRef : String} {kpRefs removed : List String} :
    start A c request ≠ .remove r kpRef kpRefs removed := by
  cases request with
  | publishKeyPackage input event =>
    rw [start]
    split <;> simp
  | consumeKeyPackage id =>
    rw [start]
    split <;> simp
  | removeKeyPackages refs =>
    rw [start]
    split
    · simp
    · exact removing_not_remove

/-- Only a check that finds the client's own package leads to a delete. -/
theorem advance_to_remove (hA : KeepsShelf A.storage Kept unique) (c : Caller) (task : Task V)
    (s : σ) (hs : Kept s) {record : PublishedKeyPackageRecord V} {kpRef : String}
    {kpRefs removed : List String}
    (h : (advance A c task s).1 = .remove record kpRef kpRefs removed) :
    task = .check kpRef kpRefs removed ∧ (advance A c task s).2 = s ∧
      withRef (stored A.storage s) kpRef = some record ∧
      record.stablePubkey = c.clientPubkey := by
  cases task with
  | list r =>
    rw [advance_list hA c r s hs _ rfl] at h
    exact absurd h evicting_not_remove
  | evict r records next oldest =>
    obtain ⟨s', hstep, -, -⟩ := advance_evict hA c r next records oldest s hs
    rw [hstep] at h
    exact absurd h evicting_not_remove
  | insert r records =>
    by_cases href : Refused unique r (stored A.storage s)
    · obtain ⟨e, hstep⟩ := advance_refused hA c r records s hs href
      rw [hstep] at h
      cases h
    · obtain ⟨result, s', hstep, -, -⟩ := advance_insert hA c r records s hs href
      rw [hstep] at h
      cases h
  | check x xs gone =>
    rcases advance_check hA c x xs gone s hs with ⟨e, hstep⟩ | ⟨r, hw, hown, hstep⟩
    · rw [hstep] at h
      cases h
    · rw [hstep] at h ⊢
      obtain ⟨rfl, rfl, rfl, rfl⟩ := Task.remove.inj h
      exact ⟨rfl, rfl, hw, hown⟩
  | remove r x xs gone =>
    obtain ⟨gone', s', hstep, -, -⟩ := advance_remove hA c r x xs gone s hs
    rw [hstep] at h
    exact absurd h removing_not_remove
  | consume id =>
    obtain ⟨result, s', hstep, -, -⟩ := advance_consume hA c id s hs
    rw [hstep] at h
    cases h
  | done result => cases h

theorem serve_others (i : ℕ) (call : InFlight V) (event : Event) (server : Server V σ L)
    (hevent : event ≠ .advance i) (h : server.calls[i]? = some call) :
    (serve A event server).2.calls[i]? = some call := by
  cases event with
  | start c request =>
    rw [serve]
    split
    · exact h
    · rw [List.getElem?_append_left (List.getElem?_eq_some_iff.mp h).1]
      exact h
  | advance j =>
    have hne : j ≠ i := fun he => hevent (he ▸ rfl)
    rw [serve]
    split
    · exact h
    · exact (List.getElem?_set_ne hne).trans h

theorem run_others (i : ℕ) (call : InFlight V) (events : List Event) (server : Server V σ L)
    (hevents : ∀ e ∈ events, e ≠ .advance i) (h : server.calls[i]? = some call) :
    (Run.after (serve A) events server).calls[i]? = some call := by
  induction events generalizing server with
  | nil => exact h
  | cons e events ih =>
    obtain ⟨he, hrest⟩ := List.forall_mem_cons.mp hevents
    exact ih _ hrest (serve_others i call e server he h)

theorem serve_stood (i : ℕ) (call : InFlight V) (event : Event) (server : Server V σ L)
    (hevent : event ≠ .advance i) (h : (serve A event server).2.calls[i]? = some call) :
    server.calls[i]? = some call ∨ ∃ c request, call.task = start A c request := by
  cases event with
  | start c request =>
    rw [serve] at h
    split at h
    · exact Or.inl h
    · rcases lt_or_ge i server.calls.length with hlt | hge
      · rw [List.getElem?_append_left hlt] at h
        exact Or.inl h
      · rw [List.getElem?_append_right hge] at h
        obtain rfl := List.mem_singleton.mp (List.mem_of_getElem? h)
        exact Or.inr ⟨c, request, rfl⟩
  | advance j =>
    have hne : j ≠ i := fun he => hevent (he ▸ rfl)
    rw [serve] at h
    split at h
    · exact Or.inl h
    · exact Or.inl ((List.getElem?_set_ne hne).symm.trans h)

/-- A call stands before a delete only behind a check that found its own client's package. -/
theorem check_before (hA : KeepsShelf A.storage Kept unique) (i : ℕ) (call : InFlight V)
    (server : Server V σ L) (hkept : Kept server.storage) {record : PublishedKeyPackageRecord V}
    {kpRef : String} {kpRefs removed : List String}
    (h : (serve A (.advance i) server).2.calls[i]? = some call)
    (htask : call.task = .remove record kpRef kpRefs removed) :
    ChecksOwn A i call.caller.clientPubkey kpRef server := by
  rw [serve] at h
  split at h
  · rename_i hnone
    rw [hnone] at h
    cases h
  · rename_i call₀ hcall
    have hset := (List.getElem?_set_self (List.getElem?_eq_some_iff.mp hcall).1).symm.trans h
    obtain rfl := Option.some.inj hset
    obtain ⟨hcheck, -, hw, hown⟩ :=
      advance_to_remove hA call₀.caller call₀.task server.storage hkept htask
    exact ⟨call₀, kpRefs, removed, record, hcall, rfl, hcheck, hw, hown⟩

theorem serving_kept (hA : KeepsShelf A.storage Kept unique) (events : List Event)
    (server : Server V σ L) (h : Kept server.storage) :
    Kept (Run.after (serve A) events server).storage :=
  Run.invariant (serve A) (fun server => Kept server.storage)
    (fun event server h => serve_kept hA event server h) events server h

theorem checked_before (hA : KeepsShelf A.storage Kept unique) (init : σ) (l : L) (hi : Kept init)
    (events : List Event) (i : ℕ) (call : InFlight V) (record : PublishedKeyPackageRecord V)
    (kpRef : String) (kpRefs removed : List String)
    (hget : (Run.after (serve A) events (Server.new init l)).calls[i]? = some call)
    (htask : call.task = .remove record kpRef kpRefs removed) :
    ∃ before between, events = before ++ .advance i::between ∧
      (∀ e ∈ between, e ≠ .advance i) ∧ ChecksOwn A i call.caller.clientPubkey kpRef
        (Run.after (serve A) before (Server.new init l)) := by
  induction events using List.reverseRecOn generalizing call with
  | nil => simp [Run.after, Server.new] at hget
  | append_singleton events e ih =>
    have hkept := serving_kept hA events (Server.new init l) hi
    rw [Run.after_append] at hget
    by_cases he : e = .advance i
    · subst he
      exact ⟨events, [], rfl, by simp, check_before hA i call _ hkept hget htask⟩
    · rcases serve_stood i call e _ he hget with hold | ⟨c, request, hstart⟩
      · obtain ⟨before, between, rfl, hothers, hcheck⟩ := ih call hold htask
        refine ⟨before, between ++ [e], by simp, ?_, hcheck⟩
        intro e' he'
        rcases List.mem_append.mp he' with he' | he'
        · exact hothers e' he'
        · rwa [List.mem_singleton.mp he']
      · exact absurd (hstart.symm.trans htask) (start_not_remove c request)

theorem checks_own (hA : KeepsShelf A.storage Kept unique) {i : ℕ} {client kpRef : String}
    {server : Server V σ L} (hkept : Kept server.storage) (h : ChecksOwn A i client kpRef server) :
    ∃ call record kpRefs removed,
      (serve A (.advance i) server).2.calls[i]? = some call ∧
        call.caller.clientPubkey = client ∧
        call.task = .remove record kpRef kpRefs removed ∧
        named A kpRef (serve A (.advance i) server).2 = some record ∧
        record.stablePubkey = client := by
  obtain ⟨call, kpRefs, removed, record, hget, hclient, htask, hnamed, hown⟩ := h
  rcases advance_check hA call.caller kpRef kpRefs removed server.storage hkept with
    ⟨e, hstep⟩ | ⟨r, hw, -, hstep⟩
  · rw [advance, hA.get server.storage kpRef hkept] at hstep
    change withRef (stored A.storage server.storage) kpRef = some record at hnamed
    rw [hnamed] at hstep
    simp [onward, hown, hclient] at hstep
  · obtain rfl := Option.some.inj (hw.symm.trans hnamed)
    have hnext : (serve A (.advance i) server).2 = { server with
        calls := server.calls.set i { call with task := .remove r kpRef kpRefs removed }
        deleted := server.deleted ++ deletedBy A call server.storage } := by
      simp only [serve, hget, htask, hstep]
    rw [hnext]
    exact ⟨_, r, kpRefs, removed,
      List.getElem?_set_self (List.getElem?_eq_some_iff.mp hget).1, hclient, rfl, hnamed, hown⟩

theorem named_along (kpRef : String) (events : List Event) (server : Server V σ L)
    (h : Run.Along (fun e m => named A kpRef (serve A e m).2 = named A kpRef m) (serve A) events
      server) : named A kpRef (Run.after (serve A) events server) = named A kpRef server := by
  induction events generalizing server with
  | nil => rfl
  | cons e events ih => exact (ih _ h.2).trans h.1

theorem handedOver_iff (hA : KeepsShelf A.storage Kept unique) (events : List Event) (init : σ)
    (l : L) (hi : Kept init) :
    (∃ before event later, events = before ++ event::later ∧
      DeletesForeign A event (Run.after (serve A) before (Server.new init l))) ↔
      HandedOver A events (Server.new init l) := by
  constructor
  · rintro ⟨earlier, event, after, rfl, i, call, record, kpRef, kpRefs, removed, rival, rfl, hget,
      htask, hrival, howner⟩
    obtain ⟨before, behind, rfl, hothers, hcheck⟩ :=
      checked_before hA init l hi earlier i call record kpRef kpRefs removed hget htask
    have hkept := serving_kept hA before (Server.new init l) hi
    obtain ⟨call₁, own, _, _, -, -, -, hown, hclient⟩ := checks_own hA hkept hcheck
    rw [Run.after_append] at hrival
    rcases Run.along_or_last
        (fun e m => named A kpRef (serve A e m).2 = named A kpRef m) (serve A) behind
        (serve A (.advance i) (Run.after (serve A) before (Server.new init l))).2 with
      hsame | ⟨between, e, later, rfl, hchanged, hlater⟩
    · have hstill := (named_along kpRef behind _ hsame).symm.trans hrival
      rw [hown, Option.some.injEq] at hstill
      exact absurd (hstill ▸ hclient) howner
    · have hnext : named A kpRef (serve A e (Run.after (serve A) between (serve A (.advance i)
          (Run.after (serve A) before (Server.new init l))).2)).2 = some rival := by
        rw [← named_along kpRef later _ hlater, ← hrival, Run.after, Run.after_append, Run.after]
      refine ⟨before, i, between, e, later, after, call.caller.clientPubkey, kpRef, rival, by simp,
        hcheck, hothers, ?_, ?_, ?_, howner, ?_⟩
      · rw [Run.after_append, Run.after]
        rcases named_step hA kpRef e _ (serving_kept hA between _ (serve_kept hA _ _ hkept)) with
          hsame | htakes | ⟨j, call', r, records, hevent, hget', htask', href, hr⟩
        · exact absurd hsame hchanged
        · exact Or.inl htakes
        · obtain rfl := Option.some.inj (hr.symm.trans hnext)
          exact Or.inr ⟨j, call', r, records, hevent, hget', htask', href, howner⟩
      · rw [Run.after_append, Run.after]
        exact fun hold => hchanged (hnext.trans hold.symm)
      · rw [Run.after_append, Run.after, Run.after_append]
        exact hnext
      · rw [Run.after_append, Run.after, Run.after_append]
        exact hlater
  · rintro ⟨before, i, between, e, later, after, client, kpRef, rival, rfl, hcheck, hothers, -, -,
      hrival, howner, hlater⟩
    have hkept := serving_kept hA before (Server.new init l) hi
    obtain ⟨call, record, kpRefs, removed, hget, hclient, htask, -, -⟩ := checks_own hA hkept hcheck
    refine ⟨before ++ .advance i::(between ++ e::later), .advance i, after, by simp, i, call,
      record, kpRef, kpRefs, removed, rival, rfl, ?_, htask, ?_, ?_⟩
    · rw [Run.after_append, Run.after]
      exact run_others i call _ _ hothers hget
    · have hend := named_along kpRef later _ hlater
      rw [hrival] at hend
      rw [← hend]
      simp only [Run.after_append, Run.after]
    · rwa [hclient]

theorem named_untaken (hA : KeepsShelf A.storage Kept true) (kpRef : String)
    (record : PublishedKeyPackageRecord V) (events : List Event) (server : Server V σ L)
    (hkept : Kept server.storage) (hnamed : named A kpRef server = some record)
    (h : Run.Along (fun e m => ¬TakesNamed A kpRef e m) (serve A) events server) :
    Run.Along (fun e m => named A kpRef (serve A e m).2 = named A kpRef m) (serve A) events
      server := by
  induction events generalizing server with
  | nil => trivial
  | cons e events ih =>
    have hsame : named A kpRef (serve A e server).2 = named A kpRef server := by
      rcases named_step hA kpRef e server hkept with hsame | htakes | ⟨_, _, r, _, _, _, _, _, hr⟩
      · exact hsame
      · exact absurd htakes h.1
      · by_cases hold : named A kpRef server = some r
        · rw [hr, hold]
        · rw [named_published hA kpRef e server hkept hr hold] at hnamed
          cases hnamed
    exact ⟨hsame, ih _ (serve_kept hA e server hkept) (hsame.trans hnamed) h.2⟩

theorem untaken_of_same (hA : KeepsShelf A.storage Kept true) (kpRef : String)
    (events : List Event) (server : Server V σ L) (hkept : Kept server.storage)
    (h : Run.Along (fun e m => named A kpRef (serve A e m).2 = named A kpRef m) (serve A) events
      server) : Run.Along (fun e m => ¬TakesNamed A kpRef e m) (serve A) events server := by
  induction events generalizing server with
  | nil => trivial
  | cons e events ih =>
    refine ⟨fun htakes => ?_, ih _ (serve_kept hA e server hkept) h.2⟩
    have hgone := named_taken hA kpRef e server hkept htakes
    obtain ⟨_, _, r, -, -, -, hr⟩ := htakes
    rw [h.1, hr] at hgone
    cases hgone

theorem named_entered (hA : KeepsShelf A.storage Kept true) {client kpRef : String}
    {event : Event} {server : Server V σ L} (hkept : Kept server.storage)
    (h : PublishesRival client kpRef event server) (hnone : named A kpRef server = none) :
    ∃ rival, named A kpRef (serve A event server).2 = some rival ∧
      rival.stablePubkey ≠ client := by
  obtain ⟨i, call, rival, records, rfl, hget, htask, rfl, howner⟩ := h
  have haccepted : ¬Refused true rival (stored A.storage server.storage) := by
    rintro ⟨-, r, hr, href⟩
    have hnot := List.find?_eq_none.mp hnone r hr
    simp [hasRef, href] at hnot
  obtain ⟨result, s', hstep, -, hin⟩ :=
    advance_insert hA call.caller rival records server.storage hkept haccepted
  have hstorage : (serve A (.advance i) server).2.storage = s' := by
    simp only [serve, hget, htask, hstep]
  refine ⟨rival, ?_, howner⟩
  rw [named, hstorage]
  exact withRef_entered hin hnone

theorem replaced_iff (hA : KeepsShelf A.storage Kept true) (events : List Event) (init : σ)
    (l : L) (hi : Kept init) :
    HandedOver A events (Server.new init l) ↔ Replaced A events (Server.new init l) := by
  constructor
  · rintro ⟨before, i, behind, publish, later, after, client, kpRef, rival, rfl, hcheck, hothers,
      hgiven, hbefore, hrival, howner, hlater⟩
    have hkept := serving_kept hA before (Server.new init l) hi
    obtain ⟨-, own, -, -, -, -, -, hown, -⟩ := checks_own hA hkept hcheck
    have hkept₁ := serve_kept hA (.advance i) _ hkept
    simp only [Run.after_append, Run.after] at hgiven hbefore hrival hlater
    have hkept₂ := serving_kept hA behind _ hkept₁
    have hnone := named_published hA kpRef publish _ hkept₂ hrival hbefore
    -- Something took the checked package out, or the ref would still name it.
    rcases Run.along_or_last (fun e m => ¬TakesNamed A kpRef e m) (serve A) behind
        (serve A (.advance i) (Run.after (serve A) before (Server.new init l))).2 with
      huntaken | ⟨between, take, gap, rfl, htake, -⟩
    · have hstill := named_along kpRef behind _ (named_untaken hA kpRef own behind _ hkept₁ hown
        huntaken)
      rw [hnone, hown] at hstill
      cases hstill
    · refine ⟨before, i, between, take, gap, publish, later, after, client, kpRef, by simp, hcheck,
        by simpa using hothers, ?_, ?_, ?_, ?_⟩
      · rw [Run.after_append, Run.after]
        exact not_not.mp htake
      · simp only [Run.after_append, Run.after] at hgiven ⊢
        rcases hgiven with htakes | hpublish
        · obtain ⟨_, _, r, -, -, -, hr⟩ := htakes
          simp only [Run.after_append, Run.after] at hnone
          rw [hnone] at hr
          cases hr
        · exact hpublish
      · simpa only [Run.after_append, Run.after] using hnone
      · refine untaken_of_same hA kpRef later _ ?_ ?_
        · exact serving_kept hA _ _ hi
        · simpa only [Run.after_append, Run.after] using hlater
  · rintro ⟨before, i, between, take, gap, publish, later, after, client, kpRef, rfl, hcheck,
      hothers, -, hpublish, hnone, hlater⟩
    obtain ⟨rival, hrival, howner⟩ :=
      named_entered hA (serving_kept hA _ _ hi) hpublish hnone
    have hlast : Run.after (serve A) (before ++ .advance i::((between ++ take::gap) ++ [publish]))
        (Server.new init l) = (serve A publish (Run.after (serve A)
          (before ++ .advance i::(between ++ take::gap)) (Server.new init l))).2 := by
      simp only [Run.after_append, Run.after]
    refine ⟨before, i, between ++ take::gap, publish, later, after, client, kpRef, rival, by simp,
      hcheck, by simpa using hothers, Or.inr hpublish, by simp [hnone], hlast ▸ hrival, howner, ?_⟩
    rw [hlast]
    refine named_untaken hA kpRef rival later _ (serve_kept hA _ _ (serving_kept hA _ _ hi)) hrival
      ?_
    simpa only [Run.after_append, Run.after] using hlater

theorem ownDeletions_iff (hA : KeepsShelf A.storage Kept unique) (events : List Event) (init : σ)
    (l : L) (hi : Kept init) :
    Run.Throughout OwnDeletions (serve A) events (Server.new init l) ↔
      ¬HandedOver A events (Server.new init l) := by
  rw [run_ownDeletions hA events init l hi, ← handedOver_iff hA events init l hi]
  constructor
  · rintro h ⟨before, event, later, he, hforeign⟩
    exact h before event later he hforeign
  · exact fun h before event later he hforeign => h ⟨before, event, later, he, hforeign⟩

end Backend

/-- Whatever calls interleave, removals delete own packages only, exactly when between
no check and its delete the ref is handed over to another client. -/
theorem removals_own (json : Sqlite.SerdeJson V) (hj : json.RoundTrips)
    (rateLimiter : RateLimiter L) (quota : KeyPackageQuotaConfig) (externals : Externals V)
    (events : List Event) (l : L) :
    (Run.Throughout OwnDeletions (serve ⟨InMemory.storage, rateLimiter, quota, externals⟩) events
        (Server.new InMemory.InMemoryInner.default l) ↔
      ¬HandedOver ⟨InMemory.storage, rateLimiter, quota, externals⟩ events
        (Server.new InMemory.InMemoryInner.default l)) ∧
    (Run.Throughout OwnDeletions (serve ⟨Sqlite.storage json, rateLimiter, quota, externals⟩)
        events (Server.new Sqlite.Database.new l) ↔
      ¬Replaced ⟨Sqlite.storage json, rateLimiter, quota, externals⟩ events
        (Server.new Sqlite.Database.new l)) := by
  constructor
  · exact ownDeletions_iff (A := ⟨InMemory.storage, rateLimiter, quota, externals⟩)
      inMemory_keepsShelf events _ l (IndexMap.keyed_empty _)
  · have hempty : TableShelved json Sqlite.Database.new := ⟨[], rfl, by simp [UniqueRefs]⟩
    rw [ownDeletions_iff (A := ⟨Sqlite.storage json, rateLimiter, quota, externals⟩)
      (sqlite_keepsShelf hj) events _ l hempty, replaced_iff (sqlite_keepsShelf hj) events _ l
        hempty]

/-- Alice publishes "x" and asks for its removal. Between the check and the delete
Bob takes her package and publishes one of his own under "x". -/
def overtakenRemoval : List Event :=
  [publication alice alice64 false "x", .advance 0, .advance 0,
    starts alice (.removeKeyPackages ["x"]), .advance 1,
    starts bob (.consumeKeyPackage "x"), .advance 2,
    publication bob bob64 false "x", .advance 3, .advance 3, .advance 1]

theorem removals_own_sample :
    (Run.Throughout OwnDeletions (serve memoryAdapter) overtakenRemoval
        (Server.new InMemory.InMemoryInner.default ()) ↔
      ¬HandedOver memoryAdapter overtakenRemoval (Server.new InMemory.InMemoryInner.default ())) ∧
    (Run.Throughout OwnDeletions (serve sqliteAdapter) overtakenRemoval
        (Server.new Sqlite.Database.new ()) ↔
      ¬Replaced sqliteAdapter overtakenRemoval (Server.new Sqlite.Database.new ())) :=
  removals_own jsonText jsonText_roundTrips unlimited ⟨10, 1⟩ sampleExternals overtakenRemoval ()

theorem removal_overtaken :
    (Run.after (serve memoryAdapter) overtakenRemoval
        (Server.new InMemory.InMemoryInner.default ())).deleted.map
        (fun d => (d.1, d.2.stablePubkey)) = [(alice, bob)] ∧
      (Run.after (serve sqliteAdapter) overtakenRemoval
        (Server.new Sqlite.Database.new ())).deleted.map
        (fun d => (d.1, d.2.stablePubkey)) = [(alice, bob)] ∧ bob ≠ alice := by
  decide +kernel

end Cordn.Adapter
