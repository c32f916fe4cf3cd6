import Cordn.AdapterConcurrent
import Cordn.QuotaBound

/-!
# The quota of an identity among concurrent publishes

A publish decides on the packages it listed. Other publishes of the identity
may insert between its listing and its own insert.
-/

set_option autoImplicit false

namespace Cordn.Adapter
open Call KeyPackageOps

variable {V σ L : Type}

def WithinQuotas (quota : KeyPackageQuotaConfig) (pk : String) (l : KeyShelf V) : Prop :=
  (l.filter (hasIdentity pk)).length ≤ quota.maxPerIdentity ∧
    lastResortCount l pk ≤ quota.maxLastResortPerIdentity

def startedRef : Event → Option String
  | .start _ (.publishKeyPackage input _) => some input.kpRef
  | _ => none

def PublishesOf (pk : String) (events : List Event) : Prop :=
  (∀ c request, Event.start c request ∈ events →
    c.clientPubkey = pk ∧ ∃ input event, request = .publishKeyPackage input event) ∧
  (events.filterMap startedRef).Nodup

/-- The step inserts for an identity that is full by now, and some stored package
of the identity was not there when the call listed them. -/
def Crowded (A : CoordinatorAdapter V σ L) (event : Event) (server : Server V σ L) : Prop :=
  ∃ i call record records, event = .advance i ∧ server.calls[i]? = some call ∧
    call.task = .insert record records ∧
    (∃ q ∈ stored A.storage server.storage,
      q.stablePubkey = record.stablePubkey ∧ q ∉ records) ∧
    (A.keyPackageQuota.maxPerIdentity ≤ ((stored A.storage server.storage).filter
        (hasIdentity record.stablePubkey)).length ∨
      record.isLastResort = true ∧ A.keyPackageQuota.maxLastResortPerIdentity ≤
        lastResortCount (stored A.storage server.storage) record.stablePubkey)

def Task.incoming : Task V → Option (PublishedKeyPackageRecord V)
  | .list record => some record
  | .evict record _ _ _ => some record
  | .insert record _ => some record
  | _ => none

def pending (calls : List (InFlight V)) : List String :=
  calls.filterMap (fun call => call.task.incoming.map (fun r => r.keyPackageRef))

def PackageRequest.kpRef : PackageRequest → Option String
  | .publishKeyPackage input _ => some input.kpRef
  | _ => none

def used (calls : List (InFlight V)) : List String :=
  calls.filterMap (fun call => call.request.kpRef)

def refsOf (l : KeyShelf V) : List String := l.map (fun r => r.keyPackageRef)

structure Listed (waiting taken : List String) (records : KeyShelf V) : Prop where
  unique : UniqueRefs records
  stale : ∀ q ∈ records, q.keyPackageRef ∉ waiting
  known : ∀ q ∈ records, q.keyPackageRef ∈ taken

/-- Where a publish of the identity stands: what it evicted so far is gone. -/
def Standing (quota : KeyPackageQuotaConfig) (pk : String) (shelf : KeyShelf V)
    (waiting taken : List String) : Task V → Prop
  | .list record => record.stablePubkey = pk
  | .evict record records next oldest => record.stablePubkey = pk ∧
      Listed waiting taken records ∧ ∃ gone,
        oldestLastResorts quota records record.isLastResort = gone ++ next::oldest ∧
        ∀ q ∈ gone, q.keyPackageRef ∉ refsOf shelf
  | .insert record records => record.stablePubkey = pk ∧ Listed waiting taken records ∧
      (∀ q ∈ oldestLastResorts quota records record.isLastResort,
        q.keyPackageRef ∉ refsOf shelf) ∧
      exceedsQuota quota records record.isLastResort = false
  | .done _ => True
  | _ => False

theorem oldestLastResorts_subset (quota : KeyPackageQuotaConfig) (records : KeyShelf V)
    (incoming : Bool) : oldestLastResorts quota records incoming ⊆ records := by
  rw [oldestLastResorts]
  split
  · exact ((List.take_sublist _ _).trans List.filter_sublist).subset
  · simp

theorem Listed.mono {waiting taken waiting' taken' : List String} {records : KeyShelf V}
    (h : Listed waiting taken records) (hw : ∀ x ∈ waiting', x ∈ waiting ∨ x ∉ taken)
    (ht : taken ⊆ taken') : Listed waiting' taken' records where
  unique := h.unique
  stale q hq hin := by
    rcases hw _ hin with hold | hnew
    · exact h.stale q hq hold
    · exact hnew (h.known q hq)
  known q hq := ht (h.known q hq)

theorem Standing.mono {quota : KeyPackageQuotaConfig} {pk : String} {shelf shelf' : KeyShelf V}
    {waiting taken waiting' taken' : List String} {task : Task V}
    (h : Standing quota pk shelf waiting taken task)
    (hs : ∀ x ∈ refsOf shelf', x ∈ refsOf shelf ∨ x ∈ waiting)
    (hw : ∀ x ∈ waiting', x ∈ waiting ∨ x ∉ taken) (ht : taken ⊆ taken') :
    Standing quota pk shelf' waiting' taken' task := by
  have hgone : ∀ records : KeyShelf V, Listed waiting taken records → ∀ q ∈ records,
      q.keyPackageRef ∉ refsOf shelf → q.keyPackageRef ∉ refsOf shelf' := by
    intro records hl q hq hn hin
    rcases hs _ hin with hold | hwaits
    · exact hn hold
    · exact hl.stale q hq hwaits
  cases task with
  | list record => exact h
  | evict record records next oldest =>
    obtain ⟨hpk, hl, gone, hsplit, hout⟩ := h
    refine ⟨hpk, hl.mono hw ht, gone, hsplit, ?_⟩
    intro q hq
    refine hgone records hl q ?_ (hout q hq)
    exact oldestLastResorts_subset quota records record.isLastResort
      (hsplit ▸ List.mem_append_left _ hq)
  | insert record records =>
    obtain ⟨hpk, hl, hout, hroom⟩ := h
    refine ⟨hpk, hl.mono hw ht, ?_, hroom⟩
    intro q hq
    exact hgone records hl q (oldestLastResorts_subset _ _ _ hq) (hout q hq)
  | done result => trivial
  | check kpRef kpRefs removed => exact h
  | remove record kpRef kpRefs removed => exact h
  | consume id => exact h

theorem Standing.evicting {A : CoordinatorAdapter V σ L} {pk : String} {shelf : KeyShelf V}
    {waiting taken : List String} {record : PublishedKeyPackageRecord V} {records : KeyShelf V}
    (gone : List (PublishedKeyPackageRecord V)) {oldest : List (PublishedKeyPackageRecord V)}
    (hpk : record.stablePubkey = pk) (hl : Listed waiting taken records)
    (hsplit : oldestLastResorts A.keyPackageQuota records record.isLastResort = gone ++ oldest)
    (hout : ∀ q ∈ gone, q.keyPackageRef ∉ refsOf shelf) :
    Standing A.keyPackageQuota pk shelf waiting taken (evicting A record records oldest) := by
  cases oldest with
  | cons next oldest => exact ⟨hpk, hl, gone, hsplit, hout⟩
  | nil =>
    rw [Adapter.evicting]
    split
    · trivial
    · rename_i hroom
      rw [List.append_nil] at hsplit
      exact ⟨hpk, hl, hsplit ▸ hout, by simpa using hroom⟩

theorem length_le_of_subset {l m : KeyShelf V} (hl : UniqueRefs l) (h : l ⊆ m) :
    l.length ≤ m.length :=
  (List.Nodup.subperm (List.Nodup.of_map _ hl) h).length_le

theorem regularCount_le {shelf records : KeyShelf V} {pk : String} (h : UniqueRefs shelf)
    (hmine : shelf.filter (hasIdentity pk) ⊆ records) :
    regularCount shelf pk ≤ (records.filter (fun r => !r.isLastResort)).length := by
  have hcomm : shelf.filter (fun r => hasIdentity pk r && !r.isLastResort) =
      (shelf.filter (hasIdentity pk)).filter (fun r => !r.isLastResort) := by
    rw [List.filter_filter]
    simp only [Bool.and_comm]
  rw [regularCount, List.countP_eq_length_filter, hcomm]
  apply length_le_of_subset
  · exact h.sublist ((List.filter_sublist.trans List.filter_sublist).map _)
  · exact List.filter_subset _ hmine

theorem lastResorts_left {quota : KeyPackageQuotaConfig} {l records : KeyShelf V}
    (hlast : 0 < quota.maxLastResortPerIdentity) (h : UniqueRefs l)
    (hl : l ⊆ records.filter (fun r => r.isLastResort))
    (hout : ∀ q ∈ oldestLastResorts quota records true, q ∉ l) :
    l.length ≤ quota.maxLastResortPerIdentity-1 := by
  generalize hlasts : records.filter (fun r => r.isLastResort) = lasts at hl
  have hle := length_le_of_subset h hl
  by_cases hfull : quota.maxLastResortPerIdentity ≤ lasts.length
  · have holdest : oldestLastResorts quota records true =
        lasts.take (lasts.length - quota.maxLastResortPerIdentity + 1) := by
      rw [oldestLastResorts, hlasts]
      exact if_pos ⟨rfl, hlast, hfull⟩
    have hdrop : l ⊆ lasts.drop (lasts.length - quota.maxLastResortPerIdentity + 1) := by
      intro q hq
      have hin := hl hq
      rw [← List.take_append_drop (lasts.length - quota.maxLastResortPerIdentity + 1) lasts,
        List.mem_append, ← holdest] at hin
      rcases hin with hin | hin
      · exact absurd hq (hout q hin)
      · exact hin
    have hbound := length_le_of_subset h hdrop
    rw [List.length_drop] at hbound
    omega
  · omega

theorem room_without_newcomers {quota : KeyPackageQuotaConfig} {pk : String} {shelf : KeyShelf V}
    {waiting taken : List String} {record : PublishedKeyPackageRecord V} {records : KeyShelf V}
    (hmax : 0 < quota.maxPerIdentity) (hlast : 0 < quota.maxLastResortPerIdentity)
    (hshelf : UniqueRefs shelf)
    (h : Standing quota pk shelf waiting taken (.insert record records))
    (hno : ∀ q ∈ shelf, q.stablePubkey = record.stablePubkey → q ∈ records) :
    (shelf.filter (hasIdentity pk)).length < quota.maxPerIdentity ∧
      (record.isLastResort = true → lastResortCount shelf pk < quota.maxLastResortPerIdentity) := by
  obtain ⟨hpk, hl, hout, hroom⟩ := h
  have hmine : shelf.filter (hasIdentity pk) ⊆ records := by
    intro q hq
    obtain ⟨hmem, hid⟩ := List.mem_filter.mp hq
    exact hno q hmem (by rw [hpk]; simpa [hasIdentity] using hid)
  have hregular := regularCount_le hshelf hmine
  have hunique : UniqueRefs (lastResorts shelf pk) :=
    hshelf.sublist ((lastResorts_sublist shelf pk).map _)
  have hlasts : lastResorts shelf pk ⊆ records.filter (fun r => r.isLastResort) :=
    List.filter_subset _ hmine
  have hle := length_le_of_subset hunique hlasts
  have hlastCount : lastResortCount shelf pk = (lastResorts shelf pk).length :=
    (lastResortCount_eq shelf pk).symm
  have hsplit : records.length = (records.filter (fun r => r.isLastResort)).length +
      (records.filter (fun r => !r.isLastResort)).length :=
    List.length_eq_length_filter_add _
  rw [identityCount_eq, hlastCount]
  cases hflag : record.isLastResort with
  | false =>
    simp only [exceedsQuota, hflag, Bool.false_eq_true, if_false, decide_eq_false_iff_not, not_and,
      not_le] at hroom
    have hunder := hroom hmax
    constructor
    · omega
    · simp
  | true =>
    simp only [exceedsQuota, hflag, if_true, decide_eq_false_iff_not, not_and, not_lt] at hroom
    have hunder := hroom hmax
    have hfew : (lastResorts shelf pk).length ≤ quota.maxLastResortPerIdentity-1 := by
      apply lastResorts_left hlast hunique hlasts
      intro q hq hin
      rw [← hflag] at hq
      exact hout q hq (List.mem_map_of_mem ((lastResorts_sublist shelf pk).subset hin))
    constructor
    · omega
    · intro _
      omega

section Backend

variable {A : CoordinatorAdapter V σ L} {Kept : σ → Prop} {unique : Bool} {pk : String}

/-- The refs stored and those about to be stored differ and came in with calls;
every call stands where its listing puts it. -/
structure Racing (A : CoordinatorAdapter V σ L) (Kept : σ → Prop) (pk : String)
    (server : Server V σ L) : Prop where
  kept : Kept server.storage
  distinct : (refsOf (stored A.storage server.storage) ++ pending server.calls).Nodup
  known : ∀ x ∈ refsOf (stored A.storage server.storage) ++ pending server.calls,
    x ∈ used server.calls
  standing : ∀ call ∈ server.calls, Standing A.keyPackageQuota pk
    (stored A.storage server.storage) (pending server.calls) (used server.calls) call.task

theorem Racing.uniqueRefs {server : Server V σ L} (h : Racing A Kept pk server) :
    UniqueRefs (stored A.storage server.storage) :=
  (List.nodup_append.mp h.distinct).1

def StartsFresh (pk : String) : Event → Server V σ L → Prop
  | .start c request, server => c.clientPubkey = pk ∧ ∃ input event,
      request = .publishKeyPackage input event ∧ input.kpRef ∉ used server.calls
  | .advance _, _ => True

theorem split_at {α : Type} {l : List α} {i : ℕ} {a : α} (h : l[i]? = some a) :
    ∃ front back, l = front ++ a::back ∧ ∀ b, l.set i b = front ++ b::back := by
  obtain ⟨hlt, rfl⟩ := List.getElem?_eq_some_iff.mp h
  refine ⟨l.take i, l.drop (i+1), ?_, ?_⟩
  · rw [← List.drop_eq_getElem_cons hlt, List.take_append_drop]
  · exact fun b => List.set_eq_take_append_cons_drop.trans (if_pos hlt)

theorem pending_append (front back : List (InFlight V)) (call : InFlight V) :
    pending (front ++ call::back) = pending front ++
      ((call.task.incoming.map (fun r => r.keyPackageRef)).toList ++ pending back) := by
  rw [pending, List.filterMap_append, List.filterMap_cons]
  cases call.task.incoming <;> rfl

theorem used_append (front back : List (InFlight V)) (call : InFlight V) :
    used (front ++ call::back) = used front ++ (call.request.kpRef.toList ++ used back) := by
  rw [used, List.filterMap_append, List.filterMap_cons]
  cases call.request.kpRef <;> rfl

theorem Racing.step {server : Server V σ L} (h : Racing A Kept pk server) {i : ℕ}
    {call : InFlight V} (hget : server.calls[i]? = some call) (task : Task V)
    (s' : σ) (deleted : List (String × PublishedKeyPackageRecord V)) (hs : Kept s')
    (hrefs : (refsOf (stored A.storage s') ++
        (task.incoming.map (fun r => r.keyPackageRef)).toList).Subperm
      (refsOf (stored A.storage server.storage) ++
        (call.task.incoming.map (fun r => r.keyPackageRef)).toList))
    (hincoming : task.incoming.map (fun r => r.keyPackageRef) = none ∨
      task.incoming.map (fun r => r.keyPackageRef) =
        call.task.incoming.map (fun r => r.keyPackageRef))
    (hstanding : ∀ waiting, waiting ⊆ pending server.calls →
      Standing A.keyPackageQuota pk (stored A.storage s') waiting (used server.calls) task) :
    Racing A Kept pk { server with
      storage := s'
      calls := server.calls.set i { call with task := task }
      deleted := deleted } := by
  obtain ⟨front, back, hcalls, hset⟩ := split_at hget
  have hsplit : ∀ (l : KeyShelf V) (t : Task V), (refsOf l ++ (pending front ++
      ((t.incoming.map (fun r => r.keyPackageRef)).toList ++ pending back))).Perm
        ((refsOf l ++ (t.incoming.map (fun r => r.keyPackageRef)).toList) ++
          (pending front ++ pending back)) := by
    intro l t
    apply List.perm_iff_count.mpr
    intro x
    simp only [List.count_append]
    omega
  have hsub : (refsOf (stored A.storage s') ++
      pending (server.calls.set i { call with task := task })).Subperm
        (refsOf (stored A.storage server.storage) ++ pending server.calls) := by
    rw [hset, hcalls, pending_append, pending_append]
    refine (hsplit _ task).subperm.trans (List.Subperm.trans ?_ (hsplit _ call.task).symm.subperm)
    exact (List.subperm_append_right _).mpr hrefs
  have hpending : pending (server.calls.set i { call with task := task }) ⊆
      pending server.calls := by
    rw [hset, hcalls, pending_append, pending_append]
    intro x hx
    simp only [List.mem_append] at hx ⊢
    rcases hincoming with hnone | hsame
    · rw [hnone] at hx
      simp only [Option.toList_none, List.not_mem_nil, false_or] at hx
      exact hx.imp_right Or.inr
    · rwa [hsame] at hx
  have hused : used (server.calls.set i { call with task := task }) =
      used server.calls := by
    rw [hset, hcalls, used_append, used_append]
  refine ⟨hs, ?_, ?_, ?_⟩
  · obtain ⟨l, hperm, hl⟩ := hsub
    exact hperm.nodup_iff.mp (h.distinct.sublist hl)
  · intro x hx
    rw [hused]
    exact h.known x (hsub.subset hx)
  · intro other hother
    rw [hused]
    rcases List.mem_or_eq_of_mem_set hother with hother | rfl
    · refine (h.standing other hother).mono ?_ ?_ (List.Subset.refl _)
      · intro x hx
        have hin := hrefs.subset (List.mem_append_left _ hx)
        rcases List.mem_append.mp hin with hin | hin
        · exact Or.inl hin
        · refine Or.inr ?_
          rw [hcalls, pending_append]
          simp only [List.mem_append]
          exact Or.inr (Or.inl hin)
      · exact fun x hx => Or.inl (hpending hx)
    · exact hstanding _ hpending

theorem evicting_incoming (record : PublishedKeyPackageRecord V) (records : KeyShelf V)
    (oldest : List (PublishedKeyPackageRecord V)) :
    (evicting A record records oldest).incoming.map (fun r => r.keyPackageRef) = none ∨
      (evicting A record records oldest).incoming.map (fun r => r.keyPackageRef) =
        some record.keyPackageRef := by
  cases oldest with
  | cons next oldest => exact Or.inr rfl
  | nil =>
    rw [evicting]
    split
    · exact Or.inl rfl
    · exact Or.inr rfl

theorem subperm_incoming {l l' : List String} {task : Task V} {kpRef : String}
    (hl : l'.Sublist l) (h : task.incoming.map (fun r => r.keyPackageRef) = none ∨
      task.incoming.map (fun r => r.keyPackageRef) = some kpRef) :
    (l' ++ (task.incoming.map (fun r => r.keyPackageRef)).toList).Subperm
      (l ++ (some kpRef).toList) := by
  rcases h with h | h <;> rw [h]
  · exact (hl.append (List.nil_sublist _)).subperm
  · exact (hl.append (List.Sublist.refl _)).subperm

theorem refsOf_eraseP {l : KeyShelf V} (h : UniqueRefs l) (x : String) :
    x ∉ refsOf (l.eraseP (hasRef x)) := by
  rw [eraseP_eq_without h]
  intro hx
  obtain ⟨q, hq, rfl⟩ := List.mem_map.mp hx
  have hn := (List.mem_filter.mp hq).2
  simp [hasRef] at hn

theorem subperm_inserted {l l' : KeyShelf V} {r : PublishedKeyPackageRecord V}
    (h : Inserted l r l') : (refsOf l' ++ []).Subperm (refsOf l ++ [r.keyPackageRef]) := by
  obtain ⟨before, behind, rfl, rfl⟩ := h
  apply List.Perm.subperm
  apply List.perm_iff_count.mpr
  intro x
  simp only [refsOf, List.map_append, List.map_cons, List.count_append, List.count_cons,
    List.count_nil]
  omega

theorem Racing.step_evicting {server : Server V σ L} (h : Racing A Kept pk server) {i : ℕ}
    {call : InFlight V} (hget : server.calls[i]? = some call)
    {record : PublishedKeyPackageRecord V}
    (hrecord : call.task.incoming.map (fun r => r.keyPackageRef) = some record.keyPackageRef)
    (records : KeyShelf V) (oldest : List (PublishedKeyPackageRecord V))
    (s' : σ) (deleted : List (String × PublishedKeyPackageRecord V)) (hs : Kept s')
    (hsub : (stored A.storage s').Sublist (stored A.storage server.storage))
    (hstanding : ∀ waiting, waiting ⊆ pending server.calls →
      Standing A.keyPackageQuota pk (stored A.storage s') waiting (used server.calls)
        (evicting A record records oldest)) :
    Racing A Kept pk { server with
      storage := s'
      calls := server.calls.set i { call with task := evicting A record records oldest }
      deleted := deleted } := by
  have hincoming := evicting_incoming (A := A) record records oldest
  refine h.step hget _ _ _ hs ?_ ?_ hstanding
  · rw [hrecord]
    exact subperm_incoming (hsub.map _) hincoming
  · rw [hrecord]
    exact hincoming

theorem Racing.advance (hA : KeepsShelf A.storage Kept unique) {server : Server V σ L}
    (h : Racing A Kept pk server) {i : ℕ} {call : InFlight V}
    (hget : server.calls[i]? = some call) :
    Racing A Kept pk (serve A (.advance i) server).2 ∧
      ((∃ record records, call.task = .insert record records ∧
          Inserted (stored A.storage server.storage) record
            (stored A.storage (serve A (.advance i) server).2.storage)) ∨
        (∀ record records, call.task ≠ .insert record records) ∧
          (stored A.storage (serve A (.advance i) server).2.storage).Sublist
            (stored A.storage server.storage)) := by
  have hserve : (serve A (.advance i) server).2 = { server with
      storage := (Adapter.advance A call.caller call.task server.storage).2
      calls := server.calls.set i { call with
        task := (Adapter.advance A call.caller call.task server.storage).1 }
      deleted := server.deleted ++ deletedBy A call server.storage } := by simp [serve, hget]
  have hcall := h.standing call (List.mem_of_getElem? hget)
  rw [hserve]
  cases ht : call.task with
  | list record =>
    rw [ht] at hcall
    rw [advance_list hA call.caller record server.storage h.kept _ rfl]
    refine ⟨h.step_evicting hget (by rw [ht]; rfl) _ _ _ _ h.kept (List.Sublist.refl _) ?_,
      Or.inr ⟨by simp, List.Sublist.refl _⟩⟩
    intro waiting hw
    refine Standing.evicting [] hcall ⟨?_, ?_, ?_⟩ rfl (by simp)
    · exact h.uniqueRefs.sublist (List.filter_sublist.map _)
    · intro q hq hin
      have hstored := List.mem_map_of_mem (f := fun r => r.keyPackageRef)
        (List.mem_filter.mp hq).1
      exact (List.nodup_append.mp h.distinct).2.2 _ hstored _ (hw hin) rfl
    · intro q hq
      exact h.known _ (List.mem_append_left _
        (List.mem_map_of_mem (List.mem_filter.mp hq).1))
  | evict record records next oldest =>
    rw [ht] at hcall
    obtain ⟨hpk, hl, gone, hsplit, hout⟩ := hcall
    obtain ⟨s', hstep, hkept, hleft⟩ := advance_evict hA call.caller record next records oldest
      server.storage h.kept
    have hsub : (stored A.storage s').Sublist (stored A.storage server.storage) :=
      hleft ▸ List.eraseP_sublist
    rw [hstep]
    refine ⟨h.step_evicting hget (by rw [ht]; rfl) _ _ _ _ hkept hsub ?_,
      Or.inr ⟨by simp, hsub⟩⟩
    intro waiting hw
    have hlw := hl.mono (fun x hx => Or.inl (hw hx)) (List.Subset.refl _)
    refine Standing.evicting (gone ++ [next]) hpk hlw ?_ ?_
    · rw [hsplit, List.append_assoc, List.singleton_append]
    · intro q hq
      rcases List.mem_append.mp hq with hq | hq
      · exact fun hin => hout q hq ((hsub.map _).subset hin)
      · rw [List.mem_singleton.mp hq, hleft]
        exact refsOf_eraseP h.uniqueRefs _
  | insert record records =>
    have hwaits : record.keyPackageRef ∈ pending server.calls := by
      apply List.mem_filterMap.mpr
      exact ⟨call, List.mem_of_getElem? hget, by rw [ht]; rfl⟩
    have hfresh : ¬Refused unique record (stored A.storage server.storage) := by
      rintro ⟨-, q, hq, href⟩
      exact (List.nodup_append.mp h.distinct).2.2 _ (List.mem_map_of_mem hq) _ hwaits href
    obtain ⟨result, s', hstep, hkept, hin⟩ := advance_insert hA call.caller record records
      server.storage h.kept hfresh
    rw [hstep]
    refine ⟨h.step hget _ _ _ hkept ?_ (Or.inl rfl) (fun _ _ => trivial),
      Or.inl ⟨record, records, rfl, hin⟩⟩
    rw [ht]
    exact subperm_inserted hin
  | done result =>
    refine ⟨h.step hget _ _ _ h.kept ?_ (Or.inl rfl) (fun _ _ => trivial),
      Or.inr ⟨by simp, List.Sublist.refl _⟩⟩
    rw [ht]
    exact List.Subperm.refl _
  | check kpRef kpRefs removed =>
    rw [ht] at hcall
    exact hcall.elim
  | remove record kpRef kpRefs removed =>
    rw [ht] at hcall
    exact hcall.elim
  | consume id =>
    rw [ht] at hcall
    exact hcall.elim

theorem Racing.begin {server : Server V σ L} (h : Racing A Kept pk server) (c : Caller)
    (request : PackageRequest) (hok : StartsFresh pk (.start c request) server) :
    Racing A Kept pk (serve A (.start c request) server).2 := by
  obtain ⟨hname, input, event, rfl, hfresh⟩ := hok
  rw [serve]
  split
  · exact ⟨h.kept, h.distinct, h.known, h.standing⟩
  · generalize htask : Adapter.start A c (.publishKeyPackage input event) = task
    have hincoming : task.incoming.map (fun r => r.keyPackageRef) = none ∨
        task.incoming.map (fun r => r.keyPackageRef) = some input.kpRef := by
      rw [← htask, Adapter.start]
      split
      · exact Or.inl rfl
      · exact Or.inr rfl
    have hstands : ∀ shelf waiting taken,
        Standing A.keyPackageQuota pk shelf waiting taken task := by
      intro shelf waiting taken
      rw [← htask, Adapter.start]
      split
      · trivial
      · rename_i admitted hadm
        exact (admission_identity hadm).trans hname
    have hpending : pending (server.calls ++
        [⟨c, .publishKeyPackage input event, task⟩]) = pending server.calls ++
          (task.incoming.map (fun r => r.keyPackageRef)).toList := by
      rw [pending_append]
      simp [pending]
    have hused : used (server.calls ++ [⟨c, .publishKeyPackage input event, task⟩]) =
        used server.calls ++ [input.kpRef] := by
      rw [used_append]
      rfl
    refine ⟨h.kept, ?_, ?_, ?_⟩
    · change (refsOf (stored A.storage server.storage) ++ pending (server.calls ++ _)).Nodup
      rw [hpending, ← List.append_assoc]
      rcases hincoming with hnone | hsome
      · rw [hnone, Option.toList_none, List.append_nil]
        exact h.distinct
      · rw [hsome, Option.toList_some]
        refine List.nodup_append.mpr ⟨h.distinct, by simp, ?_⟩
        intro x hx y hy
        rw [List.mem_singleton.mp hy]
        rintro rfl
        exact hfresh (h.known _ hx)
    · change ∀ x ∈ refsOf (stored A.storage server.storage) ++ pending (server.calls ++ _),
        x ∈ used (server.calls ++ _)
      intro x hx
      rw [hpending, ← List.append_assoc, List.mem_append] at hx
      rw [hused, List.mem_append]
      rcases hx with hx | hx
      · exact Or.inl (h.known x hx)
      · rcases hincoming with hnone | hsome
        · simp [hnone] at hx
        · rw [hsome] at hx
          exact Or.inr hx
    · change ∀ call ∈ server.calls ++ _, Standing A.keyPackageQuota pk
        (stored A.storage server.storage) (pending (server.calls ++ _))
        (used (server.calls ++ _)) call.task
      intro call hcall
      rcases List.mem_append.mp hcall with hcall | hcall
      · rw [hpending, hused]
        refine (h.standing call hcall).mono (fun x hx => Or.inl hx) ?_
          (List.subset_append_left _ _)
        intro x hx
        rcases List.mem_append.mp hx with hx | hx
        · exact Or.inl hx
        · rcases hincoming with hnone | hsome
          · simp [hnone] at hx
          · rw [hsome, Option.toList_some, List.mem_singleton] at hx
            exact Or.inr (hx ▸ hfresh)
      · rw [List.mem_singleton.mp hcall]
        exact hstands _ _ _

theorem WithinQuotas.sublist {quota : KeyPackageQuotaConfig} {l l' : KeyShelf V}
    (h : WithinQuotas quota pk l) (hsub : l'.Sublist l) : WithinQuotas quota pk l' := by
  have hall := (hsub.filter (hasIdentity pk)).length_le
  have hlast : lastResortCount l' pk ≤ lastResortCount l pk := hsub.countP_le
  exact ⟨hall.trans h.1, hlast.trans h.2⟩

theorem withinQuotas_inserted {quota : KeyPackageQuotaConfig} {l l' : KeyShelf V}
    {r : PublishedKeyPackageRecord V} (h : WithinQuotas quota pk l) (hin : Inserted l r l')
    (hr : r.stablePubkey = pk) :
    WithinQuotas quota pk l' ↔ ¬(quota.maxPerIdentity ≤ (l.filter (hasIdentity pk)).length ∨
      r.isLastResort = true ∧ quota.maxLastResortPerIdentity ≤ lastResortCount l pk) := by
  obtain ⟨hall, hlast⟩ := h
  rw [WithinQuotas, identityCount_inserted hin, lastResortCount_inserted hin, if_pos hr]
  cases hflag : r.isLastResort with
  | false =>
    simp only [Bool.and_false, Bool.false_eq_true, if_false, false_and, or_false]
    omega
  | true =>
    simp only [hasIdentity, hr, decide_true, Bool.and_true, if_true, true_and]
    omega

theorem serve_withinQuotas (hA : KeepsShelf A.storage Kept unique)
    (hmax : 0 < A.keyPackageQuota.maxPerIdentity)
    (hlast : 0 < A.keyPackageQuota.maxLastResortPerIdentity) (event : Event)
    (server : Server V σ L) (h : Racing A Kept pk server)
    (hw : WithinQuotas A.keyPackageQuota pk (stored A.storage server.storage)) :
    WithinQuotas A.keyPackageQuota pk (stored A.storage (serve A event server).2.storage) ↔
      ¬Crowded A event server := by
  have hcalm : (stored A.storage (serve A event server).2.storage).Sublist
        (stored A.storage server.storage) →
      (∀ i call record records, event = .advance i → server.calls[i]? = some call →
        call.task ≠ .insert record records) →
      (WithinQuotas A.keyPackageQuota pk (stored A.storage (serve A event server).2.storage) ↔
        ¬Crowded A event server) := by
    intro hsub hno
    refine iff_of_true (hw.sublist hsub) ?_
    rintro ⟨i, call, record, records, hevent, hget, ht, -⟩
    exact hno i call record records hevent hget ht
  cases event with
  | start c request =>
    refine hcalm ?_ (by simp)
    rw [serve]
    split <;> exact List.Sublist.refl _
  | advance i =>
    cases hget : server.calls[i]? with
    | none =>
      refine hcalm ?_ ?_
      · simp only [serve, hget]
        exact List.Sublist.refl _
      · intro j call _ _ hevent hcall
        obtain rfl := Event.advance.inj hevent
        simp [hget] at hcall
    | some call =>
      obtain ⟨-, ⟨record, records, ht, hin⟩ | ⟨hno, hsub⟩⟩ := h.advance hA hget
      · have hcall := h.standing call (List.mem_of_getElem? hget)
        rw [ht] at hcall
        have hpk := hcall.1
        rw [withinQuotas_inserted hw hin hpk, not_iff_not]
        constructor
        · intro hfull
          refine ⟨i, call, record, records, rfl, hget, ht, ?_, by rwa [hpk]⟩
          by_contra hno
          have hall : ∀ q ∈ stored A.storage server.storage,
              q.stablePubkey = record.stablePubkey → q ∈ records := by
            intro q hq hid
            by_contra hnew
            exact hno ⟨q, hq, hid, hnew⟩
          obtain ⟨hroom, hroomLast⟩ := room_without_newcomers hmax hlast h.uniqueRefs hcall hall
          rcases hfull with hfull | ⟨hflag, hfull⟩
          · omega
          · have hless := hroomLast hflag
            omega
        · rintro ⟨j, call', record', records', hevent, hget', ht', -, hfull⟩
          obtain rfl := Event.advance.inj hevent
          obtain rfl := Option.some.inj (hget.symm.trans hget')
          obtain ⟨rfl, rfl⟩ := Task.insert.inj (ht.symm.trans ht')
          rwa [hpk] at hfull
      · refine hcalm hsub ?_
        intro j call' record records hevent hget'
        obtain rfl := Event.advance.inj hevent
        obtain rfl := Option.some.inj (hget.symm.trans hget')
        exact hno record records

theorem serve_racing (hA : KeepsShelf A.storage Kept unique) (event : Event)
    (server : Server V σ L) (h : Racing A Kept pk server) (hok : StartsFresh pk event server) :
    Racing A Kept pk (serve A event server).2 := by
  cases event with
  | start c request => exact h.begin c request hok
  | advance i =>
    cases hget : server.calls[i]? with
    | none =>
      have hstay : (serve A (.advance i) server).2 = server := by simp [serve, hget]
      rwa [hstay]
    | some call => exact (h.advance hA hget).1

theorem used_serve (event : Event) (server : Server V σ L) :
    used (serve A event server).2.calls ⊆ used server.calls ++ (startedRef event).toList := by
  cases event with
  | start c request =>
    rw [serve]
    split
    · exact List.subset_append_left _ _
    · change used (server.calls ++ _) ⊆ _
      rw [used_append]
      cases request <;> exact List.Subset.refl _
  | advance i =>
    rw [serve]
    split
    · exact List.subset_append_left _ _
    · rename_i call hget
      obtain ⟨front, back, hcalls, hset⟩ := split_at hget
      change used (server.calls.set i _) ⊆ _
      rw [hset, hcalls, used_append, used_append]
      exact List.subset_append_left _ _

theorem along_startsFresh (events : List Event) (server : Server V σ L)
    (hpk : ∀ c request, Event.start c request ∈ events →
      c.clientPubkey = pk ∧ ∃ input event, request = .publishKeyPackage input event)
    (hnodup : (events.filterMap startedRef).Nodup)
    (hnew : ∀ x ∈ events.filterMap startedRef, x ∉ used server.calls) :
    Run.Along (StartsFresh pk) (serve A) events server := by
  induction events generalizing server with
  | nil => trivial
  | cons event events ih =>
    have hcons : (event::events).filterMap startedRef =
        (startedRef event).toList ++ events.filterMap startedRef := by
      rw [List.filterMap_cons]
      cases startedRef event <;> rfl
    rw [hcons] at hnodup hnew
    obtain ⟨-, hrest, hdisjoint⟩ := List.nodup_append.mp hnodup
    constructor
    · cases event with
      | start c request =>
        obtain ⟨hname, input, publication, rfl⟩ := hpk c request List.mem_cons_self
        exact ⟨hname, input, publication, rfl, hnew _ (by simp [startedRef])⟩
      | advance i => trivial
    · refine ih _ (fun c request hmem => hpk c request (List.mem_cons_of_mem _ hmem)) hrest ?_
      intro x hx hin
      rcases List.mem_append.mp (used_serve event server hin) with hin | hin
      · exact hnew x (List.mem_append_right _ hx) hin
      · exact hdisjoint x hin x hx rfl

theorem run_withinQuotas (hA : KeepsShelf A.storage Kept unique)
    (hmax : 0 < A.keyPackageQuota.maxPerIdentity)
    (hlast : 0 < A.keyPackageQuota.maxLastResortPerIdentity) (events : List Event)
    (hevents : PublishesOf pk events) (init : σ) (l : L) (hi : Kept init)
    (hempty : stored A.storage init = []) :
    Run.Throughout (fun server =>
        WithinQuotas A.keyPackageQuota pk (stored A.storage server.storage)) (serve A) events
        (Server.new init l) ↔
      Run.Along (fun event server => ¬Crowded A event server) (serve A) events
        (Server.new init l) := by
  have hstart : Racing A Kept pk (Server.new init l) := by
    refine ⟨hi, ?_, ?_, by simp [Server.new]⟩ <;>
      simp [Server.new, hempty, refsOf, pending]
  refine Run.throughout_iff_along (serve A) (Racing A Kept pk) _ (StartsFresh pk) _
    (serve_racing hA)
    (fun event server h _ hw => serve_withinQuotas hA hmax hlast event server h hw)
    events _ (along_startsFresh events _ hevents.1 hevents.2 (by simp [Server.new, used])) hstart ?_
  simp [WithinQuotas, Server.new, hempty, lastResortCount]

end Backend

/-- Among concurrent publishes an identity stays within its maxima exactly when
no publish inserts into a full shelf that newcomers filled behind its listing. -/
theorem concurrent_quota (json : Sqlite.SerdeJson V) (hj : json.RoundTrips)
    (rateLimiter : RateLimiter L) (quota : KeyPackageQuotaConfig) (externals : Externals V)
    (hmax : 0 < quota.maxPerIdentity) (hlast : 1 ≤ quota.maxLastResortPerIdentity) (pk : String)
    (events : List Event) (hevents : PublishesOf pk events) (l : L) :
    (Run.Throughout (fun server =>
          WithinQuotas quota pk (stored InMemory.storage server.storage))
        (serve ⟨InMemory.storage, rateLimiter, quota, externals⟩) events
        (Server.new InMemory.InMemoryInner.default l) ↔
      Run.Along (fun event server =>
          ¬Crowded ⟨InMemory.storage, rateLimiter, quota, externals⟩ event server)
        (serve ⟨InMemory.storage, rateLimiter, quota, externals⟩) events
        (Server.new InMemory.InMemoryInner.default l)) ∧
    (Run.Throughout (fun server =>
          WithinQuotas quota pk (stored (Sqlite.storage json) server.storage))
        (serve ⟨Sqlite.storage json, rateLimiter, quota, externals⟩) events
        (Server.new Sqlite.Database.new l) ↔
      Run.Along (fun event server =>
          ¬Crowded ⟨Sqlite.storage json, rateLimiter, quota, externals⟩ event server)
        (serve ⟨Sqlite.storage json, rateLimiter, quota, externals⟩) events
        (Server.new Sqlite.Database.new l)) := by
  constructor
  · exact run_withinQuotas (A := ⟨InMemory.storage, rateLimiter, quota, externals⟩)
      inMemory_keepsShelf hmax hlast events hevents InMemory.InMemoryInner.default l
      (IndexMap.keyed_empty _) rfl
  · exact run_withinQuotas (A := ⟨Sqlite.storage json, rateLimiter, quota, externals⟩)
      (sqlite_keepsShelf hj) hmax hlast events hevents Sqlite.Database.new l
      ⟨[], rfl, by simp [UniqueRefs]⟩ (Sqlite.stored_eq hj rfl)

/-- Two publishes of Alice that both list before either inserts. -/
def crowdedPublishes : List Event :=
  [publication alice alice64 true "a-1", publication alice alice64 true "a-2",
    .advance 0, .advance 1, .advance 0, .advance 1]

theorem crowdedPublishes_of : PublishesOf alice crowdedPublishes := by
  constructor
  · intro c request h
    simp only [crowdedPublishes, publication, starts, List.mem_cons, Event.start.injEq,
      reduceCtorEq, List.not_mem_nil, or_false] at h
    rcases h with ⟨rfl, rfl⟩ | ⟨rfl, rfl⟩ <;> exact ⟨rfl, _, _, rfl⟩
  · decide

theorem concurrent_quota_sample :
    (Run.Throughout (fun server =>
          WithinQuotas ⟨10, 1⟩ alice (stored memoryAdapter.storage server.storage))
        (serve memoryAdapter) crowdedPublishes (Server.new InMemory.InMemoryInner.default ()) ↔
      Run.Along (fun event server => ¬Crowded memoryAdapter event server) (serve memoryAdapter)
        crowdedPublishes (Server.new InMemory.InMemoryInner.default ())) ∧
    (Run.Throughout (fun server =>
          WithinQuotas ⟨10, 1⟩ alice (stored sqliteAdapter.storage server.storage))
        (serve sqliteAdapter) crowdedPublishes (Server.new Sqlite.Database.new ()) ↔
      Run.Along (fun event server => ¬Crowded sqliteAdapter event server) (serve sqliteAdapter)
        crowdedPublishes (Server.new Sqlite.Database.new ())) :=
  concurrent_quota jsonText jsonText_roundTrips unlimited ⟨10, 1⟩ sampleExternals (by decide)
    (by decide) alice crowdedPublishes crowdedPublishes_of ()

/-- Alice ends with two last-resort packages where one is the maximum. -/
theorem quota_crowded :
    PublishesOf alice crowdedPublishes ∧
      lastResortCount (stored memoryAdapter.storage (Run.after (serve memoryAdapter)
        crowdedPublishes (Server.new InMemory.InMemoryInner.default ())).storage) alice = 2 ∧
      lastResortCount (stored sqliteAdapter.storage (Run.after (serve sqliteAdapter)
        crowdedPublishes (Server.new Sqlite.Database.new ())).storage) alice = 2 ∧
      memoryAdapter.keyPackageQuota.maxLastResortPerIdentity = 1 ∧
      sqliteAdapter.keyPackageQuota.maxLastResortPerIdentity = 1 :=
  ⟨crowdedPublishes_of, by decide +kernel⟩

end Cordn.Adapter
