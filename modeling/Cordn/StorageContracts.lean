import Cordn.KeyPackageShelf
import Cordn.ServerCalls
import Cordn.SqliteGroupLogs

/-!
# What the storage promises

Whatever is known of the records put in is known of the records handed out: a
backend invents nothing, and answers a call with the records that the call asks
for. The three parts of either backend's state keep this each on their own.
-/

set_option autoImplicit false

namespace Cordn.Server
open CoordinatorOps KeyPackageOps QueueOps

variable {V σ L α : Type}

structure Facts (V : Type) where
  keyPackage : PublishedKeyPackageRecord V → Prop
  welcome : WelcomeQueueRecord → Prop
  joinRequest : JoinRequestRecord → Prop
  message : GroupMessageRecord → Prop

def Appends (params : AppendGroupMessageParams) (m : GroupMessageRecord) : Prop :=
  m.groupId = params.groupId ∧ m.opaqueMessage = params.opaqueMessage ∧
    m.createdAt = params.createdAt

def asks (G : Facts V) : StorageCall V α → Prop
  | .storeWelcome record => G.welcome record
  | .storeJoinRequest record => G.joinRequest record
  | .appendGroupMessage params => ∀ m, Appends params m → G.message m
  | _ => True

def puts (G : Facts V) : StorageCall V α → Except StorageError α → Prop
  | .publishKeyPackage record, .ok _ => G.keyPackage record
  | _, _ => True

def promises (G : Facts V) : StorageCall V α → α → Prop
  | .publishKeyPackage record, r => r = record
  | .listKeyPackagesForIdentity pk, records =>
    ∀ r ∈ records, G.keyPackage r ∧ r.stablePubkey = pk
  | .listAllKeyPackages, records => ∀ r ∈ records, G.keyPackage r
  | .getKeyPackage ref, found => ∀ r ∈ found, G.keyPackage r ∧ r.keyPackageRef = ref
  | .removeKeyPackage ref, found => ∀ r ∈ found, G.keyPackage r ∧ r.keyPackageRef = ref
  | .consumeKeyPackage id, found =>
    ∀ r ∈ found, G.keyPackage r ∧ (r.keyPackageRef = id ∨ r.stablePubkey = id)
  | .storeWelcome record, r => r = record
  | .fetchPendingWelcomes target consumed, records => ∀ r ∈ records, G.welcome r ∧
    r.targetStablePubkey = target ∧ ⟨r.keyPackageReference, r.createdAt⟩ ∉ consumed
  | .storeJoinRequest record, r => r = record
  | .fetchPendingJoinRequests groupId _, records =>
    ∀ r ∈ records, G.joinRequest r ∧ r.groupId = groupId
  | .fetchManyPendingJoinRequests groupIds _, records =>
    ∀ r ∈ records, G.joinRequest r ∧ r.groupId ∈ groupIds
  | .appendGroupMessage params, m => Appends params m
  | .fetchManyGroupMessages groups, messages =>
    ∀ m ∈ messages, G.message m ∧ ∃ g ∈ groups, g.groupId = m.groupId
  | .deleteExpiredWelcomes _, _ => True
  | .deleteExpiredJoinRequests _, _ => True

theorem taken_names {l : KeyShelf V} {x : String} {r : PublishedKeyPackageRecord V}
    (h : taken l x = some r) : r.keyPackageRef = x ∨ r.stablePubkey = x := by
  simp only [taken, Option.or_eq_some_iff] at h
  rcases h with h | ⟨-, h | ⟨-, h⟩⟩
  · exact Or.inl (by simpa [KeyPackageOps.hasRef] using List.find?_some h)
  · have hfound := List.find?_some h
    simp only [KeyPackageOps.hasIdentity, Bool.and_eq_true, decide_eq_true_eq] at hfound
    exact Or.inr hfound.1
  · have hfound := (List.mem_filter.mp (List.mem_of_getLast? h)).2
    simp only [KeyPackageOps.hasIdentity, Bool.and_eq_true, decide_eq_true_eq] at hfound
    exact Or.inr hfound.1

theorem withRef_names {l : KeyShelf V} {x : String} {r : PublishedKeyPackageRecord V}
    (h : withRef l x = some r) : r ∈ l ∧ r.keyPackageRef = x :=
  ⟨List.mem_of_find?_eq_some h, by simpa [KeyPackageOps.hasRef] using List.find?_some h⟩

structure Shelves (S : CoordinatorStorage V σ) (Kept : σ → Prop)
    (P : PublishedKeyPackageRecord V → Prop) (s : σ) : Prop where
  kept : Kept s
  all : ∀ r ∈ stored S s, P r

theorem Shelves.of_leaves {S : CoordinatorStorage V σ} {Kept : σ → Prop}
    {P : PublishedKeyPackageRecord V → Prop} {op : Locked σ α} (h : LeavesShelf S Kept op) {s : σ}
    (hs : Shelves S Kept P s) : Shelves S Kept P (op s).2 := by
  obtain ⟨hkept, heq⟩ := h s hs.kept
  exact ⟨hkept, heq ▸ hs.all⟩

section Shelf

variable {S : CoordinatorStorage V σ} {Kept : σ → Prop} {unique : Bool}
  (hS : KeepsShelf S Kept unique) {P : PublishedKeyPackageRecord V → Prop} {s : σ}
  (hs : Shelves S Kept P s)

include hS hs

theorem shelves_publish (record : PublishedKeyPackageRecord V)
    (h : ∀ r, (S.publishKeyPackage record s).1 = .ok r → P record) :
    (∀ r, (S.publishKeyPackage record s).1 = .ok r → r = record) ∧
      Shelves S Kept P (S.publishKeyPackage record s).2 := by
  by_cases hrefused : Refused unique record (stored S s)
  · obtain ⟨e, he⟩ := hS.refuse s record hs.kept hrefused
    rw [he]
    exact ⟨by simp, hs⟩
  · obtain ⟨hres, hkept, before, behind, hbefore, hafter⟩ := hS.accept s record hs.kept hrefused
    have hrecord := h record hres
    rw [hres]
    refine ⟨fun r hr => (Except.ok.inj hr).symm, hkept, fun r hr => ?_⟩
    rw [hafter, List.mem_append, List.mem_cons] at hr
    rcases hr with hr | rfl | hr
    · exact hs.all r (hbefore ▸ List.mem_append_left _ hr)
    · exact hrecord
    · exact hs.all r (hbefore ▸ List.mem_append_right _ hr)

theorem shelves_remove (x : String) :
    (∀ found, (S.removeKeyPackage x s).1 = .ok found → ∀ r ∈ found, P r ∧ r.keyPackageRef = x) ∧
      Shelves S Kept P (S.removeKeyPackage x s).2 := by
  obtain ⟨hres, hkept, hleft⟩ := hS.remove s x hs.kept
  rw [hres]
  constructor
  · rintro found hfound r hr
    obtain rfl := Except.ok.inj hfound
    obtain ⟨hmem, href⟩ := withRef_names hr
    exact ⟨hs.all r hmem, href⟩
  · exact ⟨hkept, fun r hr => hs.all r (List.mem_of_mem_eraseP (hleft ▸ hr))⟩

theorem shelves_consume (x : String) :
    (∀ found, (S.consumeKeyPackage x s).1 = .ok found →
        ∀ r ∈ found, P r ∧ (r.keyPackageRef = x ∨ r.stablePubkey = x)) ∧
      Shelves S Kept P (S.consumeKeyPackage x s).2 := by
  obtain ⟨hres, hkept, hleft⟩ := hS.consume s x hs.kept
  rw [hres]
  constructor
  · rintro found hfound r hr
    obtain rfl := Except.ok.inj hfound
    exact ⟨hs.all r (taken_mem hr), taken_names hr⟩
  · exact ⟨hkept, fun r hr => hs.all r ((consumed_sublist hleft).subset hr)⟩

end Shelf

/-- The messages of a state are all `P`, whatever the operation. -/
structure KeepsMessages (S : CoordinatorStorage V σ)
    (Holds : (GroupMessageRecord → Prop) → σ → Prop) : Prop where
  append : ∀ P params s, Holds P s → (∀ m, Appends params m → P m) →
    (∀ m, (S.appendGroupMessage params s).1 = .ok m → Appends params m) ∧
      Holds P (S.appendGroupMessage params s).2
  fetchMany : ∀ P groups s, Holds P s →
    (∀ messages, (S.fetchManyGroupMessages groups s).1 = .ok messages →
        ∀ m ∈ messages, P m ∧ ∃ g ∈ groups, g.groupId = m.groupId) ∧
      Holds P (S.fetchManyGroupMessages groups s).2
  keyPackages : ∀ P op s, Holds P s → Holds P (KeyPackageOps.step S op s).2
  listAllKeyPackages : ∀ P s, Holds P s → Holds P (S.listAllKeyPackages s).2
  queues : ∀ P op s, Holds P s → Holds P (QueueOps.step S op s).2

def mapMessages (P : GroupMessageRecord → Prop) (s : InMemory.InMemoryInner V) : Prop :=
  ∀ g log, s.groups.get? g = some log → ∀ m ∈ log.messages, P m ∧ m.groupId = g

theorem mem_messagesAfter {P : GroupMessageRecord → Prop} {s : InMemory.InMemoryInner V}
    (h : mapMessages P s) {g : String} {afterCursor : Option Int} {m : GroupMessageRecord}
    (hm : m ∈ InMemory.messagesAfter s.groups g afterCursor) : P m ∧ m.groupId = g := by
  rw [InMemory.messagesAfter] at hm
  have hstored := (List.mem_filter.mp hm).1
  cases hg : s.groups.get? g with
  | none =>
    rw [hg] at hstored
    simp at hstored
  | some log =>
    rw [hg] at hstored
    exact h g log hg m hstored

theorem inMemory_keepsMessages :
    KeepsMessages (InMemory.storage : CoordinatorStorage V (InMemory.InMemoryInner V))
      mapMessages where
  append P params s hs hP := by
    change (∀ m, (InMemory.appendGroupMessage params s).1 = .ok m → _) ∧
      mapMessages P (InMemory.appendGroupMessage params s).2
    simp only [InMemory.appendGroupMessage]
    constructor
    · intro m hm
      obtain rfl := Except.ok.inj hm
      exact ⟨rfl, rfl, rfl⟩
    · intro g log hg m hm
      rw [IndexMap.get?_insert] at hg
      split at hg
      · rename_i hgroup
        subst hgroup
        obtain rfl := Option.some.inj hg
        rcases List.mem_append.mp hm with hold | hnew
        · cases hget : s.groups.get? params.groupId with
          | none =>
            rw [hget] at hold
            simp [InMemory.GroupLog.new] at hold
          | some log =>
            rw [hget] at hold
            exact hs _ log hget m hold
        · obtain rfl := List.mem_singleton.mp hnew
          exact ⟨hP _ ⟨rfl, rfl, rfl⟩, rfl⟩
      · exact hs g log hg m hm
  fetchMany P groups s hs := by
    refine ⟨fun messages hres m hm => ?_, hs⟩
    obtain rfl := Except.ok.inj hres
    obtain ⟨g, hg, hin⟩ := List.mem_flatMap.mp hm
    obtain ⟨hP, hgroup⟩ := mem_messagesAfter hs hin
    exact ⟨hP, g, hg, hgroup.symm⟩
  keyPackages P op s hs := by
    obtain ⟨kept, he⟩ := InMemory.keyPackages_frame op s
    rw [he]
    exact hs
  listAllKeyPackages P s hs := hs
  queues P op s hs := by
    obtain ⟨welcomes, joinRequests, he⟩ := InMemory.queues_frame op s
    rw [he]
    exact hs

def tableMessages (P : GroupMessageRecord → Prop) (db : Sqlite.Database) : Prop :=
  ∀ m ∈ db.groupMessages.contents, P m

theorem sqlite_keepsMessages (json : Sqlite.SerdeJson V) :
    KeepsMessages (Sqlite.storage json) tableMessages where
  append P params db hs hP := by
    change (∀ m, (Sqlite.appendGroupMessage params db).1 = .ok m → _) ∧
      tableMessages P (Sqlite.appendGroupMessage params db).2
    simp only [Sqlite.appendGroupMessage]
    split
    · exact ⟨by simp, hs⟩
    · split
      · exact ⟨by simp, hs⟩
      · rename_i groupMessages hinsert
        constructor
        · intro m hm
          obtain rfl := Except.ok.inj hm
          exact ⟨rfl, rfl, rfl⟩
        · intro m hm
          rw [SqlTable.insertUnique] at hinsert
          split at hinsert
          · cases hinsert
          · obtain rfl := Option.some.inj hinsert
            change m ∈ (db.groupMessages.insert _).contents at hm
            rw [SqlTable.contents_insert] at hm
            rcases List.mem_append.mp hm with hold | hnew
            · exact hs m hold
            · obtain rfl := List.mem_singleton.mp hnew
              exact hP _ ⟨rfl, rfl, rfl⟩
  fetchMany P groups db hs := by
    change (∀ messages, (Sqlite.fetchManyGroupMessages groups db).1 = .ok messages → _) ∧
      tableMessages P (Sqlite.fetchManyGroupMessages groups db).2
    cases hlimit : Sqlite.messageLimit groups.length with
    | some e =>
      rw [Sqlite.fetchManyMessages_refused groups db e hlimit]
      exact ⟨by simp, hs⟩
    | none =>
      rw [Sqlite.fetchMany_selects groups db hlimit]
      refine ⟨fun messages hres m hm => ?_, hs⟩
      obtain rfl := Except.ok.inj hres
      obtain ⟨g, hg, hin⟩ := List.mem_flatMap.mp hm
      obtain ⟨hmem, hmatch⟩ := (SqlTable.mem_select _ _ _ _).mp hin
      simp only [Bool.and_eq_true, decide_eq_true_eq] at hmatch
      exact ⟨hs m hmem, g, hg, hmatch.1.symm⟩
  keyPackages P op db hs := by
    obtain ⟨keyPackages, he⟩ := Sqlite.keyPackages_frame json op db
    rw [he]
    exact hs
  listAllKeyPackages P db hs := hs
  queues P op db hs := by
    obtain ⟨welcomes, joinRequests, he⟩ := Sqlite.queues_frame json op db
    rw [he]
    exact hs

structure Queued (G : Facts V) (q : Queues) : Prop where
  welcomes : ∀ w ∈ q.welcomes, G.welcome w
  joinRequests : ∀ r ∈ q.joinRequests, G.joinRequest r

def queueAsks (G : Facts V) : QueueOps.Op → Prop
  | .storeWelcome record => G.welcome record
  | .storeJoinRequest record => G.joinRequest record
  | _ => True

theorem Queued.step {G : Facts V} {q : Queues} (h : Queued G q) (op : QueueOps.Op)
    (hop : queueAsks G op) : Queued G (queueStep op q).2 := by
  have horder := queueStep_keepsOrder op q
  constructor
  · intro w hw
    rw [horder.welcomes] at hw
    rcases List.mem_append.mp hw with hold | hnew
    · exact h.welcomes w (List.mem_filter.mp hold).1
    · cases op with
      | storeWelcome record => exact List.mem_singleton.mp hnew ▸ hop
      | _ => simp [entersWelcomes] at hnew
  · intro r hr
    rw [horder.joinRequests] at hr
    rcases List.mem_append.mp hr with hold | hnew
    · obtain ⟨old, hmem, rfl⟩ := List.mem_map.mp (List.mem_filter.mp hold).1
      cases op with
      | storeJoinRequest record =>
        change G.joinRequest (refresh record old)
        by_cases hkey : requestKey old = requestKey record
        · rw [refresh_same record old hkey]
          exact hop
        · rw [refresh_other record old hkey]
          exact h.joinRequests old hmem
      | _ => exact h.joinRequests old hmem
    · cases op with
      | storeJoinRequest record =>
        simp only [entersJoinRequests] at hnew
        split at hnew
        · simp at hnew
        · exact List.mem_singleton.mp hnew ▸ hop
      | _ => simp [entersJoinRequests] at hnew

theorem mem_fetchMany {consumed : List ConsumedJoinRequestWithGroupRef} {groupIds : List String}
    {q : Queues} {r : JoinRequestRecord}
    (h : r ∈ (Queues.fetchManyJoinRequests consumed groupIds q).1) :
    r ∈ q.joinRequests ∧ r.groupId ∈ groupIds := by
  induction groupIds generalizing q with
  | nil => simp [Queues.fetchManyJoinRequests] at h
  | cons groupId groupIds ih =>
    rcases List.mem_append.mp h with hfirst | hrest
    · obtain ⟨hmem, hgroup⟩ := List.mem_filter.mp hfirst
      exact ⟨(List.mem_filter.mp hmem).1, by simp [of_decide_eq_true hgroup]⟩
    · obtain ⟨hmem, hgroup⟩ := ih hrest
      exact ⟨(List.mem_filter.mp hmem).1, List.mem_cons_of_mem _ hgroup⟩

structure Backed (S : CoordinatorStorage V σ) (limit : FetchLimit) (Kept : σ → Prop)
    (unique : Bool) (R : σ → Queues → Prop)
    (Holds : (GroupMessageRecord → Prop) → σ → Prop) : Prop where
  shelf : KeepsShelf S Kept unique
  fetchPendingJoinRequests : ∀ groupId consumed,
    LeavesShelf S Kept (S.fetchPendingJoinRequests groupId consumed)
  deleteExpiredWelcomes : ∀ threshold, LeavesShelf S Kept (S.deleteExpiredWelcomes threshold)
  deleteExpiredJoinRequests : ∀ threshold,
    LeavesShelf S Kept (S.deleteExpiredJoinRequests threshold)
  queues : KeepsQueues S limit R
  messages : KeepsMessages S Holds

theorem inMemory_backed :
    Backed (InMemory.storage : CoordinatorStorage V (InMemory.InMemoryInner V)) noLimit
      MapShelved false InMemory.HoldsQueues mapMessages where
  shelf := inMemory_keepsShelf
  fetchPendingJoinRequests groupId consumed :=
    inMemory_leavesShelf _ (inMemory_queues_packages (.fetchPendingJoinRequests groupId consumed))
  deleteExpiredWelcomes threshold :=
    inMemory_leavesShelf _ (inMemory_queues_packages (.deleteExpiredWelcomes threshold))
  deleteExpiredJoinRequests threshold :=
    inMemory_leavesShelf _ (inMemory_queues_packages (.deleteExpiredJoinRequests threshold))
  queues := inMemory_keepsQueues
  messages := inMemory_keepsMessages

theorem sqlite_backed {json : Sqlite.SerdeJson V} (hj : json.RoundTrips) :
    Backed (Sqlite.storage json) Sqlite.joinRequestLimit (TableShelved json) true
      Sqlite.HoldsQueues tableMessages where
  shelf := sqlite_keepsShelf hj
  fetchPendingJoinRequests groupId consumed := sqlite_leavesShelf hj _
    (sqlite_queues_packages json (.fetchPendingJoinRequests groupId consumed))
  deleteExpiredWelcomes threshold :=
    sqlite_leavesShelf hj _ (sqlite_queues_packages json (.deleteExpiredWelcomes threshold))
  deleteExpiredJoinRequests threshold :=
    sqlite_leavesShelf hj _ (sqlite_queues_packages json (.deleteExpiredJoinRequests threshold))
  queues := sqlite_keepsQueues json
  messages := sqlite_keepsMessages json

section Backend

variable {S : CoordinatorStorage V σ} {limit : FetchLimit} {Kept : σ → Prop} {unique : Bool}
  {R : σ → Queues → Prop} {Holds : (GroupMessageRecord → Prop) → σ → Prop}

structure Knows (S : CoordinatorStorage V σ) (Kept : σ → Prop) (R : σ → Queues → Prop)
    (Holds : (GroupMessageRecord → Prop) → σ → Prop) (G : Facts V) (s : σ) : Prop where
  packages : Shelves S Kept G.keyPackage s
  queues : ∃ q, R s q ∧ Queued G q
  messages : Holds G.message s

variable (hS : Backed S limit Kept unique R Holds) {G : Facts V}

include hS

theorem Knows.queueStep {s : σ} (h : Knows S Kept R Holds G s) (op : QueueOps.Op)
    (hop : queueAsks G op)
    (hshelf : Shelves S Kept G.keyPackage (QueueOps.step S op s).2) :
    Knows S Kept R Holds G (QueueOps.step S op s).2 ∧
      ∃ q, Queued G q ∧ (QueueOps.step S op s).1 = (limitedStep limit op q).1 := by
  obtain ⟨q, hR, hq⟩ := h.queues
  obtain ⟨hanswer, hnext⟩ := hS.queues.queues op s q hR
  have hqueued : Queued G (limitedStep limit op q).2 := by
    rcases limitedStep_cases limit op q with he | ⟨_, _, _, -, -, he⟩
    · rw [he]
      exact hq.step op hop
    · rwa [he]
  exact ⟨⟨hshelf, ⟨_, hnext, hqueued⟩, hS.messages.queues _ op s h.messages⟩, q, hq, hanswer⟩

theorem Knows.packageStep {s : σ} (h : Knows S Kept R Holds G s) (op : KeyPackageOps.Op V)
    (hshelf : Shelves S Kept G.keyPackage (KeyPackageOps.step S op s).2) :
    Knows S Kept R Holds G (KeyPackageOps.step S op s).2 := by
  obtain ⟨q, hR, hq⟩ := h.queues
  exact ⟨hshelf, ⟨q, hS.queues.keyPackages op s q hR, hq⟩,
    hS.messages.keyPackages _ op s h.messages⟩

theorem Knows.messageStep {s : σ} (h : Knows S Kept R Holds G s) (op : GroupLogOps.Op)
    (hshelf : Shelves S Kept G.keyPackage (GroupLogOps.step S op s).2)
    (hmessages : Holds G.message (GroupLogOps.step S op s).2) :
    Knows S Kept R Holds G (GroupLogOps.step S op s).2 := by
  obtain ⟨q, hR, hq⟩ := h.queues
  exact ⟨hshelf, ⟨q, hS.queues.messages op s q hR, hq⟩, hmessages⟩

theorem Knows.perform {s : σ} (h : Knows S Kept R Holds G s) (op : StorageCall V α)
    (hop : asks G op) (hputs : puts G op (op.perform S s).1) :
    (∀ a, (op.perform S s).1 = .ok a → promises G op a) ∧
      Knows S Kept R Holds G (op.perform S s).2 := by
  cases op with
  | publishKeyPackage record =>
    have hrecord : ∀ r, (S.publishKeyPackage record s).1 = .ok r → G.keyPackage record := by
      intro r hr
      change puts G (.publishKeyPackage record) (S.publishKeyPackage record s).1 at hputs
      rw [hr] at hputs
      exact hputs
    obtain ⟨hres, hshelf⟩ := shelves_publish hS.shelf h.packages record hrecord
    exact ⟨hres, h.packageStep hS (.publish record) hshelf⟩
  | listKeyPackagesForIdentity pk =>
    have hres := hS.shelf.identity s pk h.packages.kept
    refine ⟨?_, h.packageStep hS (.list pk) ?_⟩
    · intro records hrecords r hr
      change (S.listKeyPackagesForIdentity pk s).1 = _ at hrecords
      rw [hres] at hrecords
      obtain rfl := Except.ok.inj hrecords
      obtain ⟨hmem, hpk⟩ := List.mem_filter.mp hr
      exact ⟨h.packages.all r hmem, of_decide_eq_true hpk⟩
    · change Shelves S Kept G.keyPackage (S.listKeyPackagesForIdentity pk s).2
      rw [hres]
      exact h.packages
  | listAllKeyPackages =>
    have hres := hS.shelf.all s h.packages.kept
    change (∀ a, (S.listAllKeyPackages s).1 = .ok a → _) ∧
      Knows S Kept R Holds G (S.listAllKeyPackages s).2
    rw [hres]
    refine ⟨?_, h⟩
    intro records hrecords r hr
    obtain rfl := Except.ok.inj hrecords
    exact h.packages.all r hr
  | getKeyPackage ref =>
    have hres := hS.shelf.get s ref h.packages.kept
    change (∀ a, (S.getKeyPackage ref s).1 = .ok a → _) ∧
      Knows S Kept R Holds G (S.getKeyPackage ref s).2
    rw [hres]
    refine ⟨?_, h⟩
    intro found hfound r hr
    obtain rfl := Except.ok.inj hfound
    obtain ⟨hmem, href⟩ := withRef_names hr
    exact ⟨h.packages.all r hmem, href⟩
  | removeKeyPackage ref =>
    obtain ⟨hres, hshelf⟩ := shelves_remove hS.shelf h.packages ref
    exact ⟨hres, h.packageStep hS (.remove ref) hshelf⟩
  | consumeKeyPackage id =>
    obtain ⟨hres, hshelf⟩ := shelves_consume hS.shelf h.packages id
    exact ⟨hres, h.packageStep hS (.consume id) hshelf⟩
  | storeWelcome record =>
    obtain ⟨hnext, q, hq, hanswer⟩ := h.queueStep hS (.storeWelcome record) hop
      (h.packages.of_leaves (hS.shelf.storeWelcome record))
    refine ⟨fun r hr => ?_, hnext⟩
    have hsame := (Answer.welcome.inj hanswer).symm.trans hr
    exact (Except.ok.inj hsame).symm
  | fetchPendingWelcomes target consumed =>
    obtain ⟨hnext, q, hq, hanswer⟩ := h.queueStep hS (.fetchPendingWelcomes target consumed) trivial
      (h.packages.of_leaves (hS.shelf.fetchPendingWelcomes target consumed))
    refine ⟨fun records hrecords r hr => ?_, hnext⟩
    have hsame := (Answer.welcomes.inj hanswer).symm.trans hrecords
    rw [← Except.ok.inj hsame] at hr
    obtain ⟨hleft, htarget⟩ := List.mem_filter.mp hr
    obtain ⟨hmem, hkept⟩ := List.mem_filter.mp hleft
    have hto : r.targetStablePubkey = target := of_decide_eq_true htarget
    refine ⟨hq.welcomes r hmem, hto, fun hacked => ?_⟩
    simp [ackedWelcome, hto, hacked] at hkept
  | deleteExpiredWelcomes threshold =>
    obtain ⟨hnext, -⟩ := h.queueStep hS (.deleteExpiredWelcomes threshold) trivial
      (h.packages.of_leaves (hS.deleteExpiredWelcomes threshold))
    exact ⟨fun _ _ => trivial, hnext⟩
  | storeJoinRequest record =>
    obtain ⟨hnext, q, hq, hanswer⟩ := h.queueStep hS (.storeJoinRequest record) hop
      (h.packages.of_leaves (hS.shelf.storeJoinRequest record))
    refine ⟨fun r hr => ?_, hnext⟩
    have hsame : (q.storeJoinRequest record).1 = .ok r :=
      (Answer.joinRequest.inj hanswer).symm.trans hr
    rw [Queues.storeJoinRequest] at hsame
    split at hsame
    · exact (Except.ok.inj hsame).symm
    · split at hsame
      · cases hsame
      · exact (Except.ok.inj hsame).symm
  | fetchPendingJoinRequests groupId consumed =>
    obtain ⟨hnext, q, hq, hanswer⟩ := h.queueStep hS
      (.fetchPendingJoinRequests groupId consumed) trivial
      (h.packages.of_leaves (hS.fetchPendingJoinRequests groupId consumed))
    refine ⟨fun records hrecords r hr => ?_, hnext⟩
    have hsame := (Answer.joinRequests.inj hanswer).symm.trans hrecords
    rw [← Except.ok.inj hsame] at hr
    obtain ⟨hmem, hgroup⟩ := List.mem_filter.mp hr
    exact ⟨hq.joinRequests r (List.mem_filter.mp hmem).1, of_decide_eq_true hgroup⟩
  | fetchManyPendingJoinRequests groupIds consumed =>
    obtain ⟨hnext, q, hq, hanswer⟩ := h.queueStep hS
      (.fetchManyPendingJoinRequests groupIds consumed) trivial
      (h.packages.of_leaves (hS.shelf.fetchManyPendingJoinRequests groupIds consumed))
    refine ⟨fun records hrecords r hr => ?_, hnext⟩
    have hfetched : Answer.joinRequests (.ok records) = _ :=
      (congrArg Answer.joinRequests hrecords).symm.trans hanswer
    rcases limitedStep_cases limit (.fetchManyPendingJoinRequests groupIds consumed) q with
      he | ⟨_, _, _, -, -, he⟩
    · rw [he] at hfetched
      rw [Except.ok.inj (Answer.joinRequests.inj hfetched)] at hr
      obtain ⟨hmem, hgroup⟩ := mem_fetchMany hr
      exact ⟨hq.joinRequests r hmem, hgroup⟩
    · rw [he] at hfetched
      cases Answer.joinRequests.inj hfetched
  | deleteExpiredJoinRequests threshold =>
    obtain ⟨hnext, -⟩ := h.queueStep hS (.deleteExpiredJoinRequests threshold) trivial
      (h.packages.of_leaves (hS.deleteExpiredJoinRequests threshold))
    exact ⟨fun _ _ => trivial, hnext⟩
  | appendGroupMessage params =>
    obtain ⟨hres, hmessages⟩ := hS.messages.append G.message params s h.messages hop
    exact ⟨hres, h.messageStep hS (.append params)
      (h.packages.of_leaves (hS.shelf.appendGroupMessage params)) hmessages⟩
  | fetchManyGroupMessages groups =>
    obtain ⟨hres, hmessages⟩ := hS.messages.fetchMany G.message groups s h.messages
    exact ⟨hres, h.messageStep hS (.fetchMany groups)
      (h.packages.of_leaves (hS.shelf.fetchManyGroupMessages groups)) hmessages⟩

end Backend

/-- The contract between the server's calls and its storage. -/
def contract (G : Facts V) : Contract (ServerCall V) where
  asks op :=
    match op with
    | .storage op => asks G op
    | .check _ _ | .publishLive _ => True
  promises op answer :=
    match op, answer with
    | .storage op, result => ∀ a, result = .ok a → promises G op a
    | .check _ _, _ | .publishLive _, _ => True

theorem machine_upholds {S : CoordinatorStorage V σ} {limit : FetchLimit} {Kept : σ → Prop}
    {unique : Bool} {R : σ → Queues → Prop} {Holds : (GroupMessageRecord → Prop) → σ → Prop}
    (hS : Backed S limit Kept unique R Holds) (rateLimiter : Adapter.RateLimiter L) (G : Facts V)
    (Known : Answered (ServerCall V) → Prop)
    (hknown : ∀ record r, Known ⟨_, .storage (.publishKeyPackage record), .ok r⟩ →
      G.keyPackage record) :
    (machine S rateLimiter).Upholds (contract G) Known
      (fun state => Knows S Kept R Holds G state.1) := by
  intro β op state h hop hdone
  cases op with
  | check key now => exact ⟨trivial, h⟩
  | publishLive record => exact ⟨trivial, h⟩
  | storage op =>
    refine h.perform hS op hop ?_
    have hanswer : Known ⟨_, .storage op, (op.perform S state.1).1⟩ := hdone
    generalize (op.perform S state.1).1 = answer at hanswer
    cases op with
    | publishKeyPackage record =>
      cases answer with
      | error e => trivial
      | ok r => exact hknown record r hanswer
    | _ => cases answer <;> trivial

theorem inMemory_knows (G : Facts V) :
    Knows InMemory.storage MapShelved InMemory.HoldsQueues mapMessages G
      (InMemory.InMemoryInner.default : InMemory.InMemoryInner V) where
  packages := ⟨IndexMap.keyed_empty _, fun r hr => by cases hr⟩
  queues := ⟨_, holdsQueues_default, by simp [Queues.empty], by simp [Queues.empty]⟩
  messages := by simp [mapMessages, InMemory.InMemoryInner.default]

theorem sqlite_knows {json : Sqlite.SerdeJson V} (hj : json.RoundTrips) (G : Facts V) :
    Knows (Sqlite.storage json) (TableShelved json) Sqlite.HoldsQueues tableMessages G
      Sqlite.Database.new where
  packages := by
    have hnone : stored (Sqlite.storage json) Sqlite.Database.new = [] := Sqlite.stored_eq hj rfl
    exact ⟨⟨[], rfl, by simp [UniqueRefs]⟩, by simp [hnone]⟩
  queues := ⟨_, holdsQueues_new, by simp [Queues.empty], by simp [Queues.empty]⟩
  messages := by simp [tableMessages, Sqlite.Database.new]

end Cordn.Server
