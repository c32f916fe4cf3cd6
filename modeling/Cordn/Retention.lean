import Cordn.Config
import Cordn.CoordinatorOps

/-!
# Retention

The configured days reach the clean-up task as milliseconds, multiplied without
a check. Where the product wraps to a positive age, the task deletes what is
older than that age; everywhere else it keeps to the days.
-/

set_option autoImplicit false

namespace Cordn.Retention
open Config CoordinatorOps QueueOps

variable {V σ : Type}

/-- What the variable says, thirty days when it is not set. -/
def DenotesDays (env : Env) (days : ℕ) : Prop :=
  ((optString env "CORDN_MAX_AGE_DAYS").map parseInteger).getD (some 30) = some (days : Int)

instance (env : Env) (days : ℕ) : Decidable (DenotesDays env days) :=
  inferInstanceAs (Decidable (_ = _))

/-- Older than so many days, of which none keep a record forever. -/
def outdated (days : ℕ) (now createdAt : Int) : Bool :=
  decide (0 < days ∧ createdAt < now-days*86400000)

def remainder (days : ℕ) : ℕ := days*86400000 % 2^64

structure QueueRecords (σ : Type) where
  welcomes : σ → List WelcomeQueueRecord
  joinRequests : σ → List JoinRequestRecord

def inMemoryRecords : QueueRecords (InMemory.InMemoryInner V) where
  welcomes s := s.welcomesByIdentity.contents
  joinRequests s := s.joinRequestsByGroup.contents

def sqliteRecords : QueueRecords Sqlite.Database where
  welcomes db := db.welcomes.contents
  joinRequests db := db.joinRequests.contents

def QueueRecords.createdAt (records : QueueRecords σ) (s : σ) : List Int :=
  (records.welcomes s).map WelcomeQueueRecord.createdAt ++
    (records.joinRequests s).map JoinRequestRecord.createdAt

structure Expires (S : CoordinatorStorage V σ) (records : QueueRecords σ) : Prop where
  welcomes : ∀ threshold s, records.welcomes (S.deleteExpiredWelcomes threshold s).2 =
    (records.welcomes s).filter (fun r => !expired threshold r.createdAt)
  welcomes_keep : ∀ threshold s,
    records.joinRequests (S.deleteExpiredWelcomes threshold s).2 = records.joinRequests s
  joinRequests : ∀ threshold s, records.joinRequests (S.deleteExpiredJoinRequests threshold s).2 =
    (records.joinRequests s).filter (fun r => !expired threshold r.createdAt)
  joinRequests_keep : ∀ threshold s,
    records.welcomes (S.deleteExpiredJoinRequests threshold s).2 = records.welcomes s

theorem inMemory_expires : Expires
    (InMemory.storage : CoordinatorStorage V (InMemory.InMemoryInner V)) inMemoryRecords := by
  constructor
  · intro threshold s
    change (InMemory.deleteExpiredWelcomes threshold s).2.welcomesByIdentity.contents = _
    rw [InMemory.deleteExpiredWelcomes_eq]
    exact InMemory.contents_swept _ threshold _
  · intro threshold s
    change (InMemory.deleteExpiredWelcomes threshold s).2.joinRequestsByGroup.contents = _
    rw [InMemory.deleteExpiredWelcomes_eq]
    rfl
  · intro threshold s
    change (InMemory.deleteExpiredJoinRequests threshold s).2.joinRequestsByGroup.contents = _
    rw [InMemory.deleteExpiredJoinRequests_eq]
    exact InMemory.contents_swept _ threshold _
  · intro threshold s
    change (InMemory.deleteExpiredJoinRequests threshold s).2.welcomesByIdentity.contents = _
    rw [InMemory.deleteExpiredJoinRequests_eq]
    rfl

theorem sqlite_expires (json : Sqlite.SerdeJson V) :
    Expires (Sqlite.storage json) sqliteRecords := by
  constructor
  · intro threshold db
    change (Sqlite.deleteExpiredWelcomes threshold db).2.welcomes.contents = _
    rw [Sqlite.deleteExpiredWelcomes_eq]
    exact (Sqlite.purged_spec _ threshold _).2
  · intro threshold db
    change (Sqlite.deleteExpiredWelcomes threshold db).2.joinRequests.contents = _
    rw [Sqlite.deleteExpiredWelcomes_eq]
    rfl
  · intro threshold db
    change (Sqlite.deleteExpiredJoinRequests threshold db).2.joinRequests.contents = _
    rw [Sqlite.deleteExpiredJoinRequests_eq]
    exact (Sqlite.purged_spec _ threshold _).2
  · intro threshold db
    change (Sqlite.deleteExpiredJoinRequests threshold db).2.welcomes.contents = _
    rw [Sqlite.deleteExpiredJoinRequests_eq]
    rfl

theorem Expires.cleanup {S : CoordinatorStorage V σ} {records : QueueRecords σ}
    (h : Expires S records) (maxAgeMs now : Int) (s : σ) :
    records.welcomes (cleanup S maxAgeMs now s) = (records.welcomes s).filter
        (fun r => !expired (threshold maxAgeMs now) r.createdAt) ∧
      records.joinRequests (cleanup S maxAgeMs now s) = (records.joinRequests s).filter
        (fun r => !expired (threshold maxAgeMs now) r.createdAt) := by
  constructor
  · rw [CoordinatorOps.cleanup, h.joinRequests_keep, h.welcomes]
  · rw [CoordinatorOps.cleanup, h.joinRequests, h.welcomes_keep]

theorem posInt_denotes {env : Env} {days : ℕ} (hdays : DenotesDays env days) {v : Int}
    (h : posInt env "CORDN_MAX_AGE_DAYS" 30 = .ok v) : v = days := by
  rw [DenotesDays] at hdays
  rw [posInt] at h
  cases hraw : optString env "CORDN_MAX_AGE_DAYS" with
  | none =>
    simp only [hraw, Except.ok.injEq, Option.map_none, Option.getD_none, Option.some.injEq]
      at h hdays
    exact h.symm.trans hdays
  | some raw =>
    simp only [hraw, Option.map_some, Option.getD_some] at h hdays
    rw [parseI64, hdays] at h
    split at h
    · rename_i v' hv
      obtain ⟨hv, -⟩ := Option.filter_eq_some_iff.mp hv
      obtain ⟨hv, -⟩ := Option.filter_eq_some_iff.mp hv
      exact (Except.ok.inj h).symm.trans (Option.some.inj hv).symm
    · cases h

theorem maxAgeMs_eq {env : Env} {config : ServerConfig}
    (haccepted : readServerConfig env = .ok config) {days : ℕ} (hdays : DenotesDays env days) :
    config.maxAgeMs = wrappingMul days 86400000 := by
  obtain ⟨_, -, h⟩ := except_bind_ok haccepted
  obtain ⟨_, -, h⟩ := except_bind_ok h
  obtain ⟨_, -, h⟩ := except_bind_ok h
  obtain ⟨_, -, h⟩ := except_bind_ok h
  obtain ⟨_, -, h⟩ := except_bind_ok h
  obtain ⟨v, hv, h⟩ := except_bind_ok h
  rw [← Except.ok.inj h, posInt_denotes hdays hv]

def Honoured (S : CoordinatorStorage V σ) (records : QueueRecords σ) (config : ServerConfig)
    (days : ℕ) (now : Int) (s : σ) : Prop :=
  records.welcomes (cleanup S config.maxAgeMs now s) =
      (records.welcomes s).filter (fun r => !outdated days now r.createdAt) ∧
    records.joinRequests (cleanup S config.maxAgeMs now s) =
      (records.joinRequests s).filter (fun r => !outdated days now r.createdAt)

/-- The days fit 64 bits as milliseconds, or what is left of them is no positive
number of 64 bits. -/
def DaysFit (days : ℕ) : Prop :=
  days*86400000 < 2^63 ∨ remainder days = 0 ∨ 2^63 ≤ remainder days

/-- Or no record is older than what is left of them. -/
def AgeFits (days : ℕ) (now : Int) (createdAt : List Int) : Prop :=
  DaysFit days ∨ ∀ t ∈ createdAt, now ≤ t+remainder days

theorem wrappingMul_days (days : ℕ) : wrappingMul days 86400000 =
    if remainder days < 2^63 then (remainder days : Int) else remainder days - 2^64 := by
  have hcast : (days : Int)*86400000 = ((days*86400000 : ℕ) : Int) := by
    push_cast
    rfl
  rw [wrappingMul, hcast, remainder, Int.bmod_def]
  generalize days*86400000 = n
  split <;> split <;> omega

theorem expired_eq_outdated (days : ℕ) (now : Int) (hnow : 0 ≤ now ∧ now < 2^63) (t : Int)
    (ht : 0 ≤ t) :
    expired (threshold (wrappingMul days 86400000) now) t = outdated days now t ↔
      DaysFit days ∨ now ≤ t+remainder days := by
  have hless : days*86400000 < 2^63 → remainder days = days*86400000 := by
    intro h
    rw [remainder]
    omega
  have hbound : remainder days < 2^64 := Nat.mod_lt _ (by decide)
  rw [wrappingMul_days, DaysFit, threshold, Bool.eq_iff_iff]
  generalize remainder days = r at hless hbound ⊢
  simp only [expired, outdated, decide_eq_true_eq]
  by_cases hr : r < 2^63
  · rw [if_pos hr]
    by_cases hpos : 0 < r
    · have hsub : wrappingSub now r = now-r := wrappingSub_of_small _ _ (by omega) (by omega)
      rw [if_pos (by omega), hsub]
      omega
    · rw [if_neg (by omega)]
      omega
  · rw [if_neg hr, if_neg (by omega)]
    omega

theorem filter_eq_iff {α : Type} (p q : α → Bool) (l : List α) :
    l.filter p = l.filter q ↔ ∀ a ∈ l, p a = q a := by
  refine ⟨?_, List.filter_congr⟩
  intro h a ha
  rw [Bool.eq_iff_iff]
  constructor
  · intro hp
    exact (List.mem_filter.mp (h ▸ List.mem_filter.mpr ⟨ha, hp⟩)).2
  · intro hq
    exact (List.mem_filter.mp (h.symm ▸ List.mem_filter.mpr ⟨ha, hq⟩)).2

theorem honoured_iff {S : CoordinatorStorage V σ} {records : QueueRecords σ}
    (hS : Expires S records) {config : ServerConfig} {days : ℕ}
    (hage : config.maxAgeMs = wrappingMul days 86400000) (now : Int)
    (hnow : 0 ≤ now ∧ now < 2^63) (s : σ) (hs : ∀ t ∈ records.createdAt s, 0 ≤ t) :
    Honoured S records config days now s ↔ AgeFits days now (records.createdAt s) := by
  obtain ⟨hwelcomes, hrequests⟩ := hS.cleanup config.maxAgeMs now s
  have hall : Honoured S records config days now s ↔ ∀ t ∈ records.createdAt s,
      expired (threshold config.maxAgeMs now) t = outdated days now t := by
    rw [Honoured, hwelcomes, hrequests, filter_eq_iff, filter_eq_iff]
    simp only [QueueRecords.createdAt, List.mem_append, List.mem_map, Bool.not_inj_iff]
    constructor
    · rintro ⟨hw, hj⟩ t (⟨r, hr, rfl⟩ | ⟨r, hr, rfl⟩)
      · exact hw r hr
      · exact hj r hr
    · intro h
      exact ⟨fun r hr => h _ (Or.inl ⟨r, hr, rfl⟩), fun r hr => h _ (Or.inr ⟨r, hr, rfl⟩)⟩
  rw [hall, hage, AgeFits]
  have hone := fun t ht => expired_eq_outdated days now hnow t (hs t ht)
  constructor
  · intro h
    by_cases hfits : DaysFit days
    · exact Or.inl hfits
    · exact Or.inr fun t ht => ((hone t ht).mp (h t ht)).resolve_left hfits
  · rintro (hfits | hyoung) t ht
    · exact (hone t ht).mpr (Or.inl hfits)
    · exact (hone t ht).mpr (Or.inr (hyoung t ht))

/-- Under every accepted configuration and on either backend, a round deletes
exactly what is older than the configured days if and only if the age fits. -/
theorem retention_honoured_iff (V : Type) (env : Env) (config : ServerConfig)
    (haccepted : readServerConfig env = .ok config) (days : ℕ) (hdays : DenotesDays env days)
    (now : Int) (hnow : 0 ≤ now ∧ now < 2^63) :
    (∀ s : InMemory.InMemoryInner V, (∀ t ∈ inMemoryRecords.createdAt s, 0 ≤ t) →
      (Honoured InMemory.storage inMemoryRecords config days now s ↔
        AgeFits days now (inMemoryRecords.createdAt s))) ∧
    ∀ (json : Sqlite.SerdeJson V) (db : Sqlite.Database),
      (∀ t ∈ sqliteRecords.createdAt db, 0 ≤ t) →
        (Honoured (Sqlite.storage json) sqliteRecords config days now db ↔
          AgeFits days now (sqliteRecords.createdAt db)) := by
  have hage := maxAgeMs_eq haccepted hdays
  constructor
  · intro s hs
    exact honoured_iff inMemory_expires hage now hnow s hs
  · intro json db hdb
    exact honoured_iff (sqlite_expires json) hage now hnow db hdb

theorem retention_honoured_default :
    (∀ s : InMemory.InMemoryInner Unit, (∀ t ∈ inMemoryRecords.createdAt s, 0 ≤ t) →
      (Honoured InMemory.storage inMemoryRecords .default 30 1700000000000 s ↔
        AgeFits 30 1700000000000 (inMemoryRecords.createdAt s))) ∧
    ∀ (json : Sqlite.SerdeJson Unit) (db : Sqlite.Database),
      (∀ t ∈ sqliteRecords.createdAt db, 0 ≤ t) →
        (Honoured (Sqlite.storage json) sqliteRecords .default 30 1700000000000 db ↔
          AgeFits 30 1700000000000 (sqliteRecords.createdAt db)) :=
  retention_honoured_iff Unit IndexMap.empty .default rfl 30 rfl 1700000000000 (by decide)

def manyDays : Env := IndexMap.empty.insert "CORDN_MAX_AGE_DAYS" "213503982335"

def youngWelcome : WelcomeQueueRecord := ⟨"alice", "ref", [], 1699960000000, none⟩

/-- A welcome of eleven hours is deleted by a server told to keep it for ages. -/
theorem young_welcome_deleted :
    readServerConfig manyDays = .ok { ServerConfig.default with maxAgeMs := 34448384 } ∧
      DenotesDays manyDays 213503982335 ∧
      ¬Honoured InMemory.storage inMemoryRecords
        { ServerConfig.default with maxAgeMs := 34448384 } 213503982335 1700000000000
        (InMemory.storeWelcome youngWelcome (.default : InMemory.InMemoryInner Bool)).2 ∧
      ¬Honoured (Sqlite.storage Sqlite.jsonBool) sqliteRecords
        { ServerConfig.default with maxAgeMs := 34448384 } 213503982335 1700000000000
        (Sqlite.storeWelcome youngWelcome Sqlite.Database.new).2 := by
  refine ⟨by decide +kernel, by decide +kernel, ?_, ?_⟩
  · rintro ⟨hwelcomes, -⟩
    exact absurd hwelcomes (by decide)
  · rintro ⟨hwelcomes, -⟩
    exact absurd hwelcomes (by decide)

end Cordn.Retention
