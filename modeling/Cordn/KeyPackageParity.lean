import Cordn.InMemoryKeyPackages
import Cordn.SqliteKeyPackages

/-!
# Parity of the key-package backends

Both backends simulate the one abstract store, as long as no publish reuses a
ref that is still stored.
-/

set_option autoImplicit false

namespace Cordn.KeyPackageOps
open InMemory Sqlite

variable {V : Type}

theorem inMemory_answers (ops : List (Op V)) (hf : Run.Along Fresh shelfStep ops []) :
    Run.answers (step InMemory.storage) ops InMemoryInner.default =
      Run.answers shelfStep ops [] ∧
    InMemory.Represents (Run.after (step InMemory.storage) ops InMemoryInner.default)
      (Run.after shelfStep ops []) :=
  Run.simulation _ _ InMemory.Represents Fresh InMemory.step_represents ops _ []
    ⟨IndexMap.Holds.empty _, by simp [UniqueRefs]⟩ hf

theorem sqlite_answers (json : SerdeJson V) (hj : json.RoundTrips) (ops : List (Op V))
    (hf : Run.Along Fresh shelfStep ops []) :
    Run.answers (step (Sqlite.storage json)) ops Database.new =
      Run.answers shelfStep ops [] ∧
    Sqlite.Represents json (Run.after (step (Sqlite.storage json)) ops Database.new)
      (Run.after shelfStep ops []) :=
  Run.simulation _ _ (Sqlite.Represents json) Fresh (Sqlite.step_represents hj) ops _ []
    ⟨rfl, by simp [UniqueRefs]⟩ hf

/-- The two backends answer every operation alike, and both as the abstract
store does. -/
theorem key_package_parity (json : SerdeJson V) (hj : json.RoundTrips) (ops : List (Op V))
    (hf : Run.Along Fresh shelfStep ops []) :
    Run.answers (step InMemory.storage) ops InMemoryInner.default =
        Run.answers (step (Sqlite.storage json)) ops Database.new ∧
      Run.answers (step InMemory.storage) ops InMemoryInner.default =
        Run.answers shelfStep ops [] ∧
      Run.answers (step (Sqlite.storage json)) ops Database.new =
        Run.answers shelfStep ops [] := by
  obtain ⟨hm, -⟩ := inMemory_answers ops hf
  obtain ⟨hs, -⟩ := sqlite_answers json hj ops hf
  exact ⟨hm.trans hs.symm, hm, hs⟩

def sampleOps : List (Op Bool) :=
  [.publish ⟨"alice", [1], "a-last", true, 10, true⟩,
    .publish ⟨"bob", [2], "b-1", false, 11, false⟩,
    .publish ⟨"alice", [3], "a-1", false, 12, true⟩,
    .consume "alice", .consume "alice", .consume "b-1", .remove "a-last", .get "a-last"]

theorem key_package_parity_sample :
    Run.answers (step InMemory.storage) sampleOps InMemoryInner.default =
        Run.answers (step (Sqlite.storage jsonBool)) sampleOps Database.new ∧
      Run.answers (step InMemory.storage) sampleOps InMemoryInner.default =
        Run.answers shelfStep sampleOps [] ∧
      Run.answers (step (Sqlite.storage jsonBool)) sampleOps Database.new =
        Run.answers shelfStep sampleOps [] :=
  key_package_parity jsonBool jsonBool_roundTrips sampleOps
    (by simp [sampleOps, Run.Along, Fresh, shelfStep])

end Cordn.KeyPackageOps
