import Cordn.GroupLogOps

/-!
# Group logs in the in-memory map

Each group's vector is that group's part of the abstract log, and its counter
stands one above the vector's length.
-/

set_option autoImplicit false

namespace Cordn.InMemory
open GroupLogOps IndexMap

variable {V : Type}

def HoldsLog (s : InMemoryInner V) (log : MessageLog) : Prop :=
  ∀ g, (s.groups.get? g).getD .new = ⟨(log.count g:Int)+1, log.messages g⟩

theorem HoldsLog.default :
    HoldsLog (InMemoryInner.default : InMemoryInner V) MessageLog.empty := fun _ => rfl

/-- `next_cursor` is one above the number of stored messages. -/
def NextCursorExact (s : InMemoryInner V) : Prop :=
  ∀ g stored, s.groups.get? g = some stored → stored.nextCursor = stored.messages.length+1

theorem HoldsLog.nextCursorExact {s : InMemoryInner V} {log : MessageLog} (h : HoldsLog s log) :
    NextCursorExact s := by
  intro g stored hg
  have hs := h g
  rw [hg, Option.getD_some] at hs
  rw [hs]
  rfl

theorem messagesAfter_eq {s : InMemoryInner V} {log : MessageLog} (h : HoldsLog s log)
    (g : String) (afterCursor : Option Int) :
    messagesAfter s.groups g afterCursor = log.fetch g afterCursor := by
  have hm : ((s.groups.get? g).map GroupLog.messages).getD [] = log.messages g := by
    have hg := congrArg GroupLog.messages (h g)
    cases hs : s.groups.get? g with
    | none => rwa [hs] at hg
    | some stored => rwa [hs] at hg
  rw [messagesAfter, hm, fetch_eq]

theorem append_spec {s : InMemoryInner V} {log : MessageLog} (h : HoldsLog s log)
    (params : AppendGroupMessageParams) (hroom : Room (.append params) log) :
    (appendGroupMessage params s).1 = .ok (log.next params) ∧
      HoldsLog (appendGroupMessage params s).2 (log.append params) := by
  have hcursor : wrappingAdd ((log.count params.groupId:Int)+1) 1 =
      (log.count params.groupId:Int)+1+1 := by
    simp only [Room] at hroom
    exact wrappingAdd_of_small _ _ (by omega) (by omega)
  simp only [appendGroupMessage, h params.groupId, hcursor]
  refine ⟨rfl, ?_⟩
  intro g
  simp only [get?_insert]
  by_cases hg : params.groupId = g
  · subst hg
    rw [if_pos rfl, Option.getD_some, count_append, if_pos rfl, messages_append, if_pos rfl]
    simp [MessageLog.next]
  · rw [if_neg (Ne.symm hg), h g, count_append, if_neg hg, messages_append, if_neg hg,
      List.append_nil, Nat.add_zero]

theorem step_holdsLog (op : Op) (s : InMemoryInner V) (log : MessageLog) (h : HoldsLog s log)
    (hroom : Room op log) :
    (step storage op s).1 = (logStep op log).1 ∧
      HoldsLog (step storage op s).2 (logStep op log).2 := by
  cases op with
  | append params =>
    obtain ⟨hres, hnext⟩ := append_spec h params hroom
    exact ⟨congrArg Answer.appended hres, hnext⟩
  | fetch g c =>
    have hf : (fetchGroupMessages g c s).1 = .ok (log.fetch g c) :=
      congrArg Except.ok (messagesAfter_eq h g c)
    exact ⟨congrArg Answer.fetched hf, h⟩
  | fetchMany gs =>
    have hf : (fetchManyGroupMessages gs s).1 = .ok (log.fetchMany gs) := by
      simp only [fetchManyGroupMessages, messagesAfter_eq h, MessageLog.fetchMany]
    exact ⟨congrArg Answer.fetched hf, h⟩

end Cordn.InMemory
