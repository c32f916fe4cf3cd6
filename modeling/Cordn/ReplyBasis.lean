import Cordn.AdapterKeyPackages
import Cordn.Schedules

/-!
# What a reply rests on

A call has been led to its reply by the answers to its own operations. The reply to
a publish, a welcome or a join request is given at the storage operation that put the
record in, and the reply to most fetches at the one that read the records, whatever
else is in flight. A post and a fetch of join requests group by group are answered
behind the operations that their reply is made from.
-/

set_option autoImplicit false

namespace Cordn.Server
open Adapter
open Interleaving (ofCall)

variable {V σ L α β : Type}

def consumedReply (A : CoordinatorAdapter V σ L) :
    Option (PublishedKeyPackageRecord V) → Except AdapterError (Option ConsumedKeyPackage)
  | none => .ok none
  | some r => (consumedKeyPackage A r).map some

/-- The operation is the one that the reply was made from. -/
def RestsOn (A : CoordinatorAdapter V σ L) (c : Caller) (done : Answered (ServerCall V)) :
    Request → Reply → Prop
  | .publishKeyPackage input event, _ => ∃ admitted record,
    admission A c.clientPubkey input event = .ok admitted ∧
      done = ⟨_, .storage (.publishKeyPackage (incomingRecord A c input admitted)), .ok record⟩
  | .consumeKeyPackage id, reply => ∃ found keyPackage,
    done = ⟨_, .storage (.consumeKeyPackage id), .ok found⟩ ∧
      consumedReply A found = .ok keyPackage ∧ reply = .consumed keyPackage
  | .listAvailableKeyPackages, reply => ∃ records,
    done = ⟨_, .storage .listAllKeyPackages, .ok records⟩ ∧ reply = .available (records.map
      (fun r => ⟨r.stablePubkey, r.keyPackageRef, r.isLastResort, r.publishedAt⟩))
  | .fetchPendingWelcomes consumed, reply => ∃ records,
    done = ⟨_, .storage (.fetchPendingWelcomes c.clientPubkey (consumed.getD [])), .ok records⟩ ∧
      reply = .welcomes (records.map (fun r => ⟨r.keyPackageReference,
        A.externals.b64Encode r.welcomeBytes, r.createdAt, r.joinAfterCursor⟩))
  | .storeWelcome input, _ => ∃ bytes record, A.externals.b64Decode input.welcome64 = some bytes ∧
      done = ⟨_, .storage (.storeWelcome ⟨input.targetPk, input.kpRef, bytes, c.now, input.after⟩),
        .ok record⟩
  | .storeJoinRequest input, _ => ∃ record,
      done = ⟨_, .storage (.storeJoinRequest ⟨input.gid, c.clientPubkey, input.kpRef, c.now⟩),
        .ok record⟩
  | .fetchManyGroupMessages groups, reply => ∃ records,
    done = ⟨_, .storage (.fetchManyGroupMessages groups), .ok records⟩ ∧
      reply = .messages (records.map (fun r => ⟨r.cursor, r.groupId,
        A.externals.b64Encode r.opaqueMessage, r.createdAt⟩))
  | _, _ => True

/-- The requests whose replies are made from the answer to their last operation. -/
def restsOnOne : Request → Bool
  | .removeKeyPackages _ | .fetchManyPendingJoinRequests _ _ | .postGroupMessage _ => false
  | _ => true

def Handler.Replies (p : Handler V α) (trace : List (Answered (ServerCall V))) (a : α) : Prop :=
  p.program.Leads trace (.done (.ok a))

section Rules

variable {trace : List (Answered (ServerCall V))}

theorem replies_reply {result : Except AdapterError α} {a : α}
    (h : (Handler.reply result).Replies trace a) : trace = [] ∧ result = .ok a := by
  obtain ⟨htrace, hdone⟩ := Program.leads_done h
  exact ⟨htrace, (Program.done.inj hdone).symm⟩

theorem replies_storage {op : StorageCall V α} {a : α}
    (h : (Handler.onStorage op).Replies trace a) : trace = [⟨_, .storage op, .ok a⟩] := by
  obtain ⟨answer, behind, rfl, hbehind⟩ := Program.leads_call h
  obtain ⟨rfl, hdone⟩ := Program.leads_done hbehind
  cases answer with
  | error e => cases Program.done.inj hdone
  | ok b =>
    obtain rfl := Except.ok.inj (Program.done.inj hdone)
    rfl

theorem Handler.Replies.split {p : Handler V α} {q : α → Handler V β} {b : β}
    (h : (p >>= q).Replies trace b) : ∃ first behind a, trace = first ++ behind ∧
      p.Replies first a ∧ (q a).Replies behind b := by
  obtain ⟨first, behind, result, rfl, hfirst, hbehind⟩ := Program.Leads.split h
  cases result with
  | error e => cases Program.done.inj (Program.leads_done hbehind).2
  | ok a => exact ⟨first, behind, a, rfl, hfirst, hbehind⟩

theorem Handler.Replies.checked {result : Except AdapterError α} {q : α → Handler V β} {b : β}
    (h : (Handler.reply result >>= q).Replies trace b) :
    ∃ a, result = .ok a ∧ (q a).Replies trace b := by
  obtain ⟨first, behind, a, rfl, hfirst, hbehind⟩ := h.split
  obtain ⟨rfl, hresult⟩ := replies_reply hfirst
  exact ⟨a, hresult, hbehind⟩

theorem Handler.Replies.map {p : Handler V α} {f : α → β} {b : β}
    (h : (p >>= fun a => pure (f a)).Replies trace b) : ∃ a, p.Replies trace a ∧ b = f a := by
  obtain ⟨first, behind, a, rfl, hfirst, hbehind⟩ := h.split
  obtain ⟨rfl, hresult⟩ := replies_reply hbehind
  exact ⟨a, (List.append_nil first).symm ▸ hfirst, (Except.ok.inj hresult).symm⟩

theorem replies_made {op : StorageCall V α} {f : α → β} {b : β}
    (h : (Handler.onStorage op >>= fun a => pure (f a)).Replies trace b) :
    ∃ a, trace = [⟨_, .storage op, .ok a⟩] ∧ b = f a := by
  obtain ⟨a, hstorage, hb⟩ := h.map
  exact ⟨a, replies_storage hstorage, hb⟩

end Rules

section Tools

variable (A : CoordinatorAdapter V σ L) {c : Caller} {trace : List (Answered (ServerCall V))}

theorem replies_publish {input : PublishKeyPackageInput} {event : Option NostrEvent}
    {output : PublishKeyPackageOutput}
    (h : (publishKeyPackage A c input event).Replies trace output) :
    ∃ first admitted record, admission A c.clientPubkey input event = .ok admitted ∧
      trace = first ++ [⟨_, .storage (.publishKeyPackage (incomingRecord A c input admitted)),
        .ok record⟩] := by
  obtain ⟨admitted, hadmitted, hbehind⟩ := h.checked
  obtain ⟨first, behind, -, rfl, -, hstored⟩ := hbehind.split
  obtain ⟨record, rfl, -⟩ := replies_made hstored
  exact ⟨first, admitted, record, hadmitted, rfl⟩

theorem replies_consume {id : String} {keyPackage : Option ConsumedKeyPackage}
    (h : (consumeKeyPackage A id).Replies trace keyPackage) :
    ∃ found, trace = [⟨_, .storage (.consumeKeyPackage id), .ok found⟩] ∧
      consumedReply A found = .ok keyPackage := by
  obtain ⟨-, -, hbehind⟩ := h.checked
  obtain ⟨first, behind, found, rfl, hfirst, hlast⟩ := hbehind.split
  obtain rfl := replies_storage hfirst
  cases found with
  | none =>
    obtain ⟨rfl, hresult⟩ := replies_reply hlast
    exact ⟨none, rfl, hresult⟩
  | some r =>
    obtain ⟨rfl, hresult⟩ := replies_reply hlast
    exact ⟨some r, rfl, hresult⟩

theorem replies_storeWelcome {input : StoreWelcomeInput} {createdAt : Int}
    (h : (storeWelcome A c input).Replies trace createdAt) :
    ∃ bytes record, A.externals.b64Decode input.welcome64 = some bytes ∧
      trace = [⟨_, .storage (.storeWelcome
        ⟨input.targetPk, input.kpRef, bytes, c.now, input.after⟩), .ok record⟩] := by
  obtain ⟨-, -, h⟩ := h.checked
  obtain ⟨-, -, h⟩ := h.checked
  obtain ⟨-, -, h⟩ := h.checked
  cases hbytes : A.externals.b64Decode input.welcome64 with
  | none =>
    rw [hbytes] at h
    cases (replies_reply h).2
  | some bytes =>
    rw [hbytes] at h
    obtain ⟨record, htrace, -⟩ := replies_made h
    exact ⟨bytes, record, rfl, htrace⟩

theorem replies_storeJoinRequest {input : StoreJoinRequestInput} {createdAt : Int}
    (h : (storeJoinRequest c input).Replies trace createdAt) :
    ∃ first record, trace = first ++ [⟨_, .storage (.storeJoinRequest
      ⟨input.gid, c.clientPubkey, input.kpRef, c.now⟩), .ok record⟩] := by
  obtain ⟨-, -, h⟩ := h.checked
  obtain ⟨-, -, h⟩ := h.checked
  obtain ⟨first, behind, -, rfl, -, hstored⟩ := h.split
  obtain ⟨record, rfl, -⟩ := replies_made hstored
  exact ⟨first, record, rfl⟩

theorem replies_post {input : PostGroupMessageInput} {output : PostGroupMessageOutput}
    (h : (postGroupMessage A c input).Replies trace output) :
    ∃ bytes record, A.externals.b64Decode input.msg64 = some bytes ∧
      output = ⟨record.cursor, record.groupId, record.createdAt⟩ ∧
      trace = [⟨_, .storage (.appendGroupMessage ⟨input.gid, bytes, c.now⟩), .ok record⟩,
        ⟨_, .publishLive record, ()⟩] := by
  obtain ⟨-, -, h⟩ := h.checked
  obtain ⟨-, -, h⟩ := h.checked
  cases hbytes : A.externals.b64Decode input.msg64 with
  | none =>
    rw [hbytes] at h
    cases (replies_reply h).2
  | some bytes =>
    rw [hbytes] at h
    obtain ⟨first, behind, record, rfl, hfirst, hlive⟩ := h.split
    obtain rfl := replies_storage hfirst
    obtain ⟨_, hpublished, rfl⟩ := hlive.map
    obtain ⟨_, rest, rfl, hdone⟩ := Program.leads_call hpublished
    obtain ⟨rfl, -⟩ := Program.leads_done hdone
    exact ⟨bytes, record, rfl, rfl, rfl⟩

theorem replies_fetchEachGroup {byGroup : IndexMap String (List ConsumedJoinRequestRef)}
    {groupIds : List String} {records : List JoinRequestRecord}
    (h : (fetchEachGroup byGroup groupIds).Replies trace records) :
    ∀ g ∈ groupIds, ∃ out ⊆ records,
      ⟨_, .storage (.fetchPendingJoinRequests g (byGroup.bucket g)), .ok out⟩ ∈ trace := by
  induction groupIds generalizing trace records with
  | nil => simp
  | cons groupId groupIds ih =>
    obtain ⟨first, behind, out, rfl, hfirst, hrest⟩ := h.split
    obtain rfl := replies_storage hfirst
    obtain ⟨more, hmore, rfl⟩ := hrest.map
    intro g hg
    rcases List.mem_cons.mp hg with rfl | hg
    · exact ⟨out, List.subset_append_left _ _, List.mem_cons_self⟩
    · obtain ⟨found, hfound, hmem⟩ := ih hmore g hg
      exact ⟨found, List.subset_append_of_subset_right _ hfound, List.mem_cons_of_mem _ hmem⟩

theorem replies_fetchJoinRequests {groups : List String}
    {consumed : Option (List ConsumedJoinRequestWithGroupRef)} {records : List JoinRequestRecord}
    (h : (fetchManyPendingJoinRequests A groups consumed).Replies trace records) :
    ⟨_, .storage (.fetchManyPendingJoinRequests groups (consumed.getD [])), .ok records⟩ ∈ trace ∨
      ∀ g ∈ groups, ∃ out ⊆ records, ⟨_, .storage (.fetchPendingJoinRequests g
        ((partitionConsumedJoinRequests (consumed.getD [])).bucket g)), .ok out⟩ ∈ trace := by
  obtain ⟨-, -, h⟩ := h.checked
  rw [fetchJoinRequests] at h
  cases hlocking : A.storage.joinRequestLocking with
  | once =>
    rw [hlocking] at h
    obtain rfl := replies_storage h
    exact Or.inl List.mem_cons_self
  | perGroup =>
    rw [hlocking] at h
    exact Or.inr (replies_fetchEachGroup h)

theorem replies_handle {request : Request} {reply : Reply} (hone : restsOnOne request = true)
    (h : (handle A c request).Replies trace reply) :
    ∃ first done, trace = first ++ [done] ∧ RestsOn A c done request reply := by
  cases request with
  | publishKeyPackage input event =>
    obtain ⟨output, hpublish, -⟩ := h.map
    obtain ⟨first, admitted, record, hadmitted, rfl⟩ := replies_publish A hpublish
    exact ⟨first, _, rfl, admitted, record, hadmitted, rfl⟩
  | consumeKeyPackage id =>
    obtain ⟨keyPackage, hconsume, rfl⟩ := h.map
    obtain ⟨found, rfl, hout⟩ := replies_consume A hconsume
    exact ⟨[], _, rfl, found, keyPackage, rfl, hout, rfl⟩
  | listAvailableKeyPackages =>
    obtain ⟨_, hread, rfl⟩ := h.map
    obtain ⟨records, rfl, rfl⟩ := replies_made hread
    exact ⟨[], _, rfl, records, rfl, rfl⟩
  | fetchPendingWelcomes consumed =>
    obtain ⟨_, hread, rfl⟩ := h.map
    obtain ⟨records, rfl, rfl⟩ := replies_made hread
    exact ⟨[], _, rfl, records, rfl, rfl⟩
  | storeWelcome input =>
    obtain ⟨_, hstore, -⟩ := h.map
    obtain ⟨bytes, record, hbytes, rfl⟩ := replies_storeWelcome A hstore
    exact ⟨[], _, rfl, bytes, record, hbytes, rfl⟩
  | storeJoinRequest input =>
    obtain ⟨_, hstore, -⟩ := h.map
    obtain ⟨first, record, rfl⟩ := replies_storeJoinRequest hstore
    exact ⟨first, _, rfl, record, rfl⟩
  | fetchManyGroupMessages groups =>
    obtain ⟨_, hread, rfl⟩ := h.map
    obtain ⟨-, -, hread⟩ := hread.checked
    obtain ⟨-, -, hread⟩ := hread.checked
    obtain ⟨records, rfl, rfl⟩ := replies_made hread
    exact ⟨[], _, rfl, records, rfl, rfl⟩
  | _ => cases hone

theorem program_replies {request : Request} {reply : Reply}
    (h : (program A (.call c request)).Leads trace (.done (.replied (.ok reply)))) :
    ∃ passed behind, trace = ⟨_, .check c.clientPubkey c.limiterNow, passed⟩::behind ∧
      (handle A c request).Replies behind reply := by
  obtain ⟨passed, behind, rfl, hbehind⟩ := Program.leads_call h
  refine ⟨passed, behind, rfl, ?_⟩
  obtain ⟨first, rest, result, rfl, hfirst, hrest⟩ := hbehind.split
  obtain ⟨rfl, hdone⟩ := Program.leads_done hrest
  obtain rfl := Outcome.replied.inj (Program.done.inj hdone)
  rw [List.append_nil]
  cases passed with
  | false =>
    obtain ⟨-, hrefused⟩ := Program.leads_done hfirst
    cases Program.done.inj hrefused
  | true => exact hfirst

variable {A} {init : σ × L}

theorem replied_own {events : List Event} {event : Event} {request : Request} {reply : Reply}
    (h : answerTo A init events event = some (.call c request, .replied (.ok reply))) :
    ∃ n passed behind, event = .advance n ∧
      ofCall n (performedSince A init [] (events ++ [event])) =
        ⟨_, .check c.clientPubkey c.limiterNow, passed⟩::behind ∧
      (handle A c request).Replies behind reply := by
  obtain ⟨n, rfl, hleads⟩ := replied_by h
  obtain ⟨passed, behind, hown, hreplies⟩ := program_replies A hleads
  exact ⟨n, passed, behind, rfl, hown, hreplies⟩

theorem last_own {events : List Event} {n : ℕ} {job : Job} {outcome : Outcome}
    (h : answerTo A init events (.advance n) = some (job, outcome)) :
    ∃ β op next, Interleaving.pending (poolAfter A init events) (.advance n) =
        some (job, ⟨β, op, next⟩) ∧
      ofCall n (performedSince A init [] (events ++ [.advance n])) =
        ofCall n (performedSince A init [] events) ++ [⟨β, op, answered A init events op⟩] := by
  cases hpending : Interleaving.pending (poolAfter A init events) (.advance n) with
  | none =>
    rw [(quiet_at hpending).1] at h
    cases h
  | some x =>
    obtain ⟨job', β, op, next⟩ := x
    have hjob : job' = job := by
      simp only [answerTo, serve, Interleaving.serve, hpending] at h
      exact (Interleaving.result_eq_some h).1
    subst hjob
    refine ⟨β, op, next, rfl, ?_⟩
    obtain ⟨m, hm, hperformed⟩ := performed_pending hpending
    obtain rfl := Interleaving.Event.advance.inj hm
    rw [performedSince_append, List.nil_append, hperformed, Interleaving.ofCall_append]
    simp [ofCall]

theorem replied_at (events : List Event) (event : Event) {request : Request} {reply : Reply}
    (hone : restsOnOne request = true)
    (h : answerTo A init events event = some (.call c request, .replied (.ok reply))) :
    ∃ β op next, Interleaving.pending (poolAfter A init events) event =
        some (.call c request, ⟨β, op, next⟩) ∧
      RestsOn A c ⟨β, op, answered A init events op⟩ request reply := by
  obtain ⟨n, passed, behind, rfl, hown, hreplies⟩ := replied_own h
  obtain ⟨first, done, rfl, hrests⟩ := replies_handle A hone hreplies
  obtain ⟨β, op, next, hpending, hlast⟩ := last_own h
  rw [hlast, ← List.cons_append] at hown
  obtain ⟨-, hdone⟩ := List.append_inj' hown rfl
  obtain rfl := List.singleton_inj.mp hdone
  exact ⟨β, op, next, hpending, hrests⟩

theorem replied_since (events : List Event) (event : Event) {request : Request} {reply : Reply}
    (hone : restsOnOne request = true)
    (h : answerTo A init events event = some (.call c request, .replied (.ok reply))) :
    ∃ n β op, performedSince A init events [event] =
        [⟨n, .call c request, ⟨β, op, answered A init events op⟩⟩] ∧
      (poolAfter A init (events ++ [event])).shared =
        ((machine A.storage A.rateLimiter).perform op (poolAfter A init events).shared).2 ∧
      RestsOn A c ⟨β, op, answered A init events op⟩ request reply := by
  obtain ⟨β, op, next, hpending, hrests⟩ := replied_at events event hone h
  obtain ⟨n, -, hperformed⟩ := performed_pending hpending
  exact ⟨n, β, op, hperformed, shared_after_pending hpending, hrests⟩

end Tools

end Cordn.Server
