import DistributedCache.Cluster.HashRing
import Mathlib.Data.List.Induction
import Mathlib.Logic.Function.Basic

/-! The two maps of the hash ring agree, whatever tokens collide: a node owns the tokens that its
list holds, and as many as its last `AddNode` asked for. -/

namespace DistributedCache.Cluster

open Lib

/-! ### The loops -/

theorem freeToken_free {ring : Ring} {nodeId : Bytes} {vnode left attempt : Nat} {token : UInt64}
    (found : freeToken ring nodeId vnode left attempt = some token) : ring.find token = none := by
  induction left generalizing attempt with
  | zero => cases found
  | succ left ih =>
    rw [freeToken] at found
    split at found
    · exact ih found
    · rename_i free
      cases found
      simpa using free

/-- The tokens of a node after its rounds: they were free, and the node owns them now. -/
structure Placed (ring : Ring) (nodeId : Bytes) (vnodes : Nat) (after : Ring)
    (tokens : List UInt64) : Prop where
  length : tokens.length = vnodes
  nodup : tokens.Nodup
  free : ∀ token ∈ tokens, ring.find token = none
  find : ∀ token, after.find token = if token ∈ tokens then some nodeId else ring.find token

theorem placeTokens_placed {ring after : Ring} {nodeId : Bytes} {vnodes : Nat}
    {tokens : List UInt64} (ran : placeTokens ring nodeId vnodes = some (after, tokens)) :
    Placed ring nodeId vnodes after tokens := by
  induction vnodes generalizing after tokens with
  | zero =>
    cases ran
    exact ⟨rfl, List.nodup_nil, by simp, by simp⟩
  | succ vnode ih =>
    obtain ⟨⟨before, placed⟩, rounds, last⟩ := Option.bind_eq_some_iff.mp ran
    obtain ⟨token, found, same⟩ := Option.map_eq_some_iff.mp last
    cases same
    obtain ⟨length, nodup, free, find⟩ := ih rounds
    have unused := freeToken_free found
    have fresh : token ∉ placed ∧ ring.find token = none := by
      rw [find] at unused
      split at unused
      · cases unused
      · rename_i new
        exact ⟨new, unused⟩
    refine ⟨by simp [length], ?_, ?_, ?_⟩
    · rw [List.nodup_append]
      refine ⟨nodup, List.nodup_singleton token, ?_⟩
      rintro t member _ last rfl
      rw [List.mem_singleton] at last
      exact fresh.1 (last ▸ member)
    · intro t member
      rcases List.mem_append.mp member with earlier | last
      · exact free t earlier
      · rw [List.mem_singleton.mp last]
        exact fresh.2
    · intro t
      rw [OrderedMap.find_emplace unused, find]
      by_cases last : t = token
      · simp [last]
      · simp [last]

namespace HashRing

variable {ring : HashRing} {nodeId other : Bytes}

theorem find_foldl_eraseToken (nodeId : Bytes) (tokens : List UInt64) (r : Ring) (token : UInt64) :
    (tokens.foldl (eraseToken nodeId) r).find token =
      if token ∈ tokens ∧ r.find token = some nodeId then none else r.find token := by
  induction tokens generalizing r with
  | nil => simp
  | cons t tokens ih =>
    have erased : (eraseToken nodeId r t).find token =
        if token = t ∧ r.find token = some nodeId then none else r.find token := by
      unfold eraseToken
      by_cases same : token = t
      · subst same
        split
        · rename_i owned
          simp [OrderedMap.find_erase, owned]
        · rename_i foreign
          simp [foreign]
      · split
        · simp [OrderedMap.find_erase, same]
        · simp [same]
    rw [List.foldl_cons, ih, erased]
    by_cases same : token = t
    · by_cases owned : r.find token = some nodeId
      · simp [same, same ▸ owned]
      · simp [same, same ▸ owned]
    · simp [same]

/-- A node owns a token exactly if its list holds it, and lists hold no token twice. -/
structure Consistent (ring : HashRing) : Prop where
  owns : ∀ token nodeId, ring.ring.find token = some nodeId ↔
    ∃ tokens, ring.nodeTokens.lookup nodeId = some tokens ∧ token ∈ tokens
  nodup : ∀ nodeId tokens, ring.nodeTokens.lookup nodeId = some tokens → tokens.Nodup

/-- Lists of different nodes hold different tokens. -/
theorem Consistent.disjoint (consistent : ring.Consistent) {tokens tokens' : List UInt64}
    (different : nodeId ≠ other) (listed : ring.nodeTokens.lookup nodeId = some tokens)
    (listed' : ring.nodeTokens.lookup other = some tokens') : tokens.Disjoint tokens' := by
  intro token member member'
  have owned := (consistent.owns token nodeId).mpr ⟨tokens, listed, member⟩
  have owned' := (consistent.owns token other).mpr ⟨tokens', listed', member'⟩
  rw [owned] at owned'
  exact different (Option.some.inj owned')

theorem new_consistent : new.Consistent := by
  refine ⟨?_, ?_⟩
  · simp [new, OrderedMap.find, OrderedMap.empty]
  · simp [new]

/-! ### `RemoveNode` -/

theorem removeNode_absent (absent : ring.nodeTokens.lookup nodeId = none) :
    ring.removeNode nodeId = ring := by
  rw [removeNode, absent]

theorem lookup_removeNode (ring : HashRing) (nodeId other : Bytes) :
    (ring.removeNode nodeId).nodeTokens.lookup other =
      if other = nodeId then none else ring.nodeTokens.lookup other := by
  unfold removeNode
  cases listed : ring.nodeTokens.lookup nodeId with
  | none =>
    by_cases same : other = nodeId
    · subst same
      simp [listed]
    · simp [same]
  | some tokens =>
    by_cases same : other = nodeId
    · subst same
      simp
    · simp [same, AList.lookup_erase_ne same]

/-- `RemoveNode` takes the tokens of the node off the ring, and no others. -/
theorem Consistent.find_removeNode (consistent : ring.Consistent) (nodeId : Bytes)
    (token : UInt64) : (ring.removeNode nodeId).ring.find token =
      if ring.ring.find token = some nodeId then none else ring.ring.find token := by
  have owns := consistent.owns token nodeId
  unfold removeNode
  cases listed : ring.nodeTokens.lookup nodeId with
  | none =>
    simp only [listed, reduceCtorEq, false_and, exists_false, iff_false] at owns
    rw [if_neg owns]
  | some tokens =>
    simp only [listed, Option.some.injEq, exists_eq_left'] at owns
    simp only [find_foldl_eraseToken, ← owns, and_self]

theorem Consistent.removeNode (consistent : ring.Consistent) (nodeId : Bytes) :
    (ring.removeNode nodeId).Consistent := by
  refine ⟨fun token other => ?_, fun other tokens listed => ?_⟩
  · rw [consistent.find_removeNode, lookup_removeNode]
    by_cases same : other = nodeId
    · subst same
      split
      · simp
      · rename_i foreign
        simp [foreign]
    · rw [if_neg same, ← consistent.owns]
      split
      · rename_i owned
        simp [owned, Ne.symm same]
      · rfl
  · rw [lookup_removeNode] at listed
    split at listed
    · cases listed
    · exact consistent.nodup other tokens listed

theorem removeNode_unowned (consistent : ring.Consistent) (nodeId : Bytes) (token : UInt64) :
    (ring.removeNode nodeId).ring.find token ≠ some nodeId := by
  rw [consistent.find_removeNode]
  split
  · simp
  · assumption

/-! ### `AddNode` -/

/-- `AddNode` throws and changes nothing, or replaces the tokens of the node by new ones. -/
theorem addNode_cases {after : HashRing} {virtualNodes : Int} {answer : Except StdException Unit}
    (ends : ring.addNode nodeId virtualNodes = some (after, answer)) :
    (virtualNodes ≤ 0 ∧ after = ring ∧ ∃ thrown, answer = .error thrown) ∨
      (0 < virtualNodes ∧ answer = .ok () ∧ ∃ r tokens,
        placeTokens (ring.removeNode nodeId).ring nodeId virtualNodes.toNat = some (r, tokens) ∧
        after = ⟨r, (ring.removeNode nodeId).nodeTokens.insert nodeId tokens⟩) := by
  unfold addNode at ends
  split at ends
  · rename_i few
    cases ends
    exact .inl ⟨few, rfl, _, rfl⟩
  · rename_i enough
    obtain ⟨⟨r, tokens⟩, placed, same⟩ := Option.map_eq_some_iff.mp ends
    cases same
    exact .inr ⟨Int.not_le.mp enough, rfl, r, tokens, placed, rfl⟩

theorem Consistent.addTokens (consistent : ring.Consistent) {vnodes : Nat} {r : Ring}
    {tokens : List UInt64}
    (placed : Placed (ring.removeNode nodeId).ring nodeId vnodes r tokens) :
    Consistent ⟨r, (ring.removeNode nodeId).nodeTokens.insert nodeId tokens⟩ := by
  have removed := consistent.removeNode nodeId
  refine ⟨fun token other => ?_, fun other tokens' listed => ?_⟩
  · dsimp only
    rw [placed.find]
    by_cases same : other = nodeId
    · subst same
      have unowned := removeNode_unowned consistent other token
      simp [unowned]
    · rw [AList.lookup_insert_ne same, ← removed.owns]
      split
      · rename_i member
        simp [placed.free token member, Ne.symm same]
      · rfl
  · by_cases same : other = nodeId
    · subst same
      rw [AList.lookup_insert, Option.some.injEq] at listed
      exact listed ▸ placed.nodup
    · rw [AList.lookup_insert_ne same] at listed
      exact removed.nodup other tokens' listed

/-! ### Every list of calls -/

/-- The nodes and their numbers of virtual nodes after a call that changes them. -/
def Call.enroll (members : Bytes → Option Nat) : Call → Bytes → Option Nat
  | .addNode nodeId virtualNodes =>
    if 0 < virtualNodes then Function.update members nodeId (some virtualNodes.toNat) else members
  | .removeNode nodeId => Function.update members nodeId none

/-- The nodes whose last call that did not throw was `AddNode`, with the number of virtual nodes
that it asked for. -/
def members (calls : List Call) : Bytes → Option Nat := calls.foldl Call.enroll fun _ => none

theorem members_append (calls : List Call) (call : Call) :
    members (calls ++ [call]) = call.enroll (members calls) := by
  simp [members]

theorem run_append (calls : List Call) (call : Call) :
    ring.run (calls ++ [call]) = (ring.run calls).bind fun r => r.apply call := by
  simp only [run, List.foldlM_append, List.foldlM_cons, List.foldlM_nil, bind_pure]
  rfl

/-- The lists of tokens belong to the members and have the right lengths. -/
def Lists (ring : HashRing) (members : Bytes → Option Nat) : Prop :=
  ∀ nodeId, (ring.nodeTokens.lookup nodeId).map List.length = members nodeId

theorem apply_consistent {after : HashRing} {call : Call} {members : Bytes → Option Nat}
    (consistent : ring.Consistent) (lists : ring.Lists members)
    (ends : ring.apply call = some after) :
    after.Consistent ∧ after.Lists (call.enroll members) := by
  cases call with
  | removeNode nodeId =>
    cases ends
    refine ⟨consistent.removeNode nodeId, fun other => ?_⟩
    rw [lookup_removeNode, Call.enroll]
    by_cases same : other = nodeId
    · simp [same]
    · simpa [same] using lists other
  | addNode nodeId virtualNodes =>
    obtain ⟨⟨after', answer⟩, added, rfl⟩ := Option.map_eq_some_iff.mp ends
    rcases addNode_cases added with ⟨few, rfl, -⟩ | ⟨enough, -, r, tokens, ran, rfl⟩
    · rw [Call.enroll, if_neg (by omega)]
      exact ⟨consistent, lists⟩
    · have placed := placeTokens_placed ran
      refine ⟨consistent.addTokens placed, fun other => ?_⟩
      rw [Call.enroll, if_pos enough]
      by_cases same : other = nodeId
      · subst same
        simp [placed.length]
      · simpa [AList.lookup_insert_ne same, lookup_removeNode, same] using lists other

theorem run_consistent {calls : List Call} (ran : new.run calls = some ring) :
    ring.Consistent ∧ ring.Lists (members calls) := by
  induction calls using List.reverseRecOn generalizing ring with
  | nil =>
    cases ran
    exact ⟨new_consistent, fun nodeId => by simp [new, members]⟩
  | append_singleton calls call ih =>
    rw [run_append] at ran
    obtain ⟨before, early, last⟩ := Option.bind_eq_some_iff.mp ran
    obtain ⟨consistent, lists⟩ := ih early
    rw [members_append]
    exact apply_consistent consistent lists last

/-- After every list of calls the two maps agree, the lists of tokens are those of the members, and
a call that throws changes nothing. -/
theorem maps_agree {calls : List Call} (ran : new.run calls = some ring) :
    (∀ token nodeId, ring.ring.find token = some nodeId ↔
      ∃ tokens, ring.nodeTokens.lookup nodeId = some tokens ∧ token ∈ tokens) ∧
    (∀ nodeId tokens, ring.nodeTokens.lookup nodeId = some tokens → tokens.Nodup) ∧
    (∀ nodeId other tokens tokens', nodeId ≠ other →
      ring.nodeTokens.lookup nodeId = some tokens → ring.nodeTokens.lookup other = some tokens' →
        tokens.Disjoint tokens') ∧
    (∀ nodeId, (ring.nodeTokens.lookup nodeId).map List.length = members calls nodeId) ∧
    (∀ nodeId virtualNodes, virtualNodes ≤ 0 → ∃ thrown,
      ring.addNode nodeId virtualNodes = some (ring, .error thrown)) ∧
    ∀ nodeId virtualNodes after thrown,
      ring.addNode nodeId virtualNodes = some (after, .error thrown) → after = ring := by
  obtain ⟨consistent, lists⟩ := run_consistent ran
  refine ⟨consistent.owns, consistent.nodup, fun nodeId other tokens tokens' different =>
    consistent.disjoint different, lists, ?_, ?_⟩
  · intro nodeId virtualNodes few
    exact ⟨_, if_pos few⟩
  · intro nodeId virtualNodes after thrown ends
    rcases addNode_cases ends with ⟨-, same, -⟩ | ⟨-, answer, -⟩
    · exact same
    · cases answer

/-- Two nodes join, the first one again with fewer virtual nodes, and one call throws. -/
def rejoins : List Call :=
  [.addNode (ascii "a") 2, .addNode (ascii "b") 1, .addNode (ascii "a") 1, .addNode (ascii "b") 0]

theorem rejoins_members : ∃ ring, new.run rejoins = some ring ∧
    ∀ nodeId, (ring.nodeTokens.lookup nodeId).map List.length = members rejoins nodeId :=
  have ran : (new.run rejoins).isSome = true := by decide
  ⟨_, (Option.some_get ran).symm, (maps_agree (Option.some_get ran).symm).2.2.2.1⟩

end HashRing

end DistributedCache.Cluster
