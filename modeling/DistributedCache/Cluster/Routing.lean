import DistributedCache.Cluster.Membership

/-! The owners of the keys.  A node that joins takes keys only for itself, a node that leaves gives
up only its own, and without collisions the owners depend on the members alone. -/

namespace DistributedCache.Cluster

open Lib

/-- The owner of a point of the ring. -/
def Ring.owner (ring : Ring) (point : UInt64) : Bytes :=
  match ring.next point with
  | some found => found.2
  | none => []

namespace HashRing

variable {ring after : HashRing} {nodeId : Bytes}

theorem ownerForKey_eq (ring : HashRing) (key : Bytes) :
    ring.ownerForKey key = Ring.owner ring.ring (hash64 key) := by
  unfold ownerForKey Ring.owner OrderedMap.next
  split
  · rename_i isEmpty
    have empty : ring.ring.entries = [] := List.isEmpty_iff.mp isEmpty
    simp [OrderedMap.lowerBound, OrderedMap.first, empty]
  · cases ring.ring.lowerBound (hash64 key) <;> rfl

/-! ### Keys that move -/

/-- A point that the node does not own keeps its owner when the node leaves. -/
theorem owner_removeNode (consistent : ring.Consistent) {point : UInt64}
    (foreign : Ring.owner ring.ring point ≠ nodeId) :
    Ring.owner (ring.removeNode nodeId).ring point = Ring.owner ring.ring point := by
  have fewer : ∀ e ∈ (ring.removeNode nodeId).ring.entries, e ∈ ring.ring.entries := by
    intro e member
    have found := OrderedMap.find_eq_some.mpr member
    rw [consistent.find_removeNode] at found
    split at found
    · cases found
    · exact OrderedMap.find_eq_some.mp found
  unfold Ring.owner at *
  cases next : ring.ring.next point with
  | none =>
    have empty : (ring.removeNode nodeId).ring.entries = [] := by
      rw [List.eq_nil_iff_forall_not_mem]
      intro e member
      simpa [OrderedMap.next_eq_none.mp next] using fewer e member
    rw [OrderedMap.next_eq_none.mpr empty]
  | some e =>
    simp only [next] at foreign
    have owned := OrderedMap.find_eq_some.mpr (OrderedMap.next_least next).1
    have kept : e ∈ (ring.removeNode nodeId).ring.entries := by
      rw [← Prod.eta e, ← OrderedMap.find_eq_some, consistent.find_removeNode, owned,
        if_neg (by simpa using foreign)]
    rw [OrderedMap.next_of_subset next fewer kept]

/-- A node that left owns nothing. -/
theorem owner_removeNode_ne (consistent : ring.Consistent) (named : nodeId ≠ [])
    (point : UInt64) : Ring.owner (ring.removeNode nodeId).ring point ≠ nodeId := by
  unfold Ring.owner
  cases next : (ring.removeNode nodeId).ring.next point with
  | none => exact named.symm
  | some e =>
    have owned := OrderedMap.find_eq_some.mpr (OrderedMap.next_least next).1
    rintro rfl
    exact removeNode_unowned consistent e.2 e.1 owned

/-- New tokens of a node change the owner of a point only to that node. -/
theorem owner_placed {base r : Ring} {vnodes : Nat} {tokens : List UInt64}
    (placed : Placed base nodeId vnodes r tokens) (point : UInt64) :
    Ring.owner r point = Ring.owner base point ∨ Ring.owner r point = nodeId := by
  have more : ∀ e ∈ base.entries, e ∈ r.entries := by
    intro e member
    have found := OrderedMap.find_eq_some.mpr member
    rw [← Prod.eta e, ← OrderedMap.find_eq_some, placed.find, if_neg, found]
    intro taken
    rw [placed.free _ taken] at found
    cases found
  unfold Ring.owner
  cases next : r.next point with
  | none =>
    have empty : base.entries = [] := by
      rw [List.eq_nil_iff_forall_not_mem]
      intro e member
      simpa [OrderedMap.next_eq_none.mp next] using more e member
    exact .inl (by rw [OrderedMap.next_eq_none.mpr empty])
  | some e =>
    have owned := OrderedMap.find_eq_some.mpr (OrderedMap.next_least next).1
    rw [placed.find] at owned
    split at owned
    · exact .inr (Option.some.inj owned).symm
    · exact .inl (by rw [OrderedMap.next_of_subset next more (OrderedMap.find_eq_some.mp owned)])

/-- On a ring that had no tokens, the new node owns everything. -/
theorem owner_placed_empty {base r : Ring} {vnodes : Nat} {tokens : List UInt64}
    (placed : Placed base nodeId vnodes r tokens) (some_vnode : 0 < vnodes)
    (empty : base.entries = []) (point : UInt64) : Ring.owner r point = nodeId := by
  have absent : ∀ token, base.find token = none := fun token => by
    simp [OrderedMap.find, empty]
  unfold Ring.owner
  cases next : r.next point with
  | none =>
    obtain ⟨token, member⟩ := List.exists_mem_of_length_pos (placed.length ▸ some_vnode)
    have found := placed.find token
    rw [if_pos member, OrderedMap.find_eq_some, OrderedMap.next_eq_none.mp next] at found
    cases found
  | some e =>
    have owned := OrderedMap.find_eq_some.mpr (OrderedMap.next_least next).1
    rw [placed.find, absent] at owned
    split at owned
    · exact (Option.some.inj owned).symm
    · cases owned

/-- Keys move only to a node that joins and away from a node that leaves. -/
theorem minimal_disruption {calls : List Call} (ran : new.run calls = some ring)
    (named : nodeId ≠ []) (key : Bytes) :
    (∀ virtualNodes after, 0 < virtualNodes → ring.nodeTokens.lookup nodeId = none →
      ring.addNode nodeId virtualNodes = some (after, .ok ()) →
        (after.ownerForKey key = ring.ownerForKey key ∨ after.ownerForKey key = nodeId) ∧
        (ring.ring.entries = [] → after.ownerForKey key = nodeId)) ∧
    (ring.ownerForKey key ≠ nodeId →
      (ring.removeNode nodeId).ownerForKey key = ring.ownerForKey key) ∧
    (ring.removeNode nodeId).ownerForKey key ≠ nodeId ∧
    ∀ virtualNodes after, 0 < virtualNodes → (ring.nodeTokens.lookup nodeId).isSome →
      ring.addNode nodeId virtualNodes = some (after, .ok ()) →
        after.ownerForKey key = ring.ownerForKey key ∨ ring.ownerForKey key = nodeId ∨
          after.ownerForKey key = nodeId := by
  obtain ⟨consistent, -⟩ := run_consistent ran
  simp only [ownerForKey_eq]
  refine ⟨?_, owner_removeNode consistent, owner_removeNode_ne consistent named _, ?_⟩
  · intro virtualNodes after enough absent added
    rcases addNode_cases added with ⟨few, -⟩ | ⟨-, -, r, tokens, places, rfl⟩
    · omega
    · rw [removeNode_absent absent] at places
      have placed := placeTokens_placed places
      exact ⟨owner_placed placed _, fun empty => owner_placed_empty placed (by omega) empty _⟩
  · intro virtualNodes after enough _ added
    rcases addNode_cases added with ⟨few, -⟩ | ⟨-, -, r, tokens, places, rfl⟩
    · omega
    · by_cases owned : Ring.owner ring.ring (hash64 key) = nodeId
      · exact .inr (.inl owned)
      · rcases owner_placed (placeTokens_placed places) (hash64 key) with same | moved
        · exact .inl (same.trans (owner_removeNode consistent owned))
        · exact .inr (.inr moved)

theorem rejoins_disruption : ∃ ring, new.run rejoins = some ring ∧ ∀ key,
    ring.ownerForKey key ≠ ascii "a" →
      (ring.removeNode (ascii "a")).ownerForKey key = ring.ownerForKey key :=
  have ran : (new.run rejoins).isSome = true := by decide
  ⟨_, (Option.some_get ran).symm, fun key =>
    (minimal_disruption (Option.some_get ran).symm (by decide) key).2.1⟩

/-! ### Rings without collisions -/

/-- The check of `AddNode` finds no token occupied. -/
def Call.CollisionFree (ring : HashRing) : Call → Prop
  | .addNode nodeId virtualNodes => ∀ vnode < virtualNodes.toNat,
      ∀ placed ∈ placeTokens (ring.removeNode nodeId).ring nodeId vnode,
        placed.1.find (tokenFor nodeId vnode 0) = none
  | .removeNode _ => True

instance (ring : HashRing) (call : Call) : Decidable (call.CollisionFree ring) :=
  match call with
  | .addNode nodeId virtualNodes =>
    inferInstanceAs (Decidable (∀ vnode < virtualNodes.toNat,
      ∀ placed ∈ placeTokens (ring.removeNode nodeId).ring nodeId vnode,
        placed.1.find (tokenFor nodeId vnode 0) = none))
  | .removeNode _ => isTrue trivial

/-- No call of a list finds a token occupied. -/
def NeverCollides : HashRing → List Call → Prop
  | _, [] => True
  | ring, call :: calls =>
    call.CollisionFree ring ∧ ∀ after ∈ ring.apply call, NeverCollides after calls

instance decidableNeverCollides : (ring : HashRing) → (calls : List Call) →
    Decidable (NeverCollides ring calls)
  | _, [] => isTrue trivial
  | ring, call :: calls =>
    have := fun after => decidableNeverCollides after calls
    inferInstanceAs (Decidable (call.CollisionFree ring ∧
      ∀ after ∈ ring.apply call, NeverCollides after calls))

/-- The tokens of the first attempts. -/
def firstTokens (nodeId : Bytes) (vnodes : Nat) : List UInt64 :=
  (List.range vnodes).map fun vnode => tokenFor nodeId vnode 0

theorem freeToken_first {r : Ring} {vnode left : Nat} (some_left : 0 < left)
    (free : r.find (tokenFor nodeId vnode 0) = none) :
    freeToken r nodeId vnode left 0 = some (tokenFor nodeId vnode 0) := by
  cases left with
  | zero => omega
  | succ left => simp [freeToken, free]

theorem placeTokens_first {base : Ring} {vnodes : Nat}
    (free : ∀ vnode < vnodes, ∀ placed ∈ placeTokens base nodeId vnode,
      placed.1.find (tokenFor nodeId vnode 0) = none) :
    ∃ r, placeTokens base nodeId vnodes = some (r, firstTokens nodeId vnodes) := by
  induction vnodes with
  | zero => exact ⟨base, rfl⟩
  | succ vnode ih =>
    obtain ⟨r, rounds⟩ := ih fun vnode' below => free vnode' (by omega)
    have found := @freeToken_first nodeId r vnode attemptLimit (by decide)
      (free vnode (by omega) _ rounds)
    refine ⟨r.emplace (tokenFor nodeId vnode 0) nodeId, ?_⟩
    rw [placeTokens, rounds, Option.bind_some, found, Option.map_some, firstTokens, firstTokens,
      List.range_succ, List.map_append]
    rfl

/-- Every member has the tokens of its first attempts. -/
def Canonical (ring : HashRing) (members : Bytes → Option Nat) : Prop :=
  ∀ nodeId, ring.nodeTokens.lookup nodeId = (members nodeId).map (firstTokens nodeId)

theorem apply_canonical {call : Call} {members : Bytes → Option Nat}
    (consistent : ring.Consistent) (canonical : ring.Canonical members)
    (free : call.CollisionFree ring) :
    ∃ after, ring.apply call = some after ∧ after.Consistent ∧
      after.Canonical (call.enroll members) := by
  have removed : ∀ nodeId other, (ring.removeNode nodeId).nodeTokens.lookup other =
      (Function.update members nodeId none other).map (firstTokens other) := by
    intro nodeId other
    rw [lookup_removeNode]
    by_cases same : other = nodeId
    · simp [same]
    · simpa [same] using canonical other
  cases call with
  | removeNode nodeId =>
    exact ⟨_, rfl, consistent.removeNode nodeId, removed nodeId⟩
  | addNode nodeId virtualNodes =>
    by_cases few : virtualNodes ≤ 0
    · refine ⟨ring, by simp [apply, addNode, few], consistent, ?_⟩
      rw [Call.enroll, if_neg (by omega)]
      exact canonical
    · obtain ⟨r, places⟩ := placeTokens_first free
      refine ⟨_, by simp only [apply, addNode, if_neg few, places, Option.map_some],
        consistent.addTokens (placeTokens_placed places), fun other => ?_⟩
      rw [Call.enroll, if_pos (by omega)]
      by_cases same : other = nodeId
      · subst same
        simp
      · simpa [AList.lookup_insert_ne same, same] using removed nodeId other

theorem run_canonical {calls : List Call} {members : Bytes → Option Nat}
    (consistent : ring.Consistent) (canonical : ring.Canonical members)
    (free : NeverCollides ring calls) :
    ∃ after, ring.run calls = some after ∧ after.Consistent ∧
      after.Canonical (calls.foldl Call.enroll members) := by
  induction calls generalizing ring members with
  | nil => exact ⟨ring, rfl, consistent, canonical⟩
  | cons call calls ih =>
    obtain ⟨next, called, consistent', canonical'⟩ :=
      apply_canonical consistent canonical free.1
    obtain ⟨after, ran, consistent'', canonical''⟩ :=
      ih consistent' canonical' (free.2 next called)
    refine ⟨after, ?_, consistent'', canonical''⟩
    rw [run, List.foldlM_cons, called]
    exact ran

/-- Consistent rings with the same lists of tokens have the same tokens. -/
theorem Consistent.ring_eq {ring' : HashRing} (consistent : ring.Consistent)
    (consistent' : ring'.Consistent)
    (same : ∀ nodeId, ring.nodeTokens.lookup nodeId = ring'.nodeTokens.lookup nodeId) :
    ring.ring = ring'.ring := by
  refine OrderedMap.ext_find fun token => Option.ext fun nodeId => ?_
  rw [consistent.owns, consistent'.owns, same]

/-- Two lists of calls that leave the same members, and never find a token occupied, leave the same
ring and the same owners. -/
theorem routing_by_membership {calls calls' : List Call} (same : members calls = members calls')
    (free : NeverCollides new calls) (free' : NeverCollides new calls') :
    ∃ ring ring', new.run calls = some ring ∧ new.run calls' = some ring' ∧
      ring.ring = ring'.ring ∧
      (∀ nodeId, ring.nodeTokens.lookup nodeId = ring'.nodeTokens.lookup nodeId) ∧
      ∀ key, ring.ownerForKey key = ring'.ownerForKey key ∧
        routeKeyToNode ring key = routeKeyToNode ring' key := by
  have start : new.Canonical fun _ => none := fun nodeId => by simp [new]
  obtain ⟨ring, ran, consistent, canonical⟩ := run_canonical new_consistent start free
  obtain ⟨ring', ran', consistent', canonical'⟩ := run_canonical new_consistent start free'
  have lists : ∀ nodeId, ring.nodeTokens.lookup nodeId = ring'.nodeTokens.lookup nodeId := by
    intro nodeId
    rw [canonical, canonical']
    exact congrArg (fun m => (m nodeId).map (firstTokens nodeId)) same
  have rings := consistent.ring_eq consistent' lists
  have owners : ∀ key, ring.ownerForKey key = ring'.ownerForKey key := by
    intro key
    rw [ownerForKey_eq, ownerForKey_eq, rings]
  exact ⟨ring, ring', ran, ran', rings, lists, fun key => ⟨owners key, owners key⟩⟩

/-- The members of `rejoins` in another order, without the detours. -/
def joins : List Call := [.addNode (ascii "b") 1, .addNode (ascii "a") 1]

theorem rejoins_joins : ∃ ring ring', new.run rejoins = some ring ∧ new.run joins = some ring' ∧
    ring.ring = ring'.ring ∧
    (∀ nodeId, ring.nodeTokens.lookup nodeId = ring'.nodeTokens.lookup nodeId) ∧
    ∀ key, ring.ownerForKey key = ring'.ownerForKey key ∧
      routeKeyToNode ring key = routeKeyToNode ring' key :=
  routing_by_membership (by
    funext nodeId
    simp only [members, rejoins, joins, List.foldl, Call.enroll]
    by_cases a : nodeId = ascii "a"
    · subst a
      decide
    · by_cases b : nodeId = ascii "b"
      · subst b
        decide
      · simp [a, b]) (by decide) (by decide)

end HashRing

end DistributedCache.Cluster
