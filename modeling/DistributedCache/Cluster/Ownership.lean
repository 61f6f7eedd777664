import DistributedCache.Cluster.Routing

/-! Which token decides over a key, and what a node leaves behind.  The owner of a key is the node
of the token at the least clockwise distance, where distances are taken modulo `2^64`.  A node that
leaves takes back exactly what it brought, so that only its last `AddNode` counts. -/

namespace DistributedCache.Cluster

open Lib

/-! ### The nearest token -/

/-- How far `token` is from `point` in the direction of growing tokens. -/
def distance (point token : UInt64) : Int := ((token.toNat : Int) - point.toNat) % 2 ^ 64

theorem distance_ahead {point token : UInt64} (ahead : point ≤ token) :
    distance point token = (token.toNat : Int) - point.toNat := by
  have order := UInt64.le_iff_toNat_le.mp ahead
  have range := token.toNat_lt
  unfold distance
  omega

theorem distance_behind {point token : UInt64} (behind : token < point) :
    distance point token = (token.toNat : Int) - point.toNat + 2 ^ 64 := by
  have order := UInt64.lt_iff_toNat_lt.mp behind
  have range := point.toNat_lt
  unfold distance
  omega

/-- The order in which the ring visits the tokens is the order of their distances. -/
theorem distance_le_of_clockwise {point token other : UInt64}
    (nearer : OrderedMap.clockwise point token ≤ OrderedMap.clockwise point other) :
    distance point token ≤ distance point other := by
  have range := token.toNat_lt
  rcases Prod.Lex.toLex_le_toLex.mp nearer with wrap | ⟨sides, below⟩
  · simp only [Bool.lt_iff, decide_eq_false_iff_not, decide_eq_true_eq, not_lt] at wrap
    rw [distance_ahead wrap.1, distance_behind wrap.2]
    omega
  · simp only [decide_eq_decide] at sides
    have order : token.toNat ≤ other.toNat := UInt64.le_iff_toNat_le.mp below
    by_cases behind : token < point
    · rw [distance_behind behind, distance_behind (sides.mp behind)]
      omega
    · have ahead := not_lt.mp behind
      rw [distance_ahead ahead, distance_ahead (not_lt.mp (behind ∘ sides.mpr))]
      omega

theorem distance_injective (point : UInt64) : Function.Injective (distance point) := by
  intro token other same
  have range := token.toNat_lt
  have range' := other.toNat_lt
  unfold distance at same
  apply UInt64.toNat_inj.mp
  omega

namespace HashRing

variable {ring middle : HashRing} {nodeId : Bytes}

/-- A token in the list of a member. -/
def HasToken (ring : HashRing) (nodeId : Bytes) (token : UInt64) : Prop :=
  ∃ tokens, ring.nodeTokens.lookup nodeId = some tokens ∧ token ∈ tokens

/-- No token of a member is nearer to `point`. -/
def Nearest (ring : HashRing) (point token : UInt64) : Prop :=
  (∃ nodeId, ring.HasToken nodeId token) ∧
    ∀ nodeId other, ring.HasToken nodeId other → distance point token ≤ distance point other

theorem Nearest.unique {point token other : UInt64} (nearest : ring.Nearest point token)
    (nearest' : ring.Nearest point other) : token = other := by
  obtain ⟨⟨nodeId, owned⟩, least⟩ := nearest
  obtain ⟨⟨nodeId', owned'⟩, least'⟩ := nearest'
  have equal := le_antisymm (least nodeId' other owned') (least' nodeId token owned)
  exact distance_injective point equal

/-- The entry that follows a point on the ring holds its nearest token. -/
theorem Consistent.nearest_next (consistent : ring.Consistent) {point : UInt64}
    {e : UInt64 × Bytes} (next : ring.ring.next point = some e) :
    ring.Nearest point e.1 ∧ ring.HasToken e.2 e.1 := by
  obtain ⟨member, least⟩ := OrderedMap.next_least next
  have owned : ring.HasToken e.2 e.1 :=
    (consistent.owns e.1 e.2).mp (OrderedMap.find_eq_some.mpr member)
  refine ⟨⟨⟨e.2, owned⟩, fun nodeId other listed => ?_⟩, owned⟩
  have found := OrderedMap.find_eq_some.mp ((consistent.owns other nodeId).mpr listed)
  exact distance_le_of_clockwise (least _ found)

/-- The owner of a key is the node of the one token at the least distance from the hash of the key,
and it is a member. -/
theorem ownerForKey_nearest {calls : List Call} (ran : new.run calls = some ring)
    (nonempty : ring.ring.entries ≠ []) (key : Bytes) :
    (∃! token, ring.Nearest (hash64 key) token) ∧
      (∀ token, ring.Nearest (hash64 key) token → ring.HasToken (ring.ownerForKey key) token ∧
        ∀ nodeId, ring.HasToken nodeId token → nodeId = ring.ownerForKey key) ∧
      (members calls (ring.ownerForKey key)).isSome := by
  obtain ⟨consistent, lists⟩ := run_consistent ran
  rw [ownerForKey_eq, Ring.owner]
  cases next : ring.ring.next (hash64 key) with
  | none => exact absurd (OrderedMap.next_eq_none.mp next) nonempty
  | some e =>
    dsimp only
    obtain ⟨nearest, owned⟩ := consistent.nearest_next next
    refine ⟨⟨e.1, nearest, fun other nearest' => nearest'.unique nearest⟩, ?_, ?_⟩
    · intro token nearest'
      obtain rfl := nearest'.unique nearest
      refine ⟨owned, fun nodeId owned' => ?_⟩
      have found := (consistent.owns e.1 e.2).mpr owned
      rw [(consistent.owns e.1 nodeId).mpr owned'] at found
      exact Option.some.inj found
    · obtain ⟨tokens, listed, -⟩ := owned
      rw [← lists, listed]
      rfl

/-- Every key has its owner, which is one of the two nodes. -/
theorem rejoins_nearest : ∃ ring, new.run rejoins = some ring ∧ ∀ key,
    (∃! token, ring.Nearest (hash64 key) token) ∧
      (∀ token, ring.Nearest (hash64 key) token → ring.HasToken (ring.ownerForKey key) token ∧
        ∀ nodeId, ring.HasToken nodeId token → nodeId = ring.ownerForKey key) ∧
      (ring.ownerForKey key = ascii "a" ∨ ring.ownerForKey key = ascii "b") := by
  have ran : (new.run rejoins).map (fun ring => ring.ring.entries.isEmpty) = some false := by
    decide
  obtain ⟨ring, ends, filled⟩ := Option.map_eq_some_iff.mp ran
  refine ⟨ring, ends, fun key => ?_⟩
  obtain ⟨unique, owner, member⟩ :=
    ownerForKey_nearest ends (List.isEmpty_eq_false_iff.mp filled) key
  refine ⟨unique, owner, ?_⟩
  by_contra neither
  rw [not_or] at neither
  simp [members, rejoins, Call.enroll, neither] at member

/-! ### Leaving and joining again -/

theorem erase_absent {lists : AList fun _ : Bytes => List UInt64}
    (absent : lists.lookup nodeId = none) : lists.erase nodeId = lists := by
  apply AList.ext
  exact List.kerase_of_notMem_keys (AList.lookup_eq_none.mp absent)

theorem erase_insert (lists : AList fun _ : Bytes => List UInt64) (nodeId : Bytes)
    (tokens : List UInt64) : (lists.insert nodeId tokens).erase nodeId = lists.erase nodeId := by
  apply AList.ext
  show List.kerase nodeId (lists.insert nodeId tokens).entries = List.kerase nodeId lists.entries
  rw [AList.entries_insert]
  exact List.kerase_cons_eq rfl

theorem nodeTokens_removeNode (ring : HashRing) (nodeId : Bytes) :
    (ring.removeNode nodeId).nodeTokens = ring.nodeTokens.erase nodeId := by
  unfold removeNode
  cases listed : ring.nodeTokens.lookup nodeId with
  | none => exact (erase_absent listed).symm
  | some tokens => rfl

/-- The tokens of a node that has just joined are all that `RemoveNode` takes off the ring. -/
theorem Consistent.ring_removeNode_placed (consistent : ring.Consistent) {vnodes : Nat} {r : Ring}
    {tokens : List UInt64}
    (placed : Placed (ring.removeNode nodeId).ring nodeId vnodes r tokens) :
    (HashRing.removeNode ⟨r, (ring.removeNode nodeId).nodeTokens.insert nodeId tokens⟩
      nodeId).ring = (ring.removeNode nodeId).ring := by
  refine OrderedMap.ext_find fun token => ?_
  rw [(consistent.addTokens placed).find_removeNode, placed.find]
  by_cases member : token ∈ tokens
  · simp [member, placed.free token member]
  · rw [if_neg member, if_neg (removeNode_unowned consistent nodeId token)]

/-- A node that joins and leaves leaves the ring as if it had only left. -/
theorem Consistent.removeNode_addNode (consistent : ring.Consistent) {virtualNodes : Int}
    (added : ring.addNode nodeId virtualNodes = some (middle, .ok ())) :
    middle.removeNode nodeId = ring.removeNode nodeId := by
  rcases addNode_cases added with ⟨-, -, thrown, answer⟩ | ⟨-, -, r, tokens, ran, rfl⟩
  · cases answer
  · have rings := consistent.ring_removeNode_placed (placeTokens_placed ran)
    have lists : (HashRing.removeNode ⟨r, (ring.removeNode nodeId).nodeTokens.insert nodeId tokens⟩
        nodeId).nodeTokens = (ring.removeNode nodeId).nodeTokens := by
      rw [nodeTokens_removeNode, erase_insert]
      exact erase_absent (by simp [lookup_removeNode])
    exact congrArg₂ HashRing.mk rings lists

/-- `AddNode` depends on the rest of the ring only. -/
theorem addNode_congr {ring' : HashRing} {virtualNodes : Int} (enough : 0 < virtualNodes)
    (same : ring.removeNode nodeId = ring'.removeNode nodeId) :
    ring.addNode nodeId virtualNodes = ring'.addNode nodeId virtualNodes := by
  rw [addNode, addNode, if_neg (by omega), if_neg (by omega), same]

/-- `RemoveNode` undoes the `AddNode` of a new node, and an `AddNode` that follows another one of
the same node does what it does alone. -/
theorem addNode_undone {calls : List Call} (ran : new.run calls = some ring) {virtualNodes : Int}
    (added : ring.addNode nodeId virtualNodes = some (middle, .ok ())) :
    (ring.nodeTokens.lookup nodeId = none → middle.removeNode nodeId = ring) ∧
      ∀ virtualNodes', 0 < virtualNodes' →
        middle.addNode nodeId virtualNodes' = ring.addNode nodeId virtualNodes' := by
  have left := (run_consistent ran).1.removeNode_addNode added
  refine ⟨fun absent => left.trans (removeNode_absent absent), fun virtualNodes' enough => ?_⟩
  exact addNode_congr enough left

/-- A third node joins with two virtual nodes, and again with one. -/
theorem rejoins_undone : ∃ ring middle, new.run rejoins = some ring ∧
    ring.addNode (ascii "c") 2 = some (middle, .ok ()) ∧ middle.removeNode (ascii "c") = ring ∧
    middle.addNode (ascii "c") 1 = ring.addNode (ascii "c") 1 := by
  have ran : ((new.run rejoins).bind fun ring => (ring.addNode (ascii "c") 2).map fun r =>
      (ring.nodeTokens.lookup (ascii "c"), r.2)) = some (none, .ok ()) := by decide
  obtain ⟨ring, ends, rest⟩ := Option.bind_eq_some_iff.mp ran
  obtain ⟨⟨middle, answer⟩, added, same⟩ := Option.map_eq_some_iff.mp rest
  obtain ⟨absent, rfl⟩ := Prod.mk.inj same
  obtain ⟨undone, again⟩ := addNode_undone ends added
  exact ⟨ring, middle, ends, added, undone absent, again 1 (by decide)⟩

end HashRing

end DistributedCache.Cluster
