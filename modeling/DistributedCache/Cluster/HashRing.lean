import DistributedCache.Bytes
import DistributedCache.Lib.Decimal
import DistributedCache.Lib.OrderedMap
import Mathlib.Data.List.AList
import Mathlib.Order.Defs.LinearOrder

/-! The hash ring that assigns keys to nodes.  `AddNode` looks for free tokens until it finds one,
so it is partial here: a call has no result if the attempts of a virtual node run out of the range
of `int`. -/

namespace DistributedCache.Cluster

open Lib

instance instLinearOrderUInt64 : LinearOrder UInt64 where
  le_refl := UInt64.le_refl
  le_trans _ _ _ := UInt64.le_trans
  le_antisymm _ _ := UInt64.le_antisymm
  le_total := UInt64.le_total
  lt_iff_le_not_ge a b := by
    rw [UInt64.not_le]
    exact ⟨fun h => ⟨UInt64.le_of_lt h, h⟩, And.right⟩
  toDecidableLE := inferInstance

def kFnvOffset : UInt64 := 14695981039346656037

def kFnvPrime : UInt64 := 1099511628211

def fnv1a (value : Bytes) : UInt64 :=
  value.foldl (fun hash ch => (hash ^^^ ch.toUInt64) * kFnvPrime) kFnvOffset

def hash64 (value : Bytes) : UInt64 := fnv1a value

def tokenFor (nodeId : Bytes) (vnode attempt : Nat) : UInt64 :=
  let token := nodeId ++ ascii "#" ++ toDecimal vnode
  hash64 (if 0 < attempt then token ++ (ascii "#" ++ toDecimal attempt) else token)

abbrev Ring := OrderedMap UInt64 Bytes

structure HashRing where
  ring : Ring
  nodeTokens : AList fun _ : Bytes => List UInt64

/-- The number of values of `attempt` before it overflows. -/
def attemptLimit : Nat := 2 ^ 31

/-- The `while` loop of `AddNode` from `attempt` on, with so many attempts left. -/
def freeToken (ring : Ring) (nodeId : Bytes) (vnode : Nat) : Nat → Nat → Option UInt64
  | 0, _ => none
  | left + 1, attempt =>
    let token := tokenFor nodeId vnode attempt
    if (ring.find token).isSome then freeToken ring nodeId vnode left (attempt + 1)
    else some token

/-- The ring and the tokens of the node after so many rounds of the `for` loop of `AddNode`. -/
def placeTokens (ring : Ring) (nodeId : Bytes) : Nat → Option (Ring × List UInt64)
  | 0 => some (ring, [])
  | vnode + 1 =>
    (placeTokens ring nodeId vnode).bind fun placed =>
      (freeToken placed.1 nodeId vnode attemptLimit 0).map fun token =>
        (placed.1.emplace token nodeId, placed.2 ++ [token])

namespace HashRing

def new : HashRing := ⟨.empty, ∅⟩

/-- The body of the loop of `RemoveNode`. -/
def eraseToken (nodeId : Bytes) (ring : Ring) (token : UInt64) : Ring :=
  if ring.find token = some nodeId then ring.erase token else ring

def removeNode (ring : HashRing) (nodeId : Bytes) : HashRing :=
  match ring.nodeTokens.lookup nodeId with
  | none => ring
  | some tokens => ⟨tokens.foldl (eraseToken nodeId) ring.ring, ring.nodeTokens.erase nodeId⟩

/-- The ring after the call and what it returns or throws. -/
def addNode (ring : HashRing) (nodeId : Bytes) (virtualNodes : Int) :
    Option (HashRing × Except StdException Unit) :=
  if virtualNodes ≤ 0 then
    some (ring, .error (.invalidArgument "virtual_nodes must be positive"))
  else
    let removed := ring.removeNode nodeId
    (placeTokens removed.ring nodeId virtualNodes.toNat).map fun placed =>
      (⟨placed.1, removed.nodeTokens.insert nodeId placed.2⟩, .ok ())

def ownerForKey (ring : HashRing) (key : Bytes) : Bytes :=
  if ring.ring.entries.isEmpty then []
  else
    match ring.ring.lowerBound (hash64 key) with
    | some found => found.2
    | none =>
      match ring.ring.first with
      | some found => found.2
      | none => []

/-- A call of one of the operations that change the ring. -/
inductive Call
  | addNode (nodeId : Bytes) (virtualNodes : Int)
  | removeNode (nodeId : Bytes)
deriving DecidableEq, Repr

/-- The ring after a call, if the call ends. -/
def apply (ring : HashRing) : Call → Option HashRing
  | .addNode nodeId virtualNodes => (ring.addNode nodeId virtualNodes).map Prod.fst
  | .removeNode nodeId => some (ring.removeNode nodeId)

/-- The ring after a list of calls, if all of them end. -/
def run (ring : HashRing) (calls : List Call) : Option HashRing := calls.foldlM apply ring

end HashRing

def routeKeyToNode (ring : HashRing) (key : Bytes) : Bytes := ring.ownerForKey key

end DistributedCache.Cluster
