import LinuxCLearning.Base.Bytes
import LinuxCLearning.Base.Chain

/-! The chained hash table of `kvdb.c`. A chain is the list of nodes reached
from a bucket through `next`; the nodes' time stamps are never read and are
left out. -/

namespace LinuxCLearning.KvDatabase

/-- `kv_node_t`; `value_size` is the length of `value`. -/
structure KvNode where
  key : CString
  value : Bytes
  deriving DecidableEq

/-- Give a node a new value buffer. -/
def KvNode.setValue (value : Bytes) (node : KvNode) : KvNode := { node with value }

@[simp] theorem KvNode.setValue_key (value : Bytes) (node : KvNode) :
    (node.setValue value).key = node.key := rfl

/-- `hashmap_t`. -/
structure Hashmap where
  capacity : Nat
  positive : 0 < capacity
  buckets : Fin capacity → List KvNode
  size : Nat

/-- A `char` promoted to `int` and then converted to `uint32_t`: bytes above
127 are sign-extended. -/
def charToUInt32 (char : UInt8) : UInt32 := char.toInt8.toInt32.toUInt32

def hashString (string : CString) : UInt32 :=
  string.bytes.foldl (fun hash char => ((hash <<< 5) + hash) + charToUInt32 char) 5381

def hashmapCreate (capacity : Nat) (positive : 0 < capacity) : Hashmap :=
  ⟨capacity, positive, fun _ => [], 0⟩

/-- `hash_string(key) % map->capacity`. -/
def Hashmap.index (map : Hashmap) (key : CString) : Fin map.capacity :=
  ⟨(hashString key).toNat % map.capacity, Nat.mod_lt _ map.positive⟩

def Hashmap.setBucket (map : Hashmap) (index : Fin map.capacity) (chain : List KvNode) : Hashmap :=
  { map with buckets := Function.update map.buckets index chain }

/-- Every node, in the order a walk over the buckets and their chains meets it. -/
def Hashmap.nodes (map : Hashmap) : List KvNode :=
  (List.finRange map.capacity).flatMap map.buckets

def hashmapFind (map : Hashmap) (key : CString) : Option KvNode :=
  Chain.find KvNode.key key (map.buckets (map.index key))

/-- `alloc n` tells whether the `n`-th allocation of the call succeeds: the new
value of a node that exists, or a node, its key and its value in this order. -/
def hashmapInsert (alloc : Nat → Bool) (map : Hashmap) (key : CString) (value : Bytes) :
    Int × Hashmap :=
  let hash := map.index key
  match hashmapFind map key with
  | some _ =>
    if alloc 0 then
      (0, map.setBucket hash
        (Chain.update KvNode.key key (KvNode.setValue value) (map.buckets hash)))
    else (-1, map)
  | none =>
    if alloc 0 && alloc 1 && alloc 2 then
      (0, { map.setBucket hash (⟨key, value⟩ :: map.buckets hash) with size := map.size + 1 })
    else (-1, map)

def hashmapRemove (map : Hashmap) (key : CString) : Int × Hashmap :=
  let hash := map.index key
  match hashmapFind map key with
  | some _ =>
    (0, { map.setBucket hash (Chain.unlink KvNode.key key (map.buckets hash)) with
          size := map.size - 1 })
  | none => (-1, map)

end LinuxCLearning.KvDatabase
