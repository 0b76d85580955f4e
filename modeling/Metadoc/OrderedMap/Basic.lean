import Metadoc.OrderedMap.Key
import Metadoc.OrderedMap.Index

/-!
# Ordered maps

A map from keys to values that keeps its keys in the order in which they first came.  Entries stay
in their slots for ever; an index finds the slot of a key by its hash.

* `OrderedMap.insert` keeps the value of a key that is present, `OrderedMap.overwrite` replaces it;
* `OrderedMap.lookup?` finds the slot of a key, `OrderedMap.get?` its value;
* `OrderedMap.assign` writes through a slot;
* `OrderedMap.toList` lists keys and values in order.

What a map answers does not depend on the hash function and the kind of index that it is made for.
-/

namespace Metadoc

/-- A key with its value and its hash. -/
structure Slot (α : Type) where
  /-- The key. -/
  key : Key
  /-- The hash of the key. -/
  hash : UInt64
  /-- The value. -/
  value : α
deriving Repr

/-- A map that keeps the order in which keys first came. -/
structure OrderedMap (hash : Key → UInt64) (α : Type) (ι : Type := HashIndex) where
  /-- The slots, in order. -/
  slots : Array (Slot α)
  /-- The slots by hash of key. -/
  index : ι

namespace OrderedMap

variable {hash : Key → UInt64} {α ι : Type}

section Slots

variable (map : OrderedMap hash α ι)

/-- Number of keys. -/
def size : Nat := map.slots.size

/-- Whether there are no keys. -/
def isEmpty : Bool := map.size = 0

/-- A slot by its number. -/
def slot? (i : Nat) : Option (Slot α) := map.slots[i]?

/-- The hash of the key in a slot. -/
def hashAt (i : Nat) : UInt64 := ((map.slot? i).map (·.hash)).getD 0

/-- Writes a value into a slot. -/
def assign (i : Nat) (value : α) : OrderedMap hash α ι :=
  { map with slots := map.slots.modify i fun slot => { slot with value } }

/-- Keys and values, in the order in which keys first came. -/
def toList : List (Key × α) := map.slots.toList.map fun slot => (slot.key, slot.value)

end Slots

variable [HashTable ι]

/-- The empty map with an index made for `n` keys. -/
def withCapacity (n : Nat) : OrderedMap hash α ι := ⟨#[], HashTable.withCapacity n⟩

/-- The empty map. -/
def empty : OrderedMap hash α ι := withCapacity 0

variable (map : OrderedMap hash α ι)

/-- Number of keys the index holds before it grows. -/
def capacity : Nat := HashTable.capacity map.index

/-- The number of the slot of a key. -/
def position? (key : Key) : Option Nat :=
  HashTable.find? map.index (hash key) fun i =>
    (map.slot? i).any fun slot => slot.hash == hash key && slot.key == key

/-- Adds a slot at the end.  While the index takes its number, the slot is not there yet. -/
def push (key : Key) (value : α) : OrderedMap hash α ι :=
  ⟨map.slots.push ⟨key, hash key, value⟩,
    HashTable.insert map.index ⟨hash key, map.size⟩ map.hashAt⟩

/-- Puts a value under a key unless the key is present.  Also yields the slot that holds the key
now. -/
def insert (key : Key) (value : α) : Nat × OrderedMap hash α ι :=
  match map.position? key with
  | some i => (i, map)
  | none => (map.size, map.push key value)

/-- Puts a value under a key, replacing one that is there.  Also yields the slot that holds the key
now. -/
def overwrite (key : Key) (value : α) : Nat × OrderedMap hash α ι :=
  match map.position? key with
  | some i => (i, map.assign i value)
  | none => (map.size, map.push key value)

/-- The slot of a key. -/
def lookup? (key : Key) : Option (Slot α) := (map.position? key).bind map.slot?

/-- Replaces the value of a key, if the key is present.  Also yields its slot. -/
def update (key : Key) (value : α) : Option Nat × OrderedMap hash α ι :=
  match map.position? key with
  | some i => (some i, map.assign i value)
  | none => (none, map)

/-- The value of a key. -/
def get? (key : Key) : Option α := (map.lookup? key).map (·.value)

/-- Whether a key is present. -/
def contains (key : Key) : Bool := (map.lookup? key).isSome

/-- The map of a list of keys and values, of which the first of equal keys counts. -/
def ofList (pairs : List (Key × α)) : OrderedMap hash α ι :=
  pairs.foldl (fun map p => (map.insert p.1 p.2).2) empty

end OrderedMap

end Metadoc
