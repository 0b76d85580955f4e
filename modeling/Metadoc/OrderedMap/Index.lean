import Metadoc.OrderedMap.Table

/-!
# A hash index

An index finds numbers by hash.  Entries lie in buckets, a power of two of them, chosen by the
remainder of the hash.  An index is filled to seven eighths at most; before it takes more, its
entries move to more buckets.

* `HashIndex.find?` finds an entry by its hash and a test;
* `HashIndex.insert` adds an entry, growing first when the index is full;
* `HashIndex.capacity` is the number of entries it holds before it grows.
-/

namespace Metadoc

/-- Entries in buckets. -/
structure HashIndex where
  /-- The buckets. -/
  buckets : Array (List IndexEntry)
  /-- Number of entries. -/
  count : Nat
deriving Repr

namespace HashIndex

/-- Number of buckets made for `n` entries. -/
def bucketsFor (n : Nat) : Nat :=
  if n = 0 then 0
  else if n ≤ 3 then 4
  else if n ≤ 7 then 8
  else (n * 8 / 7).nextPowerOfTwo

/-- Number of entries that `b` buckets hold before they are too full. -/
def capacityOf (b : Nat) : Nat := if b ≤ 8 then b - 1 else b / 8 * 7

/-- An index made for `n` entries. -/
def withCapacity (n : Nat) : HashIndex := ⟨Array.replicate (bucketsFor n) [], 0⟩

/-- Number of entries an index holds before it grows. -/
def capacity (index : HashIndex) : Nat := capacityOf index.buckets.size

/-- The bucket of a hash. -/
def place (index : HashIndex) (hash : UInt64) : Nat := hash.toNat % index.buckets.size

/-- The first number under a hash that passes a test. -/
def find? (index : HashIndex) (hash : UInt64) (test : Nat → Bool) : Option Nat :=
  match index.buckets[index.place hash]? with
  | none => none
  | some bucket =>
    (bucket.find? fun e => e.hash == hash && test e.slot).map (·.slot)

/-- Adds an entry to its bucket. -/
def add (index : HashIndex) (e : IndexEntry) : HashIndex :=
  ⟨index.buckets.modify (index.place e.hash) (e :: ·), index.count + 1⟩

/-- All entries, bucket by bucket. -/
def entries (index : HashIndex) : List IndexEntry := index.buckets.toList.flatten

/-- The same numbers in an index made for more of them than this one holds, each under the hash that
is given for it now. -/
def grow (index : HashIndex) (hashOf : Nat → UInt64) : HashIndex :=
  (index.entries.map fun e => ⟨hashOf e.slot, e.slot⟩).foldl add (withCapacity (index.capacity + 1))

/-- Adds an entry, growing first when the index is full. -/
def insert (index : HashIndex) (e : IndexEntry) (hashOf : Nat → UInt64) : HashIndex :=
  (if index.count < index.capacity then index else index.grow hashOf).add e

instance : HashTable HashIndex where
  withCapacity := withCapacity
  capacity := capacity
  find? := find?
  insert := insert

end HashIndex

end Metadoc
