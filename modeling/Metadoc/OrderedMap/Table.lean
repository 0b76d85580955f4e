/-!
# Hash tables

A hash table holds numbers under hashes.  What they number is not in the table: it is tested by
whoever looks for it, and its hash is asked for again when the table grows.

* `HashTable` is what an ordered map asks of a hash table;
* `HashTable.Lawful` is what it relies on.
-/

namespace Metadoc

/-- A hash and the number found under it. -/
structure IndexEntry where
  /-- The hash. -/
  hash : UInt64
  /-- The number. -/
  slot : Nat
deriving DecidableEq, Repr

/-- What is asked of a hash table. -/
class HashTable (ι : Type) where
  /-- An empty table made for some entries. -/
  withCapacity : Nat → ι
  /-- Number of entries that a table holds before it grows. -/
  capacity : ι → Nat
  /-- A number under a hash that passes a test. -/
  find? : ι → UInt64 → (Nat → Bool) → Option Nat
  /-- Adds an entry to those of a table.  If it grows, the hashes of the numbers in it are asked for
  again. -/
  insert : ι → IndexEntry → (Nat → UInt64) → ι

namespace HashTable

variable {ι : Type} [HashTable ι]

/-- What is relied on, if `Holds table entries` says that these are the entries of a table. -/
structure Lawful (Holds : ι → List IndexEntry → Prop) : Prop where
  /-- A new table is empty. -/
  withCapacity : ∀ n, Holds (withCapacity n) []
  /-- What is found is in the table and passes the test. -/
  found : ∀ {table entries hash test i}, Holds table entries → find? table hash test = some i →
    test i = true ∧ ∃ e ∈ entries, e.slot = i
  /-- What is under the hash and passes the test is found, or something else that does. -/
  missing : ∀ {table entries hash test}, Holds table entries → find? table hash test = none →
    ∀ e ∈ entries, e.hash = hash → test e.slot = false
  /-- One entry is added and the others stay, whether or not the table grows, if their hashes are
  given as they were. -/
  insert : ∀ {table entries hashOf} e, Holds table entries →
    (∀ x ∈ entries, hashOf x.slot = x.hash) → Holds (insert table e hashOf) (e :: entries)

end HashTable

end Metadoc
