import Metadoc.OrderedMap.Index
import Mathlib.Data.List.Basic

/-!
# The hash index keeps its entries

Each entry of a hash index lies in the bucket of its hash, so it is found there.

* `HashIndex.Holds index es` says that `es` are the entries, each in its place;
* `HashIndex.lawful` : a hash index is a lawful hash table.
-/

namespace Metadoc

namespace HashIndex

variable {index : HashIndex} {es : List IndexEntry}

/-- The bucket of a hash. -/
def bucketOf (index : HashIndex) (hash : UInt64) : List IndexEntry :=
  (index.buckets[index.place hash]?).getD []

/-- Whether the entries of an index are these, and each lies in the bucket of its hash. -/
structure Holds (index : HashIndex) (es : List IndexEntry) : Prop where
  /-- Each is in its place. -/
  placed : ∀ e ∈ es, e ∈ index.bucketOf e.hash
  /-- There are no others. -/
  only : ∀ e ∈ index.entries, e ∈ es

theorem mem_entries_of_mem_bucketOf {hash : UInt64} {e : IndexEntry} (h : e ∈ index.bucketOf hash) :
    e ∈ index.entries := by
  unfold bucketOf at h
  cases hb : index.buckets[index.place hash]? with
  | none => simp [hb] at h
  | some bucket =>
    rw [hb] at h
    exact List.mem_flatten.2 ⟨bucket, (Array.mem_of_getElem? hb).val, h⟩

theorem Holds.mem_entries_iff (h : Holds index es) (e : IndexEntry) : e ∈ index.entries ↔ e ∈ es :=
  ⟨h.only e, fun he => mem_entries_of_mem_bucketOf (h.placed e he)⟩

theorem holds_withCapacity (n : Nat) : Holds (withCapacity n) [] where
  placed e he := nomatch he
  only e he := by simp [entries, withCapacity] at he

/-! ### Finding -/

theorem find?_eq (index : HashIndex) (hash : UInt64) (test : Nat → Bool) :
    index.find? hash test =
      ((index.bucketOf hash).find? fun e => e.hash == hash && test e.slot).map (·.slot) := by
  unfold find? bucketOf
  cases index.buckets[index.place hash]? <;> rfl

theorem Holds.found (h : Holds index es) {hash : UInt64} {test : Nat → Bool} {i : Nat}
    (hfind : index.find? hash test = some i) : test i = true ∧ ∃ e ∈ es, e.slot = i := by
  rw [find?_eq] at hfind
  obtain ⟨e, he, rfl⟩ := Option.map_eq_some_iff.1 hfind
  have htest := List.find?_some he
  rw [Bool.and_eq_true] at htest
  exact ⟨htest.2, e, h.only e (mem_entries_of_mem_bucketOf (List.mem_of_find?_eq_some he)), rfl⟩

theorem Holds.missing (h : Holds index es) {hash : UInt64} {test : Nat → Bool}
    (hfind : index.find? hash test = none) : ∀ e ∈ es, e.hash = hash → test e.slot = false := by
  rintro e he rfl
  rw [find?_eq, Option.map_eq_none_iff, List.find?_eq_none] at hfind
  simpa using hfind e (h.placed e he)

/-! ### Adding -/

theorem size_add (index : HashIndex) (e : IndexEntry) :
    (index.add e).buckets.size = index.buckets.size := Array.size_modify

theorem bucketOf_add (hsize : 0 < index.buckets.size) (e : IndexEntry) (hash : UInt64) :
    (index.add e).bucketOf hash =
      if index.place e.hash = index.place hash then e :: index.bucketOf hash
      else index.bucketOf hash := by
  have hplace : (index.add e).place hash = index.place hash := by rw [place, size_add, place]
  have hlt : index.place hash < index.buckets.size := Nat.mod_lt _ hsize
  rw [bucketOf, hplace, bucketOf, add, Array.getElem?_modify, Array.getElem?_eq_getElem hlt]
  split <;> rfl

theorem mem_entries_add {e x : IndexEntry} (h : x ∈ (index.add e).entries) :
    x = e ∨ x ∈ index.entries := by
  obtain ⟨bucket, hbucket, hx⟩ := List.mem_flatten.1 h
  obtain ⟨j, hj, rfl⟩ := Array.getElem_of_mem (Array.mem_toList_iff.1 hbucket)
  have hold : j < index.buckets.size := size_add index e ▸ hj
  have hmem : x ∈ index.buckets[j] → x ∈ index.entries := fun hx =>
    List.mem_flatten.2 ⟨_, Array.mem_toList_iff.2 (Array.getElem_mem hold), hx⟩
  have hget : (index.add e).buckets[j] =
      if index.place e.hash = j then e :: index.buckets[j] else index.buckets[j] :=
    Array.getElem_modify hj
  rw [hget] at hx
  split at hx
  · exact (List.mem_cons.1 hx).imp_right hmem
  · exact .inr (hmem hx)

theorem Holds.add (h : Holds index es) (hsize : 0 < index.buckets.size) (e : IndexEntry) :
    Holds (index.add e) (e :: es) where
  placed x hx := by
    rw [bucketOf_add hsize]
    rcases List.mem_cons.1 hx with rfl | hx
    · rw [if_pos rfl]
      exact List.mem_cons_self
    · split
      · exact List.mem_cons_of_mem e (h.placed x hx)
      · exact h.placed x hx
  only x hx := by
    rcases mem_entries_add hx with rfl | hx
    · exact List.mem_cons_self
    · exact List.mem_cons_of_mem e (h.only x hx)

theorem Holds.foldl_add (xs : List IndexEntry) (h : Holds index es)
    (hsize : 0 < index.buckets.size) :
    Holds (xs.foldl HashIndex.add index) (xs.reverse ++ es) ∧
      0 < (xs.foldl HashIndex.add index).buckets.size := by
  induction xs generalizing index es with
  | nil => exact ⟨h, hsize⟩
  | cons x xs ih =>
    have hx := ih (h.add hsize x) (size_add index x ▸ hsize)
    rwa [List.reverse_cons, List.append_assoc, List.singleton_append]

/-! ### Growing -/

theorem bucketsFor_pos {n : Nat} (h : 0 < n) : 0 < bucketsFor n := by
  unfold bucketsFor
  split_ifs
  · omega
  · omega
  · omega
  · exact Nat.pos_of_isPowerOfTwo (Nat.isPowerOfTwo_nextPowerOfTwo _)

/-- An index that grows keeps its entries, if their hashes are given as they were. -/
theorem Holds.grow (h : Holds index es) {hashOf : Nat → UInt64}
    (hhash : ∀ e ∈ es, hashOf e.slot = e.hash) :
    Holds (index.grow hashOf) es ∧ 0 < (index.grow hashOf).buckets.size := by
  -- So the entries that are added again are the ones that are there.
  have hsame : (index.entries.map fun e => (⟨hashOf e.slot, e.slot⟩ : IndexEntry)) =
      index.entries := by
    have hid : ∀ e ∈ index.entries, (⟨hashOf e.slot, e.slot⟩ : IndexEntry) = e :=
      fun e he => by rw [hhash e (h.only e he)]
    rw [List.map_congr_left hid, List.map_id']
  have hsize : 0 < (withCapacity (index.capacity + 1)).buckets.size := by
    rw [withCapacity, Array.size_replicate]
    exact bucketsFor_pos (Nat.succ_pos _)
  rw [HashIndex.grow, hsame]
  obtain ⟨hgrown, hpos⟩ := (holds_withCapacity (index.capacity + 1)).foldl_add index.entries hsize
  refine ⟨⟨fun e he => hgrown.placed e ?_, fun e he => ?_⟩, hpos⟩
  · simpa using (h.mem_entries_iff e).2 he
  · simpa [h.mem_entries_iff] using hgrown.only e he

theorem size_pos_of_lt_capacity {n : Nat} (h : n < index.capacity) : 0 < index.buckets.size := by
  unfold capacity capacityOf at h
  split at h <;> omega

/-- One entry is added and the others stay, whether or not the index grows. -/
theorem Holds.insert (h : Holds index es) {hashOf : Nat → UInt64} (e : IndexEntry)
    (hhash : ∀ x ∈ es, hashOf x.slot = x.hash) : Holds (index.insert e hashOf) (e :: es) := by
  unfold HashIndex.insert
  split
  · rename_i hroom
    exact h.add (size_pos_of_lt_capacity hroom) e
  · obtain ⟨hgrown, hpos⟩ := h.grow hhash
    exact hgrown.add hpos e

/-- A hash index is a lawful hash table. -/
theorem lawful : HashTable.Lawful Holds where
  withCapacity := holds_withCapacity
  found h hfind := h.found hfind
  missing h hfind := h.missing hfind
  insert e h := h.insert e

end HashIndex

end Metadoc
