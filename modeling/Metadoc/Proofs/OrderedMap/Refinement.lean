import Metadoc.Proofs.OrderedMap.Association
import Metadoc.Proofs.OrderedMap.Index
import Mathlib.Data.List.Forall2

/-!
# Ordered maps are association lists

Whatever hash function and whatever lawful hash table it is made with, an ordered map answers as an
association list does.

* `OrderedMap.Refines` says that slots, index and association list are in step;
* `OrderedMap.Refines.respond` : each request keeps them in step;
* `OrderedMap.serveAll_eq` : the answers to any requests to several maps are those of lists.
-/

namespace Metadoc

namespace OrderedMap

variable {hash : Key → UInt64} {α ι : Type} {Holds : ι → List IndexEntry → Prop}

/-- Whether the slots of a map hold the entries of an association list, and the index finds them. -/
structure Refines (Holds : ι → List IndexEntry → Prop) (map : OrderedMap hash α ι) (l : Assoc α) :
    Prop where
  /-- The slots hold the entries in order, each with the hash of its key. -/
  slots : map.slots.toList = l.map fun p => ⟨p.1, hash p.1, p.2⟩
  /-- No key comes twice. -/
  nodup : l.keys.Nodup
  /-- The index holds the numbers of the slots under the hashes of their keys, and nothing else. -/
  index : ∃ es, Holds map.index es ∧
    ∀ e, e ∈ es ↔ ∃ key, l.keys[e.slot]? = some key ∧ hash key = e.hash

namespace Refines

variable {map : OrderedMap hash α ι} {l : Assoc α} {key : Key}

/-! ### Slots -/

theorem slot?_eq (h : Refines Holds map l) (i : Nat) :
    map.slot? i = (l[i]?).map fun p => ⟨p.1, hash p.1, p.2⟩ := by
  rw [slot?, ← Array.getElem?_toList, h.slots, List.getElem?_map]

theorem entry_slot?_eq (h : Refines Holds map l) (i : Nat) :
    (map.slot? i).map Slot.entry = l[i]? := by
  rw [h.slot?_eq]
  cases l[i]? <;> rfl

theorem size_eq (h : Refines Holds map l) : map.size = l.length := by
  rw [size, ← Array.length_toList, h.slots, List.length_map]

theorem toList_eq (h : Refines Holds map l) : map.toList = l := by
  rw [toList, h.slots, List.map_map]
  exact List.map_id' _

theorem hashAt_eq (h : Refines Holds map l) {i : Nat} (hi : l.keys[i]? = some key) :
    map.hashAt i = hash key := by
  rw [Assoc.keys, List.getElem?_map] at hi
  obtain ⟨p, hp, rfl⟩ := Option.map_eq_some_iff.1 hi
  rw [hashAt, h.slot?_eq, hp]
  rfl

theorem assign (h : Refines Holds map l) (i : Nat) (value : α) :
    Refines Holds (map.assign i value) (l.modify i fun p => (p.1, value)) where
  slots := by
    rw [OrderedMap.assign, Array.toList_modify, h.slots]
    refine List.ext_getElem? fun j => ?_
    simp only [List.getElem?_modify, List.getElem?_map, Option.map_eq_map, Option.map_map]
    refine congrArg (Option.map · l[j]?) (funext fun p => ?_)
    dsimp only [Function.comp]
    split <;> rfl
  nodup := by
    rw [Assoc.keys_modify]
    exact h.nodup
  index := by
    rw [Assoc.keys_modify]
    exact h.index

/-! ### Looking -/

variable [HashTable ι] (laws : HashTable.Lawful Holds)
include laws

theorem withCapacity (n : Nat) :
    Refines Holds (OrderedMap.withCapacity n : OrderedMap hash α ι) [] where
  slots := rfl
  nodup := List.nodup_nil
  index := ⟨[], laws.withCapacity n, by simp⟩

/-- The slot of a key is found where the key is in the list.  The hash decides nothing: keys with
one hash are told apart by the test. -/
theorem position?_eq (h : Refines Holds map l) (key : Key) :
    map.position? key = if key ∈ l.keys then some (l.place key) else none := by
  obtain ⟨es, hes, hmem⟩ := h.index
  unfold position?
  cases hfind : HashTable.find? map.index (hash key) fun i =>
      (map.slot? i).any fun slot => slot.hash == hash key && slot.key == key with
  | some i =>
    -- What passes the test has the key, and the key has only one slot.
    obtain ⟨htest, -⟩ := laws.found hes hfind
    rw [h.slot?_eq] at htest
    have hi : l.keys[i]? = some key := by
      rw [Assoc.keys, List.getElem?_map]
      cases hp : l[i]? with
      | none => simp [hp] at htest
      | some p =>
        simp only [hp, Option.map_some, Option.any_some, Bool.and_eq_true, beq_iff_eq] at htest
        rw [Option.map_some, htest.2]
    rw [if_pos (List.mem_of_getElem? hi), Assoc.place_eq h.nodup hi]
  | none =>
    -- The slot of the key would have passed the test.
    rw [if_neg]
    intro hin
    have hi := Assoc.getElem?_place hin
    have htest := laws.missing hes hfind _ ((hmem ⟨hash key, l.place key⟩).2 ⟨key, hi, rfl⟩) rfl
    rw [Assoc.keys, List.getElem?_map] at hi
    obtain ⟨p, hp, hkey⟩ := Option.map_eq_some_iff.1 hi
    simp [h.slot?_eq, hp, hkey] at htest

/-- A key that is not present is added behind the others.  The hashes that the index asks for again
are those of slots that are there. -/
theorem push (h : Refines Holds map l) (hkey : key ∉ l.keys) (value : α) :
    Refines Holds (map.push key value) (l ++ [(key, value)]) where
  slots := by
    rw [OrderedMap.push, Array.toList_push, h.slots, List.map_append]
    rfl
  nodup := by
    rw [Assoc.keys_append_singleton]
    exact List.nodup_append.2 ⟨h.nodup, by simp, by
      rintro k hk _ hk' rfl
      exact hkey (List.mem_singleton.1 hk' ▸ hk)⟩
  index := by
    obtain ⟨es, hes, hmem⟩ := h.index
    refine ⟨⟨hash key, map.size⟩ :: es, laws.insert _ hes fun e he => ?_, fun e => ?_⟩
    -- Every entry in the index has a slot already, the new one is not asked for.
    · obtain ⟨k, hk, hhash⟩ := (hmem e).1 he
      rw [h.hashAt_eq hk, hhash]
    · simp only [List.mem_cons, hmem, Assoc.getElem?_keys_append_singleton, h.size_eq]
      constructor
      · rintro (rfl | ⟨k, hk, hhash⟩)
        · exact ⟨key, .inr ⟨rfl, rfl⟩, rfl⟩
        · exact ⟨k, .inl hk, hhash⟩
      · rintro ⟨k, hk | ⟨hslot, rfl⟩, hhash⟩
        · exact .inr ⟨k, hk, hhash⟩
        · exact .inl (by rw [hhash, ← hslot])

/-! ### Requests -/

theorem insert (h : Refines Holds map l) (key : Key) (value : α) :
    (map.insert key value).1 = l.place key ∧
      Refines Holds (map.insert key value).2 (l.insert key value) := by
  unfold OrderedMap.insert
  rw [h.position?_eq laws]
  by_cases hkey : key ∈ l.keys
  · rw [if_pos hkey, Assoc.insert_of_mem hkey]
    exact ⟨rfl, h⟩
  · rw [if_neg hkey, Assoc.insert_of_not_mem hkey, Assoc.place_of_not_mem hkey]
    exact ⟨h.size_eq, h.push laws hkey value⟩

theorem overwrite (h : Refines Holds map l) (key : Key) (value : α) :
    (map.overwrite key value).1 = l.place key ∧
      Refines Holds (map.overwrite key value).2 (l.put key value) := by
  unfold OrderedMap.overwrite
  rw [h.position?_eq laws]
  by_cases hkey : key ∈ l.keys
  · rw [if_pos hkey, Assoc.put_of_mem hkey]
    exact ⟨rfl, h.assign _ value⟩
  · rw [if_neg hkey, Assoc.put_of_not_mem hkey, Assoc.place_of_not_mem hkey]
    exact ⟨h.size_eq, h.push laws hkey value⟩

theorem update (h : Refines Holds map l) (key : Key) (value : α) :
    (map.update key value).1 = (if key ∈ l.keys then some (l.place key) else none) ∧
      Refines Holds (map.update key value).2
        (if key ∈ l.keys then l.put key value else l) := by
  unfold OrderedMap.update
  rw [h.position?_eq laws]
  by_cases hkey : key ∈ l.keys
  · rw [if_pos hkey, if_pos hkey, Assoc.put_of_mem hkey]
    exact ⟨rfl, h.assign _ value⟩
  · rw [if_neg hkey, if_neg hkey]
    exact ⟨rfl, h⟩

theorem lookup?_eq (h : Refines Holds map l) (key : Key) :
    (map.lookup? key).map Slot.entry = l.find? key := by
  rw [lookup?, h.position?_eq laws]
  by_cases hkey : key ∈ l.keys
  · rw [if_pos hkey, Option.bind_some, h.entry_slot?_eq, Assoc.find?_eq]
  · rw [if_neg hkey, Assoc.find?_of_not_mem hkey]
    rfl

theorem contains_eq (h : Refines Holds map l) (key : Key) :
    map.contains key = decide (key ∈ l.keys) := by
  rw [contains, ← Option.isSome_map (f := Slot.entry), h.lookup?_eq laws key, Assoc.isSome_find?]

theorem foldl_insert (h : Refines Holds map l) (pairs : List (Key × α)) :
    Refines Holds (pairs.foldl (fun map p => (map.insert p.1 p.2).2) map)
      (pairs.foldl (fun l p => l.insert p.1 p.2) l) := by
  induction pairs generalizing map l with
  | nil => exact h
  | cons p pairs ih => exact ih (h.insert laws p.1 p.2).2

omit [HashTable ι] laws in
theorem write (h : Refines Holds map l) (hkey : key ∈ l.keys) {i : Nat} (hi : l.place key = i)
    (value : Option α) :
    Refines Holds (value.elim map (map.assign i)) (value.elim l (l.put key)) := by
  cases value with
  | none => exact h
  | some v =>
    subst hi
    simpa only [Option.elim_some, Assoc.put_of_mem hkey] using h.assign (l.place key) v

/-- A request is answered alike, and map and list are in step again. -/
theorem respond (h : Refines Holds map l) (request : MapRequest α) :
    (map.respond request).1 = (l.respond request).1 ∧
      Refines Holds (map.respond request).2 (l.respond request).2 := by
  cases request with
  | insert key value write =>
    obtain ⟨hplace, hin⟩ := h.insert laws key value
    simp only [OrderedMap.respond, Assoc.respond, hplace, hin.entry_slot?_eq]
    have hmem := Assoc.mem_keys_insert l key value
    refine ⟨?_, hin.write hmem (Assoc.place_insert l key value) write⟩
    rw [Assoc.find?_eq, Assoc.place_insert]
  | overwrite key value write =>
    obtain ⟨hplace, hin⟩ := h.overwrite laws key value
    simp only [OrderedMap.respond, Assoc.respond, hplace, hin.entry_slot?_eq]
    refine ⟨?_, hin.write (Assoc.mem_keys_put l key value) (Assoc.place_put l key value) write⟩
    rw [Assoc.find?_eq, Assoc.place_put]
  | update key value =>
    obtain ⟨hplace, hin⟩ := h.update laws key value
    simp only [OrderedMap.respond, Assoc.respond, hplace]
    refine ⟨?_, hin⟩
    by_cases hkey : key ∈ l.keys
    · simp only [if_pos hkey, Option.bind_some] at hin ⊢
      rw [hin.entry_slot?_eq, Assoc.find?_eq, Assoc.place_put]
    · simp only [if_neg hkey, Assoc.find?_of_not_mem hkey]
      rfl
  | lookup key => exact ⟨congrArg MapAnswer.found (h.lookup?_eq laws key), h⟩
  | get key =>
    refine ⟨congrArg MapAnswer.value ?_, h⟩
    rw [← h.lookup?_eq laws key, Option.map_map]
    rfl
  | contains key => exact ⟨congrArg MapAnswer.present (h.contains_eq laws key), h⟩
  | list => exact ⟨congrArg MapAnswer.list h.toList_eq, h⟩
  | size => exact ⟨congrArg MapAnswer.size h.size_eq, h⟩

end Refines

theorem contains_ofList [HashTable ι] (laws : HashTable.Lawful Holds) (hash : Key → UInt64)
    (pairs : List (Key × α)) (key : Key) :
    (ofList pairs : OrderedMap hash α ι).contains key = decide (key ∈ pairs.map Prod.fst) := by
  have hstart : Refines Holds (OrderedMap.withCapacity 0 : OrderedMap hash α ι) [] :=
    Refines.withCapacity laws 0
  rw [ofList, empty, (hstart.foldl_insert laws pairs).contains_eq laws, decide_eq_decide,
    Assoc.mem_keys_foldl_insert]
  simp

/-! ### Sessions -/

section Sessions

variable {maps : List (OrderedMap hash α ι)} {lists : List (Assoc α)}

theorem getElem?_of_forall₂ (h : List.Forall₂ (Refines Holds) maps lists) (i : Nat) :
    (maps[i]? = none ∧ lists[i]? = none) ∨
      ∃ map l, maps[i]? = some map ∧ lists[i]? = some l ∧ Refines Holds map l := by
  induction h generalizing i with
  | nil => exact .inl ⟨rfl, rfl⟩
  | @cons map l maps lists hl _ ih =>
    cases i with
    | zero => exact .inr ⟨map, l, rfl, rfl, hl⟩
    | succ i => exact ih i

theorem forall₂_set (h : List.Forall₂ (Refines Holds) maps lists) {map : OrderedMap hash α ι}
    {l : Assoc α} (hl : Refines Holds map l) (i : Nat) :
    List.Forall₂ (Refines Holds) (maps.set i map) (lists.set i l) := by
  induction h generalizing i with
  | nil => exact .nil
  | cons hhead htail ih =>
    cases i with
    | zero => exact .cons hl htail
    | succ i => exact .cons hhead (ih i)

variable [HashTable ι] (laws : HashTable.Lawful Holds)
include laws

/-- Maps and lists stay in step, and a copy is in step with the copy of the list. -/
theorem serve_refines (h : List.Forall₂ (Refines Holds) maps lists) (request : SessionRequest α) :
    (serve OrderedMap.respond maps request).1 = (serve Assoc.respond lists request).1 ∧
      List.Forall₂ (Refines Holds) (serve OrderedMap.respond maps request).2
        (serve Assoc.respond lists request).2 := by
  cases request with
  | ask i request =>
    rcases getElem?_of_forall₂ h i with ⟨hm, hl⟩ | ⟨map, l, hm, hl, hrefines⟩
    · simpa only [serve, hm, hl, true_and] using h
    · obtain ⟨hanswer, hnext⟩ := hrefines.respond laws request
      simp only [serve, hm, hl]
      exact ⟨congrArg some hanswer, forall₂_set h hnext i⟩
  | clone i =>
    refine ⟨rfl, List.rel_append h ?_⟩
    rcases getElem?_of_forall₂ h i with ⟨hm, hl⟩ | ⟨map, l, hm, hl, hrefines⟩
    · rw [hm, hl]
      exact .nil
    · rw [hm, hl]
      exact .cons hrefines .nil

theorem serveAll_refines (h : List.Forall₂ (Refines Holds) maps lists)
    (requests : List (SessionRequest α)) :
    (serveAll OrderedMap.respond maps requests).1 = (serveAll Assoc.respond lists requests).1 ∧
      List.Forall₂ (Refines Holds) (serveAll OrderedMap.respond maps requests).2
        (serveAll Assoc.respond lists requests).2 := by
  induction requests generalizing maps lists with
  | nil => exact ⟨rfl, h⟩
  | cons request requests ih =>
    obtain ⟨hanswer, hnext⟩ := serve_refines laws h request
    obtain ⟨hanswers, hlast⟩ := ih hnext
    exact ⟨congrArg₂ List.cons hanswer hanswers, hlast⟩

end Sessions

/-- Whatever is asked of maps that begin with an empty one, with any hash function, any capacity and
any lawful hash table, they answer as association lists do.  Each key is listed once, in the order
in which keys first came, and byte strings are the same key just if their bytes are the same. -/
theorem serveAll_eq [HashTable ι] (laws : HashTable.Lawful Holds) (hash : Key → UInt64) (n : Nat)
    (requests : List (SessionRequest α)) :
    let session := serveAll OrderedMap.respond
      [(OrderedMap.withCapacity n : OrderedMap hash α ι)] requests
    session.1 = (serveAll Assoc.respond [[]] requests).1 ∧
      session.2.map toList = (serveAll Assoc.respond [[]] requests).2 ∧
      (∀ map ∈ session.2,
        (Assoc.keys map.toList).Nodup ∧ map.size = (Assoc.keys map.toList).length ∧
          ∀ request, Assoc.keys (map.respond request).2.toList = Assoc.keys map.toList ++
            (request.inserted?.filter (· ∉ Assoc.keys map.toList)).toList) ∧
      (∀ a b, Key.bytes a = Key.bytes b ↔ a = b) ∧ ∀ a id, Key.bytes a ≠ Key.identity id := by
  have hstart : List.Forall₂ (Refines Holds)
      [(OrderedMap.withCapacity n : OrderedMap hash α ι)] [[]] :=
    .cons (Refines.withCapacity laws n) .nil
  obtain ⟨hanswers, hlast⟩ := serveAll_refines laws hstart requests
  refine ⟨hanswers, ?_, fun map hmap => ?_, fun a b => ⟨Key.bytes.inj, congrArg _⟩, nofun⟩
  · refine List.ext_getElem? fun i => ?_
    rcases getElem?_of_forall₂ hlast i with ⟨hm, hl⟩ | ⟨map, l, hm, hl, hrefines⟩
    · rw [List.getElem?_map, hm, hl, Option.map_none]
    · rw [List.getElem?_map, hm, hl, Option.map_some, hrefines.toList_eq]
  · obtain ⟨i, hi⟩ := List.mem_iff_getElem?.1 hmap
    obtain ⟨l, hl⟩ : ∃ l, Refines Holds map l := by
      rcases getElem?_of_forall₂ hlast i with ⟨hm, -⟩ | ⟨_, l, hm, -, hl⟩
      · cases hm.symm.trans hi
      · cases hm.symm.trans hi
        exact ⟨l, hl⟩
    have hnext (request : MapRequest α) := (hl.respond laws request).2.toList_eq
    refine ⟨?_, ?_, fun request => ?_⟩
    · rw [hl.toList_eq]
      exact hl.nodup
    · rw [hl.toList_eq, hl.size_eq, Assoc.keys, List.length_map]
    · rw [hnext, hl.toList_eq, Assoc.keys_respond]

/-- Keys of both kinds, all under one hash, in an index that grows. -/
theorem serveAll_eq_collisions :
    let requests : List (SessionRequest Nat) :=
      (List.range 9).flatMap (fun i =>
        [.ask 0 (.insert (.identity (UInt64.ofNat i)) i none),
          .ask 0 (.overwrite (.bytes [UInt8.ofNat i]) i (some (i + 1)))]) ++
        [.clone 0, .ask 1 (.update (.identity 4) 7), .ask 0 (.get (.identity 4)), .ask 1 .list]
    HashTable.Lawful HashIndex.Holds ∧
      let session := serveAll OrderedMap.respond
        [(OrderedMap.withCapacity 1 : OrderedMap (fun _ => 5) Nat HashIndex)] requests
      session.1 = (serveAll Assoc.respond [[]] requests).1 ∧
        session.2.map toList = (serveAll Assoc.respond [[]] requests).2 ∧
        (∀ map ∈ session.2,
          (Assoc.keys map.toList).Nodup ∧ map.size = (Assoc.keys map.toList).length ∧
            ∀ request, Assoc.keys (map.respond request).2.toList = Assoc.keys map.toList ++
              (request.inserted?.filter (· ∉ Assoc.keys map.toList)).toList) ∧
        (∀ a b, Key.bytes a = Key.bytes b ↔ a = b) ∧ ∀ a id, Key.bytes a ≠ Key.identity id :=
  ⟨HashIndex.lawful, serveAll_eq HashIndex.lawful (fun _ => 5) 1 _⟩

end OrderedMap

end Metadoc
