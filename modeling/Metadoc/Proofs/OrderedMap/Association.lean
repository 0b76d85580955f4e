import Metadoc.OrderedMap.Basic
import Mathlib.Data.List.Basic

/-!
# Association lists

An ordered map is to behave like a plain list of keys and values that is searched from its front.

* `Assoc.insert`, `Assoc.put`, `Assoc.find?` are what can be done to such a list;
* `MapRequest` and `MapAnswer` are what can be asked of a map and what it answers, and
  `OrderedMap.respond` and `Assoc.respond` are the answers of both;
* `serveAll` answers requests to several maps, which may be cloned.
-/

namespace Metadoc

variable {α : Type}

/-- Keys with their values, in the order in which the keys first came. -/
abbrev Assoc (α : Type) := List (Key × α)

namespace Assoc

/-- The keys. -/
def keys (l : Assoc α) : List Key := l.map Prod.fst

/-- The first entry of a key. -/
def find? : Assoc α → Key → Option (Key × α)
  | [], _ => none
  | p :: l, key => if p.1 = key then some p else find? l key

/-- The number of entries before that of a key, or of all if it has none. -/
def place : Assoc α → Key → Nat
  | [], _ => 0
  | p :: l, key => if p.1 = key then 0 else place l key + 1

/-- Puts a value under a key unless the key is present. -/
def insert : Assoc α → Key → α → Assoc α
  | [], key, value => [(key, value)]
  | p :: l, key, value => if p.1 = key then p :: l else p :: insert l key value

/-- Puts a value under a key, replacing one that is there. -/
def put : Assoc α → Key → α → Assoc α
  | [], key, value => [(key, value)]
  | p :: l, key, value => if p.1 = key then (key, value) :: l else p :: put l key value

end Assoc

/-! ### Requests -/

/-- What can be asked of a map. -/
inductive MapRequest (α : Type) where
  /-- Puts a value under a key unless the key is present, and may then write another value through
  the slot that holds the key. -/
  | insert (key : Key) (value : α) (write : Option α)
  /-- Puts a value under a key, replacing one that is there, and may then write another value
  through the slot that holds the key. -/
  | overwrite (key : Key) (value : α) (write : Option α)
  /-- Replaces the value of a key, if the key is present. -/
  | update (key : Key) (value : α)
  /-- Looks for the slot of a key. -/
  | lookup (key : Key)
  /-- Looks for the value of a key. -/
  | get (key : Key)
  /-- Asks whether a key is present. -/
  | contains (key : Key)
  /-- Lists keys and values. -/
  | list
  /-- Asks for the number of keys. -/
  | size

/-- The key that a request inserts unless it is present. -/
def MapRequest.inserted? : MapRequest α → Option Key
  | .insert key _ _ | .overwrite key _ _ => some key
  | _ => none

/-- What a map answers. -/
inductive MapAnswer (α : Type) where
  /-- The number of a slot and what it holds. -/
  | slot (i : Nat) (entry : Option (Key × α))
  /-- What a slot holds that was looked for. -/
  | found (entry : Option (Key × α))
  /-- The value that was looked for. -/
  | value (v : Option α)
  /-- Whether a key is present. -/
  | present (b : Bool)
  /-- Keys and values. -/
  | list (l : List (Key × α))
  /-- The number of keys. -/
  | size (n : Nat)

/-- What a slot holds. -/
def Slot.entry (slot : Slot α) : Key × α := (slot.key, slot.value)

/-- What an ordered map answers, and what becomes of it. -/
def OrderedMap.respond {hash : Key → UInt64} {ι : Type} [HashTable ι] (map : OrderedMap hash α ι) :
    MapRequest α → MapAnswer α × OrderedMap hash α ι
  | .insert key value write =>
    let r := map.insert key value
    (.slot r.1 ((r.2.slot? r.1).map Slot.entry), write.elim r.2 (r.2.assign r.1))
  | .overwrite key value write =>
    let r := map.overwrite key value
    (.slot r.1 ((r.2.slot? r.1).map Slot.entry), write.elim r.2 (r.2.assign r.1))
  | .update key value =>
    let r := map.update key value
    (.found ((r.1.bind r.2.slot?).map Slot.entry), r.2)
  | .lookup key => (.found ((map.lookup? key).map Slot.entry), map)
  | .get key => (.value (map.get? key), map)
  | .contains key => (.present (map.contains key), map)
  | .list => (.list map.toList, map)
  | .size => (.size map.size, map)

/-- What an association list answers, and what becomes of it. -/
def Assoc.respond (l : Assoc α) : MapRequest α → MapAnswer α × Assoc α
  | .insert key value write =>
    let l' := l.insert key value
    (.slot (l.place key) (l'.find? key), write.elim l' (l'.put key))
  | .overwrite key value write =>
    let l' := l.put key value
    (.slot (l.place key) (l'.find? key), write.elim l' (l'.put key))
  | .update key value =>
    let l' := if key ∈ l.keys then l.put key value else l
    (.found (l'.find? key), l')
  | .lookup key => (.found (l.find? key), l)
  | .get key => (.value ((l.find? key).map Prod.snd), l)
  | .contains key => (.present (key ∈ l.keys), l)
  | .list => (.list l, l)
  | .size => (.size l.length, l)

/-! ### Sessions -/

/-- A request to one of several maps. -/
inductive SessionRequest (α : Type) where
  /-- Asks a map. -/
  | ask (i : Nat) (request : MapRequest α)
  /-- Makes a copy of a map, as one more map. -/
  | clone (i : Nat)

/-- Answers a request to one of several maps.  Where there is no such map, nothing is answered and
nothing is done. -/
def serve {M : Type} (respond : M → MapRequest α → MapAnswer α × M) (maps : List M) :
    SessionRequest α → Option (MapAnswer α) × List M
  | .ask i request =>
    match maps[i]? with
    | none => (none, maps)
    | some map =>
      let r := respond map request
      (some r.1, maps.set i r.2)
  | .clone i => (none, maps ++ (maps[i]?).toList)

/-- Answers requests one after the other. -/
def serveAll {M : Type} (respond : M → MapRequest α → MapAnswer α × M) :
    List M → List (SessionRequest α) → List (Option (MapAnswer α)) × List M
  | maps, [] => ([], maps)
  | maps, request :: requests =>
    let r := serve respond maps request
    let rest := serveAll respond r.2 requests
    (r.1 :: rest.1, rest.2)

/-! ### Facts about association lists -/

namespace Assoc

variable {l : Assoc α} {key : Key}

@[simp] theorem keys_nil : keys ([] : Assoc α) = [] := rfl

@[simp] theorem keys_cons (p : Key × α) (l : Assoc α) : keys (p :: l) = p.1 :: keys l := rfl

/-- The entry of a key is in its place. -/
theorem find?_eq (l : Assoc α) (key : Key) : l.find? key = l[l.place key]? := by
  induction l with
  | nil => rfl
  | cons p l ih => by_cases h : p.1 = key <;> simp [find?, place, h, ih]

theorem find?_of_not_mem (h : key ∉ l.keys) : l.find? key = none := by
  induction l with
  | nil => rfl
  | cons p l ih =>
    simp only [keys_cons, List.mem_cons, not_or] at h
    simp [find?, Ne.symm h.1, ih h.2]

theorem isSome_find? (l : Assoc α) (key : Key) : (l.find? key).isSome = decide (key ∈ l.keys) := by
  induction l with
  | nil => rfl
  | cons p l ih =>
    by_cases h : p.1 = key
    · simp [find?, h]
    · simp [find?, h, Ne.symm h, ih]

theorem place_of_not_mem (h : key ∉ l.keys) : l.place key = l.length := by
  induction l with
  | nil => rfl
  | cons p l ih =>
    simp only [keys_cons, List.mem_cons, not_or] at h
    simp [place, Ne.symm h.1, ih h.2]

theorem getElem?_place (h : key ∈ l.keys) : l.keys[l.place key]? = some key := by
  induction l with
  | nil => cases h
  | cons p l ih =>
    by_cases hp : p.1 = key
    · simp [place, hp]
    · have hmem : key ∈ keys l := (List.mem_cons.1 h).resolve_left (Ne.symm hp)
      simpa [place, hp] using ih hmem

/-- Where keys do not come twice, each is in its place. -/
theorem place_eq (h : l.keys.Nodup) {i : Nat} (hi : l.keys[i]? = some key) : l.place key = i := by
  induction l generalizing i with
  | nil => simp at hi
  | cons p l ih =>
    rw [keys_cons, List.nodup_cons] at h
    cases i with
    | zero =>
      have hp : p.1 = key := by simpa using hi
      simp [place, hp]
    | succ i =>
      rw [keys_cons, List.getElem?_cons_succ] at hi
      have hne : p.1 ≠ key := fun hp => h.1 (hp ▸ List.mem_of_getElem? hi)
      simp [place, hne, ih h.2 hi]

theorem insert_of_mem (h : key ∈ l.keys) (value : α) : l.insert key value = l := by
  induction l with
  | nil => cases h
  | cons p l ih =>
    by_cases hp : p.1 = key
    · simp [insert, hp]
    · have hmem : key ∈ keys l := (List.mem_cons.1 h).resolve_left (Ne.symm hp)
      simp [insert, hp, ih hmem]

theorem insert_of_not_mem (h : key ∉ l.keys) (value : α) :
    l.insert key value = l ++ [(key, value)] := by
  induction l with
  | nil => rfl
  | cons p l ih =>
    simp only [keys_cons, List.mem_cons, not_or] at h
    simp [insert, Ne.symm h.1, ih h.2]

theorem put_of_mem (h : key ∈ l.keys) (value : α) :
    l.put key value = l.modify (l.place key) fun p => (p.1, value) := by
  induction l with
  | nil => cases h
  | cons p l ih =>
    by_cases hp : p.1 = key
    · simp [put, place, hp]
    · have hmem : key ∈ keys l := (List.mem_cons.1 h).resolve_left (Ne.symm hp)
      simp [put, place, hp, ih hmem]

theorem put_of_not_mem (h : key ∉ l.keys) (value : α) :
    l.put key value = l ++ [(key, value)] := by
  induction l with
  | nil => rfl
  | cons p l ih =>
    simp only [keys_cons, List.mem_cons, not_or] at h
    simp [put, Ne.symm h.1, ih h.2]

theorem keys_append_singleton (l : Assoc α) (key : Key) (value : α) :
    keys (l ++ [(key, value)]) = keys l ++ [key] := List.map_append

theorem getElem?_keys_append_singleton (l : Assoc α) (key k : Key) (value : α) (i : Nat) :
    (keys (l ++ [(key, value)]))[i]? = some k ↔
      (keys l)[i]? = some k ∨ i = l.length ∧ key = k := by
  have hlength : (keys l).length = l.length := List.length_map _
  rw [keys_append_singleton]
  rcases Nat.lt_trichotomy i l.length with hi | rfl | hi
  · rw [List.getElem?_append_left (by omega)]
    simp [Nat.ne_of_lt hi]
  · rw [← hlength, List.getElem?_concat_length]
    simp
  · rw [List.getElem?_eq_none (by simp; omega), List.getElem?_eq_none (by omega)]
    simp [Nat.ne_of_gt hi]

/-- Writing a value into an entry leaves the keys alone. -/
theorem keys_modify (l : Assoc α) (i : Nat) (value : α) :
    keys (l.modify i fun p => (p.1, value)) = keys l := by
  induction l generalizing i with
  | nil => cases i <;> rfl
  | cons p l ih => cases i <;> simp [ih]

/-- A key is added at the end. -/
theorem keys_insert (l : Assoc α) (key : Key) (value : α) :
    (l.insert key value).keys = if key ∈ l.keys then l.keys else l.keys ++ [key] := by
  by_cases h : key ∈ l.keys
  · rw [insert_of_mem h, if_pos h]
  · rw [insert_of_not_mem h, if_neg h, keys_append_singleton]

theorem keys_put (l : Assoc α) (key : Key) (value : α) :
    (l.put key value).keys = if key ∈ l.keys then l.keys else l.keys ++ [key] := by
  by_cases h : key ∈ l.keys
  · rw [put_of_mem h, keys_modify, if_pos h]
  · rw [put_of_not_mem h, if_neg h, keys_append_singleton]

theorem mem_keys_insert (l : Assoc α) (key : Key) (value : α) :
    key ∈ (l.insert key value).keys := by
  rw [keys_insert]
  split
  · assumption
  · exact List.mem_append_right _ List.mem_cons_self

/-- Pairs that are inserted one after the other bring their keys. -/
theorem mem_keys_foldl_insert (l : Assoc α) (pairs : List (Key × α)) :
    key ∈ (pairs.foldl (fun l p => l.insert p.1 p.2) l).keys ↔
      key ∈ l.keys ∨ key ∈ pairs.map Prod.fst := by
  induction pairs generalizing l with
  | nil => simp
  | cons p pairs ih =>
    have hinsert : key ∈ (l.insert p.1 p.2).keys ↔ key ∈ l.keys ∨ key = p.1 := by
      rw [keys_insert]
      split
      · rename_i h
        exact ⟨.inl, fun hkey => hkey.elim id fun heq => heq ▸ h⟩
      · simp
    rw [List.foldl_cons, ih, hinsert, List.map_cons, List.mem_cons, or_assoc]

theorem mem_keys_put (l : Assoc α) (key : Key) (value : α) : key ∈ (l.put key value).keys := by
  rw [keys_put]
  split
  · assumption
  · exact List.mem_append_right _ List.mem_cons_self

theorem place_insert (l : Assoc α) (key : Key) (value : α) :
    (l.insert key value).place key = l.place key := by
  induction l with
  | nil => simp [insert, place]
  | cons p l ih => by_cases h : p.1 = key <;> simp [insert, place, h, ih]

theorem place_put (l : Assoc α) (key : Key) (value : α) :
    (l.put key value).place key = l.place key := by
  induction l with
  | nil => simp [put, place]
  | cons p l ih => by_cases h : p.1 = key <;> simp [put, place, h, ih]

/-- Keys stay in the order in which they first came. -/
theorem keys_respond (l : Assoc α) (request : MapRequest α) :
    (l.respond request).2.keys = l.keys ++ (request.inserted?.filter (· ∉ l.keys)).toList := by
  -- A key may be added first, and a value written through its slot changes no key.
  have hadd (key : Key) : (if key ∈ l.keys then l.keys else l.keys ++ [key]) =
      l.keys ++ ((some key).filter (· ∉ l.keys)).toList := by
    by_cases h : key ∈ l.keys <;> simp [h, Option.filter]
  have hwrite {l' : Assoc α} {key : Key} (h : key ∈ l'.keys) (write : Option α) :
      (write.elim l' (l'.put key)).keys = l'.keys := by
    cases write with
    | none => rfl
    | some v => rw [Option.elim_some, keys_put, if_pos h]
  cases request with
  | insert key value write =>
    rw [respond, hwrite (mem_keys_insert l key value), keys_insert, hadd]
    rfl
  | overwrite key value write =>
    rw [respond, hwrite (mem_keys_put l key value), keys_put, hadd]
    rfl
  | update key value =>
    have hput : (if key ∈ l.keys then l.put key value else l).keys = l.keys := by
      split
      · rename_i h
        rw [keys_put, if_pos h]
      · rfl
    simpa [respond, MapRequest.inserted?] using hput
  | _ => exact (List.append_nil _).symm

end Assoc

end Metadoc
