/-
# PulseSequencer.Table -- named values in the order of their first mention

A `Table` maps names, or other keys, to values and remembers the order in which
the keys came in.  Writing a key that is already there replaces its value and
keeps its place.

Main statements: `get?_insert` (a write is read back, and touches no other key)
and `keys_insert` (a new key goes to the end, an old one stays).
-/

namespace PulseSequencer

set_option autoImplicit false

/-- Pairs of a key and a value; no key comes twice. -/
structure Table (κ α : Type) where
  entries : List (κ × α)
  nodup : (entries.map Prod.fst).Nodup
deriving Repr, DecidableEq

namespace Table

variable {κ α β : Type} [DecidableEq κ]

def empty : Table κ α := ⟨[], by simp⟩

instance : Inhabited (Table κ α) := ⟨empty⟩

instance : EmptyCollection (Table κ α) := ⟨empty⟩

/-- The keys, oldest first. -/
def keys (t : Table κ α) : List κ := t.entries.map Prod.fst

def values (t : Table κ α) : List α := t.entries.map Prod.snd

def size (t : Table κ α) : Nat := t.entries.length

def get? (t : Table κ α) (key : κ) : Option α := t.entries.lookup key

def contains (t : Table κ α) (key : κ) : Bool := (t.get? key).isSome

/-- Replaces the value of a key where it stands, or adds the pair at the end. -/
def put (key : κ) (value : α) : List (κ × α) → List (κ × α)
  | [] => [(key, value)]
  | (k, v) :: rest => if k = key then (key, value) :: rest else (k, v) :: put key value rest

theorem keys_put (key : κ) (value : α) (es : List (κ × α)) :
    (put key value es).map Prod.fst =
      if key ∈ es.map Prod.fst then es.map Prod.fst else es.map Prod.fst ++ [key] := by
  induction es with
  | nil => rfl
  | cons e rest ih =>
      obtain ⟨k, v⟩ := e
      by_cases h : k = key
      · subst h; simp [put]
      · have h' : ¬key = k := fun e => h e.symm
        simp only [put, h, if_false, List.map_cons, ih, List.mem_cons, h', false_or]
        split <;> simp

theorem nodup_put {key : κ} {value : α} {es : List (κ × α)}
    (h : (es.map Prod.fst).Nodup) : ((put key value es).map Prod.fst).Nodup := by
  rw [keys_put]
  split
  · exact h
  · rename_i hn
    refine List.nodup_append.2 ⟨h, by simp, ?_⟩
    intro a ha b hb
    simp only [List.mem_singleton] at hb
    subst hb
    exact fun e => hn (e ▸ ha)

def insert (t : Table κ α) (key : κ) (value : α) : Table κ α :=
  ⟨put key value t.entries, nodup_put t.nodup⟩

/-- Writes every pair in order. -/
def insertAll (t : Table κ α) (pairs : List (κ × α)) : Table κ α :=
  pairs.foldl (fun t (key, value) => t.insert key value) t

def ofList (pairs : List (κ × α)) : Table κ α := empty.insertAll pairs

def filter (t : Table κ α) (p : κ → α → Bool) : Table κ α :=
  ⟨t.entries.filter fun (k, v) => p k v,
    t.nodup.sublist (List.Sublist.map _ List.filter_sublist)⟩

def erase (t : Table κ α) (key : κ) : Table κ α := t.filter fun k _ => k != key

def map (t : Table κ α) (f : κ → α → β) : Table κ β :=
  ⟨t.entries.map fun (k, v) => (k, f k v), by
    have h : (Prod.fst ∘ fun x : κ × α => (x.1, f x.1 x.2)) = Prod.fst := rfl
    simpa [List.map_map, h] using t.nodup⟩

theorem lookup_put (key other : κ) (value : α) (es : List (κ × α)) :
    (put key value es).lookup other =
      if other = key then some value else es.lookup other := by
  induction es with
  | nil =>
      by_cases h : other = key
      · simp [put, h]
      · have hb : (other == key) = false := by simp [h]
        simp [put, List.lookup_cons, h, hb]
  | cons e rest ih =>
      obtain ⟨k, v⟩ := e
      by_cases hk : k = key
      · subst hk
        by_cases h : other = k
        · simp [put, h]
        · have hb : (other == k) = false := by simp [h]
          simp [put, List.lookup_cons, h, hb]
      · simp only [put, hk, if_false, List.lookup_cons]
        by_cases h : other = k
        · subst h; simp [hk]
        · have hb : (other == k) = false := by simp [h]
          simp [hb, ih]

@[simp] theorem get?_insert (t : Table κ α) (key other : κ) (value : α) :
    (t.insert key value).get? other = if other = key then some value else t.get? other :=
  lookup_put key other value t.entries

@[simp] theorem get?_erase (t : Table κ α) (key other : κ) :
    (t.erase key).get? other = if other = key then none else t.get? other := by
  obtain ⟨entries, nodup⟩ := t
  show (entries.filter fun entry => entry.1 != key).lookup other = _
  simp only [get?]
  clear nodup
  induction entries with
  | nil => simp
  | cons entry rest ih =>
      obtain ⟨k, v⟩ := entry
      by_cases here : other = k
      · subst here
        by_cases gone : other = key
        · rw [List.filter_cons_of_neg (by simp [gone]), ih, if_pos gone, if_pos gone]
        · rw [List.filter_cons_of_pos (by simp [gone]), List.lookup_cons_self,
            List.lookup_cons_self, if_neg gone]
      · have skip : ∀ others, ((k, v) :: others).lookup other = others.lookup other := by
          intro others
          rw [List.lookup_cons, beq_eq_false_iff_ne.2 here]
        by_cases gone : k = key
        · rw [List.filter_cons_of_neg (by simp [gone]), ih, skip]
        · rw [List.filter_cons_of_pos (by simp [gone]), skip, skip, ih]

@[simp] theorem get?_empty (key : κ) : (empty : Table κ α).get? key = none := rfl

theorem keys_insert (t : Table κ α) (key : κ) (value : α) :
    (t.insert key value).keys = if key ∈ t.keys then t.keys else t.keys ++ [key] :=
  keys_put key value t.entries

end Table

end PulseSequencer
