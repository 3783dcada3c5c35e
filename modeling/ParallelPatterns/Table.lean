/-!
# Tables that keep the order of insertion

A table holds at most one value a key and lists its entries in the order in which their keys first
came in. Writing to a known key keeps its place. Sets whose order shows are lists without
repetition, grown by `addNew`.
-/

namespace ParallelPatterns

def addNew {α : Type} [BEq α] (xs : List α) (x : α) : List α :=
  if xs.contains x then xs else xs ++ [x]

def addAll {α : Type} [BEq α] (xs ys : List α) : List α := ys.foldl addNew xs

def distinct {α : Type} [BEq α] (xs : List α) : List α := addAll [] xs

def total (ns : List Nat) : Nat := ns.foldl (· + ·) 0

/-- A table from keys to values in the order of insertion. -/
structure Table (κ ν : Type) where
  entries : List (κ × ν)
  deriving Repr

namespace Table

variable {κ ν : Type}

def empty : Table κ ν := ⟨[]⟩

instance : Inhabited (Table κ ν) := ⟨empty⟩

instance : EmptyCollection (Table κ ν) := ⟨empty⟩

variable (t : Table κ ν)

def keys : List κ := t.entries.map (·.1)

def values : List ν := t.entries.map (·.2)

def map {ω : Type} (f : κ → ν → ω) (t : Table κ ν) : Table κ ω := ⟨t.entries.map fun e => (e.1, f e.1 e.2)⟩

variable [BEq κ]

def get? (k : κ) : Option ν := (t.entries.find? fun e => e.1 == k).map (·.2)

def getD (t : Table κ ν) (k : κ) (d : ν) : ν := (t.get? k).getD d

def contains (k : κ) : Bool := t.entries.any fun e => e.1 == k

/-- Sets the value of a key in a list of entries: in place if it is known, else at the end. -/
def insertEntry (k : κ) (v : ν) : List (κ × ν) → List (κ × ν)
  | [] => [(k, v)]
  | e :: es => if e.1 == k then (e.1, v) :: es else e :: insertEntry k v es

def insert (k : κ) (v : ν) : Table κ ν := ⟨insertEntry k v t.entries⟩

/-- Sets the value of a key that has none. -/
def insertNew (k : κ) (v : ν) : Table κ ν := if t.contains k then t else t.insert k v

/-- Changes the value of a key, starting from `d` if it has none. -/
def update (k : κ) (d : ν) (f : ν → ν) : Table κ ν := t.insert k (f (t.getD k d))

def modify (k : κ) (f : ν → ν) : Table κ ν :=
  ⟨t.entries.map fun e => if e.1 == k then (e.1, f e.2) else e⟩

def erase (k : κ) : Table κ ν := ⟨t.entries.filter fun e => !(e.1 == k)⟩

/-- The table of a list of entries; a later entry of a key replaces the value of an earlier one. -/
def ofList (es : List (κ × ν)) : Table κ ν := es.foldl (fun t e => t.insert e.1 e.2) empty

theorem find?_insertEntry [LawfulBEq κ] (k k' : κ) (v : ν) (es : List (κ × ν)) :
    ((insertEntry k v es).find? fun e => e.1 == k').map (·.2) =
      if k == k' then some v else (es.find? fun e => e.1 == k').map (·.2) := by
  induction es with
  | nil => by_cases h : k == k' <;> simp [insertEntry, h]
  | cons e es ih =>
    by_cases he : e.1 = k
    · by_cases hk : k = k'
      · simp [insertEntry, he, hk]
      · simp [insertEntry, he, hk]
    · by_cases hk : e.1 = k'
      · have hne : k ≠ k' := fun heq => he (hk.trans heq.symm)
        simp [insertEntry, hk, hne, hne.symm]
      · simp [insertEntry, he, hk, ih]

@[simp]
theorem get?_insert [LawfulBEq κ] (t : Table κ ν) (k k' : κ) (v : ν) :
    (t.insert k v).get? k' = if k == k' then some v else t.get? k' :=
  find?_insertEntry k k' v t.entries

theorem keys_insertEntry [LawfulBEq κ] (k : κ) (v : ν) (es : List (κ × ν)) :
    (insertEntry k v es).map (·.1) = addNew (es.map (·.1)) k := by
  induction es with
  | nil => rfl
  | cons e es ih =>
    by_cases h : e.1 = k
    · simp [insertEntry, addNew, h]
    · by_cases hk : k ∈ es.map (·.1)
      · simp_all [insertEntry, addNew]
      · simp_all [insertEntry, addNew, Ne.symm h]

theorem keys_insert [LawfulBEq κ] (t : Table κ ν) (k : κ) (v : ν) : (t.insert k v).keys = addNew t.keys k :=
  keys_insertEntry k v t.entries

end Table

theorem mem_addNew {α : Type} [BEq α] [LawfulBEq α] {xs : List α} {x y : α} :
    y ∈ addNew xs x ↔ y ∈ xs ∨ y = x := by
  unfold addNew
  split
  · rename_i h
    constructor
    · exact Or.inl
    · rintro (h' | rfl)
      · exact h'
      · exact List.elem_iff.1 h
  · simp

theorem nodup_addNew {α : Type} [BEq α] [LawfulBEq α] {xs : List α} {x : α} (h : xs.Nodup) :
    (addNew xs x).Nodup := by
  unfold addNew
  split
  · exact h
  · rename_i hx
    rw [List.nodup_append]
    refine ⟨h, by simp, ?_⟩
    intro a ha b hb hab
    rw [List.mem_singleton] at hb
    subst hb hab
    exact hx (List.elem_iff.2 ha)

theorem mem_addAll {α : Type} [BEq α] [LawfulBEq α] {xs ys : List α} {y : α} :
    y ∈ addAll xs ys ↔ y ∈ xs ∨ y ∈ ys := by
  unfold addAll
  induction ys generalizing xs with
  | nil => simp
  | cons z zs ih => simp [ih, mem_addNew, or_assoc]

theorem mem_distinct {α : Type} [BEq α] [LawfulBEq α] {xs : List α} {y : α} :
    y ∈ distinct xs ↔ y ∈ xs := by
  simp [distinct, mem_addAll]

theorem nodup_distinct {α : Type} [BEq α] [LawfulBEq α] (xs : List α) : (distinct xs).Nodup :=
  List.foldlRecOn xs addNew List.nodup_nil fun _ h _ _ => nodup_addNew h

end ParallelPatterns
