import ParallelPatterns.Table

/-!
# Reading tables

What reading a key gives after each operation on a table, and when an entry of a table is the value
of its key. Tables are written by `insert` only, so that their keys stay distinct; with distinct
keys the entries and the values of the keys are the same thing.
-/

namespace ParallelPatterns

open List

theorem foldl_iff {α β : Type} {f : β → α → β} {M : β → Prop} {N : α → Prop} {xs : List α}
    (hturn : ∀ b, ∀ x ∈ xs, (M (f b x) ↔ M b ∨ N x)) {b : β} : M (xs.foldl f b) ↔ M b ∨ ∃ x ∈ xs, N x := by
  induction xs generalizing b with
  | nil => simp
  | cons x xs ih =>
    rw [foldl_cons, ih fun b y hy => hturn b y (.tail x hy), hturn b x (.head xs), or_assoc]
    simp only [mem_cons, exists_eq_or_imp]

theorem length_filter_lt {α : Type} {p q : α → Bool} (hqp : ∀ y, q y → p y) {xs : List α} {x : α}
    (hx : x ∈ xs) (hp : p x) (hq : q x = false) : (xs.filter q).length < (xs.filter p).length := by
  have hfilter : xs.filter q = (xs.filter p).filter q := by
    rw [filter_filter]
    refine filter_congr fun y _ => ?_
    cases hy : q y with
    | false => rfl
    | true => simp [hqp y hy]
  rw [hfilter, length_filter_lt_length_iff_exists]
  exact ⟨x, mem_filter.2 ⟨hx, hp⟩, by simp [hq]⟩

namespace Table

variable {κ ν : Type} {t : Table κ ν} {k k' : κ}

@[simp]
theorem keys_map {ω : Type} (f : κ → ν → ω) (t : Table κ ν) : (t.map f).keys = t.keys := by
  simp [keys, map]

theorem map_map {ω ξ : Type} (f : κ → ν → ω) (f' : κ → ω → ξ) (t : Table κ ν) :
    (t.map f).map f' = t.map fun k v => f' k (f k v) := by
  simp [map]

/-- The keys are distinct, and the values are proper. -/
structure Proper (P : ν → Prop) (t : Table κ ν) : Prop where
  keys : t.keys.Nodup
  values : ∀ e ∈ t.entries, P e.2

instance [DecidableEq κ] (P : ν → Prop) [DecidablePred P] (t : Table κ ν) : Decidable (t.Proper P) :=
  decidable_of_iff (t.keys.Nodup ∧ ∀ e ∈ t.entries, P e.2) ⟨fun h => ⟨h.1, h.2⟩, fun h => ⟨h.keys, h.values⟩⟩

theorem proper_empty (P : ν → Prop) : (∅ : Table κ ν).Proper P :=
  ⟨nodup_nil, fun _ he => absurd he not_mem_nil⟩

variable [BEq κ]

@[simp]
theorem get?_emptyCollection (k : κ) : (∅ : Table κ ν).get? k = none := rfl

theorem get?_cons (e : κ × ν) (es : List (κ × ν)) (k : κ) :
    get? ⟨e :: es⟩ k = if e.1 == k then some e.2 else get? ⟨es⟩ k := by
  rw [get?, find?_cons]
  cases e.1 == k <;> rfl

theorem contains_eq_isSome (t : Table κ ν) (k : κ) : t.contains k = (t.get? k).isSome := by
  rw [Bool.eq_iff_iff, contains, get?, Option.isSome_map, find?_isSome, any_eq_true]

theorem modify_eq_map (t : Table κ ν) (k : κ) (f : ν → ν) :
    t.modify k f = t.map fun k' v => if k' == k then f v else v := by
  rw [modify, map]
  congr 1
  refine map_congr_left fun e _ => ?_
  split <;> rfl

variable [LawfulBEq κ]

variable {v d : ν} {P : ν → Prop} {es : List (κ × ν)}

theorem mem_of_get? (h : t.get? k = some v) : (k, v) ∈ t.entries := by
  rw [get?, Option.map_eq_some_iff] at h
  obtain ⟨e, he, rfl⟩ := h
  have hk : e.1 = k := by simpa using find?_some he
  rw [← hk]
  exact mem_of_find?_eq_some he

theorem get?_of_mem (hkeys : t.keys.Nodup) (h : (k, v) ∈ t.entries) : t.get? k = some v := by
  obtain ⟨es⟩ := t
  simp only [keys] at hkeys
  induction es with
  | nil => cases h
  | cons e es ih =>
    rw [map_cons, nodup_cons] at hkeys
    rcases mem_cons.1 h with rfl | h
    · simp [get?]
    · have hne : (e.1 == k) = false := by
        rw [beq_eq_false_iff_ne]
        exact fun heq => hkeys.1 (heq ▸ mem_map.2 ⟨_, h, rfl⟩)
      have hrest := ih hkeys.2 h
      simpa [get?, hne] using hrest

theorem get?_eq_some_iff (hkeys : t.keys.Nodup) : t.get? k = some v ↔ (k, v) ∈ t.entries :=
  ⟨mem_of_get?, get?_of_mem hkeys⟩

theorem mem_keys_iff : k ∈ t.keys ↔ (t.get? k).isSome := by
  rw [← contains_eq_isSome, contains, any_eq_true, keys, mem_map]
  constructor
  · rintro ⟨e, he, rfl⟩
    exact ⟨e, he, by simp⟩
  · rintro ⟨e, he, hk⟩
    exact ⟨e, he, LawfulBEq.eq_of_beq hk⟩

@[simp]
theorem get?_map {ω : Type} (f : κ → ν → ω) (t : Table κ ν) (k : κ) : (t.map f).get? k = (t.get? k).map (f k) := by
  obtain ⟨es⟩ := t
  simp only [get?, map]
  induction es with
  | nil => rfl
  | cons e es ih =>
    by_cases hk : e.1 = k
    · simp [hk]
    · simpa [hk] using ih

theorem get?_modify (t : Table κ ν) (k k' : κ) (f : ν → ν) :
    (t.modify k f).get? k' = if k == k' then (t.get? k').map f else t.get? k' := by
  rw [modify_eq_map, get?_map, Bool.beq_comm]
  split
  · rfl
  · exact Option.map_id'

theorem get?_erase (t : Table κ ν) (k k' : κ) : (t.erase k).get? k' = if k == k' then none else t.get? k' := by
  simp only [get?, erase]
  by_cases hk : k = k'
  · simp [hk]
  · have htest : ∀ e : κ × ν, (!(e.1 == k) && e.1 == k') = (e.1 == k') := by
      intro e
      by_cases he : e.1 = k'
      · simp [he, Ne.symm hk]
      · simp [he]
    simp [hk, htest]

theorem nodup_keys_insert (h : t.keys.Nodup) (k : κ) (v : ν) : (t.insert k v).keys.Nodup := by
  rw [keys_insert]
  exact nodup_addNew h

theorem mem_keys_insert : k' ∈ (t.insert k v).keys ↔ k' ∈ t.keys ∨ k' = k := by
  rw [keys_insert, mem_addNew]

theorem get?_foldl_insert (f : κ → ν) (ks : List κ) (t : Table κ ν) (k : κ) :
    (ks.foldl (fun t k => t.insert k (f k)) t).get? k = if ks.contains k then some (f k) else t.get? k := by
  induction ks generalizing t with
  | nil => simp
  | cons j ks ih =>
    rw [foldl_cons, ih]
    by_cases hj : j = k
    · simp [hj]
    · simp [hj, Ne.symm hj]

theorem get?_map_keys (f : κ → ν) (ks : List κ) (k : κ) :
    get? ⟨ks.map fun k => (k, f k)⟩ k = if k ∈ ks then some (f k) else none := by
  induction ks with
  | nil => simp [get?]
  | cons j ks ih =>
    rw [map_cons, get?_cons, ih]
    by_cases hj : j = k
    · simp [hj]
    · simp [hj, Ne.symm hj]

theorem get?_insertNew (t : Table κ ν) (k k' : κ) (v : ν) :
    (t.insertNew k v).get? k' = if k == k' then some ((t.get? k').getD v) else t.get? k' := by
  unfold insertNew
  rw [contains_eq_isSome]
  by_cases hk : k = k'
  · subst hk
    cases h : t.get? k with
    | none => simp
    | some w => simp [h]
  · split <;> simp [hk]

theorem get?_foldl_insertNew (ks : List κ) (t : Table κ κ) (k : κ) :
    (ks.foldl (fun t k => t.insertNew k k) t).get? k = (t.get? k).or (if k ∈ ks then some k else none) := by
  induction ks generalizing t with
  | nil => simp
  | cons j ks ih =>
    rw [foldl_cons, ih, get?_insertNew]
    by_cases hj : j = k
    · cases t.get? k <;> simp [hj]
    · simp [hj, Ne.symm hj]

@[simp]
theorem get?_update (t : Table κ ν) (k k' : κ) (d : ν) (f : ν → ν) :
    (t.update k d f).get? k' = if k == k' then some (f (t.getD k d)) else t.get? k' := by
  simp [update]

theorem getD_update (t : Table κ ν) (k k' : κ) (d : ν) (f : ν → ν) :
    (t.update k d f).getD k' d = if k == k' then f (t.getD k' d) else t.getD k' d := by
  rw [Table.getD]
  by_cases hk : k = k'
  · simp [hk]
  · simp [hk, Table.getD]

theorem nodup_keys_update (h : t.keys.Nodup) (k : κ) (d : ν) (f : ν → ν) : (t.update k d f).keys.Nodup :=
  nodup_keys_insert h k _

theorem mem_keys_erase_iff : k' ∈ (t.erase k).keys ↔ k' ∈ t.keys ∧ k' ≠ k := by
  simp only [keys, erase, mem_map, mem_filter, Bool.not_eq_true', beq_eq_false_iff_ne]
  constructor
  · rintro ⟨e, ⟨he, hne⟩, rfl⟩
    exact ⟨⟨e, he, rfl⟩, hne⟩
  · rintro ⟨⟨e, he, rfl⟩, hne⟩
    exact ⟨e, ⟨he, hne⟩, rfl⟩

theorem erase_of_notMem (h : k ∉ t.keys) : t.erase k = t := by
  obtain ⟨es⟩ := t
  have hkeep : es.filter (fun e => !(e.1 == k)) = es := by
    rw [filter_eq_self]
    intro e he
    have hne : e.1 ≠ k := fun heq => h (heq ▸ mem_map.2 ⟨e, he, rfl⟩)
    simpa using hne
  rw [erase, hkeep]

theorem entries_insert_of_notMem (h : k ∉ t.keys) (v : ν) : (t.insert k v).entries = t.entries ++ [(k, v)] := by
  obtain ⟨es⟩ := t
  change insertEntry k v es = es ++ [(k, v)]
  have hnew : ∀ e ∈ es, e.1 ≠ k := fun e he heq => h (heq ▸ mem_map.2 ⟨e, he, rfl⟩)
  induction es with
  | nil => rfl
  | cons e es ih =>
    have hrest : ∀ e' ∈ es, e'.1 ≠ k := fun e' he' => hnew e' (mem_cons_of_mem e he')
    rw [insertEntry, if_neg (by simpa using hnew e mem_cons_self), ih ?_ hrest, cons_append]
    intro hmem
    obtain ⟨e', he', heq⟩ := mem_map.1 hmem
    exact hrest e' he' heq

theorem Proper.getD (h : t.Proper P) (k : κ) (hd : P d) : P (t.getD k d) := by
  unfold Table.getD
  cases hk : t.get? k with
  | none => exact hd
  | some v => exact h.values _ (mem_of_get? hk)

theorem Proper.update (h : t.Proper P) (k : κ) (hd : P d) {f : ν → ν} (hf : ∀ v, P v → P (f v)) :
    (t.update k d f).Proper P := by
  refine ⟨nodup_keys_update h.keys k d f, fun e he => ?_⟩
  have hget := get?_of_mem (nodup_keys_update h.keys k d f) he
  rw [get?_update] at hget
  split at hget
  · rw [← Option.some.inj hget]
    exact hf _ (h.getD k hd)
  · exact h.values e (mem_of_get? hget)

/-! ## Writing once more -/

theorem nodup_keys_foldl_insert (h : t.keys.Nodup) (es : List (κ × ν)) :
    (es.foldl (fun t e => t.insert e.1 e.2) t).keys.Nodup :=
  foldlRecOn es (motive := fun t : Table κ ν => t.keys.Nodup) _ h fun _ h e _ => nodup_keys_insert h e.1 e.2

theorem insertEntry_insertEntry (k : κ) (v v' : ν) (es : List (κ × ν)) :
    insertEntry k v' (insertEntry k v es) = insertEntry k v' es := by
  induction es with
  | nil => simp [insertEntry]
  | cons e es ih =>
    by_cases he : e.1 == k
    · simp [insertEntry, he]
    · simp [insertEntry, he, ih]

theorem insert_insert (t : Table κ ν) (k : κ) (v v' : ν) : (t.insert k v).insert k v' = t.insert k v' :=
  congrArg mk (insertEntry_insertEntry k v v' t.entries)

theorem insertEntry_comm (hne : k ≠ k') (v v' : ν) (h : k ∈ es.map (·.1)) :
    insertEntry k v (insertEntry k' v' es) = insertEntry k' v' (insertEntry k v es) := by
  induction es with
  | nil => cases h
  | cons e es ih =>
    by_cases he : e.1 = k
    · simp [insertEntry, he, hne]
    · have hmem : k ∈ es.map (·.1) := by simpa [Ne.symm he] using h
      by_cases hk' : e.1 = k'
      · have : ¬ k' = k := Ne.symm hne
        simp [insertEntry, hk', this]
      · simp [insertEntry, he, hk', ih hmem]

theorem insert_comm (hk : k ∈ t.keys) (hne : k ≠ k') (v v' : ν) :
    (t.insert k' v').insert k v = (t.insert k v).insert k' v' :=
  congrArg mk (insertEntry_comm hne v v' hk)

theorem insert_foldl_insert (hk : k ∈ t.keys) (hne : k ∉ es.map (·.1)) (v : ν) :
    (es.foldl (fun t e => t.insert e.1 e.2) t).insert k v =
      es.foldl (fun t e => t.insert e.1 e.2) (t.insert k v) := by
  induction es generalizing t with
  | nil => rfl
  | cons e es ih =>
    rw [map_cons, mem_cons, not_or] at hne
    rw [foldl_cons, foldl_cons, ih (mem_keys_insert.2 (.inl hk)) hne.2, insert_comm hk hne.1]

theorem foldl_insert_foldl_insert {es' : List (κ × ν)} (hkeys : es.map (·.1) = es'.map (·.1))
    (hnodup : (es.map (·.1)).Nodup) (t : Table κ ν) :
    es'.foldl (fun t e => t.insert e.1 e.2) (es.foldl (fun t e => t.insert e.1 e.2) t) =
      es'.foldl (fun t e => t.insert e.1 e.2) t := by
  induction es generalizing es' t with
  | nil =>
    rfl
  | cons e es ih =>
    cases es' with
    | nil => cases hkeys
    | cons e' es' =>
      rw [map_cons, map_cons, cons.injEq] at hkeys
      rw [map_cons, nodup_cons] at hnodup
      rw [foldl_cons, foldl_cons, foldl_cons, ← hkeys.1,
        insert_foldl_insert (mem_keys_insert.2 (.inr rfl)) hnodup.1,
        insert_insert, ih hkeys.2 hnodup.2]

end Table

end ParallelPatterns
