import Mathlib.Data.List.Induction
import ParallelPatterns.Proofs.Planning
import ParallelPatterns.Proofs.Relatives

/-!
# Groups of tasks and waits

Grouping runs in two passes. The first one adds the number of each wait to the groups of the wait
and of the tasks around it; these are the marks. The second one puts one group in the place of the
marks of each suggestion, the one that the marks lead to: from a number to the least number of the
last list that joins it, until a number is reached that stays.

A task that is marked by several waits makes them one group, but a later task may override what an
earlier one said about a mark that both have. If the marks of a suggestion then lead to different
groups, the second pass fails there. Otherwise the groups are the connected components of the
suggestions.
-/

namespace ParallelPatterns.GroupTable

open List

def joined (lists : List (List Int)) : GroupTable := lists.foldl join ∅

/-- The last list that joins a group with others. -/
def lastJoin? (lists : List (List Int)) (a : Int) : Option (List Int) :=
  lists.reverse.find? fun l => decide (2 ≤ l.length) && l.contains a

/-- The group that takes the place of a group: the least one of the last list that joins it, or the
group itself. -/
def heir (lists : List (List Int)) (a : Int) : Int := ((lastJoin? lists a).bind List.min?).getD a

/-- From heir to heir, a group leads to one that stays. -/
inductive EndsAt (lists : List (List Int)) : Int → Int → Prop
  | stays {a : Int} : heir lists a = a → EndsAt lists a a
  | moves {a r : Int} : heir lists a ≠ a → EndsAt lists (heir lists a) r → EndsAt lists a r

def Together (lists : List (List Int)) (a b : Int) : Prop := ∃ l ∈ lists, a ∈ l ∧ b ∈ l

variable {lists : List (List Int)} {a b r : Int}

/-! ### The table of replacements -/

theorem get?_join (t : GroupTable) (l : List Int) (a : Int) :
    (t.join l).get? a = if 2 ≤ l.length ∧ a ∈ l then l.min? else t.get? a := by
  match l with
  | [] => simp [join]
  | [_] => simp [join]
  | x :: y :: l =>
    rw [join, Table.get?_foldl_insert (fun _ => (y :: l).foldl min x), min?_cons']
    simp

theorem get?_joined (lists : List (List Int)) (a : Int) :
    (joined lists).get? a = (lastJoin? lists a).bind min? := by
  induction lists using reverseRecOn with
  | nil => rfl
  | append_singleton lists l ih =>
    have hjoined : joined (lists ++ [l]) = (joined lists).join l := by
      simp [joined]
    rw [hjoined, get?_join, ih, lastJoin?, lastJoin?, reverse_concat]
    by_cases h : 2 ≤ l.length ∧ a ∈ l
    · simp [h]
    · simp [h]

theorem getD_get?_joined (lists : List (List Int)) (a : Int) : ((joined lists).get? a).getD a = heir lists a := by
  rw [get?_joined, heir]

theorem heir_ne_cases (h : heir lists a ≠ a) : ∃ l ∈ lists, a ∈ l ∧ l.min? = some (heir lists a) := by
  unfold heir at h ⊢
  cases hl : lastJoin? lists a with
  | none => simp [hl] at h
  | some l =>
    have hmem := mem_of_find?_eq_some hl
    have htest := find?_some hl
    simp only [Bool.and_eq_true, contains_iff_mem] at htest
    obtain ⟨m, hm⟩ : ∃ m, l.min? = some m := by
      cases hmin : l.min? with
      | none =>
        rw [min?_eq_none_iff] at hmin
        simp [hmin] at htest
      | some m => exact ⟨m, rfl⟩
    exact ⟨l, mem_reverse.1 hmem, htest.2, by simp [hm]⟩

theorem heir_lt_of_ne (h : heir lists a ≠ a) : heir lists a < a := by
  obtain ⟨l, -, ha, hmin⟩ := heir_ne_cases h
  exact lt_of_le_of_ne ((min?_eq_some_iff.1 hmin).2 a ha) h

theorem together_heir (h : heir lists a ≠ a) : Together lists a (heir lists a) := by
  obtain ⟨l, hl, ha, hmin⟩ := heir_ne_cases h
  exact ⟨l, hl, ha, min?_mem hmin⟩

/-! ### Where a group leads -/

theorem EndsAt.unique {r' : Int} (h : EndsAt lists a r) (h' : EndsAt lists a r') : r = r' := by
  induction h with
  | stays hstay =>
    cases h' with
    | stays => rfl
    | moves hmove => exact absurd hstay hmove
  | moves hmove _ ih =>
    cases h' with
    | stays hstay => exact absurd hstay hmove
    | moves _ hrest => exact ih hrest

theorem EndsAt.heir_eq (h : EndsAt lists a r) : heir lists r = r := by
  induction h with
  | stays hstay => exact hstay
  | moves _ _ ih => exact ih

theorem EndsAt.together (h : EndsAt lists a r) : Relation.ReflTransGen (Together lists) a r := by
  induction h with
  | stays => exact .refl
  | moves hmove _ ih => exact .head (together_heir hmove) ih

def upTo (t : GroupTable) (a : Int) : List (Int × Int) := t.entries.filter fun e => decide (e.1 ≤ a)

theorem length_upTo_heir_lt (h : heir lists a ≠ a) :
    ((joined lists).upTo (heir lists a)).length < ((joined lists).upTo a).length := by
  have hlt := heir_lt_of_ne h
  have hget : (joined lists).get? a = some (heir lists a) := by
    rw [← getD_get?_joined] at h ⊢
    cases hget : (joined lists).get? a with
    | none => simp [hget] at h
    | some r => rfl
  exact length_filter_lt (fun e => by simp; omega) (Table.mem_of_get? hget) (by simp) (by simpa using hlt)

theorem follow_succ (fuel : Nat) (a : Int) :
    (joined lists).follow (fuel + 1) a =
      if heir lists a = a then a else (joined lists).follow fuel (heir lists a) := by
  rw [follow, ← getD_get?_joined]
  cases hget : (joined lists).get? a <;> simp

theorem endsAt_follow {fuel : Nat} (h : ((joined lists).upTo a).length ≤ fuel) :
    EndsAt lists a ((joined lists).follow fuel a) := by
  induction fuel generalizing a with
  | zero =>
    refine .stays (Classical.byContradiction fun hmove => ?_)
    have := length_upTo_heir_lt hmove
    omega
  | succ fuel ih =>
    rw [follow_succ]
    split
    case isTrue hstay => exact .stays hstay
    case isFalse hmove =>
      have := length_upTo_heir_lt hmove
      exact .moves hmove (ih (by omega))

theorem endsAt_replacement (lists : List (List Int)) (a : Int) : EndsAt lists a ((joined lists).replacement a) :=
  endsAt_follow (Nat.le_succ_of_le (length_filter_le _ _))

theorem replacement_eq_iff : (joined lists).replacement a = r ↔ EndsAt lists a r :=
  ⟨fun h => h ▸ endsAt_replacement lists a, fun h => (endsAt_replacement lists a).unique h⟩

theorem replacement_replacement (lists : List (List Int)) (a : Int) :
    (joined lists).replacement ((joined lists).replacement a) = (joined lists).replacement a :=
  replacement_eq_iff.2 (.stays (endsAt_replacement lists a).heir_eq)

theorem EndsAt.chain (ha : EndsAt lists a r) (hb : EndsAt lists b r) :
    Relation.ReflTransGen (Together lists) a b := by
  have hsymm : Std.Symm (Together lists) := by
    refine ⟨?_⟩
    rintro x y ⟨l, hl, hx, hy⟩
    exact ⟨l, hl, hy, hx⟩
  exact ha.together.trans (Std.Symm.symm _ _ hb.together)

end ParallelPatterns.GroupTable

/-! ## Suggestions -/

namespace ParallelPatterns

open List GroupTable

variable {through : List Nat}

namespace Plan

/-- The tasks among the current suggestions. -/
def tasks (p : Plan) : List Nat := p.numbered .task

/-- The waits among the current suggestions. -/
def waits (p : Plan) : List Nat := p.numbered .taskwait

/-- The suggestions that are grouped. -/
def grouped (p : Plan) : List Nat := p.tasks ++ p.waits

/-- The tasks around a wait. -/
def around (p : Plan) (w : Nat) : List Nat :=
  p.tasks.filter fun i => (p.nodeAt i).among (p.graph.relativesOf (p.nodeAt w))

/-- What a wait of a number adds: its number, to its list of groups and to those of the tasks around
it. -/
def markingsOf (p : Plan) (w : Nat) (k : Int) : List (Nat × Int) :=
  (w :: p.around w).map fun i => ((p.taskAt i).group, k)

/-- All that the waits add, in turn. -/
def markings (p : Plan) : List (Nat × Int) := p.waits.zipIdx.flatMap fun e => p.markingsOf e.1 e.2

/-- The groups that the waits add to the list of a suggestion. -/
def marks (p : Plan) (i : Nat) : List Int :=
  (p.markings.filter fun m => m.1 == (p.taskAt i).group).map (·.2)

/-- The marks of the tasks, in turn. -/
def taskMarks (p : Plan) : List (List Int) := p.tasks.map p.marks

/-- The marks of a suggestion lead to one group. -/
def Whole (p : Plan) (i : Nat) : Prop := ∃ r, ∀ k ∈ p.marks i, GroupTable.EndsAt p.taskMarks k r

/-- Two suggestions have a mark in common. -/
def Neighbours (p : Plan) (i j : Nat) : Prop :=
  i ∈ p.grouped ∧ j ∈ p.grouped ∧ ∃ k, k ∈ p.marks i ∧ k ∈ p.marks j

/-- A chain of suggestions leads from one to the other. -/
def Linked (p : Plan) : Nat → Nat → Prop := Relation.ReflTransGen p.Neighbours

/-- A wait, or a task around one. -/
def Concerned (p : Plan) (i : Nat) : Prop := ∃ w ∈ p.waits, i = w ∨ i ∈ p.around w

/-- The suggestions are known, stand at nodes of the graph and have empty lists of groups. -/
structure Ungrouped (p : Plan) : Prop where
  known : ∀ i ∈ p.grouped, (p.known.get? i).isSome
  node : ∀ i ∈ p.grouped, (p.graph.node? (p.taskAt i).node).isSome
  empty : ∀ i ∈ p.grouped, p.groups.get? (p.taskAt i).group = some []
  fresh : ∀ i ∈ p.grouped, (p.taskAt i).group < p.fresh

/-- A plan in which the suggestions of another one are grouped by connected components, and nothing
else differs. -/
structure Grouped (p p' : Plan) : Prop where
  graph : p'.graph = p.graph
  current : p'.current = p.current
  kept : ∀ i, p'.taskAt i = { p.taskAt i with group := (p'.taskAt i).group }
  one : ∀ i, p.Concerned i → ∃ r, p'.groupsAt i = [r]
  linked : ∀ i j, p.Concerned i → p.Concerned j → (p'.groupsAt i = p'.groupsAt j ↔ p.Linked i j)

def withMarks (p : Plan) (ms : List (Nat × Int)) : Plan :=
  { p with groups := ms.foldl (fun t m => t.modify m.1 (· ++ [m.2])) p.groups }

variable {p q : Plan} {i j : Nat}

/-! ### Marks -/

theorem withMarks_append (p : Plan) (ms ms' : List (Nat × Int)) :
    p.withMarks (ms ++ ms') = (p.withMarks ms).withMarks ms' := by
  rw [withMarks, foldl_append]
  rfl

theorem get?_groups_withMarks (p : Plan) (ms : List (Nat × Int)) (l : Nat) :
    (p.withMarks ms).groups.get? l = (p.groups.get? l).map (· ++ (ms.filter fun m => m.1 == l).map (·.2)) := by
  induction ms generalizing p with
  | nil => simp [withMarks]
  | cons m ms ih =>
    have hcons : p.withMarks (m :: ms) = (p.withMarks [m]).withMarks ms := withMarks_append p [m] ms
    have hone : (p.withMarks [m]).groups = p.groups.modify m.1 (· ++ [m.2]) := rfl
    rw [hcons, ih, hone, Table.get?_modify]
    cases hm : m.1 == l with
    | true => simp [hm, Function.comp_def]
    | false => simp [hm]

theorem Ungrouped.groupsAt_withMarks (h : p.Ungrouped) (hi : i ∈ p.grouped) :
    (p.withMarks p.markings).groupsAt i = p.marks i := by
  have htask : (p.withMarks p.markings).taskAt i = p.taskAt i := rfl
  rw [groupsAt, htask, Table.getD, get?_groups_withMarks, h.empty i hi]
  rfl

theorem mem_marks_of_mem_markingsOf {w : Nat} {n : Nat} (hw : (w, n) ∈ p.waits.zipIdx)
    (hi : ((p.taskAt i).group, (n : Int)) ∈ p.markingsOf w n) : (n : Int) ∈ p.marks i := by
  refine mem_map.2 ⟨((p.taskAt i).group, (n : Int)), mem_filter.2 ⟨?_, by simp⟩, rfl⟩
  exact mem_flatMap.2 ⟨(w, n), hw, hi⟩

theorem Concerned.exists_mem_marks (h : p.Concerned i) : ∃ k, k ∈ p.marks i := by
  obtain ⟨w, hw, hi⟩ := h
  obtain ⟨n, hn, hget⟩ := mem_iff_getElem.1 hw
  have hzip : (w, n) ∈ p.waits.zipIdx := by
    rw [mk_mem_zipIdx_iff_getElem?, getElem?_eq_getElem hn, hget]
  refine ⟨n, mem_marks_of_mem_markingsOf hzip (mem_map.2 ⟨i, ?_, rfl⟩)⟩
  rcases hi with rfl | hi
  · exact mem_cons_self
  · exact mem_cons_of_mem w hi

theorem Concerned.mem_grouped (h : p.Concerned i) : i ∈ p.grouped := by
  obtain ⟨w, hw, rfl | hi⟩ := h
  · exact mem_append_right _ hw
  · exact mem_append_left _ (mem_filter.1 hi).1

/-! ### A list of groups of its own -/

theorem get?_known_regroup (p : Plan) (i j : Nat) (groups : List Int) (t : TaskSuggestion)
    (h : p.known.get? j = some (.task t)) :
    (p.regroup i groups).known.get? j = some (.task (if i = j then { t with group := p.fresh } else t)) := by
  rw [regroup, Table.get?_modify, h]
  by_cases hij : i = j <;> simp [hij, Suggestion.mapTask]

theorem taskAt_regroup_of_ne (groups : List Int) (h : i ≠ j) : (p.regroup i groups).taskAt j = p.taskAt j := by
  simp [taskAt, regroup, Table.getD, Table.get?_modify, h]

theorem Ungrouped.exists_task (h : p.Ungrouped) (hi : i ∈ p.grouped) : ∃ t, p.known.get? i = some (.task t) := by
  obtain ⟨s, hs⟩ := Option.isSome_iff_exists.1 (h.known i hi)
  have hkind : ∃ k, s.kind? = some k := by
    rcases mem_append.1 hi with hi | hi <;> exact ⟨_, by simpa [hs, Table.getD] using (mem_filter.1 hi).2⟩
  obtain ⟨k, hk⟩ := hkind
  cases s with
  | task t => exact ⟨t, hs⟩
  | _ => cases hk

def settled (p : Plan) (i : Nat) : List Int :=
  ((p.marks i).head?.map (GroupTable.joined p.taskMarks).replacement).toList

/-- Nothing but lists of groups differs, and the next list has a number that is free. -/
structure Kept (p q : Plan) : Prop where
  graph : q.graph = p.graph
  current : q.current = p.current
  kept : ∀ i, q.taskAt i = { p.taskAt i with group := (q.taskAt i).group }
  known : ∀ i ∈ p.grouped, ∃ t, q.known.get? i = some (.task t)
  fresh : ∀ i ∈ p.grouped, (q.taskAt i).group < q.fresh

/-- The second pass has come through some suggestions: these have their groups, and the others have
their marks. -/
structure Progress (p q : Plan) (through : List Nat) : Prop extends Kept p q where
  done : ∀ i ∈ p.grouped, i ∈ through → q.groupsAt i = p.settled i
  rest : ∀ i ∈ p.grouped, i ∉ through → q.groupsAt i = p.marks i

theorem Ungrouped.progress (h : p.Ungrouped) : p.Progress (p.withMarks p.markings) [] where
  graph := rfl
  current := rfl
  kept _ := rfl
  known _ hi := h.exists_task hi
  fresh i hi := h.fresh i hi
  done _ _ hi := absurd hi not_mem_nil
  rest _ hi _ := h.groupsAt_withMarks hi

theorem Kept.regroup (h : p.Kept q) (hi : i ∈ p.grouped) (groups : List Int) : p.Kept (q.regroup i groups) where
  graph := h.graph
  current := h.current
  kept j := by
    obtain ⟨t, ht⟩ := h.known i hi
    by_cases hij : i = j
    · subst hij
      have hkept := h.kept i
      rw [taskAt_of_get? ht] at hkept
      rw [taskAt_of_get? (get?_known_regroup q i i groups t ht), if_pos rfl, hkept]
    · rw [taskAt_regroup_of_ne groups hij]
      exact h.kept j
  known j hj := by
    obtain ⟨t, ht⟩ := h.known j hj
    exact ⟨_, get?_known_regroup q i j groups t ht⟩
  fresh j hj := by
    obtain ⟨t, ht⟩ := h.known j hj
    have hfresh := h.fresh j hj
    rw [taskAt_of_get? ht] at hfresh
    rw [taskAt_of_get? (get?_known_regroup q i j groups t ht)]
    show _ < q.fresh + 1
    split
    case isTrue => exact Nat.lt_succ_self q.fresh
    case isFalse => omega

theorem Kept.groupsAt_regroup_self (h : p.Kept q) (hi : i ∈ p.grouped) (groups : List Int) :
    (q.regroup i groups).groupsAt i = groups := by
  obtain ⟨t, ht⟩ := h.known i hi
  rw [groupsAt, taskAt_of_get? (get?_known_regroup q i i groups t ht)]
  simp [Plan.regroup, Table.getD]

theorem Kept.groupsAt_regroup_of_ne (h : p.Kept q) (hj : j ∈ p.grouped) (groups : List Int)
    (hij : i ≠ j) : (q.regroup i groups).groupsAt j = q.groupsAt j := by
  have hne : q.fresh ≠ (q.taskAt j).group := (h.fresh j hj).ne'
  rw [groupsAt, taskAt_regroup_of_ne groups hij]
  simp [Plan.regroup, groupsAt, Table.getD, hne]

theorem whole_iff : p.Whole i ↔ ∃ r, ∀ k ∈ p.marks i, (joined p.taskMarks).replacement k = r := by
  simp only [Whole, replacement_eq_iff]

theorem Progress.head?_groupsAt (h : p.Progress q through) (hi : i ∈ p.grouped) :
    ((q.groupsAt i).head?.map (joined p.taskMarks).replacement).toList = p.settled i := by
  by_cases hdone : i ∈ through
  · rw [h.done i hi hdone, settled]
    cases p.marks i with
    | nil => rfl
    | cons k ks => exact congrArg (fun r => [r]) (replacement_replacement _ k)
  · rw [h.rest i hi hdone, settled]

theorem Progress.exists_forall_replacement_eq (h : p.Progress q through) (hi : i ∈ p.grouped)
    (hwhole : p.Whole i) : ∃ r, ∀ k ∈ q.groupsAt i, (joined p.taskMarks).replacement k = r := by
  by_cases hdone : i ∈ through
  · rw [h.done i hi hdone, settled]
    cases p.marks i with
    | nil => exact ⟨0, fun k hk => absurd hk not_mem_nil⟩
    | cons k ks =>
      refine ⟨(joined p.taskMarks).replacement k, fun k' hk' => ?_⟩
      rw [mem_singleton.1 hk', replacement_replacement]
  · rw [h.rest i hi hdone]
    exact whole_iff.1 hwhole

theorem Progress.cons {q' : Plan} (h : p.Progress q through) (hkept : p.Kept q')
    (hself : q'.groupsAt i = p.settled i) (hother : ∀ j ∈ p.grouped, i ≠ j → q'.groupsAt j = q.groupsAt j) :
    p.Progress q' (i :: through) where
  toKept := hkept
  done j hj hmem := by
    by_cases hij : i = j
    · rw [← hij, hself]
    · rcases mem_cons.1 hmem with rfl | hmem
      · exact absurd rfl hij
      · rw [hother j hj hij, h.done j hj hmem]
  rest j hj hmem := by
    rw [mem_cons, not_or] at hmem
    rw [hother j hj (Ne.symm hmem.1), h.rest j hj hmem.2]

theorem linked_of_together {a b : Int} (h : Relation.ReflTransGen (Together p.taskMarks) a b)
    (hi : i ∈ p.grouped) (ha : a ∈ p.marks i) (hj : j ∈ p.grouped) (hb : b ∈ p.marks j) : p.Linked i j := by
  induction h generalizing j with
  | refl => exact .single ⟨hi, hj, a, ha, hb⟩
  | tail _ hstep ih =>
    obtain ⟨l, hl, hfirst, hsecond⟩ := hstep
    obtain ⟨m, hm, rfl⟩ := mem_map.1 hl
    have hm : m ∈ p.grouped := mem_append_left _ hm
    exact (ih hm hfirst).tail ⟨hm, hj, _, hsecond, hb⟩

theorem Linked.endsAt (h : p.Linked i j) (hwhole : ∀ m ∈ p.grouped, p.Whole m) {a b r : Int}
    (hi : i ∈ p.grouped) (ha : a ∈ p.marks i) (hr : EndsAt p.taskMarks a r) (hb : b ∈ p.marks j) :
    EndsAt p.taskMarks b r := by
  have hsame : ∀ {m : Nat} {c d : Int}, m ∈ p.grouped → c ∈ p.marks m → d ∈ p.marks m →
      EndsAt p.taskMarks c r → EndsAt p.taskMarks d r := by
    intro m c d hm hc hd hcr
    obtain ⟨r', hr'⟩ := hwhole m hm
    rw [hcr.unique (hr' c hc)]
    exact hr' d hd
  induction h generalizing b with
  | refl => exact hsame hi ha hb hr
  | tail _ hstep ih =>
    obtain ⟨_, hj, k, hk, hk'⟩ := hstep
    exact hsame hj hk' hb (ih hk)

theorem Progress.grouped (h : p.Progress q p.grouped) (hwhole : ∀ i ∈ p.grouped, p.Whole i) : p.Grouped q := by
  have hgroups : ∀ i, p.Concerned i → ∃ k ∈ p.marks i, ∃ r, EndsAt p.taskMarks k r ∧ q.groupsAt i = [r] := by
    intro i hi
    obtain ⟨k, hk⟩ := hi.exists_mem_marks
    have hsettled := h.done i hi.mem_grouped hi.mem_grouped
    rw [settled] at hsettled
    cases hmarks : p.marks i with
    | nil =>
      rw [hmarks] at hk
      cases hk
    | cons k ks =>
      rw [hmarks] at hsettled
      exact ⟨k, mem_cons_self, _, endsAt_replacement _ k, hsettled⟩
  refine ⟨h.graph, h.current, h.kept, fun i hi => ?_, fun i j hi hj => ?_⟩
  · obtain ⟨-, -, r, -, hr⟩ := hgroups i hi
    exact ⟨r, hr⟩
  · obtain ⟨a, ha, r, har, hir⟩ := hgroups i hi
    obtain ⟨b, hb, s, hbs, hjs⟩ := hgroups j hj
    rw [hir, hjs, cons.injEq, and_iff_left rfl]
    constructor
    · intro hrs
      rw [hrs] at har
      exact linked_of_together (har.chain hbs) hi.mem_grouped ha hj.mem_grouped hb
    · intro hlinked
      exact (hlinked.endsAt hwhole hi.mem_grouped ha har hb).unique hbs

end Plan

namespace Planning

open Plan

variable {p q : Plan} {i : Nat}

/-! ### The first pass -/

theorem runOn_addGroup (p : Plan) (i : Nat) (k : Int) :
    (addGroup i k).runOn p = (.ok (), p.withMarks [((p.taskAt i).group, k)]) := rfl

theorem runOn_addGroups (p : Plan) (is : List Nat) (k : Int) :
    (each is fun i => addGroup i k).runOn p =
      (.ok PUnit.unit, p.withMarks (is.map fun i => ((p.taskAt i).group, k))) := by
  induction is generalizing p with
  | nil => rfl
  | cons i is ih =>
    rw [runOn_each_of_ok (fun i => addGroup i k) (runOn_addGroup p i k), ih]
    exact congrArg (fun p => (Except.ok (), p)) (withMarks_append p [_] _).symm

theorem runOn_markGroup {w : Nat} (hnode : ∀ i ∈ p.grouped, (p.graph.node? (p.taskAt i).node).isSome)
    (hw : w ∈ p.waits) (k : Int) : (markGroup p.tasks w k).runOn p = (.ok (), p.withMarks (p.markingsOf w k)) := by
  let q := p.withMarks [((p.taskAt w).group, k)]
  have hread : ∀ i ∈ p.tasks, (do
      return (← node (← task i).node).among (q.graph.relativesOf (q.nodeAt w)) : Planning Bool).runOn q =
        (.ok ((p.nodeAt i).among (p.graph.relativesOf (p.nodeAt w))), q) := by
    intro i hi
    rw [runOn_bind_of_ok (runOn_task q i), runOn_bind_of_ok (runOn_node (p := q) (hnode i (mem_append_left _ hi)))]
    rfl
  rw [markGroup, runOn_bind_of_ok (runOn_addGroup p w k), runOn_bind_of_ok (runOn_graph q),
    runOn_bind_of_ok (runOn_task q w), runOn_bind_of_ok (runOn_node (p := q) (hnode w (mem_append_right _ hw))),
    runOn_bind_of_ok (runOn_filterM_of_reads hread), bind_pure_unit]
  refine (runOn_addGroups q (p.around w) k).trans ?_
  exact congrArg (fun p => (Except.ok (), p)) (withMarks_append p [_] _).symm

theorem runOn_markGroups (hnode : ∀ i ∈ p.grouped, (p.graph.node? (p.taskAt i).node).isSome)
    {ws : List (Nat × Nat)} (hws : ∀ e ∈ ws, e.1 ∈ p.waits) :
    (each ws fun e => markGroup p.tasks e.1 e.2).runOn p =
      (.ok PUnit.unit, p.withMarks (ws.flatMap fun e => p.markingsOf e.1 e.2)) := by
  induction ws generalizing p with
  | nil => rfl
  | cons e ws ih =>
    have hfirst := runOn_markGroup hnode (hws e mem_cons_self) e.2
    rw [runOn_each_of_ok (fun e : Nat × Nat => markGroup p.tasks e.1 e.2) hfirst, flatMap_cons, withMarks_append]
    -- the marks change no suggestion, so the waits and the tasks around them are the same
    exact ih (p := p.withMarks (p.markingsOf e.1 e.2)) hnode fun e' he' => hws e' (mem_cons_of_mem e he')

/-! ### The second pass -/

theorem runOn_settleGroup (t : GroupTable) (p : Plan) (i : Nat) :
    (settleGroup t i).runOn p =
      let groups := (p.groupsAt i).map t.replacement
      match groups with
      | [] => (.ok (), p.regroup i [])
      | first :: rest =>
        if rest.any (· ≠ first) then
          (.error (.brokenTaskGroup ((p.regroup i groups).taskAt i).node groups), p.regroup i groups)
        else (.ok (), (p.regroup i groups).regroup i [first]) := by
  rw [settleGroup, runOn_bind_of_ok (runOn_groupsOf p i)]
  cases hgroups : (p.groupsAt i).map t.replacement with
  | nil => rfl
  | cons first rest =>
    dsimp only
    split
    case isTrue h => rfl
    case isFalse h => rfl

theorem runOn_settleGroup_of_whole (h : p.Progress q through) (hi : i ∈ p.grouped) (hwhole : p.Whole i) :
    ∃ q', (settleGroup (joined p.taskMarks) i).runOn q = (.ok (), q') ∧ p.Progress q' (i :: through) := by
  obtain ⟨r, hr⟩ := h.exists_forall_replacement_eq hi hwhole
  have hhead := h.head?_groupsAt hi
  rw [runOn_settleGroup]
  cases hgroups : q.groupsAt i with
  | nil =>
    rw [hgroups] at hhead
    refine ⟨_, rfl, h.cons (h.toKept.regroup hi []) ?_ fun j hj hij => h.toKept.groupsAt_regroup_of_ne hj [] hij⟩
    rw [h.toKept.groupsAt_regroup_self hi, ← hhead]
    rfl
  | cons k ks =>
    rw [hgroups] at hhead hr
    have hagree : ¬ ((ks.map (joined p.taskMarks).replacement).any
        (· ≠ (joined p.taskMarks).replacement k)) := by
      rw [any_eq_true]
      rintro ⟨x, hx, hne⟩
      obtain ⟨k', hk', rfl⟩ := mem_map.1 hx
      rw [hr k' (mem_cons_of_mem k hk'), hr k mem_cons_self] at hne
      simp at hne
    have hkept := h.toKept.regroup hi ((k :: ks).map (joined p.taskMarks).replacement)
    refine ⟨_, if_neg hagree, h.cons (hkept.regroup hi _) ?_ fun j hj hij => ?_⟩
    · rw [hkept.groupsAt_regroup_self hi, ← hhead]
      rfl
    · rw [hkept.groupsAt_regroup_of_ne hj _ hij, h.toKept.groupsAt_regroup_of_ne hj _ hij]

theorem runOn_settleGroup_of_not_whole (h : p.Progress q through) (hi : i ∈ p.grouped)
    (hthrough : i ∉ through) (hwhole : ¬ p.Whole i) :
    ∃ groups q', Forall₂ (EndsAt p.taskMarks) (p.marks i) groups ∧
      (settleGroup (joined p.taskMarks) i).runOn q =
        (.error (.brokenTaskGroup (p.taskAt i).node groups), q') := by
  have hends : Forall₂ (EndsAt p.taskMarks) (p.marks i)
      ((p.marks i).map (joined p.taskMarks).replacement) :=
    forall₂_map_right_iff.2 (forall₂_same.2 fun k _ => endsAt_replacement _ k)
  rw [runOn_settleGroup, h.rest i hi hthrough]
  cases hmarks : p.marks i with
  | nil =>
    refine absurd ⟨0, fun k hk => ?_⟩ hwhole
    rw [hmarks] at hk
    cases hk
  | cons k ks =>
    have hdiffer : ((ks.map (joined p.taskMarks).replacement).any
        (· ≠ (joined p.taskMarks).replacement k)) := by
      rw [any_eq_true]
      by_contra hnone
      refine hwhole (whole_iff.2 ⟨(joined p.taskMarks).replacement k, fun k' hk' => ?_⟩)
      rw [hmarks] at hk'
      rcases mem_cons.1 hk' with rfl | hk'
      · rfl
      · by_contra hne
        exact hnone ⟨_, mem_map_of_mem hk', by simpa using hne⟩
    have hnode : (((q.regroup i ((k :: ks).map (joined p.taskMarks).replacement)).taskAt i).node) =
        (p.taskAt i).node := by
      rw [(h.toKept.regroup hi _).kept i]
    rw [hmarks] at hends
    exact ⟨_, _, hends, (if_pos hdiffer).trans (by rw [hnode])⟩

theorem runOn_settleGroups {is : List Nat} (h : p.Progress q through)
    (his : ∀ i ∈ is, i ∈ p.grouped) (hthrough : ∀ i ∈ through, p.Whole i) :
    ((∀ i ∈ is, p.Whole i) → ∃ q', (each is (settleGroup (joined p.taskMarks))).runOn q =
        (.ok PUnit.unit, q') ∧ p.Progress q' (is.reverse ++ through)) ∧
      ((∃ i ∈ is, ¬ p.Whole i) → ∃ i ∈ is, ¬ p.Whole i ∧ ∃ groups q',
        Forall₂ (EndsAt p.taskMarks) (p.marks i) groups ∧
          (each is (settleGroup (joined p.taskMarks))).runOn q =
            (.error (.brokenTaskGroup (p.taskAt i).node groups), q')) := by
  induction is generalizing q through with
  | nil =>
    refine ⟨fun _ => ⟨q, rfl, h⟩, ?_⟩
    rintro ⟨i, hi, -⟩
    cases hi
  | cons i is ih =>
    have hi := his i mem_cons_self
    by_cases hwhole : p.Whole i
    · obtain ⟨q₁, hrun, hprogress⟩ := runOn_settleGroup_of_whole h hi hwhole
      rw [runOn_each_of_ok _ hrun]
      obtain ⟨hok, herror⟩ := ih hprogress (fun j hj => his j (mem_cons_of_mem i hj))
        (forall_mem_cons.2 ⟨hwhole, hthrough⟩)
      refine ⟨fun hall => ?_, ?_⟩
      · rw [reverse_cons, append_assoc]
        exact hok fun j hj => hall j (mem_cons_of_mem i hj)
      · rintro ⟨j, hj, hbad⟩
        rcases mem_cons.1 hj with rfl | hj
        · exact absurd hwhole hbad
        · obtain ⟨k, hk, hk'⟩ := herror ⟨j, hj, hbad⟩
          exact ⟨k, mem_cons_of_mem i hk, hk'⟩
    · obtain ⟨groups, q', hends, hrun⟩ :=
        runOn_settleGroup_of_not_whole h hi (fun hmem => hwhole (hthrough i hmem)) hwhole
      rw [runOn_each_of_error _ hrun]
      exact ⟨fun hall => absurd (hall i mem_cons_self) hwhole,
        fun _ => ⟨i, mem_cons_self, hwhole, groups, q', hends, rfl⟩⟩

theorem runOn_groupTasks (h : p.Ungrouped) :
    groupTasks.runOn p =
      (each p.grouped (settleGroup (joined p.taskMarks))).runOn (p.withMarks p.markings) := by
  have hwaits : ∀ e ∈ p.waits.zipIdx, e.1 ∈ p.waits := by
    intro e he
    exact fst_mem_of_mem_zipIdx he
  have hmarks : (p.tasks.mapM groupsOf).runOn (p.withMarks p.markings) =
      (.ok (p.tasks.map (p.withMarks p.markings).groupsAt), p.withMarks p.markings) :=
    runOn_mapM_of_reads fun i _ => runOn_groupsOf _ i
  have hlists : p.tasks.map (p.withMarks p.markings).groupsAt = p.taskMarks :=
    map_congr_left fun i hi => h.groupsAt_withMarks (mem_append_left _ hi)
  rw [groupTasks, runOn_bind_of_ok (runOn_tasksOf p .task), runOn_bind_of_ok (runOn_tasksOf p .taskwait)]
  refine (runOn_bind_of_ok (runOn_markGroups h.node hwaits)).trans ?_
  refine (runOn_bind_of_ok hmarks).trans ?_
  rw [hlists, bind_pure_unit]
  rfl

/-- Grouping succeeds, with a group for each connected component, exactly if the marks of each
suggestion lead to one group; else it fails at a suggestion whose marks do not. The searches around
the waits end by themselves. -/
theorem groupTasks_components_iff (h : p.Ungrouped) :
    ((∃ p', groupTasks.runOn p = (.ok (), p') ∧ p.Grouped p') ↔ ∀ i ∈ p.grouped, p.Whole i) ∧
      ((∃ i ∈ p.grouped, ¬ p.Whole i) → ∃ i ∈ p.grouped, ¬ p.Whole i ∧ ∃ groups p',
        List.Forall₂ (GroupTable.EndsAt p.taskMarks) (p.marks i) groups ∧
          groupTasks.runOn p = (.error (.brokenTaskGroup (p.taskAt i).node groups), p')) ∧
      ∀ w ∈ p.waits, ∀ fuel, (2 * p.graph.edgeCount + 1) * (p.graph.edgeCount + p.graph.size) ≤ fuel →
        p.graph.relativesGo fuel (p.graph.sources (p.graph.inEdgesOf (p.nodeAt w).id [.successor])) [p.nodeAt w] =
          p.graph.relativesOf (p.nodeAt w) := by
  obtain ⟨hok, herror⟩ := runOn_settleGroups h.progress (fun _ hi => hi) (by simp)
  rw [← runOn_groupTasks h] at hok herror
  refine ⟨⟨?_, fun hwhole => ?_⟩, herror, fun w _ _ hfuel => p.graph.relativesGo_eq_relativesOf (p.nodeAt w) hfuel⟩
  · rintro ⟨p', hrun, -⟩
    by_contra hbad
    push Not at hbad
    obtain ⟨i, -, -, groups, q', -, hfail⟩ := herror hbad
    rw [hrun] at hfail
    cases hfail
  · obtain ⟨p', hrun, hprogress⟩ := hok hwhole
    rw [append_nil] at hprogress
    refine ⟨p', hrun, Plan.Progress.grouped ⟨hprogress.toKept, fun i hi _ => ?_, fun i hi hnot => ?_⟩ hwhole⟩
    · exact hprogress.done i hi (mem_reverse.2 hi)
    · exact absurd hi hnot

end Planning

/-- Two tasks and three waits: after the first task comes the first or the second wait, and after
the second task, which follows the first wait, the second or the third one. -/
def overlappingWaits : Graph where
  nodes :=
    let unit (id : NodeId) (number : Int) (wait : Bool) : Node :=
      { id, file := 1, number, startLine := number, endLine := number, name := none, containsTaskwait := wait
        body := .unit default }
    ⟨[("1:1", unit "1:1" 1 false), ("1:2", unit "1:2" 2 false), ("1:3", unit "1:3" 3 true),
      ("1:4", unit "1:4" 4 true), ("1:5", unit "1:5" 5 true)]⟩
  links :=
    let next (s t : NodeId) : Link := ⟨s, t, [(0, { edge := .successor })]⟩
    [next "1:1" "1:3", next "1:1" "1:4", next "1:3" "1:2", next "1:2" "1:4", next "1:2" "1:5"]

/-- The suggestions of these tasks and waits, the current ones in an order. -/
def overlappingPlan (current : List Nat) : Plan where
  graph := overlappingWaits
  known :=
    let about (node : NodeId) (kind : TaskKind) (group : Nat) : Suggestion :=
      .task { (default : TaskSuggestion) with node, kind, group }
    ⟨[(0, about "1:1" .task 5), (1, about "1:2" .task 6), (2, about "1:3" .taskwait 7),
      (3, about "1:4" .taskwait 8), (4, about "1:5" .taskwait 9)]⟩
  current
  groups := ⟨[(5, []), (6, []), (7, []), (8, []), (9, [])]⟩
  fresh := 10

/-- With the second task before the first one, all are one group. -/
theorem groupTasks_components_iff_secondFirst :
    let p := overlappingPlan [1, 0, 2, 3, 4]
    p.Ungrouped ∧ ∃ p', Planning.groupTasks.runOn p = (.ok (), p') ∧ p.Grouped p' := by
  intro p
  have h : p.Ungrouped := ⟨by decide, by decide, by decide, by decide⟩
  have hzero : ∀ i ∈ p.grouped, ∀ k ∈ p.marks i, (joined p.taskMarks).replacement k = 0 := by decide
  exact ⟨h, (Planning.groupTasks_components_iff h).1.2 fun i hi => Plan.whole_iff.2 ⟨0, hzero i hi⟩⟩

/-- With the first task before the second one, grouping fails at the first one: its marks are those
of two waits, of which the second task has given one to another group. -/
theorem groupTasks_firstFirst :
    let p := overlappingPlan [0, 1, 2, 3, 4]
    p.Ungrouped ∧ ∃ p', Planning.groupTasks.runOn p = (.error (.brokenTaskGroup "1:1" [0, 1]), p') := by
  intro p
  have h : p.Ungrouped := ⟨by decide, by decide, by decide, by decide⟩
  have hgroups : ((p.withMarks p.markings).groupsAt 0).map (joined p.taskMarks).replacement = [0, 1] := by
    decide
  have hgrouped : p.grouped = [0, 1, 2, 3, 4] := by decide
  have hfirst : (Planning.settleGroup (joined p.taskMarks) 0).runOn (p.withMarks p.markings) =
      (.error (.brokenTaskGroup "1:1" [0, 1]), (p.withMarks p.markings).regroup 0 [0, 1]) := by
    rw [Planning.runOn_settleGroup, hgroups]
    rfl
  refine ⟨h, (p.withMarks p.markings).regroup 0 [0, 1], ?_⟩
  rw [Planning.runOn_groupTasks h, hgrouped, Planning.runOn_each_of_error _ hfirst]

end ParallelPatterns
