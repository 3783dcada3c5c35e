import Mathlib.Data.List.Flatten
import Mathlib.Data.List.Nodup
import Mathlib.Data.List.Perm.Subperm
import ParallelPatterns.Proofs.WellFormed

/-!
# Links

A graph keeps one link for each joined pair of nodes, and in a link one edge for each key. Adding
and removing edges keeps it so, whatever has been removed before: a new edge takes a key that is
free. The edges of a graph can then be counted pair by pair, and an edge is told by its nodes and
its key.
-/

open List

namespace ParallelPatterns

variable {l : Link} {g : Graph}

/-! ## Keys -/

namespace Link

theorem taken_of_freeKey_mem {keys : List Nat} {fuel k : Nat} (h : freeKey keys fuel k ∈ keys)
    {j : Nat} (hj : j < fuel) : k + j ∈ keys := by
  induction fuel generalizing k j with
  | zero => omega
  | succ fuel ih =>
    unfold freeKey at h
    by_cases hk : keys.contains k
    · rw [if_pos hk] at h
      cases j with
      | zero => exact elem_iff.1 hk
      | succ j =>
        have := ih h (show j < fuel by omega)
        rwa [show k + 1 + j = k + (j + 1) by omega] at this
    · rw [if_neg hk] at h
      exact absurd (elem_iff.2 h) hk

theorem nextKey_notMem (keys : List Nat) : nextKey keys ∉ keys := by
  intro h
  have htaken : range' keys.length (keys.length + 1) ⊆ keys := by
    intro k hk
    rw [mem_range'_1] at hk
    have := taken_of_freeKey_mem h (show k - keys.length < keys.length + 1 by omega)
    rwa [show keys.length + (k - keys.length) = k by omega] at this
  have hle := (subperm_of_subset (nodup_range') htaken).length_le
  rw [length_range'] at hle
  omega

/-- The pair of nodes that a link joins. -/
def pair (l : Link) : NodeId × NodeId := (l.source, l.target)

theorem joins_iff {s t : NodeId} : l.joins s t ↔ l.pair = (s, t) := by
  simp [joins, pair]

theorem mem_toEdges_iff {e : Edge} : e ∈ l.toEdges ↔ l.pair = (e.source, e.target) ∧ (e.key, e.dep) ∈ l.edges := by
  rw [toEdges, mem_map]
  constructor
  · rintro ⟨p, hp, rfl⟩
    exact ⟨rfl, hp⟩
  · rintro ⟨hpair, hp⟩
    obtain ⟨hsource, htarget⟩ := Prod.mk.inj hpair
    exact ⟨(e.key, e.dep), hp, by rw [hsource, htarget]⟩

end Link

open Link

/-- The arc of an edge. -/
def Edge.arc (e : Edge) : Arc := ⟨e.source, e.target, e.dep⟩

namespace Graph

/-- The arcs of a graph, once for each edge. -/
def arcs (g : Graph) : List Arc := g.linkedEdges.map Edge.arc

/-- Each pair of nodes has one link, and in a link each key has one edge. -/
structure Linked (g : Graph) : Prop where
  pairs : (g.links.map Link.pair).Nodup
  keys : ∀ l ∈ g.links, l.keys.Nodup

/-! ## Adding edges -/

theorem map_pair_addToLinks (s t : NodeId) (d : Dependence) (ls : List Link) :
    (addToLinks s t d ls).map pair = addNew (ls.map pair) (s, t) := by
  induction ls with
  | nil => rfl
  | cons l ls ih =>
    unfold addToLinks
    by_cases hl : l.joins s t
    · rw [if_pos hl]
      have hpair : l.pair = (s, t) := joins_iff.1 hl
      have hadd : (l.add d).pair = l.pair := rfl
      simp [addNew, hpair, hadd]
    · rw [if_neg hl, map_cons, ih]
      have hpair : ¬(s, t) = l.pair := fun h => hl (joins_iff.2 h.symm)
      by_cases hmem : (s, t) ∈ ls.map pair
      · simp [addNew, hmem]
      · simp [addNew, hmem, hpair]

variable {ls : List Link} {as : List Arc}

theorem mem_addToLinks_cases {s t : NodeId} {d : Dependence} (hl : l ∈ addToLinks s t d ls) :
    l ∈ ls ∨ l = ⟨s, t, [(0, d)]⟩ ∨ ∃ l' ∈ ls, l'.pair = (s, t) ∧ l = l'.add d := by
  induction ls with
  | nil =>
    rw [addToLinks, mem_singleton] at hl
    exact .inr (.inl hl)
  | cons k ls ih =>
    unfold addToLinks at hl
    by_cases hk : k.joins s t
    · rw [if_pos hk] at hl
      rcases mem_cons.1 hl with rfl | hl
      · exact .inr (.inr ⟨k, by simp, joins_iff.1 hk, rfl⟩)
      · exact .inl (by simp [hl])
    · rw [if_neg hk] at hl
      rcases mem_cons.1 hl with rfl | hl
      · exact .inl (by simp)
      · rcases ih hl with h | h | ⟨l', hl', h⟩
        · exact .inl (by simp [h])
        · exact .inr (.inl h)
        · exact .inr (.inr ⟨l', by simp [hl'], h⟩)

theorem Linked.addEdge (h : g.Linked) (s t : NodeId) (d : Dependence) : (g.addEdge s t d).Linked := by
  constructor
  · show ((addToLinks s t d g.links).map pair).Nodup
    rw [map_pair_addToLinks]
    exact nodup_addNew h.pairs
  · intro l hl
    rcases mem_addToLinks_cases hl with hl | rfl | ⟨l', hl', -, rfl⟩
    · exact h.keys l hl
    · simp [Link.keys]
    · rw [show (l'.add d).keys = l'.keys ++ [nextKey l'.keys] by simp [Link.keys, Link.add], nodup_append]
      refine ⟨h.keys l' hl', by simp, ?_⟩
      rintro k hk k' hk' rfl
      rw [mem_singleton.1 hk'] at hk
      exact nextKey_notMem _ hk

@[simp]
theorem addArcs_nil (g : Graph) : g.addArcs [] = g := rfl

@[simp]
theorem addArcs_cons (g : Graph) (a : Arc) (as : List Arc) :
    g.addArcs (a :: as) = (g.addEdge a.source a.target a.dep).addArcs as := rfl

theorem addArcs_append (g : Graph) (as bs : List Arc) : g.addArcs (as ++ bs) = (g.addArcs as).addArcs bs :=
  foldl_append

@[simp]
theorem nodes_addArcs (g : Graph) (as : List Arc) : (g.addArcs as).nodes = g.nodes := by
  induction as generalizing g with
  | nil => rfl
  | cons a as ih => rw [addArcs_cons, ih, addEdge]

theorem mem_map_pair_addArcs {pair : NodeId × NodeId} :
    pair ∈ (g.addArcs as).links.map Link.pair ↔
      pair ∈ g.links.map Link.pair ∨ ∃ a ∈ as, (a.source, a.target) = pair := by
  induction as generalizing g with
  | nil => simp
  | cons a as ih =>
    have hadd : (g.addEdge a.source a.target a.dep).links.map Link.pair =
        addNew (g.links.map Link.pair) (a.source, a.target) := map_pair_addToLinks _ _ _ _
    rw [addArcs_cons, ih, hadd, mem_addNew, exists_mem_cons_iff, or_assoc, eq_comm]

theorem WellFormed.addArcs (h : g.WellFormed) (has : ∀ a ∈ as, (g.node? a.target).isSome) :
    (g.addArcs as).WellFormed := by
  have hnodes : (g.addArcs as).node? = g.node? := by
    funext id
    rw [node?, nodes_addArcs, node?]
  refine ⟨fun id n hn => h.keyed id n (hnodes ▸ hn), fun l hl => ?_⟩
  rw [hnodes]
  rcases mem_map_pair_addArcs.1 (mem_map.2 ⟨l, hl, rfl⟩) with hpair | ⟨a, ha, hpair⟩
  · obtain ⟨l', hl', hpair⟩ := mem_map.1 hpair
    rw [← (Prod.mk.inj hpair).2]
    exact h.closed l' hl'
  · rw [← (Prod.mk.inj hpair).2]
    exact has a ha

theorem Linked.addArcs (h : g.Linked) (as : List Arc) : (g.addArcs as).Linked :=
  foldlRecOn as _ h fun _ hg a _ => hg.addEdge a.source a.target a.dep

theorem arcs_addToLinks_perm (s t : NodeId) (d : Dependence) (ls : List Link) :
    ((addToLinks s t d ls).flatMap toEdges).map Edge.arc ~
      (ls.flatMap toEdges).map Edge.arc ++ [⟨s, t, d⟩] := by
  induction ls with
  | nil => exact Perm.refl _
  | cons l ls ih =>
    unfold addToLinks
    by_cases hl : l.joins s t
    · have hadd : (l.add d).toEdges.map Edge.arc = l.toEdges.map Edge.arc ++ [⟨s, t, d⟩] := by
        obtain ⟨hsource, htarget⟩ := Prod.mk.inj (joins_iff.1 hl)
        simp [toEdges, add, Edge.arc, hsource, htarget]
      rw [if_pos hl, flatMap_cons, flatMap_cons, map_append, map_append, hadd,
        append_assoc, append_assoc]
      exact perm_append_comm.append_left _
    · rw [if_neg hl, flatMap_cons, flatMap_cons, map_append, map_append, append_assoc]
      exact ih.append_left _

theorem arcs_addArcs_perm (g : Graph) (as : List Arc) : (g.addArcs as).arcs ~ g.arcs ++ as := by
  induction as generalizing g with
  | nil =>
    rw [addArcs_nil, append_nil]
  | cons a as ih =>
    have hadd : (g.addEdge a.source a.target a.dep).arcs ~ g.arcs ++ [a] :=
      arcs_addToLinks_perm a.source a.target a.dep g.links
    refine (ih _).trans ((hadd.append_right as).trans ?_)
    rw [append_assoc, singleton_append]

/-! ## Removing edges -/

theorem Linked.of_sublists {g' : Graph} (h : g.Linked) {f : Link → Link} (hpair : ∀ l, (f l).pair = l.pair)
    (hedges : ∀ l, (f l).edges.Sublist l.edges) (hlinks : g'.links.Sublist (g.links.map f)) : g'.Linked := by
  constructor
  · have hmap : (g.links.map f).map pair = g.links.map pair := by
      rw [map_map]
      exact map_congr_left fun l _ => hpair l
    exact (hmap ▸ hlinks.map pair).nodup h.pairs
  · intro l hl
    obtain ⟨l', hl', rfl⟩ := mem_map.1 (hlinks.subset hl)
    exact ((hedges l').map Prod.fst).nodup (h.keys l' hl')

theorem Linked.removeEdges (h : g.Linked) (p : Edge → Bool) : (g.removeEdges p).Linked :=
  h.of_sublists (f := fun l => { l with edges := l.edges.filter fun e => !p ⟨l.source, l.target, e.1, e.2⟩ })
    (fun _ => rfl) (fun _ => filter_sublist) filter_sublist

theorem Linked.restrictTo (h : g.Linked) (ids : List NodeId) : (g.restrictTo ids).Linked :=
  h.of_sublists (f := id) (fun _ => rfl) (fun _ => Sublist.refl _) (by
    rw [map_id]
    exact filter_sublist)

/-! ## The edges of a graph -/

theorem mem_arcs_iff {a : Arc} : a ∈ g.arcs ↔ ∃ e ∈ g.linkedEdges, e.arc = a := mem_map

theorem mem_linkedEdges_iff {e : Edge} :
    e ∈ g.linkedEdges ↔ ∃ l ∈ g.links, l.pair = (e.source, e.target) ∧ (e.key, e.dep) ∈ l.edges := by
  simp only [linkedEdges, mem_flatMap, mem_toEdges_iff]

theorem outEdges_sublist (g : Graph) (id : NodeId) : g.outEdges id <+ g.linkedEdges := filter_sublist.flatMap _

theorem mem_outData_iff {id : NodeId} {e : Edge} :
    e ∈ g.outData id ↔ e.source = id ∧ e ∈ g.linkedEdges ∧ e.dep.edge = .data := by
  rw [outData, outEdgesOf, mem_filter, mem_outEdges_iff, and_assoc]
  simp [linkedEdges]

theorem linkedEdges_removeEdges (g : Graph) (p : Edge → Bool) :
    (g.removeEdges p).linkedEdges = g.linkedEdges.filter fun e => !p e := by
  unfold linkedEdges removeEdges
  induction g.links with
  | nil => rfl
  | cons l ls ih =>
    have hl : ({ l with edges := l.edges.filter fun e => !p ⟨l.source, l.target, e.1, e.2⟩ } : Link).toEdges =
        l.toEdges.filter fun e => !p e := by
      rw [toEdges, toEdges, filter_map]
      rfl
    rw [map_cons, flatMap_cons, filter_append, ← ih, ← hl, filter_cons]
    split
    · rw [flatMap_cons]
    · rename_i hempty
      have hnil : l.edges.filter (fun e => !p ⟨l.source, l.target, e.1, e.2⟩) = [] := by
        simpa using hempty
      rw [hnil]
      rfl

theorem linkedEdges_restrictTo (g : Graph) (ids : List NodeId) :
    (g.restrictTo ids).linkedEdges = g.linkedEdges.filter fun e => ids.contains e.source &&
      ids.contains e.target := by
  unfold linkedEdges restrictTo
  induction g.links with
  | nil => rfl
  | cons l ls ih =>
    rw [flatMap_cons, filter_append, ← ih, filter_cons]
    have hends : ∀ e ∈ l.toEdges, (ids.contains e.source && ids.contains e.target) =
        (ids.contains l.source && ids.contains l.target) := by
      intro e he
      obtain ⟨hsource, htarget⟩ := Prod.mk.inj (mem_toEdges_iff.1 he).1
      rw [hsource, htarget]
    rw [filter_congr hends]
    by_cases hin : (ids.contains l.source && ids.contains l.target)
    · rw [if_pos hin, hin, filter_true, flatMap_cons]
    · rw [if_neg hin, Bool.eq_false_iff.2 hin, filter_false, nil_append]

theorem filter_joins (hpairs : (ls.map pair).Nodup) (hl : l ∈ ls) :
    (ls.flatMap toEdges).filter (fun e => l.joins e.source e.target) = l.toEdges := by
  have hself : ∀ e ∈ l.toEdges, l.joins e.source e.target := fun e he =>
    joins_iff.2 (mem_toEdges_iff.1 he).1
  have hother : ∀ k : Link, k.pair ≠ l.pair → k.toEdges.filter (fun e => l.joins e.source e.target) = [] := by
    intro k hk
    rw [filter_eq_nil_iff]
    intro e he hjoins
    exact hk ((mem_toEdges_iff.1 he).1.trans (joins_iff.1 hjoins).symm)
  induction ls with
  | nil => cases hl
  | cons k ls ih =>
    rw [map_cons, nodup_cons] at hpairs
    rw [flatMap_cons, filter_append]
    rcases mem_cons.1 hl with rfl | hl
    · have hrest : (ls.flatMap toEdges).filter (fun e => l.joins e.source e.target) = [] := by
        rw [filter_flatMap, flatMap_eq_nil_iff]
        intro k hk
        exact hother k fun heq => hpairs.1 (heq ▸ mem_map.2 ⟨k, hk, rfl⟩)
      rw [hrest, append_nil, filter_eq_self.2 hself]
    · rw [hother k fun heq => hpairs.1 (heq ▸ mem_map.2 ⟨l, hl, rfl⟩)]
      exact ih hpairs.2 hl

theorem Linked.eq_of_same (h : g.Linked) {a b : Edge} (ha : a ∈ g.linkedEdges)
    (hb : b ∈ g.linkedEdges) (hsame : a.same b) : a = b := by
  obtain ⟨⟨hsource, htarget⟩, hkey⟩ : (a.source = b.source ∧ a.target = b.target) ∧ a.key = b.key := by
    simpa [Edge.same] using hsame
  obtain ⟨l, hl, hla, hea⟩ := mem_linkedEdges_iff.1 ha
  obtain ⟨k, hk, hkb, heb⟩ := mem_linkedEdges_iff.1 hb
  have hlk : l = k := by
    refine inj_on_of_nodup_map h.pairs hl hk ?_
    rw [hla, hkb, hsource, htarget]
  subst hlk
  have hdep : (a.key, a.dep) = (b.key, b.dep) := inj_on_of_nodup_map (h.keys l hl) hea heb hkey
  cases a
  simp_all

end Graph

end ParallelPatterns
