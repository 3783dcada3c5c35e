import Mathlib.Data.List.Chain
import ParallelPatterns.Proofs.Subtree

/-!
# Nodes on the way

The search for the nodes between a source and a target starts with the units that follow the source,
and goes on without entering the two again, which it tells by their numbers. It does not ask whether
a node leads to the target. So what it meets lies on the way if and only if everything that it meets
leads to the target. In the other direction it meets every unit on the way, if it meets those that
have the numbers of the source or of the target.
-/

namespace ParallelPatterns.Graph

open List

variable {g : Graph} {target source n : Node} {kinds : List EdgeKind} {id : NodeId} {inner : List Node}

/-- The search turns to the node: it has neither the numbers of the source nor those of the
target. -/
def Enters (g : Graph) (target source : Node) (kinds : List EdgeKind) (a b : NodeId) : Prop :=
  ∃ n ∈ g.targets (g.outEdgesOf a kinds), n.id = b ∧ n.alike target = false ∧ n.alike source = false

/-- A way leads from a unit that follows the source to the node, and enters neither the source nor
the target. -/
def Passed (g : Graph) (target source : Node) (kinds : List EdgeKind) (id : NodeId) : Prop :=
  ∃ u ∈ g.targets (g.outEdgesOf source.id kinds), u.isUnit ∧
    Relation.ReflTransGen (g.Enters target source kinds) u.id id

/-- A way over edges of the given kinds that visits only units, and its ends only once. -/
structure UnitWay (g : Graph) (kinds : List EdgeKind) (source target : Node) (inner : List Node) : Prop where
  chain : (source :: inner ++ [target]).IsChain fun a b => b ∈ g.targets (g.outEdgesOf a.id kinds)
  units : ∀ n ∈ source :: inner ++ [target], n.isUnit
  ends : ∀ n ∈ inner, n.id ≠ source.id ∧ n.id ≠ target.id

/-- The nodes are those on the way from the source to the target: all of them lie on such a way, and
the units inside of a way of units are among them. -/
structure OnTheWay (g : Graph) (target source : Node) (kinds : List EdgeKind) (ids : List NodeId) : Prop where
  sound : ∀ id ∈ ids, g.Reaches kinds source.id id ∧ g.Reaches kinds id target.id
  complete : ∀ inner, g.UnitWay kinds source target inner → ∀ n ∈ inner, n.id ∈ ids

section

variable (hg : g.WellFormed)
include hg

theorem mem_between_iff : id ∈ g.between target source kinds ↔ g.Passed target source kinds id := by
  have hknown : ∀ (q : Node → Bool) a, ((g.targets (g.outEdgesOf a kinds)).filter q).map (·.id) ⊆ g.nodes.keys := by
    intro q a b hb
    obtain ⟨n, hn, rfl⟩ := mem_map.1 hb
    exact hg.targets_subset kinds a ((mem_targets_iff hg).1 (mem_filter.1 hn).1).2
  have hsize : g.size = g.nodes.keys.length := by simp [size, Table.keys]
  have henters : (fun a b => b ∈ ((g.targets (g.outEdgesOf a kinds)).filter fun n =>
      !n.alike target && !n.alike source).map (·.id)) = g.Enters target source kinds := by
    funext a b
    simp only [mem_map, mem_filter, Bool.and_eq_true, Bool.not_eq_true']
    exact propext (exists_congr fun n => by tauto)
  rw [between, hsize, (Search.depthFirst_preorder (fun a _ => hknown _ a) (hknown _ source.id)).2.2,
    Search.Leads, henters]
  simp only [mem_map, mem_filter]
  constructor
  · rintro ⟨_, ⟨u, ⟨hu, hunit⟩, rfl⟩, hway⟩
    exact ⟨u, hu, hunit, hway⟩
  · rintro ⟨u, hu, hunit, hway⟩
    exact ⟨u.id, ⟨u, ⟨hu, hunit⟩, rfl⟩, hway⟩

theorem Passed.reaches (h : g.Passed target source kinds id) : g.Reaches kinds source.id id := by
  obtain ⟨u, hu, -, hway⟩ := h
  refine .head ((mem_targets_iff hg).1 hu).2 (Relation.ReflTransGen.mono (fun a b hab => ?_) _ _ hway)
  obtain ⟨n, hn, rfl, -⟩ := hab
  exact ((mem_targets_iff hg).1 hn).2

end

theorem Passed.enter (h : g.Passed target source kinds id) (hn : n ∈ g.targets (g.outEdgesOf id kinds))
    (htarget : n.alike target = false) (hsource : n.alike source = false) : g.Passed target source kinds n.id := by
  obtain ⟨u, hu, hunit, hway⟩ := h
  exact ⟨u, hu, hunit, hway.tail ⟨n, hn, rfl, htarget, hsource⟩⟩

theorem passed_of_isChain {a : Node} (hchain : (a :: inner).IsChain fun a b => b ∈ g.targets (g.outEdgesOf a.id kinds))
    (ha : g.Passed target source kinds a.id)
    (htwins : ∀ n ∈ inner, n.alike source ∨ n.alike target → g.Passed target source kinds n.id) :
    ∀ n ∈ inner, g.Passed target source kinds n.id := by
  induction inner generalizing a with
  | nil => simp
  | cons b inner ih =>
    obtain ⟨hab, hchain⟩ := isChain_cons_cons.1 hchain
    obtain ⟨htwin, htwins⟩ := forall_mem_cons.1 htwins
    have hb : g.Passed target source kinds b.id := by
      by_cases halike : b.alike source ∨ b.alike target
      · exact htwin halike
      · simp only [not_or, Bool.not_eq_true] at halike
        exact ha.enter hab halike.2 halike.1
    exact forall_mem_cons.2 ⟨hb, ih hchain hb htwins⟩

theorem UnitWay.passed (h : g.UnitWay kinds source target inner)
    (htwins : ∀ n ∈ inner, n.alike source ∨ n.alike target → g.Passed target source kinds n.id) :
    ∀ n ∈ inner, g.Passed target source kinds n.id := by
  cases inner with
  | nil => simp
  | cons u inner =>
    obtain ⟨hu, hchain⟩ := isChain_cons_cons.1 h.chain
    -- the first unit follows the source, whatever its numbers are
    have hfirst : g.Passed target source kinds u.id := ⟨u, hu, h.units u (by simp), .refl⟩
    exact forall_mem_cons.2
      ⟨hfirst, passed_of_isChain hchain.left_of_append hfirst (forall_mem_cons.1 htwins).2⟩

/-- The nodes that are met are those on the way from the source to the target if and only if all of
them lead to the target, and those that have the numbers of the source or of the target, and lie
inside of a way of units, are met. -/
theorem between_onTheWay_iff (hg : g.WellFormed) (target source : Node) (kinds : List EdgeKind) :
    (∀ id, id ∈ g.between target source kinds ↔ g.Passed target source kinds id) ∧
      (g.OnTheWay target source kinds (g.between target source kinds) ↔
        (∀ id, g.Passed target source kinds id → g.Reaches kinds id target.id) ∧
        ∀ inner, g.UnitWay kinds source target inner → ∀ n ∈ inner, n.alike source ∨
          n.alike target → g.Passed target source kinds n.id) := by
  have hmem : ∀ id, id ∈ g.between target source kinds ↔ g.Passed target source kinds id :=
    fun id => mem_between_iff hg
  refine ⟨hmem, fun h => ⟨fun id hid => (h.sound id ((hmem id).2 hid)).2, fun inner hway n hn _ => ?_⟩, ?_⟩
  · exact (hmem _).1 (h.complete inner hway n hn)
  · rintro ⟨hleads, htwins⟩
    refine ⟨fun id hid => ?_, fun inner hway n hn => (hmem _).2 (hway.passed (htwins inner hway) n hn)⟩
    exact ⟨((hmem id).1 hid).reaches hg, hleads id ((hmem id).1 hid)⟩

theorem exists_mem_targets_of_isChain {a : Node}
    (hchain : (a :: inner).IsChain fun a b => b ∈ g.targets (g.outEdgesOf a.id kinds))
    (hn : n ∈ inner) : ∃ b, n ∈ g.targets (g.outEdgesOf b kinds) := by
  induction inner generalizing a with
  | nil => cases hn
  | cons b inner ih =>
    obtain ⟨hab, hchain⟩ := isChain_cons_cons.1 hchain
    rcases mem_cons.1 hn with rfl | hn
    · exact ⟨a.id, hab⟩
    · exact ih hchain hn

theorem UnitWay.not_alike (h : g.UnitWay kinds source target inner)
    (hnumbers : ∀ e ∈ g.nodes.entries, e.2.alike source ∨ e.2.alike target → e.2.id = source.id ∨ e.2.id = target.id)
    (hn : n ∈ inner) : ¬(n.alike source ∨ n.alike target) := by
  obtain ⟨a, ha⟩ := exists_mem_targets_of_isChain h.chain (mem_append_left _ hn)
  obtain ⟨e, -, he⟩ := mem_filterMap.1 ha
  intro halike
  rcases hnumbers _ (Table.mem_of_get? he) halike with hsame | hsame
  · exact (h.ends n hn).1 hsame
  · exact (h.ends n hn).2 hsame

/-- Units in a row, and one beside it. -/
def forkedUnits : Graph :=
  ofEdges [numbered "1:1" 1 (.unit {}), numbered "1:2" 2 (.unit {}), numbered "1:3" 3 (.unit {}),
      numbered "1:4" 4 (.unit {}), numbered "1:5" 5 (.unit {})]
    [("1:1", "1:2", .successor), ("1:1", "1:4", .successor), ("1:2", "1:3", .successor), ("1:3", "1:5", .successor)]

/-- Between the second and the last unit of the row there is the third one. -/
theorem between_onTheWay_forkedUnits :
    let source := numbered "1:2" 2 (.unit {})
    let target := numbered "1:5" 5 (.unit {})
    forkedUnits.WellFormed ∧ "1:3" ∈ forkedUnits.between target source [.successor] ∧
      forkedUnits.OnTheWay target source [.successor] (forkedUnits.between target source [.successor]) := by
  intro source target
  have hg : forkedUnits.WellFormed := .of_entries (by decide) (by decide)
  obtain ⟨hmem, hiff⟩ := between_onTheWay_iff hg target source [.successor]
  refine ⟨hg, by decide, hiff.2 ⟨fun id hid => ?_, fun inner hway n hn halike => ?_⟩⟩
  · have hall : ∀ id ∈ forkedUnits.between target source [.successor], id = "1:3" := by decide
    rw [hall id ((hmem id).2 hid)]
    exact .single (by decide)
  · exact absurd halike (hway.not_alike (by decide) hn)

/-- The unit beside the row is met, and does not lead to the third unit of the row. -/
theorem not_between_onTheWay_forkedUnits :
    let source := numbered "1:1" 1 (.unit {})
    let target := numbered "1:3" 3 (.unit {})
    "1:4" ∈ forkedUnits.between target source [.successor] ∧ ¬forkedUnits.Reaches [.successor] "1:4" target.id := by
  intro source target
  refine ⟨by decide, fun hreaches => ?_⟩
  rcases Relation.ReflTransGen.cases_head hreaches with hsame | ⟨id, hid, -⟩
  · exact absurd hsame (by decide)
  · exact not_mem_nil (show id ∈ [] from hid)

end ParallelPatterns.Graph
