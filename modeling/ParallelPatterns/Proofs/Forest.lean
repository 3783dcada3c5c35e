import ParallelPatterns.Proofs.Links
import ParallelPatterns.Proofs.Subtree

/-!
# Forests

A relation is a forest where nothing follows two elements, or one element twice, and nothing lies
below itself. Two elements above a third one then lie on one way. So what lies below two children of
an element has nothing in common, and in a finite space fewer elements lie below a child than below
its parent.
-/

namespace ParallelPatterns

open List

namespace Search

variable {α : Type} {next : α → List α} {p : α → Prop} {x y z c d : α}

/-- The second element lies below the first one, by at least one turn. -/
def Under (next : α → List α) : α → α → Prop := Relation.TransGen fun a b => b ∈ next a

theorem leads_iff_eq_or_under : Leads next x y ↔ y = x ∨ Under next x y :=
  Relation.reflTransGen_iff_eq_or_transGen

theorem under_iff_exists_child : Under next x y ↔ ∃ c ∈ next x, Leads next c y :=
  Relation.TransGen.head'_iff

/-- The elements with a property, and what lies below them, form a forest. -/
structure ForestOn (next : α → List α) (p : α → Prop) : Prop where
  closed : ∀ {x y}, p x → y ∈ next x → p y
  nodup : ∀ {x}, p x → (next x).Nodup
  oneParent : ∀ {x y z}, p x → p y → z ∈ next x → z ∈ next y → x = y
  acyclic : ∀ {x}, p x → ¬Under next x x

namespace ForestOn

variable (h : ForestOn next p)
include h

theorem closed_of_leads (hx : p x) (hleads : Leads next x y) : p y := by
  induction hleads with
  | refl => exact hx
  | tail _ hstep ih => exact h.closed ih hstep

theorem tree (hx : p x) : ForestOn next (Leads next x) where
  closed hy hz := hy.tail hz
  nodup hy := h.nodup (h.closed_of_leads hx hy)
  oneParent hy hz := h.oneParent (h.closed_of_leads hx hy) (h.closed_of_leads hx hz)
  acyclic hy := h.acyclic (h.closed_of_leads hx hy)

theorem leads_or_leads (hx : p x) (hy : p y) (hxz : Leads next x z) (hyz : Leads next y z) :
    Leads next x y ∨ Leads next y x := by
  induction hxz with
  | refl => exact .inr hyz
  | @tail w z hxw hstep ih =>
    rcases Relation.ReflTransGen.cases_tail hyz with rfl | ⟨v, hyv, hstep'⟩
    · exact .inl (.tail hxw hstep)
    · obtain rfl := h.oneParent (h.closed_of_leads hx hxw) (h.closed_of_leads hy hyv) hstep hstep'
      exact ih hyv

theorem eq_of_leads_sibling (hx : p x) (hc : c ∈ next x) (hd : d ∈ next x) (hleads : Leads next c d) : c = d := by
  rcases Relation.ReflTransGen.cases_tail hleads with rfl | ⟨w, hcw, hstep⟩
  · rfl
  · obtain rfl := h.oneParent hx (h.closed_of_leads (h.closed hx hc) hcw) hd hstep
    exact absurd (under_iff_exists_child.2 ⟨c, hc, hcw⟩) (h.acyclic hx)

theorem eq_of_leads_of_leads (hx : p x) (hc : c ∈ next x) (hd : d ∈ next x) (hcz : Leads next c z)
    (hdz : Leads next d z) : c = d := by
  rcases h.leads_or_leads (h.closed hx hc) (h.closed hx hd) hcz hdz with hleads | hleads
  · exact h.eq_of_leads_sibling hx hc hd hleads
  · exact (h.eq_of_leads_sibling hx hd hc hleads).symm

end ForestOn

open Classical in
noncomputable def countBelow (r : α → α → Prop) (space : List α) (x : α) : Nat :=
  (space.filter fun y => Relation.TransGen r x y).length

theorem countBelow_le (r : α → α → Prop) (space : List α) (x : α) : countBelow r space x ≤ space.length :=
  length_filter_le _ _

open Classical in
theorem countBelow_lt {r : α → α → Prop} {space : List α} (hc : r x c) (hspace : c ∈ space)
    (hacyclic : ¬Relation.TransGen r c c) : countBelow r space c < countBelow r space x := by
  refine length_filter_lt (fun y hy => ?_) hspace ?_ (decide_eq_false hacyclic)
  · exact decide_eq_true (Relation.TransGen.head hc (of_decide_eq_true hy))
  · exact decide_eq_true (Relation.TransGen.single hc)

noncomputable def countUnder (next : α → List α) : List α → α → Nat := countBelow fun a b => b ∈ next a

theorem ForestOn.countUnder_lt (h : ForestOn next p) {space : List α} (hx : p x) (hc : c ∈ next x)
    (hspace : c ∈ space) : countUnder next space c < countUnder next space x :=
  countBelow_lt hc hspace (h.acyclic (h.closed hx hc))

end Search

namespace Graph

open Search

variable {g : Graph} {id : NodeId}

/-- The identifiers of the children of a node. -/
def childIds (g : Graph) (id : NodeId) : List NodeId := (g.outEdgesOf id [.child]).map (·.target)

/-- Child edges form a forest. -/
def ChildForest (g : Graph) : Prop := ForestOn g.childIds fun _ => True

theorem mem_childIds_iff {c : NodeId} :
    c ∈ g.childIds id ↔ ∃ e ∈ g.linkedEdges.filter fun e => e.dep.edge == .child, e.source = id ∧ e.target = c := by
  simp only [childIds, mem_map, outEdgesOf, mem_filter, mem_outEdges_iff, linkedEdges]
  simp
  tauto

theorem ChildForest.of_edges
    (htargets : ((g.linkedEdges.filter fun e => e.dep.edge == .child).map (·.target)).Nodup)
    (rank : NodeId → Nat)
    (hrank : ∀ e ∈ g.linkedEdges.filter fun e => e.dep.edge == .child,
      rank e.source < rank e.target) : g.ChildForest where
  closed _ _ := trivial
  nodup {x} _ := by
    have hchild : (fun e : Edge => [EdgeKind.child].contains e.dep.edge) = fun e => e.dep.edge == .child :=
      funext fun e => Bool.or_false _
    rw [childIds, outEdgesOf, hchild]
    exact htargets.sublist (((g.outEdges_sublist x).filter _).map _)
  oneParent {x y z} _ _ hx hy := by
    obtain ⟨e, he, rfl, htarget⟩ := mem_childIds_iff.1 hx
    obtain ⟨e', he', rfl, htarget'⟩ := mem_childIds_iff.1 hy
    rw [inj_on_of_nodup_map htargets he he' (htarget.trans htarget'.symm)]
  acyclic {x} _ hunder := by
    have hless : ∀ y, Under g.childIds x y → rank x < rank y := by
      intro y hy
      induction hy with
      | single hstep =>
        obtain ⟨e, he, rfl, rfl⟩ := mem_childIds_iff.1 hstep
        exact hrank e he
      | tail _ hstep ih =>
        obtain ⟨e, he, rfl, rfl⟩ := mem_childIds_iff.1 hstep
        exact Nat.lt_trans ih (hrank e he)
    exact Nat.lt_irrefl _ (hless x hunder)

end Graph

end ParallelPatterns
