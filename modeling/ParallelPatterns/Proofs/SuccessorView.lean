import ParallelPatterns.Proofs.Metadata

/-!
# The successor view

The view of a graph with its successor edges only is made without keys: for every other edge, the
edge that came in last between the same nodes is removed. This takes away the right edges because of
the order in which edges come in. In each link the successor edges are the oldest ones, so the `k`
others are the `k` last edges.

The order is an invariant. A node gets its successors before all its other edges, no later step adds
a successor, and removing edges does not reorder those that stay. So in the graph of a program the
view has exactly the successor edges, functions know exactly what their nodes reach over successors,
and the flow graph of a function has exactly the successor edges between its nodes.
-/

namespace ParallelPatterns

open List

namespace Graph

variable {g g' : Graph} {id : NodeId} {as : List Arc}

def SuccessorsFirst (g : Graph) : Prop :=
  ∀ l ∈ g.links, l.edges.Pairwise fun a b => b.2.edge = .successor → a.2.edge = .successor

/-! ## Removing edges without keys -/

theorem take_countP_eq_filter {α : Type} {p : α → Bool} {xs : List α}
    (h : xs.Pairwise fun a b => p b → p a) : xs.take (xs.countP p) = xs.filter p := by
  induction xs with
  | nil => rfl
  | cons x xs ih =>
    obtain ⟨hx, hxs⟩ := pairwise_cons.1 h
    by_cases hpx : p x
    · rw [countP_cons_of_pos hpx, take_succ_cons, filter_cons_of_pos hpx, ih hxs]
    · have hnone : ∀ y ∈ xs, ¬p y := fun y hy hpy => hpx (hx y hy hpy)
      rw [countP_cons_of_neg hpx, countP_eq_zero.2 hnone, take_zero, filter_cons_of_neg hpx,
        filter_eq_nil_iff.2 hnone]

theorem flatMap_toEdges_filter_nonempty (f : Link → List Edge) (hf : ∀ l, l.edges = [] → f l = [])
    (ls : List Link) : (ls.filter fun l => !l.edges.isEmpty).flatMap f = ls.flatMap f := by
  induction ls with
  | nil => rfl
  | cons l ls ih =>
    by_cases hl : l.edges = []
    · rw [filter_cons_of_neg (by simp [hl]), ih, flatMap_cons, hf l hl, nil_append]
    · rw [filter_cons_of_pos (by simp [hl]), flatMap_cons, ih, flatMap_cons]

theorem linkedEdges_foldl_removeLast (es : List Edge) (g : Graph) :
    (es.foldl (fun g e => g.removeLast e.source e.target) g).linkedEdges =
      g.links.flatMap fun l =>
        l.toEdges.take (l.toEdges.length - es.countP fun e => l.joins e.source e.target) := by
  induction es generalizing g with
  | nil => simp [linkedEdges]
  | cons e es ih =>
    rw [foldl_cons, ih]
    refine (flatMap_toEdges_filter_nonempty _ (fun l hl => by simp [Link.toEdges, hl]) _).trans ?_
    rw [flatMap_map]
    refine flatMap_congr fun l _ => ?_
    by_cases hl : l.joins e.source e.target
    · have hdrop : ({ l with edges := l.edges.dropLast } : Link).toEdges =
        l.toEdges.take (l.toEdges.length - 1) := by
        rw [Link.toEdges, map_dropLast, dropLast_eq_take]
        rfl
      have hcount : (e :: es).countP (fun e => l.joins e.source e.target) =
          es.countP (fun e => l.joins e.source e.target) + 1 := countP_cons_of_pos hl
      have hjoins : ∀ e : Edge, ({ l with edges := l.edges.dropLast } : Link).joins e.source e.target =
          l.joins e.source e.target := fun _ => rfl
      rw [if_pos hl, hdrop, take_take, length_take]
      simp only [hjoins]
      congr 1
      omega
    · have hcount : (e :: es).countP (fun e => l.joins e.source e.target) =
          es.countP (fun e => l.joins e.source e.target) := countP_cons_of_neg hl
      rw [if_neg hl, hcount]

theorem linkedEdges_successorView (h : g.Linked) (hfirst : g.SuccessorsFirst) :
    g.successorView.linkedEdges = g.linkedEdges.filter fun e => e.dep.edge == .successor := by
  rw [successorView, linkedEdges_foldl_removeLast]
  conv_rhs => rw [linkedEdges, filter_flatMap]
  refine flatMap_congr fun l hl => ?_
  -- the others between the nodes of a link are the others of the link
  have hcount : (g.linkedEdges.filter fun e => e.dep.edge != .successor).countP
      (fun e => l.joins e.source e.target) = l.toEdges.countP fun e => e.dep.edge != .successor := by
    rw [countP_filter, ← filter_joins h.pairs hl, countP_filter]
    exact countP_congr fun e _ => by rw [Bool.and_comm]
  have hlength : l.toEdges.length - (l.toEdges.countP fun e => e.dep.edge != .successor) =
      l.toEdges.countP fun e => e.dep.edge == .successor := by
    have := length_eq_countP_add_countP (fun e : Edge => e.dep.edge == .successor) (l := l.toEdges)
    simp only [bne]
    have hneg : (fun e : Edge => decide ¬(e.dep.edge == .successor)) = fun e => !(e.dep.edge == .successor) := by
      funext e
      cases e.dep.edge == .successor <;> rfl
    rw [hneg] at this
    omega
  rw [hcount, hlength]
  refine take_countP_eq_filter ?_
  rw [Link.toEdges, pairwise_map]
  simpa using hfirst l hl

@[simp]
theorem nodes_successorView (g : Graph) : g.successorView.nodes = g.nodes :=
  foldlRecOn _ _ (motive := fun b : Graph => b.nodes = g.nodes) rfl fun _ hb _ _ => hb

/-! ## Keeping the order -/

theorem SuccessorsFirst.of_sublists (h : g.SuccessorsFirst)
    (hlinks : ∀ l' ∈ g'.links, ∃ l ∈ g.links, l'.edges.Sublist l.edges) : g'.SuccessorsFirst := by
  intro l' hl'
  obtain ⟨l, hl, hsublist⟩ := hlinks l' hl'
  exact (h l hl).sublist hsublist

theorem SuccessorsFirst.removeEdges (h : g.SuccessorsFirst) (p : Edge → Bool) :
    (g.removeEdges p).SuccessorsFirst := by
  refine h.of_sublists fun l' hl' => ?_
  obtain ⟨l, hl, rfl⟩ := mem_map.1 (mem_filter.1 hl').1
  exact ⟨l, hl, filter_sublist⟩

theorem SuccessorsFirst.restrictTo (h : g.SuccessorsFirst) (ids : List NodeId) :
    (g.restrictTo ids).SuccessorsFirst :=
  h.of_sublists fun l hl => ⟨l, (mem_filter.1 hl).1, Sublist.refl _⟩

def OnlySuccessors (g : Graph) (id : NodeId) : Prop :=
  ∀ l ∈ g.links, l.source = id → ∀ e ∈ l.edges, e.2.edge = .successor

theorem SuccessorsFirst.addEdge (h : g.SuccessorsFirst) {s t : NodeId} {d : Dependence}
    (hd : d.edge = .successor → g.OnlySuccessors s) : (g.addEdge s t d).SuccessorsFirst := by
  intro l hl
  rcases mem_addToLinks_cases hl with hl | rfl | ⟨l', hl', hpair, rfl⟩
  · exact h l hl
  · exact pairwise_singleton _ _
  · rw [Link.add, pairwise_append]
    refine ⟨h l' hl', pairwise_singleton _ _, fun a ha b hb hsucc => ?_⟩
    rw [mem_singleton.1 hb] at hsucc
    exact hd hsucc l' hl' (Prod.mk.inj hpair).1 a ha

theorem OnlySuccessors.addEdge (h : g.OnlySuccessors id) {s t : NodeId} {d : Dependence}
    (hd : s ≠ id ∨ d.edge = .successor) : (g.addEdge s t d).OnlySuccessors id := by
  intro l hl hsource e he
  rcases mem_addToLinks_cases hl with hl | rfl | ⟨l', hl', hpair, rfl⟩
  · exact h l hl hsource e he
  · rw [mem_singleton.1 he]
    exact hd.resolve_left (not_not_intro hsource)
  · rcases mem_append.1 he with he | he
    · exact h l' hl' hsource e he
    · rw [mem_singleton.1 he]
      have hs : s = id := (Prod.mk.inj hpair).1.symm.trans hsource
      exact hd.resolve_left (not_not_intro hs)

theorem SuccessorsFirst.addArcs (h : g.SuccessorsFirst)
    (has : ∀ a ∈ as, a.dep.edge ≠ .successor) : (g.addArcs as).SuccessorsFirst :=
  foldlRecOn as _ h fun _ hb a ha => hb.addEdge fun hsucc => absurd hsucc (has a ha)

theorem OnlySuccessors.addArcs (h : g.OnlySuccessors id)
    (has : ∀ a ∈ as, a.source ≠ id ∨ a.dep.edge = .successor) : (g.addArcs as).OnlySuccessors id :=
  foldlRecOn as _ (motive := fun b : Graph => b.OnlySuccessors id) h fun _ hb a ha => hb.addEdge (has a ha)

section

variable (h : g.SuccessorsFirst)
include h

theorem SuccessorsFirst.addSuccessors (hid : g.OnlySuccessors id)
    (has : ∀ a ∈ as, a.source = id ∧ a.dep.edge = .successor) : (g.addArcs as).SuccessorsFirst := by
  have hboth : (g.addArcs as).SuccessorsFirst ∧ (g.addArcs as).OnlySuccessors id := by
    refine foldlRecOn as _ (motive := fun b : Graph => b.SuccessorsFirst ∧ b.OnlySuccessors id) ⟨h, hid⟩ ?_
    intro b hb a ha
    obtain ⟨hsource, hsucc⟩ := has a ha
    exact ⟨hb.1.addEdge fun _ => hsource ▸ hb.2, hb.2.addEdge (.inr hsucc)⟩
  exact hboth.1

theorem SuccessorsFirst.addStructure {r : NodeRecord}
    (hnew : g.OnlySuccessors (r.id.getD "")) (hr : g.addStructure r = .ok g') :
    g'.SuccessorsFirst ∧ ∀ id, id ≠ r.id.getD "" → g.OnlySuccessors id → g'.OnlySuccessors id := by
  obtain ⟨successors, others, rfl, hsucc, hothers⟩ := addStructure_eq_ok hr
  constructor
  · rw [addArcs_append]
    refine (h.addSuccessors hnew hsucc).addArcs fun a ha => ?_
    rcases (hothers a ha).2 with hcall | hchild
    · rw [hcall]
      decide
    · rw [hchild]
      decide
  · intro id hid honly
    refine honly.addArcs fun a ha => .inl ?_
    have hsource : a.source = r.id.getD "" := by
      rcases mem_append.1 ha with ha | ha
      · exact (hsucc a ha).1
      · exact (hothers a ha).1
    rw [hsource]
    exact hid.symm

theorem SuccessorsFirst.foldlM_addStructure {rs : List NodeRecord}
    (hids : (rs.map fun r => r.id.getD "").Nodup) (hnew : ∀ r ∈ rs, g.OnlySuccessors (r.id.getD ""))
    (hrs : rs.foldlM Graph.addStructure g = .ok g') : g'.SuccessorsFirst := by
  induction rs generalizing g with
  | nil =>
    cases hrs
    exact h
  | cons r rs ih =>
    rw [foldlM_cons, bind_eq_ok_iff] at hrs
    obtain ⟨g₁, hfirst, hrest⟩ := hrs
    rw [map_cons, nodup_cons] at hids
    obtain ⟨h₁, hkept⟩ := h.addStructure (hnew r (by simp)) hfirst
    refine ih h₁ hids.2 (fun r' hr' => ?_) hrest
    refine hkept _ (fun heq => hids.1 ?_) (hnew r' (by simp [hr']))
    rw [← heq]
    exact mem_map.2 ⟨r', hr', rfl⟩

/-! ## The graph of a program -/

theorem SuccessorsFirst.annotates (hg : g.Annotates g') : g'.SuccessorsFirst :=
  fun l hl => h l (hg.links ▸ hl)

end

/-- What makes the successor view of a graph right. -/
structure Ordered (g : Graph) : Prop where
  wellFormed : g.WellFormed
  linked : g.Linked
  successorsFirst : g.SuccessorsFirst
  keys : g.nodes.keys.Nodup

theorem Ordered.mapStaticRegions (h : g.Ordered) : g.mapStaticRegions.Ordered := by
  refine ⟨h.wellFormed.mapStaticRegions, ?_, ?_, ?_⟩
  · rw [mapStaticRegions_eq]
    exact h.linked.addArcs _
  · rw [mapStaticRegions_eq]
    refine h.successorsFirst.addArcs fun a ha => ?_
    obtain ⟨c, hc, rfl⟩ := mem_map.1 ha
    obtain ⟨e, -, hdata, -, hc⟩ := mem_staticCopies_iff.1 hc
    obtain ⟨-, -, -, -, -, -, rfl⟩ := mem_dynamicCopies_iff.1 hc
    rw [Edge.arc, hdata]
    decide
  · rw [mapStaticRegions_eq, nodes_addArcs]
    exact h.keys

theorem Ordered.computeMetadata (h : g.Ordered) (hg : g.computeMetadata = .ok g') : g'.Ordered := by
  obtain ⟨g₁, -, hannotates, rfl⟩ := computeMetadata_eq_ok hg
  refine ⟨h.wellFormed.computeMetadata hg, ?_, ?_, ?_⟩
  · exact ((h.linked.annotates hannotates).removeRedundant _).removeRedundant _
  · unfold removeRepeated removeRedundant
    exact ((h.successorsFirst.annotates hannotates).removeEdges _).removeEdges _
  · show g₁.nodes.keys.Nodup
    rw [hannotates.keys]
    exact h.keys

end Graph

open ParallelPatterns.Graph in
theorem ProgramInput.ordered_of_toGraph {p : ProgramInput} {g : Graph}
    (hids : (p.units.records.map (·.id)).Nodup) (hg : p.toGraph = .ok g) : g.Ordered := by
  obtain ⟨s, ass, hs, hass, -, hgraph⟩ := toGraph_eq_ok_iff.1 hg
  obtain ⟨g₀, g₁, hlinks, ⟨hkeys, -⟩, hsome, hstructure, rfl⟩ := skeleton_eq_ok hs
  have hid : (p.units.records.map fun r => r.id.getD "").Nodup := by
    have hmap : (p.units.records.map fun r => r.id.getD "") = (p.units.records.map (·.id)).map (·.getD "") := by
      rw [map_map]
      rfl
    rw [hmap]
    refine hids.map_on fun a ha b hb hab => ?_
    obtain ⟨r, hr, rfl⟩ := mem_map.1 ha
    obtain ⟨r', hr', rfl⟩ := mem_map.1 hb
    obtain ⟨x, hx⟩ := Option.isSome_iff_exists.1 (hsome r hr)
    obtain ⟨y, hy⟩ := Option.isSome_iff_exists.1 (hsome r' hr')
    rw [hx, hy] at hab ⊢
    exact congrArg some hab
  have hnil : ∀ l, l ∉ g₀.links := by
    rw [hlinks]
    exact fun l => not_mem_nil
  have hfirst : g₀.SuccessorsFirst := fun l hl => absurd hl (hnil l)
  have honly : ∀ id, g₀.OnlySuccessors id := fun id l hl => absurd hl (hnil l)
  have hfirst₁ : g₁.SuccessorsFirst := hfirst.foldlM_addStructure hid (fun r _ => honly _) hstructure
  -- the counts of loops change no link, and recorded dependences lead to no successors
  have hcounts : (g₁.addLoopCounts p.loops).SuccessorsFirst := hfirst₁
  have hdata : ∀ a ∈ ass.flatten, a.dep.edge ≠ .successor := by
    intro a ha
    obtain ⟨as, has, ha⟩ := mem_flatten.1 ha
    obtain ⟨d, -, has⟩ := (mem_of_mapM_eq_ok hass as).1 has
    obtain ⟨_, _, _, hdep⟩ := DependenceRecord.dependence_eq_ok (dependence_of_mem_recordArcs has ha)
    have hedge : a.dep.edge = .data := by rw [hdep]
    rw [hedge]
    decide
  refine ⟨wellFormed_of_toGraph hg, linked_of_toGraph hg, ?_, ?_⟩
  · rw [hgraph]
    exact hcounts.addArcs hdata
  · rw [hgraph]
    show ((g₁.addLoopCounts p.loops).addArcs ass.flatten).nodes.keys.Nodup
    rw [nodes_addArcs, addLoopCounts, Table.keys_map]
    exact hkeys

theorem ProgramInput.ordered_of_ofNodes {earlier : UnitFile} {nodes : List Markup}
    {p : ProgramInput} {g g₁ : Graph} (hread : UnitFile.ofNodes earlier nodes = .ok p.units)
    (hg : p.toGraph = .ok g) (hmapped : g₁ = g ∨ g₁ = g.mapStaticRegions) : g₁.Ordered := by
  have h := ordered_of_toGraph (UnitFile.nodup_ids_of_ofNodes hread) hg
  rcases hmapped with rfl | rfl
  · exact h
  · exact h.mapStaticRegions

namespace Graph

variable {g g' : Graph}

/-! ## What functions know -/

/-- A successor edge leads from the first node to the second one. -/
def Next (g : Graph) (n t : NodeId) : Prop := t ∈ (g.outEdgesOf n [.successor]).map (·.target)

/-- Successor edges lead from one node to the other. -/
def Follows (g : Graph) : NodeId → NodeId → Prop :=
  Search.Leads fun id => (g.outEdgesOf id [.successor]).map (·.target)

variable {n : NodeId} {ids : List NodeId}

theorem mem_successorIds_iff {id target : NodeId} :
    target ∈ (g.outEdgesOf id [.successor]).map (·.target) ↔
      ∃ e ∈ g.linkedEdges, e.dep.edge = .successor ∧ e.source = id ∧ e.target = target := by
  rw [mem_map]
  refine exists_congr fun e => ?_
  rw [outEdgesOf, mem_filter, mem_outEdges_iff]
  simp only [contains_cons, contains_nil, Bool.or_false, beq_iff_eq]
  tauto

theorem leads_congr {α : Type} {next next' : α → List α} (h : ∀ x y, y ∈ next x ↔ y ∈ next' x) :
    Search.Leads next = Search.Leads next' := by
  have hstep : (fun a b => b ∈ next a) = fun a b => b ∈ next' a := by
    funext a b
    exact propext (h a b)
  rw [Search.Leads, Search.Leads, hstep]

theorem follows_congr
    (h : ∀ e : Edge, e.dep.edge = .successor → (e ∈ g.linkedEdges ↔ e ∈ g'.linkedEdges)) :
    g.Follows = g'.Follows := by
  refine leads_congr fun id target => ?_
  rw [mem_successorIds_iff, mem_successorIds_iff]
  constructor
  · rintro ⟨e, he, hsucc, hends⟩
    exact ⟨e, (h e hsucc).1 he, hsucc, hends⟩
  · rintro ⟨e, he, hsucc, hends⟩
    exact ⟨e, (h e hsucc).2 he, hsucc, hends⟩

theorem Ordered.get?_successorReach (h : g.Ordered) (hn : n ∈ ids) (hknown : (g.node? n).isSome)
    (t : Table NodeId (List NodeId)) :
    ∃ rs, (g.successorReach ids t).get? n = some rs ∧ ∀ m, m ∈ rs ↔ g.Follows n m := by
  have hnext : ∀ id target, target ∈ (g.successorView.outEdges id).map (·.target) ↔
      target ∈ (g.outEdgesOf id [.successor]).map (·.target) := by
    intro id target
    rw [mem_successorIds_iff, mem_map]
    refine exists_congr fun e => ?_
    have hview : e ∈ g.successorView.links.flatMap Link.toEdges ↔ e ∈ g.linkedEdges ∧ e.dep.edge = .successor := by
      show e ∈ g.successorView.linkedEdges ↔ _
      rw [linkedEdges_successorView h.linked h.successorsFirst, mem_filter, beq_iff_eq]
    rw [mem_outEdges_iff]
    tauto
  have hsize : g.successorView.size = g.nodes.keys.length := by
    simp [size, Table.keys]
  refine ⟨_, (Table.get?_foldl_insert _ ids t n).trans (if_pos (elem_iff.2 hn)), fun m => ?_⟩
  rw [hsize, Search.mem_reached_iff (fun x _ y hy => ?_) (mem_keys_iff.2 hknown), leads_congr hnext, Follows]
  exact h.wellFormed.targets_subset [.successor] x ((hnext x y).1 hy)

theorem WellFormed.known_of_descendantsGo (h : g.WellFormed) {fuel : Nat} {id : NodeId}
    (hids : g.descendantsGo fuel id = .ok ids) (hn : n ∈ ids) : (g.node? n).isSome := by
  induction fuel generalizing id ids n with
  | zero => cases hids
  | succ fuel ih =>
    obtain ⟨below, hbelow, hids⟩ := bind_eq_ok_iff.1 hids
    cases hids
    rcases mem_append.1 hn with hn | hn
    · obtain ⟨c, hc, rfl⟩ := mem_map.1 hn
      obtain ⟨e, -, hc⟩ := mem_filterMap.1 hc
      have hid : c.id = e.target := h.keyed _ c hc
      rw [hid, hc]
      rfl
    · obtain ⟨ids', hids', hn⟩ := mem_flatten.1 hn
      obtain ⟨c, -, hc⟩ := (mem_of_mapM_eq_ok hbelow ids').1 hids'
      exact ih hc hn

def Knows (g : Graph) (b : FunctionBody) : Prop :=
  ∃ ids, b.children = some ids ∧ ∀ n ∈ ids, ∃ rs, b.reach.get? n = some rs ∧ ∀ m, m ∈ rs ↔ g.Follows n m

def KnowsAt (g : Graph) (id : NodeId) : Prop :=
  ∀ n b, g.node? id = some n → n.function? = some b → g.Knows b

theorem Ordered.annotates (h : g.Ordered) (hg : g.Annotates g') : g'.Ordered :=
  ⟨h.wellFormed.annotates hg, h.linked.annotates hg, h.successorsFirst.annotates hg, hg.keys ▸ h.keys⟩

theorem Annotates.follows (hg : g.Annotates g') : g'.Follows = g.Follows :=
  follows_congr fun e _ => by rw [hg.linkedEdges]

theorem Ordered.collectFunction (h : g.Ordered) {f : NodeId} (hf : g.collectFunction f = .ok g') :
    g'.Ordered ∧ ∀ id, id = f ∨ g.KnowsAt id → g'.KnowsAt id := by
  obtain ⟨ids, g₁, hids, h₁, h', hbodies, hnodes⟩ := collectFunction_eq_ok hf
  refine ⟨h.annotates h', fun id hid n b hn hb => ?_⟩
  rw [hnodes, Option.map_eq_some_iff] at hn
  obtain ⟨n₁, hn₁, rfl⟩ := hn
  unfold Knows
  rw [h'.follows]
  by_cases heq : f == id
  · rw [if_pos heq] at hb
    cases hbody : n₁.body with
    | function b₁ =>
      have hb' : b = { b₁ with children := some ids, reach := g₁.successorReach ids b₁.reach } := by
        simpa [Node.modifyFunction, Node.function?, hbody] using hb.symm
      subst hb'
      refine ⟨ids, rfl, fun n hn => ?_⟩
      have hknown : (g₁.node? n).isSome := by
        rw [← mem_keys_iff, h₁.keys, mem_keys_iff]
        exact h.wellFormed.known_of_descendantsGo hids hn
      obtain ⟨rs, hrs, hmem⟩ := (h.annotates h₁).get?_successorReach hn hknown b₁.reach
      refine ⟨rs, hrs, fun m => ?_⟩
      rw [hmem, h₁.follows]
    | _ => simp [Node.modifyFunction, Node.function?, hbody] at hb
  · rw [if_neg heq] at hb
    have hknows : g.KnowsAt id := hid.resolve_left fun hid => heq (by simp [hid])
    obtain ⟨n₀, hn₀, hfunction⟩ := hbodies id n₁ hn₁
    exact hknows n₀ b hn₀ (hfunction.trans hb)

theorem Ordered.foldlM_collectFunction {fs : List Node} (h : g.Ordered)
    (hfs : fs.foldlM (fun g f => g.collectFunction f.id) g = .ok g') :
    g'.Ordered ∧ ∀ id, id ∈ fs.map (·.id) ∨ g.KnowsAt id → g'.KnowsAt id := by
  induction fs generalizing g with
  | nil =>
    cases hfs
    exact ⟨h, fun id hid => hid.resolve_left (by simp)⟩
  | cons f fs ih =>
    rw [foldlM_cons, bind_eq_ok_iff] at hfs
    obtain ⟨g₁, hfirst, hrest⟩ := hfs
    obtain ⟨h₁, hknows₁⟩ := h.collectFunction hfirst
    obtain ⟨h', hknows'⟩ := ih h₁ hrest
    refine ⟨h', fun id hid => hknows' id ?_⟩
    rcases hid with hid | hid
    · rcases mem_cons.1 hid with hid | hid
      · exact .inr (hknows₁ id (.inl hid))
      · exact .inl hid
    · exact .inr (hknows₁ id (.inr hid))

theorem Ordered.node?_of_mem (h : g.Ordered) {n : Node} (hn : n ∈ g.allNodes) : g.node? n.id = some n :=
  h.wellFormed.node?_of_mem h.keys hn

theorem Ordered.knows_of_computeMetadata (h : g.Ordered) (hg : g.computeMetadata = .ok g')
    {f : Node} (hf : f ∈ g'.functions) : ∃ b, f.function? = some b ∧ g'.Knows b := by
  obtain ⟨g₁, hcollect, hannotates, rfl⟩ := computeMetadata_eq_ok hg
  obtain ⟨h₁, hknows⟩ := h.foldlM_collectFunction hcollect
  have hkind : f.kind = .function := by simpa using (mem_filter.1 hf).2
  have hid : f.id ∈ g.functions.map (·.id) := by
    rw [functions, ← hannotates.map_id_nodesOf]
    exact mem_map.2 ⟨f, hf, rfl⟩
  cases hbody : f.body with
  | function b =>
    have hb : f.function? = some b := by rw [Node.function?, hbody]
    refine ⟨b, hb, ?_⟩
    have hfollows : g₁.removeRepeated.Follows = g₁.Follows :=
      follows_congr fun e he => mem_linkedEdges_removeRepeated h₁.linked (by rw [he]; decide)
    unfold Knows
    rw [hfollows]
    exact hknows f.id (.inl hid) f b (h₁.node?_of_mem (mem_filter.1 hf).1) hb
  | _ => simp [Node.kind, hbody] at hkind

/-! ## The flow graph of a function -/

theorem edges_flowGraph (h : g.Linked) (hfirst : g.SuccessorsFirst) (ids : List NodeId) :
    (g.flowGraph ids).edges =
      ((g.linkedEdges.filter fun e => ids.contains e.source && ids.contains e.target).filter
        fun e => e.dep.edge == .successor).map fun e => (e.source, e.target, e.key) := by
  rw [← linkedEdges_restrictTo, ← linkedEdges_successorView (h.restrictTo ids) (hfirst.restrictTo ids)]
  simp only [flowGraph, FlowGraph.edges, linkedEdges, flatMap_map, map_flatMap, Link.toEdges,
    Link.keys, map_map]
  rfl

end Graph

open ParallelPatterns.Graph in
/-- In the graph of a program, the view without keys leaves exactly the successor edges. So after
computing metadata, each function knows of each of its nodes exactly the nodes that it reaches over
successor edges, and its flow graph has exactly the successor edges between its nodes. -/
theorem ProgramInput.successorView_exact {earlier : UnitFile} {nodes : List Markup}
    {p : ProgramInput} {g g₁ g₂ : Graph}
    (hread : UnitFile.ofNodes earlier nodes = .ok p.units) (hg : p.toGraph = .ok g)
    (hmapped : g₁ = g ∨ g₁ = g.mapStaticRegions) (hmeta : g₁.computeMetadata = .ok g₂) :
    g₁.successorView.linkedEdges = g₁.linkedEdges.filter (fun e => e.dep.edge == .successor) ∧
      g₂.successorView.linkedEdges = g₂.linkedEdges.filter (fun e => e.dep.edge == .successor) ∧
        ∀ f ∈ g₂.functions, ∃ b ids, f.function? = some b ∧ b.children = some ids ∧
          (∀ n ∈ ids, ∃ rs, b.reach.get? n = some rs ∧ ∀ m, m ∈ rs ↔ g₂.Follows n m) ∧
            (g₂.flowGraph (g₂.flowNodes f)).edges =
              ((g₂.linkedEdges.filter fun e => ids.contains e.source && ids.contains e.target).filter
                fun e => e.dep.edge == .successor).map fun e => (e.source, e.target, e.key) := by
  have h₁ : g₁.Ordered := ordered_of_ofNodes hread hg hmapped
  have h₂ : g₂.Ordered := h₁.computeMetadata hmeta
  refine ⟨linkedEdges_successorView h₁.linked h₁.successorsFirst,
    linkedEdges_successorView h₂.linked h₂.successorsFirst, fun f hf => ?_⟩
  obtain ⟨b, hb, ids, hchildren, hreach⟩ := h₁.knows_of_computeMetadata hmeta hf
  refine ⟨b, ids, hb, hchildren, hreach, ?_⟩
  have hnodes : g₂.flowNodes f = ids := by
    simp [flowNodes, hb, hchildren]
  rw [hnodes]
  exact edges_flowGraph h₂.linked h₂.successorsFirst ids

/-- The node of a program, with its children and its successors. -/
def nodeOf (id type children : String) (successors : List String) (more : List Markup) : Markup :=
  .element "Node" [("id", id), ("type", type), ("name", ""), ("startsAtLine", "1:1"), ("endsAtLine", "1:9")]
    ([.element "childrenNodes" [] (if children = "" then [] else [.text children]), .element "funcArguments" [] [],
      .element "successors" [] (successors.map fun s => .element "CU" [] [.text s])] ++ more)

/-- A function with two loops that follow each other in turn. The first one also calls the second,
so that two edges join them. -/
def loopsInTurn : List Markup :=
  [nodeOf "1:0" "1" "1:1,1:2" [] [],
    nodeOf "1:1" "2" "" ["1:2"] [.element "callsNode" [] [.element "nodeCalled" [] [.text "1:2"]]],
    nodeOf "1:2" "2" "" ["1:1"] []]

/-- Five edges join the nodes of the program, of which the two successor edges stay. -/
theorem ProgramInput.successorView_exact_loopsInTurn :
    ∃ u g g₂, UnitFile.ofNodes {} loopsInTurn = .ok u ∧ toGraph ⟨u, [], ∅, none⟩ = .ok g ∧
      g.mapStaticRegions.computeMetadata = .ok g₂ ∧
        g₂.linkedEdges.length = 5 ∧ (g₂.linkedEdges.filter fun e => e.dep.edge == .successor).length = 2 ∧
          g₂.functions.length = 1 ∧
            g₂.successorView.linkedEdges = g₂.linkedEdges.filter (fun e => e.dep.edge == .successor) ∧
              ∀ f ∈ g₂.functions, ∃ b ids, f.function? = some b ∧ b.children = some ids ∧
                ∀ n ∈ ids, ∃ rs, b.reach.get? n = some rs ∧ ∀ m, m ∈ rs ↔ g₂.Follows n m := by
  obtain ⟨g₂, hrun, hedges, hsuccessors, hfunctions⟩ :
      ∃ g₂, (UnitFile.ofNodes {} loopsInTurn >>= fun u =>
          toGraph ⟨u, [], ∅, none⟩ >>= fun g => g.mapStaticRegions.computeMetadata) = .ok g₂ ∧
        g₂.linkedEdges.length = 5 ∧ (g₂.linkedEdges.filter fun e => e.dep.edge == .successor).length = 2 ∧
          g₂.functions.length = 1 := ⟨_, rfl, rfl, rfl, rfl⟩
  obtain ⟨u, hread, hrun⟩ := bind_eq_ok_iff.1 hrun
  obtain ⟨g, hg, hmeta⟩ := bind_eq_ok_iff.1 hrun
  obtain ⟨-, hview, hknows⟩ := successorView_exact hread hg (.inr rfl) hmeta
  refine ⟨u, g, g₂, hread, hg, hmeta, hedges, hsuccessors, hfunctions, hview, fun f hf => ?_⟩
  obtain ⟨b, ids, hb, hchildren, hreach, -⟩ := hknows f hf
  exact ⟨b, ids, hb, hchildren, hreach⟩

end ParallelPatterns
