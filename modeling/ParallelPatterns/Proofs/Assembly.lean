import Mathlib.Data.List.ProdSigma
import ParallelPatterns.Proofs.Links

/-!
# How the graph of a program is put together

The graph of a program is a skeleton of nodes with their successors, calls and children, to which
every recorded dependence adds edges. Which edges these are depends on the dependence, the units on
its lines and the nodes of the skeleton, but not on other dependences. So the edges of the graph are
those of the skeleton and those of each dependence, put side by side. The nodes that are read have
distinct identifiers, so that no node of the skeleton gets its edges in two parts.
-/

open List

namespace ParallelPatterns

variable {p : ProgramInput}

variable {k : DependenceKind} {dep : Dependence} {u : UnitFile} {r : NodeRecord} {s : Graph}

theorem DependenceKind.eq_name_of_ofName? {s : String} (h : ofName? s = some k) : s = k.name := by
  have := find?_some h
  exact (beq_iff_eq.1 this).symm

theorem Dependence.parseKind_eq_ok {type : String} {level : Option Int} (h : parseKind type = .ok (k, level)) :
    level = none ∧ type = k.name ∨ level ≠ none ∧ Text.has "_II_" type ∧ (Text.cut "_" type).1 = k.name := by
  unfold parseKind at h
  by_cases hlevel : Text.has "_II_" type
  · rw [if_pos hlevel] at h
    obtain ⟨n, -, h⟩ := bind_eq_ok_iff.1 h
    cases hk : DependenceKind.ofName? (Text.cut "_" type).1 with
    | none =>
      rw [hk] at h
      cases h
    | some k' =>
      rw [hk] at h
      cases h
      exact .inr ⟨Option.some_ne_none n, hlevel, DependenceKind.eq_name_of_ofName? hk⟩
  · rw [if_neg hlevel] at h
    cases hk : DependenceKind.ofName? type with
    | none =>
      rw [hk] at h
      cases h
    | some k' =>
      rw [hk] at h
      cases h
      exact .inl ⟨rfl, DependenceKind.eq_name_of_ofName? hk⟩

theorem DependenceRecord.dependence_eq_ok {d : DependenceRecord} (h : d.dependence = .ok dep) :
    ∃ kind level, Dependence.parseKind d.type = .ok (kind, level) ∧
      dep = { edge := .data, kind := some kind, var := some d.var, region := some d.region
              sourceLine := some d.source, sinkLine := some d.sink
              intraIteration := level.isSome, level := level.getD (-1) } := by
  obtain ⟨⟨kind, level⟩, hkind, h⟩ := bind_eq_ok_iff.1 h
  cases h
  exact ⟨kind, level, hkind, rfl⟩

namespace Graph

variable {g g' : Graph} {α : Type} {d : DependenceRecord} {as : List Arc} {a : Arc}
  {mapping : Table Region (List Region)} {e : Edge}

/-! ## Recorded dependences -/

theorem arcsBetween_congr (h : g.nodes = g'.nodes) : g.arcsBetween = g'.arcsBetween := by
  funext d p
  simp only [arcsBetween, variableNames, node, node?, h]

theorem recordArcs_congr (h : g.nodes = g'.nodes) : g.recordArcs = g'.recordArcs := by
  funext u d
  simp only [recordArcs, arcsBetween_congr h]

variable {f : Graph → α → Result Graph}

theorem eq_of_mem_arcsBetween {p : NodeId × NodeId}
    (h : g.arcsBetween d p = .ok as) (ha : a ∈ as) : p = (a.source, a.target) ∧ d.dependence = .ok a.dep := by
  have hsingle : ∀ x : Result Dependence, (do return [⟨p.1, p.2, ← x⟩] : Result (List Arc)) = .ok as →
      p = (a.source, a.target) ∧ x = .ok a.dep := by
    intro x hx
    obtain ⟨dep, rfl, hx⟩ := bind_eq_ok_iff.1 hx
    cases hx
    rw [mem_singleton.1 ha]
    exact ⟨rfl, rfl⟩
  unfold arcsBetween at h
  split at h
  · exact hsingle _ h
  · obtain ⟨sinkNames, -, h⟩ := bind_eq_ok_iff.1 h
    obtain ⟨sourceNames, -, h⟩ := bind_eq_ok_iff.1 h
    split at h
    · cases h
      cases ha
    · split at h
      · cases h
        cases ha
      · exact hsingle _ h

theorem arcsBetween_eq_of_mem {d' : DependenceRecord} {p : NodeId × NodeId}
    (h : g.arcsBetween d p = .ok as) (ha : a ∈ as) (htype : d.type ≠ "INIT") (hvar : d'.var = d.var)
    (hdep : d'.dependence = .ok dep) : g.arcsBetween d' p = .ok [⟨p.1, p.2, dep⟩] := by
  unfold arcsBetween at h ⊢
  by_cases htype' : (d'.type == "INIT")
  · rw [if_pos htype', hdep]
    rfl
  · rw [if_neg (by simpa using htype)] at h
    rw [if_neg htype', hvar, hdep]
    obtain ⟨sinkNames, hsink, h⟩ := bind_eq_ok_iff.1 h
    obtain ⟨sourceNames, hsource, h⟩ := bind_eq_ok_iff.1 h
    rw [hsink, hsource]
    by_cases hnames : (!sinkNames.contains (some d.var) && !sourceNames.contains (some d.var))
    · rw [if_pos hnames] at h
      cases h
      cases ha
    · by_cases hid : (p.1 == "" || p.2 == "")
      · rw [if_neg hnames, if_pos hid] at h
        cases h
        cases ha
      · show (if _ then _ else _) = _
        rw [if_neg hnames, if_neg hid]
        rfl

theorem mem_recordArcs_iff (h : g.recordArcs u d = .ok as) :
    a ∈ as ↔ ∃ p ∈ pairsOnLines u d, ∃ bs, g.arcsBetween d p = .ok bs ∧ a ∈ bs := by
  unfold recordArcs at h
  cases hass : (pairsOnLines u d).mapM (g.arcsBetween d) with
  | error e =>
    rw [hass] at h
    cases h
  | ok ass =>
    rw [hass] at h
    cases h
    rw [mem_flatten]
    constructor
    · rintro ⟨bs, hbs, ha⟩
      obtain ⟨p, hp, hbs⟩ := (mem_of_mapM_eq_ok hass bs).1 hbs
      exact ⟨p, hp, bs, hbs, ha⟩
    · rintro ⟨p, hp, bs, hbs, ha⟩
      exact ⟨bs, (mem_of_mapM_eq_ok hass bs).2 ⟨p, hp, hbs⟩, ha⟩

theorem dependence_of_mem_recordArcs (h : g.recordArcs u d = .ok as) (ha : a ∈ as) : d.dependence = .ok a.dep := by
  obtain ⟨p, -, bs, hbs, ha⟩ := (mem_recordArcs_iff h).1 ha
  exact (eq_of_mem_arcsBetween hbs ha).2

/-! ## The skeleton -/

theorem exists_addArcs_of_foldlM {P : Arc → Prop}
    (hstep : ∀ g x g', f g x = .ok g' → ∃ as, g' = g.addArcs as ∧ ∀ a ∈ as, P a) {xs : List α}
    (h : xs.foldlM f g = .ok g') : ∃ as, g' = g.addArcs as ∧ ∀ a ∈ as, P a := by
  refine foldlM_keeps (P := fun b : Graph => ∃ as, b = g.addArcs as ∧ ∀ a ∈ as, P a) ?_ ⟨[], rfl, by simp⟩ h
  rintro b x b' ⟨as, rfl, has⟩ hx
  obtain ⟨bs, rfl, hbs⟩ := hstep _ x b' hx
  refine ⟨as ++ bs, (addArcs_append g as bs).symm, fun a ha => ?_⟩
  rcases mem_append.1 ha with ha | ha
  · exact has a ha
  · exact hbs a ha

theorem exists_addArcs_of_addNamed {source : NodeId} {target : Option String} {kind : EdgeKind}
    (h : g.addNamed source target kind = .ok g') :
    ∃ as, g' = g.addArcs as ∧ ∀ a ∈ as, a.source = source ∧ a.dep.edge = kind := by
  cases target with
  | none => cases h
  | some t =>
    cases h
    exact ⟨[⟨source, t, { edge := kind }⟩], rfl, by simp⟩

theorem addStructure_eq_ok (h : g.addStructure r = .ok g') :
    ∃ successors others, g' = g.addArcs (successors ++ others) ∧
      (∀ a ∈ successors, a.source = r.id.getD "" ∧ a.dep.edge = .successor) ∧
        ∀ a ∈ others, a.source = r.id.getD "" ∧ (a.dep.edge = .call ∨ a.dep.edge = .child) := by
  obtain ⟨g₁, hsuccessors, h⟩ := bind_eq_ok_iff.1 h
  obtain ⟨g₂, hcalls, h⟩ := bind_eq_ok_iff.1 h
  cases h
  obtain ⟨successors, rfl, hsucc⟩ := exists_addArcs_of_foldlM
    (fun b s b' hs => by
      split at hs
      · cases hs
        exact ⟨[], rfl, by simp⟩
      · exact exists_addArcs_of_addNamed hs) hsuccessors
  obtain ⟨calls, rfl, hcall⟩ := exists_addArcs_of_foldlM
    (fun b c b' hc => exists_addArcs_of_addNamed hc) hcalls
  -- children are added one by one, unless the node is linked to them
  obtain ⟨children, hfold, hchild⟩ := exists_addArcs_of_foldlM
    (P := fun a => a.source = r.id.getD "" ∧ a.dep.edge = .child)
    (f := fun g c => pure (if g.hasLink (r.id.getD "") c then g else g.addEdge (r.id.getD "") c { edge := .child }))
    (fun b c b' hc => by
      cases hc
      split
      · exact ⟨[], rfl, by simp⟩
      · exact ⟨[⟨r.id.getD "", c, { edge := .child }⟩], rfl, by simp⟩) foldlM_pure
  refine ⟨successors, calls ++ children, ?_, hsucc, fun a ha => ?_⟩
  · rw [addArcs_append, addArcs_append, ← hfold]
  · rcases mem_append.1 ha with ha | ha
    · exact ⟨(hcall a ha).1, .inl (hcall a ha).2⟩
    · exact ⟨(hchild a ha).1, .inr (hchild a ha).2⟩

/-! ## Static regions -/

theorem mem_dynamicRegions_iff {m : Region} :
    m ∈ dynamicRegions mapping e ↔
      ∃ r, e.dep.region = some r ∧ isStaticRegion r ∧ m ∈ mapping.getD r [] ∧ isStaticRegion m = false := by
  unfold dynamicRegions
  cases e.dep.region with
  | none => simp
  | some r =>
    by_cases hr : isStaticRegion r <;> simp [hr]

theorem mem_dynamicCopies_iff {c : Edge} :
    c ∈ dynamicCopies mapping e ↔ ∃ r m, e.dep.region = some r ∧ isStaticRegion r ∧ m ∈ mapping.getD r [] ∧
      isStaticRegion m = false ∧ c = { e with dep := { e.dep with region := some m } } := by
  rw [dynamicCopies, mem_map]
  constructor
  · rintro ⟨m, hm, rfl⟩
    obtain ⟨r, hr, hstatic, hm, hdynamic⟩ := mem_dynamicRegions_iff.1 hm
    exact ⟨r, m, hr, hstatic, hm, hdynamic, rfl⟩
  · rintro ⟨r, m, hr, hstatic, hm, hdynamic, rfl⟩
    exact ⟨m, mem_dynamicRegions_iff.2 ⟨r, hr, hstatic, hm, hdynamic⟩, rfl⟩

def staticCopies (g : Graph) : List Edge :=
  g.units.flatMap fun n => (g.outData n.id).flatMap (dynamicCopies g.regionMapping)

theorem dynamicCopies_eq_nil
    (he : ∀ r, e.dep.region = some r → isStaticRegion r = false) : dynamicCopies mapping e = [] := by
  rw [eq_nil_iff_forall_not_mem]
  intro c hc
  obtain ⟨r, m, hr, hstatic, -⟩ := mem_dynamicCopies_iff.1 hc
  rw [he r hr] at hstatic
  cases hstatic

theorem flatMap_outData_addEdge {β : Type} {f : Edge → List β} {s t : NodeId} {d : Dependence}
    (hf : ∀ key, f ⟨s, t, key, d⟩ = []) (g : Graph) (id : NodeId) :
    ((g.addEdge s t d).outData id).flatMap f = (g.outData id).flatMap f := by
  have hlast : ∀ key, (([⟨s, t, key, d⟩] : List Edge).filter fun e =>
      [EdgeKind.data].contains e.dep.edge).flatMap f = [] := by
    intro key
    rw [filter_cons]
    split
    · simp [hf key]
    · rfl
  unfold outData outEdgesOf outEdges addEdge
  induction g.links with
  | nil =>
    rw [addToLinks, filter_cons]
    split
    · exact hlast 0
    · rfl
  | cons l ls ih =>
    unfold addToLinks
    by_cases hl : l.joins s t
    · -- the edge comes last in its link
      have hadd : (l.add d).toEdges = l.toEdges ++ [⟨s, t, Link.nextKey l.keys, d⟩] := by
        obtain ⟨hsource, htarget⟩ := Prod.mk.inj (Link.joins_iff.1 hl)
        simp [Link.toEdges, Link.add, hsource, htarget]
      rw [if_pos hl, filter_cons, filter_cons, show (l.add d).source = l.source from rfl]
      split
      · simp only [flatMap_cons, hadd, filter_append, flatMap_append, hlast, append_nil]
      · rfl
    · rw [if_neg hl, filter_cons, filter_cons]
      split
      · simp only [flatMap_cons, filter_append, flatMap_append, ih]
      · exact ih

theorem flatMap_dynamicCopies_addArcs
    (has : ∀ a ∈ as, ∀ r, a.dep.region = some r → isStaticRegion r = false) (g : Graph) (id : NodeId) :
    ((g.addArcs as).outData id).flatMap (dynamicCopies mapping) =
      (g.outData id).flatMap (dynamicCopies mapping) := by
  induction as generalizing g with
  | nil => rfl
  | cons a as ih =>
    rw [addArcs_cons, ih fun b hb => has b (mem_cons_of_mem a hb)]
    exact flatMap_outData_addEdge (fun key => dynamicCopies_eq_nil (has a mem_cons_self)) g id

theorem foldl_copyStatic_eq (mapping : Table Region (List Region)) (ids : List NodeId) (g : Graph) :
    ids.foldl (copyStatic mapping) g =
      g.addArcs ((ids.flatMap fun id => (g.outData id).flatMap (dynamicCopies mapping)).map Edge.arc) := by
  induction ids generalizing g with
  | nil => rfl
  | cons id ids ih =>
    have hcopy : g.copyStatic mapping id =
        g.addArcs (((g.outData id).flatMap (dynamicCopies mapping)).map Edge.arc) := by
      rw [addArcs, foldl_map]
      rfl
    have hdynamic : ∀ a ∈ ((g.outData id).flatMap (dynamicCopies mapping)).map Edge.arc, ∀ r,
        a.dep.region = some r → isStaticRegion r = false := by
      intro a ha r hr
      obtain ⟨c, hc, rfl⟩ := mem_map.1 ha
      obtain ⟨e, -, hc⟩ := mem_flatMap.1 hc
      obtain ⟨-, m, -, -, -, hm, rfl⟩ := mem_dynamicCopies_iff.1 hc
      cases hr
      exact hm
    rw [foldl_cons, hcopy, ih, flatMap_cons, map_append, addArcs_append]
    simp only [flatMap_dynamicCopies_addArcs hdynamic]

theorem mapStaticRegions_eq (g : Graph) : g.mapStaticRegions = g.addArcs (g.staticCopies.map Edge.arc) := by
  rw [mapStaticRegions, foldl_copyStatic_eq, staticCopies, flatMap_map]

theorem WellFormed.mapStaticRegions (h : g.WellFormed) : g.mapStaticRegions.WellFormed := by
  rw [mapStaticRegions_eq]
  refine h.addArcs fun a ha => ?_
  obtain ⟨c, hc, rfl⟩ := mem_map.1 ha
  obtain ⟨n, -, hc⟩ := mem_flatMap.1 hc
  obtain ⟨e, he, hc⟩ := mem_flatMap.1 hc
  obtain ⟨r, m, -, -, -, -, rfl⟩ := mem_dynamicCopies_iff.1 hc
  exact h.target_known (mem_filter.1 he).1

theorem mem_staticCopies_iff {c : Edge} :
    c ∈ g.staticCopies ↔ ∃ e ∈ g.linkedEdges, e.dep.edge = .data ∧ e.source ∈ g.units.map (·.id) ∧
      c ∈ dynamicCopies g.regionMapping e := by
  simp only [staticCopies, mem_flatMap, mem_outData_iff, mem_map]
  constructor
  · rintro ⟨n, hn, e, ⟨hsource, he, hdata⟩, hc⟩
    exact ⟨e, he, hdata, ⟨n, hn, hsource.symm⟩, hc⟩
  · rintro ⟨e, he, hdata, ⟨n, hn, hsource⟩, hc⟩
    exact ⟨n, hn, e, ⟨hsource.symm, he, hdata⟩, hc⟩

end Graph

theorem NodeRecord.isSome_id_of_toNode {n : Node} (h : r.toNode = .ok n) : r.id.isSome := by
  obtain ⟨type, -, h⟩ := bind_eq_ok_iff.1 h
  cases hid : r.id with
  | some id => rfl
  | none =>
    rw [hid] at h
    by_cases htype : (!(decide (0 ≤ type) && decide (type ≤ 3)))
    · rw [if_pos htype] at h
      cases h
    · rw [if_neg htype] at h
      cases h

open ParallelPatterns.Graph in
theorem ProgramInput.skeleton_eq_ok (h : p.skeleton = .ok s) :
    ∃ g₀ g₁ : Graph, g₀.links = [] ∧ (g₁.nodes.keys.Nodup ∧ g₁.Keyed) ∧
      (∀ r ∈ p.units.records, r.id.isSome) ∧
      p.units.records.foldlM addStructure g₀ = .ok g₁ ∧ s = g₁.addLoopCounts p.loops := by
  unfold skeleton at h
  obtain ⟨nodes, hnodes, h⟩ := bind_eq_ok_iff.1 h
  obtain ⟨g₁, hstructure, h⟩ := bind_eq_ok_iff.1 h
  cases h
  obtain ⟨hlinks, hkeys⟩ := foldlRecOn nodes
    (motive := fun b : Graph × Nat => b.1.links = [] ∧ b.1.nodes.keys.Nodup)
    (fun b n => b.1.addNode b.2 n) (b := ({}, 0)) ⟨rfl, nodup_nil⟩
    fun c hc n _ => ⟨hc.1, Table.nodup_keys_insert hc.2 _ _⟩
  have hempty : ({} : Graph).Keyed := fun _ _ hn => by cases hn
  -- the structure of a record is made of edges, and changes no node
  have hkept : g₁.nodes.keys.Nodup ∧ g₁.Keyed := by
    refine foldlM_keeps (P := fun b : Graph => b.nodes.keys.Nodup ∧ b.Keyed) (fun b r b' hb hr => ?_)
      ⟨hkeys, hempty.addNodes 0⟩ hstructure
    obtain ⟨successors, others, rfl, -, -⟩ := addStructure_eq_ok hr
    unfold Keyed node? at hb ⊢
    rwa [nodes_addArcs]
  refine ⟨_, g₁, hlinks, hkept, fun r hr => ?_, hstructure, rfl⟩
  obtain ⟨n, hn⟩ := exists_of_mapM_eq_ok hnodes hr
  exact NodeRecord.isSome_id_of_toNode hn

open ParallelPatterns.Graph in
theorem ProgramInput.edge_ne_data_of_skeleton (h : p.skeleton = .ok s) {a : Arc} (ha : a ∈ s.arcs) :
    a.dep.edge ≠ .data := by
  obtain ⟨g₀, g₁, hlinks, -, -, hstructure, rfl⟩ := skeleton_eq_ok h
  have hnone : ∀ a ∈ g₀.arcs, a.dep.edge ≠ .data := by
    rw [arcs, linkedEdges, hlinks]
    exact fun a ha => absurd ha not_mem_nil
  refine foldlM_keeps (P := fun b : Graph => ∀ a ∈ b.arcs, a.dep.edge ≠ .data) (fun b r b' hb hr => ?_) hnone
    hstructure a ha
  obtain ⟨successors, others, rfl, hsuccessors, hothers⟩ := addStructure_eq_ok hr
  intro a ha
  rcases mem_append.1 ((arcs_addArcs_perm b _).mem_iff.1 ha) with ha | ha
  · exact hb a ha
  · rcases mem_append.1 ha with ha | ha
    · rw [(hsuccessors a ha).2]
      decide
    · rcases (hothers a ha).2 with hkind | hkind
      · rw [hkind]
        decide
      · rw [hkind]
        decide

theorem ProgramInput.toGraph_eq_ok_iff {g : Graph} :
    p.toGraph = .ok g ↔ ∃ s ass, p.skeleton = .ok s ∧ p.dependences.mapM (s.recordArcs p.units) = .ok ass ∧
      (s.addArcs ass.flatten).hasUnknownTarget = false ∧
        g = { s.addArcs ass.flatten with main := (s.addArcs ass.flatten).mainOf, reductions := p.reductions } := by
  simp only [toGraph, bind_eq_ok_iff]
  refine exists_congr fun s => ?_
  constructor
  · rintro ⟨hs, ass, hass, h⟩
    split at h <;> cases h
    next hunknown => exact ⟨ass, hs, hass, Bool.eq_false_iff.2 hunknown, rfl⟩
  · rintro ⟨ass, hs, hass, hunknown, rfl⟩
    refine ⟨hs, ass, hass, ?_⟩
    rw [if_neg (Bool.eq_false_iff.1 hunknown)]
    rfl

open ParallelPatterns.Graph in
theorem ProgramInput.wellFormed_of_toGraph {g : Graph} (h : p.toGraph = .ok g) : g.WellFormed := by
  obtain ⟨s, ass, hs, -, hunknown, rfl⟩ := toGraph_eq_ok_iff.1 h
  obtain ⟨g₀, g₁, -, hnodes, -, -, rfl⟩ := skeleton_eq_ok hs
  refine ⟨fun id n hn => ?_, fun l hl => ?_⟩
  · refine hnodes.2.addLoopCounts p.loops id n ?_
    rwa [node?, nodes_addArcs] at hn
  · have hknown := any_eq_false.1 hunknown l hl
    rw [Table.contains_eq_isSome, Bool.not_eq_true', Bool.not_eq_false] at hknown
    exact hknown

open ParallelPatterns.Graph in
theorem ProgramInput.linked_of_toGraph {g : Graph} (hg : p.toGraph = .ok g) : g.Linked := by
  obtain ⟨s, ass, hs, -, -, rfl⟩ := toGraph_eq_ok_iff.1 hg
  obtain ⟨g₀, g₁, hlinks, -, -, hstructure, rfl⟩ := skeleton_eq_ok hs
  have h₀ : g₀.Linked := by
    constructor
    · rw [hlinks]
      exact nodup_nil
    · rw [hlinks]
      exact fun l hl => absurd hl not_mem_nil
  have h₁ : g₁.Linked := by
    refine foldlM_keeps (P := Linked) (fun b r b' hb hr => ?_) h₀ hstructure
    obtain ⟨successors, others, rfl, -, -⟩ := addStructure_eq_ok hr
    exact hb.addArcs _
  have hcounts : (g₁.addLoopCounts p.loops).Linked := ⟨h₁.pairs, h₁.keys⟩
  obtain ⟨hpairs, hkeys⟩ := hcounts.addArcs ass.flatten
  exact ⟨hpairs, hkeys⟩

namespace UnitFile

/-! ## Identifiers -/

theorem records_of_add {v : UnitFile} {m : Markup} (h : u.add m = .ok v) :
    ∃ r, v.records = if u.records.any (fun o => o.id == r.id) then u.records else u.records ++ [r] := by
  obtain ⟨r, -, h⟩ := bind_eq_ok_iff.1 h
  refine ⟨r, ?_⟩
  -- the lines of a unit are noted apart from its record
  have hkept : ∀ w : UnitFile, w.records = u.records →
      (if w.records.any (fun o => o.id == r.id) then pure w
        else pure { w with records := w.records ++ [r] } : Result UnitFile) = .ok v →
      v.records = if u.records.any (fun o => o.id == r.id) then u.records else u.records ++ [r] := by
    intro w hw hv
    rw [hw] at hv
    by_cases hknown : u.records.any (fun o => o.id == r.id)
    · rw [if_pos hknown] at hv ⊢
      cases hv
      exact hw
    · rw [if_neg hknown] at hv ⊢
      cases hv
      rfl
  by_cases htype : (r.type == some "0")
  · rw [if_pos htype] at h
    obtain ⟨written, -, h⟩ := bind_eq_ok_iff.1 h
    obtain ⟨read, -, h⟩ := bind_eq_ok_iff.1 h
    exact hkept
      { u with
        writers := noteLines u.writers (Text.split "," written.shown) (r.id.getD "")
        readers := noteLines u.readers (Text.split "," read.shown) (r.id.getD "") } rfl h
  · rw [if_neg htype] at h
    exact hkept u rfl h

theorem id_of_replaceDummies {targets : Table String String} {r' : NodeRecord}
    (h : replaceDummies targets r = .ok r') : r'.id = r.id := by
  unfold replaceDummies at h
  by_cases hchildren : r.children.isEmpty
  · rw [if_pos hchildren] at h
    cases h
    rfl
  · rw [if_neg hchildren] at h
    by_cases hcalls : r.element.hasChild "callsNode"
    · rw [if_pos hcalls] at h
      obtain ⟨calls, _, h⟩ := bind_eq_ok_iff.1 h
      cases h
      rfl
    · rw [if_neg hcalls] at h
      cases h
      rfl

theorem nodup_ids_of_ofNodes {earlier : UnitFile} {nodes : List Markup}
    (h : ofNodes earlier nodes = .ok u) : (u.records.map (·.id)).Nodup := by
  obtain ⟨v, hv, h⟩ := bind_eq_ok_iff.1 h
  obtain ⟨records, hrecords, h⟩ := bind_eq_ok_iff.1 h
  cases h
  have hnodup : (v.records.map (·.id)).Nodup := by
    have hstart : (({ earlier with records := [] } : UnitFile).records.map (·.id)).Nodup := nodup_nil
    refine foldlM_keeps (P := fun b : UnitFile => (b.records.map (·.id)).Nodup) (fun b m b' hb hm => ?_) hstart hv
    obtain ⟨r, hr⟩ := records_of_add hm
    rw [hr]
    by_cases hknown : b.records.any (fun o => o.id == r.id)
    · rw [if_pos hknown]
      exact hb
    · rw [if_neg hknown, map_append]
      rw [any_eq_true] at hknown
      refine nodup_append.2 ⟨hb, by simp, fun a ha c hc hac => hknown ?_⟩
      obtain ⟨o, ho, rfl⟩ := mem_map.1 ha
      exact ⟨o, ho, beq_iff_eq.2 (hac.trans (mem_singleton.1 hc))⟩
  -- resolving placeholders removes nodes and changes no identifiers
  obtain ⟨⟨functions, dummies⟩, -, hrecords⟩ := bind_eq_ok_iff.1 hrecords
  rw [map_eq_of_mapM_eq_ok hrecords fun r r' hr => id_of_replaceDummies hr]
  exact hnodup.sublist (filter_sublist.map _)

end UnitFile

end ParallelPatterns
