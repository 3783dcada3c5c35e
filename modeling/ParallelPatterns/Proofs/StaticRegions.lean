import Mathlib.Data.Bool.Basic
import ParallelPatterns.Proofs.Metadata

/-!
# Static dependences on dynamic regions

Two regions meet if some unit has data dependences on both, on one variable. The regions are
collected over all units into a symmetric table, and with this table every static dependence out of
a unit is copied. The main result says that the table holds exactly the regions that meet, each
once, so that a static dependence gets exactly one copy for each dynamic region that meets its own,
and no copy is copied again.
-/

open List

namespace ParallelPatterns

theorem Edge.same_comm (a b : Edge) : a.same b = b.same a := by
  simp only [Edge.same, Bool.beq_comm]

/-- The same arc on another region. -/
def Arc.onRegion (a : Arc) (m : Region) : Arc := { a with dep := { a.dep with region := some m } }

namespace Graph

variable {t : Table Region (List Region)} {r m : Region} {g : Graph}

/-! ## Regions that meet -/

/-- Some unit has data dependences on both regions, on one variable. -/
def Meet (g : Graph) (r m : Region) : Prop :=
  ∃ u ∈ g.units, ∃ a ∈ g.outData u.id, ∃ b ∈ g.outData u.id,
    a.dep.var = b.dep.var ∧ a.dep.region = some r ∧ b.dep.region = some m

theorem mem_getD_relate {a b : Region} :
    m ∈ (relate t a b).getD r [] ↔ m ∈ t.getD r [] ∨ (r = a ∧ m = b ∨ r = b ∧ m = a) := by
  have hupdate : ∀ (t : Table Region (List Region)) (a b : Region),
      m ∈ (t.update a [] (addNew · b)).getD r [] ↔ m ∈ t.getD r [] ∨ r = a ∧ m = b := by
    intro t a b
    rw [Table.getD_update]
    by_cases hr : a = r
    · simp [hr, mem_addNew]
    · simp [hr, Ne.symm hr]
  rw [relate, hupdate, hupdate, or_assoc]

/-- Two dependences relate their regions if they are different, concern one variable, and differ in
their regions. -/
def Relates (a b : Edge) (r m : Region) : Prop :=
  a.same b = false ∧ a.dep.var = b.dep.var ∧ a.dep.region = some r ∧ b.dep.region = some m ∧ r ≠ m

theorem mem_getD_relateEdges {a b : Edge} :
    m ∈ (relateEdges a t b).getD r [] ↔ m ∈ t.getD r [] ∨ (Relates a b r m ∨ Relates b a r m) := by
  unfold relateEdges Relates
  rw [Edge.same_comm b a]
  cases ha : a.dep.region with
  | none => simp
  | some ra =>
    cases hb : b.dep.region with
    | none => simp
    | some rb =>
      by_cases hrelated : a.same b = false ∧ a.dep.var = b.dep.var ∧ ra ≠ rb
      · obtain ⟨hsame, hvar, hne⟩ := hrelated
        simp only [hsame, hvar, bne_iff_ne.2 hne, Bool.not_false, beq_self_eq_true, Bool.and_self,
          if_true, mem_getD_relate]
        grind
      · have hskip : (!a.same b && a.dep.var == b.dep.var && ra != rb) = false := by
          grind
        grind

theorem mem_getD_relateAll {es : List Edge} :
    m ∈ (relateAll es t).getD r [] ↔ m ∈ t.getD r [] ∨ ∃ a ∈ es, ∃ b ∈ es, Relates a b r m := by
  have hturn : ∀ (t : Table Region (List Region)) (a : Edge), m ∈ (es.foldl (relateEdges a) t).getD r [] ↔
      m ∈ t.getD r [] ∨ ∃ b ∈ es, Relates a b r m ∨ Relates b a r m := fun t a =>
    foldl_iff (f := relateEdges a) (M := (m ∈ Table.getD · r [])) fun _ _ _ => mem_getD_relateEdges
  rw [relateAll, foldl_iff (M := (m ∈ Table.getD · r [])) fun t a _ => hturn t a]
  -- a pair of dependences is visited in both orders
  refine or_congr_right ⟨?_, ?_⟩
  · rintro ⟨a, ha, b, hb, h | h⟩
    · exact ⟨a, ha, b, hb, h⟩
    · exact ⟨b, hb, a, ha, h⟩
  · rintro ⟨a, ha, b, hb, h⟩
    exact ⟨a, ha, b, hb, .inl h⟩

theorem proper_relateAll (es : List Edge) (ht : t.Proper Nodup) : (relateAll es t).Proper Nodup := by
  refine foldlRecOn es _ ht fun t ht a _ => ?_
  refine foldlRecOn es _ ht fun t ht b _ => ?_
  unfold relateEdges
  split
  · split
    · exact (ht.update _ nodup_nil fun _ => nodup_addNew).update _ nodup_nil fun _ => nodup_addNew
    · exact ht
  · exact ht

theorem mem_getD_regionMapping (hlinked : g.Linked) : m ∈ g.regionMapping.getD r [] ↔ g.Meet r m ∧ r ≠ m := by
  rw [regionMapping, foldl_iff (f := fun t (n : Node) => relateAll (g.outData n.id) t)
    (M := (m ∈ Table.getD · r [])) fun _ _ _ => mem_getD_relateAll]
  constructor
  · rintro (h | ⟨u, hu, a, ha, b, hb, -, hvar, hr, hm, hne⟩)
    · cases h
    · exact ⟨⟨u, hu, a, ha, b, hb, hvar, hr, hm⟩, hne⟩
  · rintro ⟨⟨u, hu, a, ha, b, hb, hvar, hr, hm⟩, hne⟩
    have hsame : a.same b = false := by
      rw [Bool.eq_false_iff]
      intro hsame
      rw [hlinked.eq_of_same (mem_outData_iff.1 ha).2.1 (mem_outData_iff.1 hb).2.1 hsame, hm] at hr
      exact hne (Option.some.inj hr).symm
    exact .inr ⟨u, hu, a, ha, b, hb, hsame, hvar, hr, hm, hne⟩

/-! ## Each dependence once -/

theorem Linked.nodup_linkedEdges (h : g.Linked) : g.linkedEdges.Nodup := by
  rw [linkedEdges, nodup_flatMap]
  constructor
  · intro l hl
    exact (h.keys l hl).of_map _ |>.map fun p q hpq => by
      obtain ⟨-, -, hkey, hdep⟩ := Edge.mk.inj hpq
      exact Prod.ext hkey hdep
  · refine (pairwise_map.1 h.pairs).imp fun {l k} hne e hl hk => ?_
    exact hne ((Link.mem_toEdges_iff.1 hl).1.trans (Link.mem_toEdges_iff.1 hk).1.symm)

theorem Linked.nodup_outData (h : g.Linked) (id : NodeId) : (g.outData id).Nodup :=
  ((g.outEdges_sublist id).nodup h.nodup_linkedEdges).filter _

/-! ## The copies -/

/-- The static dependences out of units, each with the dynamic regions to which it is copied. -/
def staticPairs (g : Graph) : List (Edge × Region) :=
  (g.units.flatMap fun n => g.outData n.id).flatMap fun e => (dynamicRegions g.regionMapping e).map (e, ·)

theorem map_arc_staticCopies (g : Graph) :
    g.staticCopies.map Edge.arc = g.staticPairs.map fun c => c.1.arc.onRegion c.2 := by
  have hcopies : ∀ e : Edge, (dynamicCopies g.regionMapping e).map Edge.arc =
      ((dynamicRegions g.regionMapping e).map (e, ·)).map fun c => c.1.arc.onRegion c.2 := by
    intro e
    rw [dynamicCopies, map_map, map_map]
    rfl
  simp only [staticCopies, staticPairs, flatMap_assoc, map_flatMap, hcopies]

theorem mem_staticPairs_iff (hlinked : g.Linked) {e : Edge} :
    (e, m) ∈ g.staticPairs ↔ e ∈ g.linkedEdges ∧ g.LeavesUnit e ∧
      ∃ r, e.dep.region = some r ∧ isStaticRegion r ∧ isStaticRegion m = false ∧ g.Meet r m := by
  have hpair : (e, m) ∈ g.staticPairs ↔
      (∃ n ∈ g.units, e ∈ g.outData n.id) ∧ m ∈ dynamicRegions g.regionMapping e := by
    simp only [staticPairs]
    grind
  rw [hpair, mem_dynamicRegions_iff]
  simp only [mem_outData_iff, mem_getD_regionMapping hlinked]
  constructor
  · rintro ⟨⟨n, hn, hsource, he, hdata⟩, r, hr, hstatic, ⟨hmeet, -⟩, hdynamic⟩
    exact ⟨he, ⟨hdata, mem_map.2 ⟨n, hn, hsource.symm⟩⟩, r, hr, hstatic, hdynamic, hmeet⟩
  · rintro ⟨he, ⟨hdata, hunit⟩, r, hr, hstatic, hdynamic, hmeet⟩
    obtain ⟨n, hn, hsource⟩ := mem_map.1 hunit
    -- a static region is none of the dynamic ones
    have hne : r ≠ m := by
      rintro rfl
      rw [hstatic] at hdynamic
      cases hdynamic
    exact ⟨⟨n, hn, hsource.symm, he, hdata⟩, r, hr, hstatic, ⟨hmeet, hne⟩, hdynamic⟩

theorem nodup_staticPairs (hlinked : g.Linked) (hunits : (g.units.map (·.id)).Nodup) : g.staticPairs.Nodup := by
  have hedges : (g.units.flatMap fun n => g.outData n.id).Nodup := by
    rw [nodup_flatMap]
    refine ⟨fun n _ => hlinked.nodup_outData n.id, (pairwise_map.1 hunits).imp fun {n k} hne e hn hk => ?_⟩
    exact hne ((mem_outData_iff.1 hn).1.symm.trans (mem_outData_iff.1 hk).1)
  have hregions : ∀ e : Edge, (dynamicRegions g.regionMapping e).Nodup := by
    intro e
    unfold dynamicRegions
    split
    · split
      · have hmapping : Table.Proper Nodup g.regionMapping :=
          foldlRecOn g.units _ (Table.proper_empty _) fun _ ht _ _ => proper_relateAll _ ht
        exact (hmapping.getD _ nodup_nil).filter _
      · exact nodup_nil
    · exact nodup_nil
  rw [staticPairs, nodup_flatMap]
  refine ⟨fun e _ => (hregions e).map fun m k h => (Prod.mk.inj h).2, hedges.imp fun {e k} hne c he hk => ?_⟩
  obtain ⟨m, -, rfl⟩ := mem_map.1 he
  obtain ⟨m', -, hk⟩ := mem_map.1 hk
  exact hne (Prod.mk.inj hk).1.symm

theorem addArcs_eq_with (g : Graph) (as : List Arc) : g.addArcs as = { g with links := (g.addArcs as).links } := by
  induction as generalizing g with
  | nil => rfl
  | cons a as ih =>
    rw [addArcs_cons, ih]
    rfl

/-- Static dependences are copied exactly. To the edges of a graph come, and nothing else changes,
one copy for each data dependence out of a unit on a static region and each dynamic region that
meets it; the copy joins the same nodes and differs in its region only. -/
theorem mapStaticRegions_copies {g : Graph} (hlinked : g.Linked) (hkeyed : g.Keyed)
    (hkeys : g.nodes.keys.Nodup) : ∃ copied : List (Edge × Region), copied.Nodup ∧
      (∀ e m, (e, m) ∈ copied ↔ e ∈ g.linkedEdges ∧ g.LeavesUnit e ∧
        ∃ r, e.dep.region = some r ∧ isStaticRegion r = true ∧ isStaticRegion m = false ∧ g.Meet r m) ∧
      g.mapStaticRegions.arcs ~ g.arcs ++ copied.map (fun c => c.1.arc.onRegion c.2) ∧
      g.mapStaticRegions = { g with links := g.mapStaticRegions.links } := by
  refine ⟨g.staticPairs, nodup_staticPairs hlinked (nodup_nodesOf hkeyed hkeys [.unit]),
    fun e m => mem_staticPairs_iff hlinked, ?_, ?_⟩
  · rw [mapStaticRegions_eq, map_arc_staticCopies]
    exact arcs_addArcs_perm g _
  · rw [mapStaticRegions_eq]
    exact addArcs_eq_with g _

/-- Two units that depend on each other. The first reads one variable in a static region and in two
dynamic ones, and another one in a static region of its own; the second has a dependence on the
first static region only. -/
def mixedRegions : Graph where
  nodes :=
    let unit (number : Int) : Node :=
      { id := position 1 number, file := 1, number := number, startLine := 4, endLine := 5, name := some ""
        body := .unit {} }
    .ofList [("1:1", unit 1), ("1:2", unit 2)]
  links :=
    let read (var : String) (region : Region) : Dependence :=
      { edge := .data, kind := some .readAfterWrite, var := some var, region := some region }
    [⟨"1:1", "1:2", [(0, read "x" "S1"), (1, read "x" "m1"), (2, read "x" "m2")]⟩,
      ⟨"1:2", "1:1", [(0, read "y" "S1")]⟩, ⟨"1:1", "1:1", [(0, read "z" "S2")]⟩]

/-- Both dependences on the first static region get a copy for each dynamic region, also the one of
the unit that has no dependence on these; the static region that no dynamic one meets gets none. -/
theorem mapStaticRegions_copies_mixedRegions :
    mixedRegions.Linked ∧ mixedRegions.Keyed ∧ mixedRegions.nodes.keys.Nodup ∧
      mixedRegions.staticPairs.map (fun c => (c.1.source, c.2)) =
        [("1:1", "m1"), ("1:1", "m2"), ("1:2", "m1"), ("1:2", "m2")] ∧
      ∃ copied : List (Edge × Region), copied.Nodup ∧
        (∀ e m, (e, m) ∈ copied ↔ e ∈ mixedRegions.linkedEdges ∧ mixedRegions.LeavesUnit e ∧
          ∃ r, e.dep.region = some r ∧ isStaticRegion r = true ∧ isStaticRegion m = false ∧ mixedRegions.Meet r m) ∧
        mixedRegions.mapStaticRegions.arcs ~ mixedRegions.arcs ++ copied.map (fun c => c.1.arc.onRegion c.2) ∧
        mixedRegions.mapStaticRegions = { mixedRegions with links := mixedRegions.mapStaticRegions.links } := by
  have hlinked : mixedRegions.Linked := ⟨by decide, by decide⟩
  have hkeyed : mixedRegions.Keyed := (WellFormed.of_entries (by decide) (by decide)).keyed
  have hkeys : mixedRegions.nodes.keys.Nodup := by decide
  exact ⟨hlinked, hkeyed, hkeys, by decide, mapStaticRegions_copies hlinked hkeyed hkeys⟩

end Graph

end ParallelPatterns
