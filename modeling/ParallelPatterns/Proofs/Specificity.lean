import Mathlib.Data.Finset.Max
import Mathlib.Data.Int.ConditionallyCompleteOrder
import Mathlib.Order.ConditionallyCompleteLattice.Basic
import ParallelPatterns.Proofs.Metadata

/-!
# Keeping the most specific dependences

Of the data dependences out of a unit that say the same of the same access, computing metadata keeps
the most specific ones: first those that may cross iterations go if one stays inside an iteration,
then those of lower levels go. The two passes together keep exactly the dependences that are maximal
among all of the unit, as they were before, and touch no other edge.

The passes compare dependences without their targets, so a dependence may go because of one that
leads to another unit. In the graph of a program this separates no units that were joined. A record
joins all units on its lines that have to do with its variable, and the level does not matter for
which units these are; so where the most specific dependence of an access joins one pair, it joins
every pair that a less specific one joins.
-/

namespace ParallelPatterns

open List Dependence DependenceRecord

variable {g : Graph} {e : Edge}

namespace Dependence

/-- How specific a dependence is about iterations: if it stays inside one, the level of that
iteration. -/
def specificity (d : Dependence) : WithBot Int := if d.intraIteration then d.level else ⊥

theorem specificity_le_iff {a b : Dependence} :
    a.specificity ≤ b.specificity ↔ (a.intraIteration → b.intraIteration ∧ a.level ≤ b.level) := by
  unfold specificity
  by_cases ha : a.intraIteration
  · by_cases hb : b.intraIteration <;> simp [ha, hb]
  · simp [ha]

theorem sameAccess_iff {a b : Dependence} :
    a.sameAccess b ↔ a.kind = b.kind ∧ a.edge = b.edge ∧ a.region = b.region ∧
      a.sinkLine = b.sinkLine ∧ a.sourceLine = b.sourceLine ∧ a.var = b.var := by
  simp [sameAccess, and_assoc]

end Dependence

namespace Graph

/-! ## The two passes -/

/-- A test for a dependence that repeats another one finds it among all edges out of the same node:
edges of other kinds say something else, and no dependence passes a strict test on itself. -/
theorem any_repeats_iff (h : g.Linked) (test : Dependence → Dependence → Bool)
    (htest : ∀ d, test d d = false) (he : e ∈ g.linkedEdges) (hdata : e.dep.edge = .data) :
    ((g.outData e.source).any fun o => !e.same o && (e.dep.sameAccess o.dep && test e.dep o.dep)) ↔
      ∃ o ∈ g.linkedEdges, o.source = e.source ∧ e.dep.sameAccess o.dep ∧ test e.dep o.dep := by
  simp only [any_eq_true, Bool.and_eq_true, Bool.not_eq_true', mem_outData_iff]
  constructor
  · rintro ⟨o, ⟨hsource, ho, -⟩, -, haccess, hpass⟩
    exact ⟨o, ho, hsource, haccess, hpass⟩
  · rintro ⟨o, ho, hsource, haccess, hpass⟩
    have hodata : o.dep.edge = .data := (sameAccess_iff.1 haccess).2.1.symm.trans hdata
    refine ⟨o, ⟨hsource, ho, hodata⟩, ?_, haccess, hpass⟩
    rw [Bool.eq_false_iff]
    intro hsame
    rw [h.eq_of_same he ho hsame, htest] at hpass
    cases hpass

theorem isCoarser_iff (h : g.Linked) (he : e ∈ g.linkedEdges) (hdata : e.dep.edge = .data) :
    isCoarser (g.outData e.source) e ↔
      ∃ o ∈ g.linkedEdges, o.source = e.source ∧ e.dep.sameAccess o.dep ∧
        e.dep.intraIteration = false ∧ o.dep.intraIteration := by
  have htest := any_repeats_iff h (fun a b => !a.intraIteration && b.intraIteration) (by simp) he hdata
  simpa [isCoarser, Bool.and_assoc] using htest

theorem isShallower_iff (h : g.Linked) (he : e ∈ g.linkedEdges) (hdata : e.dep.edge = .data) :
    isShallower (g.outData e.source) e ↔
      ∃ o ∈ g.linkedEdges, o.source = e.source ∧ e.dep.sameAccess o.dep ∧
        e.dep.intraIteration ∧ o.dep.intraIteration ∧ e.dep.level < o.dep.level := by
  have htest := any_repeats_iff h
    (fun a b => a.intraIteration && (b.intraIteration && decide (a.level < b.level))) (by simp) he hdata
  simpa [isShallower, Bool.and_assoc] using htest

/-- No data dependence out of the same unit says the same more specifically. -/
def MostSpecific (g : Graph) (e : Edge) : Prop :=
  ∀ o ∈ g.linkedEdges, o.source = e.source → e.dep.sameAccess o.dep → o.dep.specificity ≤ e.dep.specificity

theorem mem_removeRepeated_iff (h : g.Linked) :
    e ∈ g.removeRepeated.linkedEdges ↔ e ∈ g.linkedEdges ∧ (g.LeavesUnit e → g.MostSpecific e) := by
  have h₁ : (g.removeRedundant isCoarser).Linked := h.removeRedundant _
  have hunit : ∀ e, (g.removeRedundant isCoarser).LeavesUnit e ↔ g.LeavesUnit e := fun e =>
    ⟨fun he => ⟨he.data, he.unit⟩, fun he => ⟨he.data, he.unit⟩⟩
  -- the first pass removes nothing that stays inside an iteration
  have hintra : ∀ o ∈ g.linkedEdges, o.dep.intraIteration → o ∈ (g.removeRedundant isCoarser).linkedEdges := by
    intro o ho hin
    refine (mem_linkedEdges_removeRedundant h).2 ⟨ho, ?_⟩
    rintro ⟨hleaves, hcoarser⟩
    obtain ⟨-, -, -, -, hout, -⟩ := (isCoarser_iff h ho hleaves.data).1 hcoarser
    rw [hin] at hout
    cases hout
  rw [removeRepeated, mem_linkedEdges_removeRedundant h₁, hunit]
  constructor
  · rintro ⟨he₁, hshallow⟩
    obtain ⟨he, hcoarse⟩ := (mem_linkedEdges_removeRedundant h).1 he₁
    refine ⟨he, fun hleaves o ho hsource haccess => specificity_le_iff.2 fun hoin => ?_⟩
    have hein : e.dep.intraIteration := by
      by_contra hout
      exact hcoarse ⟨hleaves, (isCoarser_iff h he hleaves.data).2
        ⟨o, ho, hsource, haccess, Bool.eq_false_iff.2 hout, hoin⟩⟩
    refine ⟨hein, ?_⟩
    by_contra hlevel
    exact hshallow ⟨hleaves, (isShallower_iff h₁ he₁ hleaves.data).2
      ⟨o, hintra o ho hoin, hsource, haccess, hein, hoin, not_le.1 hlevel⟩⟩
  · rintro ⟨he, hmost⟩
    have he₁ : e ∈ (g.removeRedundant isCoarser).linkedEdges := by
      refine (mem_linkedEdges_removeRedundant h).2 ⟨he, ?_⟩
      rintro ⟨hleaves, hcoarser⟩
      obtain ⟨o, ho, hsource, haccess, hout, hoin⟩ := (isCoarser_iff h he hleaves.data).1 hcoarser
      have hein := (specificity_le_iff.1 (hmost hleaves o ho hsource haccess) hoin).1
      rw [hout] at hein
      cases hein
    refine ⟨he₁, ?_⟩
    rintro ⟨hleaves, hshallow⟩
    obtain ⟨o, ho, hsource, haccess, -, hoin, hlevel⟩ := (isShallower_iff h₁ he₁ hleaves.data).1 hshallow
    have ho' : o ∈ g.linkedEdges := ((mem_linkedEdges_removeRedundant h).1 ho).1
    have hle := (specificity_le_iff.1 (hmost hleaves o ho' hsource haccess) hoin).2
    omega

theorem exists_mostSpecific (g : Graph) {a : Edge} (ha : a ∈ g.linkedEdges) :
    ∃ e ∈ g.linkedEdges, e.source = a.source ∧ a.dep.sameAccess e.dep ∧ g.MostSpecific e := by
  have hrefl : a.dep.sameAccess a.dep := by simp [sameAccess]
  let alike := (g.linkedEdges.filter fun o => o.source == a.source && a.dep.sameAccess o.dep).toFinset
  have hmem : ∀ o, o ∈ alike ↔ o ∈ g.linkedEdges ∧ o.source = a.source ∧ a.dep.sameAccess o.dep := by
    intro o
    simp [alike]
  obtain ⟨e, he, hmax⟩ := alike.exists_max_image (fun o => o.dep.specificity) ⟨a, (hmem a).2 ⟨ha, rfl, hrefl⟩⟩
  obtain ⟨he, hsource, haccess⟩ := (hmem e).1 he
  refine ⟨e, he, hsource, haccess, fun o ho hosource hoaccess => hmax o ((hmem o).2 ⟨ho, ?_, ?_⟩)⟩
  · exact hosource.trans hsource
  · rw [sameAccess_iff] at haccess hoaccess ⊢
    obtain ⟨h₁, h₂, h₃, h₄, h₅, h₆⟩ := haccess
    obtain ⟨k₁, k₂, k₃, k₄, k₅, k₆⟩ := hoaccess
    exact ⟨h₁.trans k₁, h₂.trans k₂, h₃.trans k₃, h₄.trans k₄, h₅.trans k₅, h₆.trans k₆⟩

end Graph

/-! ## Types of recorded dependences -/

namespace Text

theorem findGo_of_notMem {c : Char} {xs : List Char} (h : c ∉ xs) (n : Nat) (ys : List Char) :
    findGo [c] n (xs ++ c :: ys) = some (n + xs.length) := by
  induction xs generalizing n with
  | nil => simp [findGo]
  | cons x xs ih =>
    rw [mem_cons, not_or] at h
    rw [cons_append, findGo, if_neg (by simpa using h.1), ih h.2, length_cons]
    congr 1
    omega

theorem cut_append {c : Char} {s : String} (h : c ∉ s.toList) (t : String) :
    cut (String.singleton c) (s ++ String.singleton c ++ t) = (s, some t) := by
  have hfind : find? (String.singleton c) (s ++ String.singleton c ++ t) = some s.toList.length := by
    have := findGo_of_notMem h 0 t.toList
    simpa [find?] using this
  rw [cut, hfind]
  simp [take, drop]

end Text

/-- A type with which dependences are recorded: a first write, or another dependence, maybe inside
an iteration of a level. -/
def IsRecordedType (type : String) : Prop :=
  type = "INIT" ∨ ∃ kind ∈ ["RAW", "WAR", "WAW"], type = kind ∨ ∃ level, type = kind ++ "_II_" ++ level

theorem Dependence.eq_init_of_parseKind {type : String} (htype : IsRecordedType type)
    {level : Option Int} (h : parseKind type = .ok (.initial, level)) : type = "INIT" := by
  rcases parseKind_eq_ok h with ⟨-, hname⟩ | ⟨-, hlevel, hname⟩
  · exact hname
  · -- the name in front of a level is the one before the first stroke, and names no first write
    rcases htype with htype | ⟨kind, hkind, rfl | ⟨m, rfl⟩⟩
    · exact htype
    · simp only [mem_cons, not_mem_nil, or_false] at hkind
      rcases hkind with rfl | rfl | rfl <;> cases hlevel
    · have hcut : (Text.cut "_" (kind ++ "_II_" ++ m)).1 = kind := by
        have hstroke : ("_" : String) = String.singleton '_' := by decide
        have hmark : ("_II_" : String) = String.singleton '_' ++ "II_" := by decide
        rw [hmark, hstroke, ← String.append_assoc, String.append_assoc]
        refine congrArg Prod.fst (Text.cut_append ?_ _)
        simp only [mem_cons, not_mem_nil, or_false] at hkind
        rcases hkind with rfl | rfl | rfl <;> decide
      rw [← hcut, hname] at hkind
      exact absurd hkind (by decide)

theorem DependenceRecord.kind_eq_initial_iff {d : DependenceRecord} (htype : IsRecordedType d.type)
    {dep : Dependence} (h : d.dependence = .ok dep) :
    (dep.kind = some .initial ↔ d.type = "INIT") ∧ (d.type = "INIT" → dep.intraIteration = false) := by
  obtain ⟨kind, level, hkind, rfl⟩ := dependence_eq_ok h
  have hinit : d.type = "INIT" → kind = .initial ∧ level = none := by
    intro heq
    rw [heq] at hkind
    cases hkind
    exact ⟨rfl, rfl⟩
  refine ⟨⟨fun heq => ?_, fun heq => ?_⟩, fun heq => ?_⟩
  · cases heq
    exact eq_init_of_parseKind htype hkind
  · rw [(hinit heq).1]
  · rw [(hinit heq).2]
    rfl

namespace Graph

/-! ## Which units a dependence joins -/

/-- Dependences out of a node that agree in kind, lines and variable join it to the same nodes, and
first writes are not told of iterations. -/
structure SpreadsEvenly (g : Graph) : Prop where
  joins : ∀ a ∈ g.arcs, ∀ e ∈ g.arcs, a.dep.edge = .data → e.dep.edge = .data → e.source = a.source →
    a.dep.kind = e.dep.kind → a.dep.sinkLine = e.dep.sinkLine → a.dep.sourceLine = e.dep.sourceLine →
      a.dep.var = e.dep.var → a.dep.kind ≠ some .initial → ⟨a.source, a.target, e.dep⟩ ∈ g.arcs
  initial : ∀ a ∈ g.arcs, a.dep.edge = .data → a.dep.kind = some .initial → a.dep.intraIteration = false

end Graph

open ParallelPatterns.Graph in
theorem ProgramInput.spreadsEvenly_of_toGraph {p : ProgramInput}
    (htypes : ∀ d ∈ p.dependences, IsRecordedType d.type) (hg : p.toGraph = .ok g) : g.SpreadsEvenly := by
  obtain ⟨s, ass, hs, hass, -, rfl⟩ := toGraph_eq_ok_iff.1 hg
  have hmem : ∀ a : Arc, a ∈ (s.addArcs ass.flatten).arcs ↔ a ∈ s.arcs ∨ a ∈ ass.flatten := fun a => by
    rw [(arcs_addArcs_perm s ass.flatten).mem_iff, mem_append]
  have hrecord : ∀ a ∈ (s.addArcs ass.flatten).arcs, a.dep.edge = .data →
      ∃ d ∈ p.dependences, ∃ as, s.recordArcs p.units d = .ok as ∧ a ∈ as ∧ d.dependence = .ok a.dep := by
    intro a ha hdata
    rcases (hmem a).1 ha with ha | ha
    · exact absurd hdata (edge_ne_data_of_skeleton hs ha)
    · obtain ⟨as, has, ha⟩ := mem_flatten.1 ha
      obtain ⟨d, hd, has⟩ := (mem_of_mapM_eq_ok hass as).1 has
      exact ⟨d, hd, as, has, ha, dependence_of_mem_recordArcs has ha⟩
  constructor
  · intro a ha e he hadata hedata hsource hkind hsink hline hvar hinitial
    obtain ⟨d, hd, as, has, ha, hadep⟩ := hrecord a ha hadata
    obtain ⟨d', hd', es, hes, he, hedep⟩ := hrecord e he hedata
    have htype : d.type ≠ "INIT" := fun heq =>
      hinitial ((kind_eq_initial_iff (htypes d hd) hadep).1.2 heq)
    have htype' : d'.type ≠ "INIT" := fun heq =>
      hinitial (hkind.trans ((kind_eq_initial_iff (htypes d' hd') hedep).1.2 heq))
    obtain ⟨_, _, _, haeq⟩ := dependence_eq_ok hadep
    obtain ⟨_, _, _, heeq⟩ := dependence_eq_ok hedep
    rw [haeq, heeq] at hsink hline hvar
    have hpairs : pairsOnLines p.units d' = pairsOnLines p.units d := by
      unfold pairsOnLines
      rw [if_neg (by simpa using htype'), if_neg (by simpa using htype), Option.some.inj hsink,
        Option.some.inj hline]
    obtain ⟨q, hq, bs, hbs, ha⟩ := (mem_recordArcs_iff has).1 ha
    obtain ⟨rfl, -⟩ := eq_of_mem_arcsBetween hbs ha
    have harc := arcsBetween_eq_of_mem hbs ha htype (Option.some.inj hvar).symm hedep
    refine (hmem _).2 (.inr (mem_flatten.2 ⟨es, (mem_of_mapM_eq_ok hass es).2 ⟨d', hd', hes⟩, ?_⟩))
    exact (mem_recordArcs_iff hes).2 ⟨_, hpairs ▸ hq, _, harc, by simp⟩
  · intro a ha hdata hinitial
    obtain ⟨d, hd, -, -, -, hadep⟩ := hrecord a ha hdata
    obtain ⟨hiff, hintra⟩ := kind_eq_initial_iff (htypes d hd) hadep
    exact hintra (hiff.1 hinitial)

namespace Graph

theorem mem_arcs_mapStaticRegions {a : Arc} :
    a ∈ g.mapStaticRegions.arcs ↔ a ∈ g.arcs ∨ ∃ c ∈ g.staticCopies, c.arc = a := by
  rw [mapStaticRegions_eq, (arcs_addArcs_perm g _).mem_iff, mem_append, mem_map]

theorem SpreadsEvenly.mapStaticRegions (h : g.SpreadsEvenly) : g.mapStaticRegions.SpreadsEvenly := by
  -- a dependence of the mapped graph comes from one that differs from it in the region at most
  have horigin : ∀ a ∈ g.mapStaticRegions.arcs, a.dep.edge = .data →
      ∃ a₀ ∈ g.arcs, ∃ r, a₀.source = a.source ∧ a₀.target = a.target ∧ a.dep = { a₀.dep with region := r } := by
    intro a ha hdata
    rcases mem_arcs_mapStaticRegions.1 ha with ha | ⟨c, hc, rfl⟩
    · exact ⟨a, ha, a.dep.region, rfl, rfl, rfl⟩
    · obtain ⟨e, he, -, -, hc⟩ := mem_staticCopies_iff.1 hc
      obtain ⟨-, m, -, -, -, -, rfl⟩ := mem_dynamicCopies_iff.1 hc
      exact ⟨e.arc, mem_arcs_iff.2 ⟨e, he, rfl⟩, some m, rfl, rfl, rfl⟩
  constructor
  · intro a ha e he hadata hedata hsource hkind hsink hline hvar hinitial
    obtain ⟨a₀, ha₀, r, hasource, hatarget, hadep⟩ := horigin a ha hadata
    rw [hadep] at hadata hkind hsink hline hvar hinitial
    rcases mem_arcs_mapStaticRegions.1 he with he | ⟨c, hc, rfl⟩
    · have harc := h.joins a₀ ha₀ e he hadata hedata (hsource.trans hasource.symm) hkind hsink hline hvar hinitial
      rw [hasource, hatarget] at harc
      exact mem_arcs_mapStaticRegions.2 (.inl harc)
    · obtain ⟨e₀, he₀, hdata₀, hunit, hc⟩ := mem_staticCopies_iff.1 hc
      obtain ⟨s, m, hregion, hstatic, hm, hdynamic, rfl⟩ := mem_dynamicCopies_iff.1 hc
      have harc := h.joins a₀ ha₀ e₀.arc (mem_arcs_iff.2 ⟨e₀, he₀, rfl⟩) hadata hdata₀ (hsource.trans hasource.symm)
        hkind hsink hline hvar hinitial
      -- the dependence that joins the same nodes as `a₀` is copied as `e₀` is
      obtain ⟨e₁, he₁, heq⟩ := mem_arcs_iff.1 harc
      obtain ⟨hsource₁, htarget₁, hdep₁⟩ := Arc.mk.inj heq
      refine mem_arcs_mapStaticRegions.2 (.inr ⟨{ e₁ with dep := { e₁.dep with region := some m } }, ?_, ?_⟩)
      · refine mem_staticCopies_iff.2 ⟨e₁, he₁, ?_, ?_,
          mem_dynamicCopies_iff.2 ⟨s, m, ?_, hstatic, hm, hdynamic, rfl⟩⟩
        · rw [hdep₁]
          exact hdata₀
        · rw [hsource₁, hasource, ← hsource]
          exact hunit
        · rw [hdep₁]
          exact hregion
      · rw [hdep₁, hsource₁, htarget₁, hasource, hatarget]
        rfl
  · intro a ha hdata hinitial
    obtain ⟨a₀, ha₀, r, -, -, hadep⟩ := horigin a ha hdata
    rw [hadep] at hdata hinitial ⊢
    exact h.initial a₀ ha₀ hdata hinitial

theorem SpreadsEvenly.exists_kept (h : g.SpreadsEvenly) (hlinked : g.Linked) {a : Edge}
    (ha : a ∈ g.linkedEdges) (hdata : a.dep.edge = .data) :
    ∃ e ∈ g.removeRepeated.linkedEdges, e.source = a.source ∧ e.target = a.target ∧ a.dep.sameAccess e.dep := by
  have harc : ∀ e ∈ g.linkedEdges, e.arc ∈ g.arcs := fun e he => mem_arcs_iff.2 ⟨e, he, rfl⟩
  by_cases hinitial : a.dep.kind = some .initial
  · -- no first write is more specific than another one
    refine ⟨a, (mem_removeRepeated_iff hlinked).2 ⟨ha, fun _ o ho _ haccess => ?_⟩, rfl, rfl, ?_⟩
    · obtain ⟨hkind, hedge, -⟩ := sameAccess_iff.1 haccess
      have hout : o.dep.intraIteration = false :=
        h.initial o.arc (harc o ho) (hedge.symm.trans hdata) (hkind.symm.trans hinitial)
      rw [specificity_le_iff, hout]
      exact fun hfalse => absurd hfalse Bool.false_ne_true
    · simp [sameAccess]
  · obtain ⟨e, he, hsource, haccess, hmost⟩ := g.exists_mostSpecific ha
    obtain ⟨hkind, hedge, -, hsink, hline, hvar⟩ := sameAccess_iff.1 haccess
    obtain ⟨e', he', heq⟩ := mem_arcs_iff.1 (h.joins a.arc (harc a ha) e.arc (harc e he) hdata
      (hedge.symm.trans hdata) hsource hkind hsink hline hvar hinitial)
    obtain ⟨hsource', htarget', hdep'⟩ := Arc.mk.inj heq
    refine ⟨e', (mem_removeRepeated_iff hlinked).2 ⟨he', fun _ o ho hosource hoaccess => ?_⟩,
      hsource', htarget', ?_⟩
    · have hdep : e'.dep = e.dep := hdep'
      rw [hdep] at hoaccess ⊢
      exact hmost o ho (hosource.trans (hsource'.trans hsource.symm)) hoaccess
    · have hdep : e'.dep = e.dep := hdep'
      rw [hdep]
      exact haccess

/-- Computing metadata keeps of the data dependences out of a unit exactly those that are most
specific among the ones that say the same of the same access, and all other edges. In the graph of a
program, nodes that a data dependence joins stay joined by one that says the same of the same
access. -/
theorem computeMetadata_keeps_mostSpecific {g₁ g₂ : Graph} (hlinked : g₁.Linked)
    (hmeta : g₁.computeMetadata = .ok g₂) : (g₂.linkedEdges.Sublist g₁.linkedEdges ∧
        ∀ e, e ∈ g₂.linkedEdges ↔ e ∈ g₁.linkedEdges ∧ (g₁.LeavesUnit e → g₁.MostSpecific e)) ∧
      ∀ (p : ProgramInput) (g : Graph), (∀ d ∈ p.dependences, IsRecordedType d.type) → p.toGraph = .ok g →
        (g₁ = g ∨ g₁ = g.mapStaticRegions) → ∀ a ∈ g₁.linkedEdges, a.dep.edge = .data →
          ∃ e ∈ g₂.linkedEdges, e.source = a.source ∧ e.target = a.target ∧ a.dep.sameAccess e.dep = true := by
  obtain ⟨g', -, hannotates, rfl⟩ := computeMetadata_eq_ok hmeta
  have hlinked' : g'.Linked := hlinked.annotates hannotates
  have hedges : g'.linkedEdges = g₁.linkedEdges := hannotates.linkedEdges
  refine ⟨⟨?_, fun e => ?_⟩, fun p g htypes hg hmapped a ha hdata => ?_⟩
  · rw [removeRepeated, removeRedundant, linkedEdges_removeEdges, removeRedundant, linkedEdges_removeEdges, hedges]
    exact filter_sublist.trans filter_sublist
  · have hunits : g'.units.map (·.id) = g₁.units.map (·.id) := hannotates.map_id_nodesOf [.unit]
    have hleaves : g'.LeavesUnit e ↔ g₁.LeavesUnit e :=
      ⟨fun h => ⟨h.data, hunits ▸ h.unit⟩, fun h => ⟨h.data, hunits ▸ h.unit⟩⟩
    rw [mem_removeRepeated_iff hlinked', hleaves, MostSpecific, MostSpecific, hedges]
  · have hevenly : g₁.SpreadsEvenly := by
      have hspread : g.SpreadsEvenly := ProgramInput.spreadsEvenly_of_toGraph htypes hg
      rcases hmapped with rfl | rfl
      · exact hspread
      · exact hspread.mapStaticRegions
    have hevenly' : g'.SpreadsEvenly := by
      have harcs : g'.arcs = g₁.arcs := by rw [arcs, hedges, arcs]
      exact ⟨harcs ▸ hevenly.joins, harcs ▸ hevenly.initial⟩
    exact hevenly'.exists_kept hlinked' (hedges ▸ ha) hdata

end Graph

/-- A unit that reads on line 5 what two others write on line 4. One dependence is recorded twice,
once known to stay inside an iteration. -/
def repeatedReads : ProgramInput where
  units :=
    let unit (id : String) : NodeRecord :=
      { id := some id, type := some "0", name := some "", children := [], called := none
        element := .element "Node" [("startsAtLine", "1:4"), ("endsAtLine", "1:5")]
          [.element "localVariables" [] [.element "local" [("type", "int")] [.text "x"]],
            .element "globalVariables" [] [], .element "callsNode" [] [],
            .element "instructionsCount" [] [.text "1"]] }
    { records := [unit "1:1", unit "1:2", unit "1:3"], readers := ⟨[("1:5", ["1:1"])]⟩
      writers := ⟨[("1:4", ["1:2", "1:3"])]⟩ }
  dependences := [⟨"1:5", "1:4", "RAW", "x", "m"⟩, ⟨"1:5", "1:4", "RAW_II_1", "x", "m"⟩]
  loops := ∅
  reductions := none

/-- Of four dependences the two inside an iteration stay, one for each of the writing units. -/
theorem Graph.computeMetadata_keeps_mostSpecific_repeatedReads :
    (∀ d ∈ repeatedReads.dependences, IsRecordedType d.type) ∧
      ∃ g g₂, repeatedReads.toGraph = .ok g ∧ g.Linked ∧ g.computeMetadata = .ok g₂ ∧
        g.linkedEdges.length = 4 ∧ g₂.linkedEdges.length = 2 ∧
          (∀ e, e ∈ g₂.linkedEdges ↔ e ∈ g.linkedEdges ∧ (g.LeavesUnit e → g.MostSpecific e)) ∧
            ∀ a ∈ g.linkedEdges, a.dep.edge = .data → ∃ e ∈ g₂.linkedEdges,
              e.source = a.source ∧ e.target = a.target ∧ a.dep.sameAccess e.dep = true := by
  have htypes : ∀ d ∈ repeatedReads.dependences, IsRecordedType d.type := by
    intro d hd
    rcases mem_cons.1 hd with rfl | hd
    · exact .inr ⟨"RAW", by simp, .inl rfl⟩
    · rw [mem_singleton.1 hd]
      exact .inr ⟨"RAW", by simp, .inr ⟨"1", rfl⟩⟩
  obtain ⟨g, g₂, hg, hmeta, hbefore, hafter⟩ : ∃ g g₂, repeatedReads.toGraph = .ok g ∧ g.computeMetadata = .ok g₂ ∧
      g.linkedEdges.length = 4 ∧ g₂.linkedEdges.length = 2 := ⟨_, _, rfl, rfl, rfl, rfl⟩
  have hlinked : g.Linked := ProgramInput.linked_of_toGraph hg
  obtain ⟨⟨-, hkept⟩, hjoined⟩ := computeMetadata_keeps_mostSpecific hlinked hmeta
  exact ⟨htypes, g, g₂, hg, hlinked, hmeta, hbefore, hafter, hkept, hjoined repeatedReads g htypes hg (.inl rfl)⟩

end ParallelPatterns
