import Mathlib
import ParallelPatterns.Proofs.CallAccess
import ParallelPatterns.Proofs.InReach

/-!
# Which regions are combined

Each region is analysed alone first. Then every pair of regions of which the second is reached from
the first is combined, and a region stays alone if it is in no pair. The analyses note accesses at
functions and use up identifiers of writes, but keep the links of the graph and the numbers of its
nodes. So whether a region ends up in one combined region only depends on the pairs that it is in.
-/

namespace ParallelPatterns

def Node.numbers (n : Node) : NodeId × Int × Int := (n.id, n.file, n.number)

theorem Node.alike_eq_of_numbers {a a' b b' : Node} (ha : a'.numbers = a.numbers)
    (hb : b'.numbers = b.numbers) : a'.alike b' = a.alike b := by
  simp only [numbers, Prod.mk.injEq] at ha hb
  rw [alike, alike, ha.2.1, ha.2.2, hb.2.1, hb.2.2]

namespace Graph

structure SameShape (g g' : Graph) : Prop where
  links : g'.links = g.links
  numbers : ∀ id, (g'.node? id).map Node.numbers = (g.node? id).map Node.numbers

variable {g g₁ g' : Graph}

theorem SameShape.refl (g : Graph) : g.SameShape g := ⟨rfl, fun _ => rfl⟩

theorem SameShape.trans (h : g.SameShape g₁) (h' : g₁.SameShape g') : g.SameShape g' :=
  ⟨h'.links.trans h.links, fun id => (h'.numbers id).trans (h.numbers id)⟩

theorem SameShape.symm (h : g.SameShape g') : g'.SameShape g :=
  ⟨h.links.symm, fun id => (h.numbers id).symm⟩

theorem sameShape_remember (g : Graph) (f : NodeId) (accesses : DeviceAccesses) :
    g.SameShape (g.remember f accesses) := by
  have hnumbers : ∀ (n : Node) (k : FunctionBody → FunctionBody), (n.modifyFunction k).numbers = n.numbers := by
    intro n k
    unfold Node.modifyFunction
    split <;> rfl
  refine ⟨rfl, fun id => ?_⟩
  unfold remember node? modifyNode
  rw [Table.get?_modify]
  split
  · cases g.nodes.get? id with
    | none => rfl
    | some n => exact congrArg some (hnumbers n _)
  · rfl

theorem SameShape.map_numbers_children (h : g.SameShape g') (id : NodeId) :
    (g'.children id).map Node.numbers = (g.children id).map Node.numbers := by
  have hedges : g'.outEdgesOf id [.child] = g.outEdgesOf id [.child] := by
    unfold outEdgesOf outEdges
    rw [h.links]
  unfold children targets
  rw [hedges, List.map_filterMap, List.map_filterMap]
  exact List.filterMap_congr fun e _ => h.numbers e.target

theorem SameShape.exists_child (h : g.SameShape g') {id : NodeId} {c : Node}
    (hc : c ∈ g.children id) : ∃ c' ∈ g'.children id, c'.numbers = c.numbers := by
  have hmem : c.numbers ∈ (g'.children id).map Node.numbers := by
    rw [h.map_numbers_children]
    exact List.mem_map_of_mem hc
  exact List.mem_map.1 hmem

theorem SameShape.reachable_eq (h : g.SameShape g') {c c' d d' : Node} (hc : c'.numbers = c.numbers)
    (hd : d'.numbers = d.numbers) (kinds : List EdgeKind) : g'.reachable d' c' kinds = g.reachable d c kinds := by
  have hids : g'.reachingIds kinds d'.id = g.reachingIds kinds d.id := by
    have hedges : g'.inEdgesOf = g.inEdgesOf := by
      funext id kinds
      unfold inEdgesOf inEdges
      rw [h.links]
    have hid : d'.id = d.id := congrArg (·.1) hd
    rw [reachingIds, reachingIds, hedges, h.links, hid]
  have hany : ∀ ids : List NodeId,
      (g'.nodesAt ids).any (fun n => n.alike c') = (g.nodesAt ids).any (fun n => n.alike c) := by
    intro ids
    unfold nodesAt
    rw [List.any_filterMap, List.any_filterMap]
    congr 1
    funext id
    have hnode := h.numbers id
    cases hn : g.node? id with
    | none =>
      rw [hn, Option.map_none, Option.map_eq_none_iff] at hnode
      rw [hnode]
    | some n =>
      rw [hn, Option.map_some, Option.map_eq_some_iff] at hnode
      obtain ⟨n', hn', hnumbers⟩ := hnode
      rw [hn']
      exact Node.alike_eq_of_numbers hnumbers hc
  rw [reachable, reachable, Node.alike_eq_of_numbers hc hd, hids, hany]

end Graph

namespace Analysis

variable {α β : Type}

def Gives (P : α → Prop) (t : Analysis α) : Prop :=
  ∀ g, g.SameShape (t.runOn g).2 ∧ ∀ a, (t.runOn g).1 = .ok a → P a

variable {P : α → Prop} {Q : β → Prop}

variable {t : Analysis α} {a : α} {f : α → Analysis β}

theorem Gives.of_runOn_eq_ok (h : t.Gives P) {g g' : Graph} (hrun : t.runOn g = (.ok a, g')) :
    g.SameShape g' ∧ P a := by
  obtain ⟨hshape, hgives⟩ := h g
  rw [hrun] at hshape hgives
  exact ⟨hshape, hgives a rfl⟩

theorem gives_pure (h : P a) : (pure a : Analysis α).Gives P := by
  refine fun g => ⟨.refl g, fun b hb => ?_⟩
  cases hb
  exact h

theorem gives_throw (e : Failure) : (throw e : Analysis α).Gives P := fun g => ⟨.refl g, fun _ h => by cases h⟩

theorem gives_lift (r : Result α) : (lift r).Gives fun _ => True := by
  cases r with
  | ok a => exact gives_pure trivial
  | error e => exact gives_throw e

theorem gives_graph : graph.Gives fun _ => True := fun g => ⟨.refl g, fun _ _ => trivial⟩

theorem gives_modify {f : Graph → Graph} (h : ∀ g : Graph, g.SameShape (f g)) :
    (modify f : Analysis Unit).Gives fun _ => True := fun g => ⟨h g, fun _ _ => trivial⟩

theorem Gives.bind (ht : t.Gives P) (hf : ∀ a, P a → (f a).Gives Q) :
    (t >>= f).Gives Q := by
  intro g
  obtain ⟨hshape, hgives⟩ := ht g
  cases hrun : t.runOn g with
  | mk r g₁ =>
    rw [hrun] at hshape hgives
    cases r with
    | error e =>
      have hall : (t >>= f).runOn g = (.error e, g₁) := run_bind_of_error hrun
      rw [hall]
      exact ⟨hshape, fun b hb => by cases hb⟩
    | ok a =>
      rw [runOn_bind_of_ok hrun]
      obtain ⟨hshape', hgives'⟩ := hf a (hgives a rfl) g₁
      exact ⟨hshape.trans hshape', hgives'⟩

theorem gives_query (f : Graph → Result α) : (query f).Gives fun _ => True :=
  gives_graph.bind fun g _ => gives_lift (f g)

theorem gives_mapM {R : α → β → Prop} (h : ∀ x, (f x).Gives (R x)) (xs : List α) :
    (xs.mapM f).Gives (List.Forall₂ R xs) := by
  induction xs with
  | nil => exact gives_pure .nil
  | cons x xs ih =>
    rw [List.mapM_cons]
    exact (h x).bind fun y hy => ih.bind fun ys hys => gives_pure (.cons hy hys)

theorem gives_foldlM {f : β → α → Analysis β} (h : ∀ b x, (f b x).Gives fun _ => True) (xs : List α)
    (b : β) : (xs.foldlM f b).Gives fun _ => True := by
  induction xs generalizing b with
  | nil => exact gives_pure trivial
  | cons x xs ih =>
    rw [List.foldlM_cons]
    exact (h b x).bind fun b' _ => ih b'

end Analysis

open Analysis

/-! ### Accesses of called functions -/

variable (toHost : Bool) (w : WritesByDevice)

theorem gives_functionAccesses (f : NodeId) : (functionAccesses w f).Gives fun _ => True := by
  unfold functionAccesses
  refine (gives_query _).bind fun n _ => ?_
  split
  · exact gives_throw _
  · split
    · exact gives_throw _
    · refine (gives_modify fun g => g.sameShape_remember f _).bind fun _ _ => ?_
      exact gives_pure trivial

theorem gives_handToCallers (f : NodeId) : (handToCallers toHost w f).Gives fun _ => True := by
  unfold handToCallers
  refine (gives_functionAccesses w f).bind fun accesses _ => ?_
  have hrest : ∀ accesses : DeviceAccesses, (do
      let g ← graph
      return w.addToCallers accesses ((g.inEdgesOf f [.call]).map (·.source)) : Analysis WritesByDevice).Gives
        fun _ => True := by
    intro accesses
    refine gives_graph.bind fun g _ => ?_
    exact gives_pure trivial
  dsimp only
  split
  · refine (gives_lift _).bind fun host _ => ?_
    refine (gives_modify fun g => g.sameShape_remember f _).bind fun _ _ => ?_
    exact hrest host
  · exact hrest accesses

theorem gives_callAccessRound : (callAccessRound toHost w).Gives fun _ => True := by
  unfold callAccessRound
  refine gives_graph.bind fun g _ => ?_
  have hstep : ∀ (w : WritesByDevice) (f : Node), (handToCallers toHost w f.id).Gives fun _ => True :=
    fun w f => gives_handToCallers toHost w f.id
  exact gives_foldlM hstep _ w

theorem sameShape_callAccessesGo {g g' : Graph} {toHost : Bool} {w : WritesByDevice} {r : Result WritesByDevice}
    (h : g.callAccessesGo toHost w = some (r, g')) : g.SameShape g' := by
  refine Graph.callAccessesGo.partial_correctness toHost (fun g _ out => g.SameShape out.2) ?_ g w (r, g') h
  intro go hgo g w out hout
  have hshape := (gives_callAccessRound toHost w g).1
  split at hout
  case h_1 e g₁ hrun =>
    rw [hrun] at hshape
    cases hout
    exact hshape
  case h_2 next g₁ hrun =>
    rw [hrun] at hshape
    split at hout
    · cases hout
      exact hshape
    · exact hshape.trans (hgo g₁ next out hout)

theorem gives_addCallAccesses : (addCallAccesses toHost w).Gives fun _ => True := by
  refine fun g => ⟨?_, fun _ _ => trivial⟩
  rw [addCallAccesses, runOn_graph_bind]
  cases hgo : g.callAccessesGo toHost w with
  | none => exact .refl g
  | some out =>
    obtain ⟨r, g'⟩ := out
    have hset : (set g' : Analysis Unit).runOn g = (.ok (), g') := rfl
    have hlift := (gives_lift r g').1
    simp only
    rw [runOn_bind_of_ok hset]
    exact (sameShape_callAccessesGo hgo).trans hlift

/-! ### Combined regions -/

theorem gives_dataMovement (s : DeviceScope) (loops : List GpuLoop) :
    (dataMovement s loops).Gives fun _ => True := by
  unfold dataMovement
  refine gives_graph.bind fun g _ => ?_
  refine (gives_lift _).bind fun written _ => ?_
  refine (gives_lift _).bind fun known _ => ?_
  refine (gives_lift _).bind fun live _ => ?_
  refine (gives_lift _).bind fun hostLive _ => ?_
  dsimp only
  have hnext : ∀ (next : Int) (g : Graph), g.SameShape { g with nextWrite := next } :=
    fun _ _ => ⟨rfl, fun _ => rfl⟩
  refine (gives_modify (hnext _)).bind fun _ _ => ?_
  refine (gives_lift _).bind fun graphs _ => ?_
  refine (gives_addCallAccesses true _).bind fun writes _ => ?_
  exact gives_query _

theorem gives_combinedRegion (files : Files) (folder : String) (regions : List GpuRegion) :
    (combinedRegion files folder regions).Gives fun c => c.regions = regions := by
  unfold combinedRegion
  refine (gives_query _).bind fun site _ => ?_
  refine (gives_dataMovement _ _).bind fun m _ => ?_
  refine gives_graph.bind fun g _ => ?_
  refine (gives_mapM (fun _ => gives_lift _) _).bind fun updates _ => ?_
  refine (gives_mapM (fun _ => gives_lift _) _).bind fun entryPoints _ => ?_
  refine (gives_mapM (fun _ => gives_lift _) _).bind fun exitPoints _ => ?_
  refine (gives_lift _).bind fun reports _ => ?_
  exact gives_pure rfl

/-! ## Pairs of regions -/

open List

variable {g g' : Graph} {i j n : Nat} {pairs : List (Nat × Nat)}

namespace Graph

/-- The region at one place leads to the region at another place: over successor edges a child of
the second one is reached from a child of the first one. -/
def Joins (g : Graph) (regions : List GpuRegion) (i j : Nat) : Prop :=
  i ≠ j ∧ ∃ a ∈ regions[i]?, ∃ b ∈ regions[j]?, ∃ c ∈ g.children a.site.node, ∃ d ∈ g.children b.site.node,
    c.alike d = false ∧ g.reachable d c [.successor]

theorem Joins.lt {regions : List GpuRegion} (h : g.Joins regions i j) :
    i < regions.length ∧ j < regions.length := by
  obtain ⟨-, a, ha, b, hb, -⟩ := h
  exact ⟨(List.getElem?_eq_some_iff.1 ha).1, (List.getElem?_eq_some_iff.1 hb).1⟩

theorem SameShape.joins_iff (h : g.SameShape g') {regions : List GpuRegion} :
    g'.Joins regions i j ↔ g.Joins regions i j := by
  have hsame : ∀ {g g' : Graph}, g.SameShape g' → g.Joins regions i j → g'.Joins regions i j := by
    rintro g g' h ⟨hne, a, ha, b, hb, c, hc, d, hd, halike, hreach⟩
    obtain ⟨c', hc', hcnumbers⟩ := h.exists_child hc
    obtain ⟨d', hd', hdnumbers⟩ := h.exists_child hd
    refine ⟨hne, a, ha, b, hb, c', hc', d', hd', ?_, ?_⟩
    · rw [Node.alike_eq_of_numbers hcnumbers hdnumbers, halike]
    · rw [h.reachable_eq hcnumbers hdnumbers, hreach]
  exact ⟨hsame h.symm, hsame h⟩

theorem mem_orderedPairs {α : Type} {xs : List α} {a b : α} :
    ((i, a), (j, b)) ∈ orderedPairs xs ↔ xs[i]? = some a ∧ xs[j]? = some b ∧ i ≠ j := by
  simp [orderedPairs, mk_mem_zipIdx_iff_getElem?]

theorem mem_pairsInFunction {rs : List CombinedRegion} :
    (i, j) ∈ g.pairsInFunction rs ↔ i ≠ j ∧ ∃ a ∈ rs[i]?, ∃ b ∈ rs[j]?, ∃ c ∈ g.children a.root,
      ∃ d ∈ g.children b.root, c.alike d = false ∧ g.reachable d c [.successor] := by
  unfold pairsInFunction
  rw [mem_distinct, mem_flatMap]
  constructor
  · rintro ⟨⟨⟨i', a⟩, j', b⟩, hpair, hmem⟩
    obtain ⟨ha, hb, hne⟩ := mem_orderedPairs.1 hpair
    obtain ⟨c, hc, hmem⟩ := mem_flatMap.1 hmem
    obtain ⟨d, hd, hmem⟩ := mem_filterMap.1 hmem
    split at hmem
    · cases hmem
    case isFalse halike =>
      split at hmem
      case isTrue hreach =>
        cases hmem
        exact ⟨hne, a, ha, b, hb, c, hc, d, hd, Bool.eq_false_iff.2 halike, hreach⟩
      case isFalse =>
        split at hmem
        case isTrue hreach =>
          cases hmem
          refine ⟨hne.symm, b, hb, a, ha, d, hd, c, hc, ?_, hreach⟩
          rw [Node.alike_comm]
          exact Bool.eq_false_iff.2 halike
        · cases hmem
  · rintro ⟨hne, a, ha, b, hb, c, hc, d, hd, halike, hreach⟩
    refine ⟨((i, a), (j, b)), mem_orderedPairs.2 ⟨ha, hb, hne⟩, ?_⟩
    refine mem_flatMap.2 ⟨c, hc, mem_filterMap.2 ⟨d, hd, ?_⟩⟩
    rw [if_neg (by simp [halike]), if_pos hreach]

end Graph

open Analysis ParallelPatterns.Graph

variable {regions : List GpuRegion} {single : List CombinedRegion}

/-- The regions at places. -/
def regionsAt (regions : List GpuRegion) (places : List Nat) : List GpuRegion :=
  places.filterMap fun i => regions[i]?

def Singles (regions : List GpuRegion) (single : List CombinedRegion) : Prop :=
  List.Forall₂ (fun r c => c.regions = [r]) regions single

section

variable (h : Singles regions single)
include h

theorem Singles.getElem? {c : CombinedRegion} (hc : single[i]? = some c) :
    ∃ r, regions[i]? = some r ∧ c.regions = [r] := by
  induction h generalizing i with
  | nil => cases hc
  | cons hr _ ih =>
    cases i with
    | zero =>
      cases hc
      exact ⟨_, rfl, hr⟩
    | succ i => exact ih hc

theorem Singles.exists_getElem? {r : GpuRegion} (hr : regions[i]? = some r) :
    ∃ c, single[i]? = some c ∧ c.regions = [r] := by
  have hi := (List.getElem?_eq_some_iff.1 hr).1
  rw [h.length_eq] at hi
  obtain ⟨r', hr', hc⟩ := h.getElem? (getElem?_eq_getElem hi)
  rw [hr] at hr'
  cases hr'
  exact ⟨_, getElem?_eq_getElem hi, hc⟩

theorem Singles.mem_pairsInFunction_iff : (i, j) ∈ g.pairsInFunction single ↔ g.Joins regions i j := by
  have hroot : ∀ {c : CombinedRegion} {r : GpuRegion}, c.regions = [r] → c.root = r.site.node := by
    intro c r hc
    rw [CombinedRegion.root, hc]
    rfl
  rw [mem_pairsInFunction]
  constructor
  · rintro ⟨hne, a, ha, b, hb, c, hc, d, hd, hreach⟩
    obtain ⟨r, hr, har⟩ := h.getElem? ha
    obtain ⟨s, hs, hbs⟩ := h.getElem? hb
    rw [hroot har] at hc
    rw [hroot hbs] at hd
    exact ⟨hne, r, hr, s, hs, c, hc, d, hd, hreach⟩
  · rintro ⟨hne, r, hr, s, hs, c, hc, d, hd, hreach⟩
    obtain ⟨a, ha, har⟩ := h.exists_getElem? hr
    obtain ⟨b, hb, hbs⟩ := h.exists_getElem? hs
    rw [← hroot har] at hc
    rw [← hroot hbs] at hd
    exact ⟨hne, a, ha, b, hb, c, hc, d, hd, hreach⟩

theorem Singles.combinedPair (files : Files) (folder : String) {p : Nat × Nat}
    (hp : p.1 < regions.length ∧ p.2 < regions.length) :
    (combinedPair files folder single p).Gives fun o => o.map (·.regions) =
      some (regionsAt regions [p.1, p.2]) := by
  have hr := getElem?_eq_getElem hp.1
  have hs := getElem?_eq_getElem hp.2
  obtain ⟨a, ha, har⟩ := h.exists_getElem? hr
  obtain ⟨b, hb, hbs⟩ := h.exists_getElem? hs
  unfold ParallelPatterns.combinedPair
  rw [ha, hb]
  refine (gives_combinedRegion files folder _).bind fun c hc => gives_pure ?_
  rw [Option.map_some, hc, har, hbs, regionsAt]
  simp [hr, hs]

theorem Singles.combinedPairs (files : Files) (folder : String)
    (hpairs : ∀ p ∈ pairs, p.1 < regions.length ∧ p.2 < regions.length) :
    (pairs.filterMapM (ParallelPatterns.combinedPair files folder single)).Gives
      fun cs => cs.map (·.regions) = pairs.map fun p => regionsAt regions [p.1, p.2] := by
  induction pairs with
  | nil => exact gives_pure rfl
  | cons p pairs ih =>
    rw [filterMapM_cons]
    refine (h.combinedPair files folder (hpairs p mem_cons_self)).bind fun o ho => ?_
    obtain ⟨c, rfl, hc⟩ := Option.map_eq_some_iff.1 ho
    refine (ih fun q hq => hpairs q (mem_cons_of_mem p hq)).bind fun cs hcs => gives_pure ?_
    rw [map_cons, map_cons, hc, hcs]

theorem Singles.map_regions_alone (places : List Nat) (hplaces : ∀ i ∈ places, i < regions.length) :
    (places.filterMap fun i => single[i]?).map (·.regions) = places.map fun i => regionsAt regions [i] := by
  induction places with
  | nil => rfl
  | cons i places ih =>
    have hr := getElem?_eq_getElem (hplaces i mem_cons_self)
    obtain ⟨c, hc, hcr⟩ := h.exists_getElem? hr
    rw [filterMap_cons_some hc, map_cons, map_cons, hcr,
      ih fun j hj => hplaces j (mem_cons_of_mem i hj), regionsAt]
    simp [hr]

end

theorem mem_placesAlone : i ∈ placesAlone n pairs ↔ i < n ∧ ∀ p ∈ pairs, i ∉ [p.1, p.2] := by
  simp [placesAlone, @eq_comm _ i]

def combinedPlaces (n : Nat) (pairs : List (Nat × Nat)) : List (List Nat) :=
  (placesAlone n pairs).map (fun i => [i]) ++ pairs.map fun p => [p.1, p.2]

theorem nodup_combinedPlaces (n : Nat) (h : pairs.Nodup) : (combinedPlaces n pairs).Nodup := by
  refine Nodup.append ?_ ?_ ?_
  · refine (nodup_range.filter _).map fun i j hij => ?_
    exact (cons.inj hij).1
  · refine h.map fun p q hpq => ?_
    obtain ⟨hfst, hrest⟩ := cons.inj hpq
    exact Prod.ext hfst (cons.inj hrest).1
  · intro l hl hl'
    obtain ⟨i, -, rfl⟩ := mem_map.1 hl
    obtain ⟨p, -, hp⟩ := mem_map.1 hl'
    cases hp

theorem mem_combinedPlaces {places : List Nat} :
    places ∈ combinedPlaces n pairs ↔
      (∃ i, places = [i] ∧ i < n ∧ ∀ p ∈ pairs, i ∉ [p.1, p.2]) ∨ ∃ p ∈ pairs, places = [p.1, p.2] := by
  rw [combinedPlaces, mem_append, mem_map, mem_map]
  simp only [mem_placesAlone]
  constructor
  · rintro (⟨i, hi, rfl⟩ | ⟨p, hp, rfl⟩)
    · exact .inl ⟨i, rfl, hi⟩
    · exact .inr ⟨p, hp, rfl⟩
  · rintro (⟨i, rfl, hi⟩ | ⟨p, hp, rfl⟩)
    · exact .inl ⟨i, hi, rfl⟩
    · exact .inr ⟨p, hp, rfl⟩

theorem exists_mem_combinedPlaces (pairs : List (Nat × Nat)) (hi : i < n) :
    (∃ p ∈ pairs, i ∈ [p.1, p.2]) ∨ [i] ∈ combinedPlaces n pairs := by
  by_cases hpair : ∃ p ∈ pairs, i ∈ [p.1, p.2]
  · exact .inl hpair
  · exact .inr (mem_combinedPlaces.2 (.inl ⟨i, rfl, hi, fun p hp hip => hpair ⟨p, hp, hip⟩⟩))

theorem existsUnique_combinedPlaces_iff (hi : i < n) :
    (∃! places, places ∈ combinedPlaces n pairs ∧ i ∈ places) ↔
      ∀ p ∈ pairs, ∀ q ∈ pairs, i ∈ [p.1, p.2] → i ∈ [q.1, q.2] → p = q := by
  constructor
  · rintro ⟨places, -, hunique⟩ p hp q hq hip hiq
    have hpplaces := hunique [p.1, p.2] ⟨mem_combinedPlaces.2 (.inr ⟨p, hp, rfl⟩), hip⟩
    have hqplaces := hunique [q.1, q.2] ⟨mem_combinedPlaces.2 (.inr ⟨q, hq, rfl⟩), hiq⟩
    obtain ⟨hfst, hrest⟩ := cons.inj (hpplaces.trans hqplaces.symm)
    exact Prod.ext hfst (cons.inj hrest).1
  · intro hsame
    rcases exists_mem_combinedPlaces pairs hi with ⟨p, hp, hip⟩ | halone
    · refine ⟨[p.1, p.2], ⟨mem_combinedPlaces.2 (.inr ⟨p, hp, rfl⟩), hip⟩, ?_⟩
      rintro places ⟨hplaces, hmem⟩
      rcases mem_combinedPlaces.1 hplaces with ⟨j, rfl, -, hfree⟩ | ⟨q, hq, rfl⟩
      · rw [mem_singleton.1 hmem] at hip
        exact absurd hip (hfree p hp)
      · rw [hsame q hq p hp hmem hip]
    · refine ⟨[i], ⟨halone, mem_cons_self⟩, ?_⟩
      rintro places ⟨hplaces, hmem⟩
      rcases mem_combinedPlaces.1 hplaces with ⟨j, rfl, -, -⟩ | ⟨q, hq, rfl⟩
      · rw [mem_singleton.1 hmem]
      · rcases mem_combinedPlaces.1 halone with ⟨j, hj, -, hfree⟩ | ⟨p, -, hp⟩
        · cases hj
          exact absurd hmem (hfree q hq)
        · cases hp

theorem detectCombined_eq_ok {files : Files} {folder : String} {cs : List CombinedRegion}
    (h : (detectCombined files folder regions).runOn g = (.ok cs, g')) :
    ∃ pairs : List (Nat × Nat), pairs.Nodup ∧ (∀ i j, (i, j) ∈ pairs ↔ g.Joins regions i j) ∧
      cs.map (·.regions) = (combinedPlaces regions.length pairs).map (regionsAt regions) := by
  obtain ⟨single, g₁, hsingle, h⟩ := runOn_bind_eq_ok h
  obtain ⟨hshape, hsingles⟩ :=
    (gives_mapM (fun r => gives_combinedRegion files folder [r]) regions).of_runOn_eq_ok hsingle
  have hsingles : Singles regions single := hsingles
  rw [runOn_graph_bind] at h
  obtain ⟨combined, g₄, hcombined, h⟩ := runOn_bind_eq_ok h
  cases h
  have hmem : ∀ i j, (i, j) ∈ g₁.pairsInFunction single ↔ g.Joins regions i j :=
    fun i j => hsingles.mem_pairsInFunction_iff.trans hshape.joins_iff
  have hlt : ∀ p ∈ g₁.pairsInFunction single, p.1 < regions.length ∧ p.2 < regions.length :=
    fun p hp => ((hmem p.1 p.2).1 hp).lt
  obtain ⟨-, hpairs⟩ := (hsingles.combinedPairs files folder hlt).of_runOn_eq_ok hcombined
  refine ⟨g₁.pairsInFunction single, nodup_distinct _, hmem, ?_⟩
  have halone := hsingles.map_regions_alone (placesAlone single.length (g₁.pairsInFunction single)) (fun i hi => by
    rw [hsingles.length_eq]
    exact (mem_placesAlone.1 hi).1)
  rw [map_append, halone, hpairs, combinedPlaces, map_append, map_map, map_map, hsingles.length_eq]
  rfl

/-- Every region is in a combined region, in exactly one if and only if all pairs of joined regions
that it is in are the same one: each pair is combined, whatever other pairs its regions are in. -/
theorem detectCombined_partition_iff {files : Files} {folder : String} {g g' : Graph}
    {cs : List CombinedRegion} (h : (detectCombined files folder regions).runOn g = (.ok cs, g')) :
    ∃ parts : List (List Nat), parts.Nodup ∧ cs.map (·.regions) = parts.map (regionsAt regions) ∧
      (∀ i j, [i, j] ∈ parts ↔ g.Joins regions i j) ∧
      ∀ i < regions.length, (∃ places ∈ parts, i ∈ places) ∧
        ((∃! places, places ∈ parts ∧ i ∈ places) ↔ ∀ a b c d, g.Joins regions a b →
          g.Joins regions c d → i ∈ [a, b] → i ∈ [c, d] → a = c ∧ b = d) := by
  obtain ⟨pairs, hnodup, hmem, hregions⟩ := detectCombined_eq_ok h
  refine ⟨combinedPlaces regions.length pairs, nodup_combinedPlaces _ hnodup, hregions,
    fun i j => ?_, fun i hi => ⟨?_, ?_⟩⟩
  · rw [mem_combinedPlaces, ← hmem]
    constructor
    · rintro (⟨k, hk, -⟩ | ⟨p, hp, hij⟩)
      · cases hk
      · cases hij
        exact hp
    · exact fun hp => .inr ⟨(i, j), hp, rfl⟩
  · rcases exists_mem_combinedPlaces pairs hi with ⟨p, hp, hip⟩ | halone
    · exact ⟨[p.1, p.2], mem_combinedPlaces.2 (.inr ⟨p, hp, rfl⟩), hip⟩
    · exact ⟨[i], halone, mem_cons_self⟩
  · rw [existsUnique_combinedPlaces_iff hi]
    constructor
    · intro hsame a b c d hab hcd hia hic
      exact Prod.mk.inj (hsame (a, b) ((hmem a b).2 hab) (c, d) ((hmem c d).2 hcd) hia hic)
    · intro hsame p hp q hq hip hiq
      obtain ⟨hfst, hsnd⟩ := hsame p.1 p.2 q.1 q.2 ((hmem p.1 p.2).1 hp) ((hmem q.1 q.2).1 hq) hip hiq
      exact Prod.ext hfst hsnd

/-! ### Loops in a row -/

instance (g : Graph) (regions : List GpuRegion) (i j : Nat) : Decidable (g.Joins regions i j) :=
  inferInstanceAs (Decidable (_ ∧ _))

variable (accesses : Option DeviceAccesses)

/-- Three loops in a row in one function, each of one unit; what the function remembers of its
accesses. -/
def loopsInRow : Graph where
  nodes :=
    let node (id : NodeId) (number : Int) (body : NodeBody) : Node :=
      { id, file := 1, number, startLine := number, endLine := number, name := none,
        parentFunction := some "1:0", body }
    ⟨[("1:0", node "1:0" 0 (.function { children := some ["1:1", "1:2", "1:3", "1:4", "1:5", "1:6"], accesses })),
      ("1:1", node "1:1" 1 (.loop default)), ("1:2", node "1:2" 2 (.unit default)),
      ("1:3", node "1:3" 3 (.loop default)), ("1:4", node "1:4" 4 (.unit default)),
      ("1:5", node "1:5" 5 (.loop default)), ("1:6", node "1:6" 6 (.unit default))]⟩
  links :=
    let edge (kind : EdgeKind) (s t : NodeId) : Link := ⟨s, t, [(0, { edge := kind })]⟩
    [edge .child "1:0" "1:1", edge .child "1:0" "1:3", edge .child "1:0" "1:5", edge .child "1:1" "1:2",
      edge .child "1:3" "1:4", edge .child "1:5" "1:6", edge .successor "1:2" "1:4", edge .successor "1:4" "1:6"]

def nothingOnHost : DeviceAccesses := ⟨[(0, ∅)]⟩

/-- The region of a loop of one unit; nothing is mapped for it. -/
def loopRegion (node unit : NodeId) : GpuRegion :=
  { (default : GpuRegion) with site := { (default : PatternSite) with node }, units := [unit] }

def firstLoop : GpuRegion := loopRegion "1:1" "1:2"

def secondLoop : GpuRegion := loopRegion "1:3" "1:4"

def thirdLoop : GpuRegion := loopRegion "1:5" "1:6"

def rowLists : List (List GpuRegion) :=
  [[firstLoop], [secondLoop], [thirdLoop], [firstLoop, secondLoop], [firstLoop, thirdLoop], [secondLoop, thirdLoop]]

def IsRow (g : Graph) : Prop := g = loopsInRow none ∨ g = loopsInRow (some nothingOnHost)

theorem IsRow.exists_runOn_combinedRegion (h : IsRow g) {rs : List GpuRegion} (hrs : rs ∈ rowLists) :
    ∃ c g', (combinedRegion default "" rs).runOn g = (.ok c, g') ∧ IsRow g' := by
  suffices hends : ((combinedRegion default "" rs).runOn g).map Except.isOk id =
      (true, loopsInRow (some nothingOnHost)) by
    rcases hrun : (combinedRegion default "" rs).runOn g with ⟨_ | c, g'⟩ <;> rw [hrun] at hends
    · cases hends
    · exact ⟨c, g', rfl, .inr (congrArg Prod.snd hends)⟩
  simp only [rowLists, mem_cons, not_mem_nil, or_false] at hrs
  rcases h with rfl | rfl <;> rcases hrs with rfl | rfl | rfl | rfl | rfl | rfl <;> cbv

theorem exists_runOn_mapM {α β : Type} {P : Graph → Prop} {f : α → Analysis β} {xs : List α}
    (h : ∀ x ∈ xs, ∀ g, P g → ∃ y g', (f x).runOn g = (.ok y, g') ∧ P g') (hg : P g) :
    ∃ ys g', (xs.mapM f).runOn g = (.ok ys, g') ∧ P g' := by
  induction xs generalizing g with
  | nil => exact ⟨[], g, rfl, hg⟩
  | cons x xs ih =>
    obtain ⟨y, g₁, hy, hg₁⟩ := h x mem_cons_self g hg
    obtain ⟨ys, g', hys, hg'⟩ := ih (fun x' hx' => h x' (mem_cons_of_mem x hx')) hg₁
    refine ⟨y :: ys, g', ?_, hg'⟩
    rw [mapM_cons, runOn_bind_of_ok hy, runOn_bind_of_ok hys]
    rfl

theorem exists_runOn_filterMapM {α β : Type} {P : Graph → Prop} {f : α → Analysis (Option β)}
    {xs : List α} (h : ∀ x ∈ xs, ∀ g, P g → ∃ o g', (f x).runOn g = (.ok o, g') ∧ P g') (hg : P g) :
    ∃ ys g', (xs.filterMapM f).runOn g = (.ok ys, g') ∧ P g' := by
  induction xs generalizing g with
  | nil => exact ⟨[], g, rfl, hg⟩
  | cons x xs ih =>
    obtain ⟨o, g₁, ho, hg₁⟩ := h x mem_cons_self g hg
    obtain ⟨ys, g', hys, hg'⟩ := ih (fun x' hx' => h x' (mem_cons_of_mem x hx')) hg₁
    rw [filterMapM_cons, runOn_bind_of_ok ho]
    cases o with
    | none => exact ⟨ys, g', hys, hg'⟩
    | some y =>
      refine ⟨y :: ys, g', ?_, hg'⟩
      rw [runOn_bind_of_ok hys]
      rfl

theorem exists_runOn_detectCombined (hsingle : ∀ r ∈ regions, [r] ∈ rowLists)
    (hpair : ∀ i j, (loopsInRow none).Joins regions i j → regionsAt regions [i, j] ∈ rowLists) :
    ∃ cs g', (detectCombined default "" regions).runOn (loopsInRow none) = (.ok cs, g') := by
  obtain ⟨single, g₁, hruns, hg₁⟩ := exists_runOn_mapM (P := IsRow)
    (fun r hr g hg => hg.exists_runOn_combinedRegion (hsingle r hr)) (g := loopsInRow none) (.inl rfl)
  obtain ⟨hshape, hsingles⟩ :=
    (gives_mapM (fun r => gives_combinedRegion default "" [r]) regions).of_runOn_eq_ok hruns
  have hsingles : Singles regions single := hsingles
  have hpairs : ∀ p ∈ g₁.pairsInFunction single, ∀ g, IsRow g →
      ∃ o g', (combinedPair default "" single p).runOn g = (.ok o, g') ∧ IsRow g' := by
    intro p hp g hg
    have hjoins := hshape.joins_iff.1 (hsingles.mem_pairsInFunction_iff.1 hp)
    have hr := getElem?_eq_getElem hjoins.lt.1
    have hs := getElem?_eq_getElem hjoins.lt.2
    obtain ⟨a, ha, har⟩ := hsingles.exists_getElem? hr
    obtain ⟨b, hb, hbs⟩ := hsingles.exists_getElem? hs
    have hlist := hpair p.1 p.2 hjoins
    rw [regionsAt] at hlist
    simp only [filterMap_cons, hr, hs, filterMap_nil] at hlist
    obtain ⟨c, g', hc, hg'⟩ := hg.exists_runOn_combinedRegion hlist
    refine ⟨some c, g', ?_, hg'⟩
    unfold combinedPair
    rw [ha, hb]
    simp only [har, hbs, singleton_append]
    rw [runOn_bind_of_ok hc]
    rfl
  obtain ⟨combined, g', hcombined, -⟩ := exists_runOn_filterMapM hpairs hg₁
  unfold detectCombined
  rw [runOn_bind_of_ok hruns, runOn_graph_bind, runOn_bind_of_ok hcombined]
  exact ⟨_, _, rfl⟩

/-- The first two loops: each is in one combined region. -/
theorem detectCombined_partition_iff_twoLoops :
    ∃ cs g', (detectCombined default "" [firstLoop, secondLoop]).runOn (loopsInRow none) = (.ok cs, g') ∧
      ∃ parts : List (List Nat), cs.map (·.regions) = parts.map (regionsAt [firstLoop, secondLoop]) ∧
        ∀ i < 2, ∃! places, places ∈ parts ∧ i ∈ places := by
  have hjoins : ∀ i j, (loopsInRow none).Joins [firstLoop, secondLoop] i j → i = 0 ∧ j = 1 := by
    intro i j h
    have hall : ∀ i < 2, ∀ j < 2, (loopsInRow none).Joins [firstLoop, secondLoop] i j → i = 0 ∧ j = 1 := by decide
    exact hall i h.lt.1 j h.lt.2 h
  have hsucceeds : ∃ cs g', (detectCombined default "" [firstLoop, secondLoop]).runOn (loopsInRow none) =
      (.ok cs, g') := by
    refine exists_runOn_detectCombined (by simp [rowLists]) fun i j h => ?_
    obtain ⟨rfl, rfl⟩ := hjoins i j h
    simp [rowLists, regionsAt]
  obtain ⟨cs, g', hrun⟩ := hsucceeds
  obtain ⟨parts, -, hregions, -, hparts⟩ := detectCombined_partition_iff hrun
  refine ⟨cs, g', hrun, parts, hregions, fun i hi => (hparts i hi).2.2 fun a b c d hab hcd _ _ => ?_⟩
  obtain ⟨rfl, rfl⟩ := hjoins a b hab
  obtain ⟨rfl, rfl⟩ := hjoins c d hcd
  exact ⟨rfl, rfl⟩

/-- All three loops: the first one is combined with the second one and again with the third one. -/
theorem detectCombined_threeLoops :
    ∃ cs g', (detectCombined default "" [firstLoop, secondLoop, thirdLoop]).runOn (loopsInRow none) = (.ok cs, g') ∧
      [firstLoop, secondLoop] ∈ cs.map (·.regions) ∧ [firstLoop, thirdLoop] ∈ cs.map (·.regions) := by
  have hjoins : ∀ i j, (loopsInRow none).Joins [firstLoop, secondLoop, thirdLoop] i j →
      (i = 0 ∧ j = 1) ∨ (i = 0 ∧ j = 2) ∨ (i = 1 ∧ j = 2) := by
    intro i j h
    have hall : ∀ i < 3, ∀ j < 3, (loopsInRow none).Joins [firstLoop, secondLoop, thirdLoop] i j →
        (i = 0 ∧ j = 1) ∨ (i = 0 ∧ j = 2) ∨ (i = 1 ∧ j = 2) := by decide
    exact hall i h.lt.1 j h.lt.2 h
  have hsucceeds : ∃ cs g', (detectCombined default "" [firstLoop, secondLoop, thirdLoop]).runOn (loopsInRow none) =
      (.ok cs, g') := by
    refine exists_runOn_detectCombined (by simp [rowLists]) fun i j h => ?_
    rcases hjoins i j h with ⟨rfl, rfl⟩ | ⟨rfl, rfl⟩ | ⟨rfl, rfl⟩
    all_goals simp [rowLists, regionsAt]
  obtain ⟨cs, g', hrun⟩ := hsucceeds
  obtain ⟨pairs, -, hmem, hregions⟩ := detectCombined_eq_ok hrun
  have hpair : ∀ i j, (loopsInRow none).Joins [firstLoop, secondLoop, thirdLoop] i j →
      regionsAt [firstLoop, secondLoop, thirdLoop] [i, j] ∈ cs.map (·.regions) := by
    intro i j h
    rw [hregions]
    exact mem_map_of_mem (mem_combinedPlaces.2 (.inr ⟨(i, j), (hmem i j).2 h, rfl⟩))
  exact ⟨cs, g', hrun, hpair 0 1 (by decide), hpair 0 2 (by decide)⟩

end ParallelPatterns
