import Mathlib.Data.List.Chain
import ParallelPatterns.Proofs.Subtree

/-!
# The way down to a node

The search for a way down goes through the nodes below its start in depth-first order and stops at
the first one that has the numbers of the target. A child that is visited while an earlier child is
searched is entered once more, in vain: all below it has been visited, too (`Graph.IsDone`). So a
way is found if the target is below the start, and leads to it where no other node has its numbers.
-/

namespace ParallelPatterns.Graph

open List

variable {g : Graph} {target source : Node} {visited start xs out : List NodeId} {cs way : List Node}

/-- The turn for one child: it is tried unless a way has been found. -/
def tryChild (g : Graph) (target source : Node) (found : List Node × List NodeId) (child : Node) :
    Option (List Node × List NodeId) :=
  if found.1.isEmpty then do
    let (way, visited) ← g.descend target child found.2
    return (if way.isEmpty then [] else source :: way, visited)
  else some found

theorem descend_eq (g : Graph) (target source : Node) (visited : List NodeId) :
    g.descend target source visited =
      if source.alike target then some ([source], addNew visited source.id)
      else ((g.childrenOrCalled source.id).filter fun c => !(addNew visited source.id).contains c.id).foldlM
        (g.tryChild target source) ([], addNew visited source.id) := by
  rw [descend.eq_def]
  rfl

theorem foldlM_tryChild_of_found {n : Node} :
    cs.foldlM (g.tryChild target source) (n :: way, visited) = some (n :: way, visited) := by
  induction cs with
  | nil => rfl
  | cons c cs ih => exact ih

/-- A way from the source through the nodes `out`, down to the first of them that has the numbers of
the target; none if no node has them. -/
structure IsWay (g : Graph) (target source : Node) (out : List NodeId) (way : List Node) : Prop where
  last : way.getLast? = (g.nodesAt out).find? fun n => n.alike target
  sublist : way.map (·.id) <+ out
  chain : way.IsChain fun a b => b ∈ g.childrenOrCalled a.id
  head : way ≠ [] → way.head? = some source

def Finds (g : Graph) (target source : Node) (out after : List NodeId)
    (search : Option (List Node × List NodeId)) : Prop :=
  ∃ way visited, search = some (way, visited) ∧ g.IsWay target source out way ∧ (way = [] → visited = after)

def IsDone (g : Graph) (target : Node) (visited : List NodeId) (v : NodeId) : Prop :=
  (g.outEdgesOf v [.child, .call]).map (·.target) ⊆ visited ∧ ∀ n, g.node? v = some n → n.alike target = false

theorem descend_of_isDone (hg : g.WellFormed) {c : Node} (hc : g.node? c.id = some c) (hvisited : c.id ∈ visited)
    (hdone : g.IsDone target visited c.id) : g.descend target c visited = some ([], visited) := by
  have hsame : addNew visited c.id = visited := if_pos (contains_iff_mem.2 hvisited)
  have hnone : ((g.childrenOrCalled c.id).filter fun d => !visited.contains d.id) = [] := by
    rw [filter_eq_nil_iff]
    intro d hd
    have hmem : d.id ∈ visited := hdone.1 ((mem_childrenOrCalled_iff hg).1 hd).2
    simpa using hmem
  rw [descend_eq, hsame, hnone, if_neg (by simp [hdone.2 c hc])]
  rfl

theorem find?_nodesAt_append (g : Graph) (target : Node) (xs ys : List NodeId) :
    ((g.nodesAt (xs ++ ys)).find? fun n => n.alike target) =
      ((g.nodesAt xs).find? fun n => n.alike target).or ((g.nodesAt ys).find? fun n => n.alike target) := by
  rw [nodesAt, filterMap_append, find?_append]
  rfl

theorem nodesAt_cons {c : Node} (hc : g.node? c.id = some c) (ids : List NodeId) :
    g.nodesAt (c.id :: ids) = c :: g.nodesAt ids :=
  filterMap_cons_some hc

theorem find?_nodesAt_cons {c : Node} (hc : g.node? c.id = some c) (halike : c.alike target = false)
    (ids : List NodeId) :
    ((g.nodesAt (c.id :: ids)).find? fun n => n.alike target) = (g.nodesAt ids).find? fun n => n.alike target := by
  rw [nodesAt_cons hc, find?_cons_of_neg (by simp [halike])]

theorem finds_descend {c : Node} {below : List NodeId} (hc : g.node? c.id = some c) (hnew : c.id ∉ visited)
    (hbelow : c.alike target = false → g.Finds target c (c.id :: below) (visited ++ [c.id] ++ below)
      (((g.childrenOrCalled c.id).filter fun d => !(visited ++ [c.id]).contains d.id).foldlM (g.tryChild target c)
        ([], visited ++ [c.id]))) :
    g.Finds target c (c.id :: below) (visited ++ [c.id] ++ below) (g.descend target c visited) := by
  have hvisited : addNew visited c.id = visited ++ [c.id] := if_neg (by simpa using hnew)
  rw [descend_eq, hvisited]
  cases halike : c.alike target with
  | true =>
    refine ⟨[c], _, rfl, ⟨?_, by simp, by simp, fun _ => rfl⟩, by simp⟩
    rw [nodesAt_cons hc, find?_cons, halike]
    rfl
  | false => exact hbelow halike

theorem finds_children (hg : g.WellFormed)
    (h : Search.Preorder (fun id => (g.outEdgesOf id [.child, .call]).map (·.target)) visited xs out)
    (hcs : cs.map (·.id) = xs) (hchildren : ∀ c ∈ cs, c ∈ g.childrenOrCalled source.id)
    (hsource : g.node? source.id = some source) (halike : source.alike target = false)
    (hstart : start ⊆ visited) (hdone : ∀ v ∈ visited, v ∈ start ∨ g.IsDone target visited v) :
    g.Finds target source (source.id :: out) (visited ++ out)
      ((cs.filter fun c => !start.contains c.id).foldlM (g.tryChild target source) ([], visited)) := by
  induction h generalizing source start cs with
  | @nil visited =>
    obtain rfl : cs = [] := by simpa using hcs
    exact ⟨[], visited, rfl, ⟨(find?_nodesAt_cons hsource halike []).symm, by simp, by simp, by simp⟩, by simp⟩
  | @skip visited xs out x hx _ ih =>
    obtain ⟨c, cs, rfl, rfl, rfl⟩ := map_eq_cons_iff.1 hcs
    obtain ⟨hc, hchildren⟩ := forall_mem_cons.1 hchildren
    have hfirst : ((c :: cs).filter fun c => !start.contains c.id).foldlM (g.tryChild target source) ([], visited) =
        (cs.filter fun c => !start.contains c.id).foldlM (g.tryChild target source) ([], visited) := by
      by_cases hmem : c.id ∈ start
      · rw [filter_cons_of_neg (by simpa using hmem)]
      · rw [filter_cons_of_pos (by simpa using hmem), foldlM_cons, tryChild,
          descend_of_isDone hg ((mem_childrenOrCalled_iff hg).1 hc).1 hx ((hdone _ hx).resolve_left hmem)]
        rfl
    rw [hfirst]
    exact ih rfl hchildren hsource halike hstart hdone
  | @visit visited xs below rest x hx hbelow _ ihbelow ihrest =>
    obtain ⟨c, cs, rfl, rfl, rfl⟩ := map_eq_cons_iff.1 hcs
    obtain ⟨hchild, hchildren⟩ := forall_mem_cons.1 hchildren
    have hc := ((mem_childrenOrCalled_iff hg).1 hchild).1
    obtain ⟨way, visited', hrun, hway, hempty⟩ := finds_descend hc hx fun halike =>
      ihbelow (map_id_targets hg _ c.id) (fun d hd => hd) hc halike (Subset.refl _) fun v hv => .inl hv
    rw [filter_cons_of_pos (by simpa using fun hmem => hx (hstart hmem)), foldlM_cons, tryChild, hrun]
    cases way with
    | nil =>
      obtain rfl := hempty rfl
      have hnone : ∀ v ∈ c.id :: below, ∀ n, g.node? v = some n → n.alike target = false := by
        intro v hv n hn
        simpa using find?_eq_none.1 hway.last.symm n (mem_filterMap.2 ⟨v, hv, hn⟩)
      obtain ⟨hfollow, hclosed⟩ := hbelow.closed
      have hdone : ∀ v ∈ visited ++ [c.id] ++ below, v ∈ start ∨
        g.IsDone target (visited ++ [c.id] ++ below) v := by
        intro v hv
        rcases mem_append.1 hv with hv | hv
        · rcases mem_append.1 hv with hv | hv
          · refine (hdone v hv).imp_right fun hdone => ⟨fun y hy => ?_, hdone.2⟩
            exact mem_append_left _ (mem_append_left _ (hdone.1 hy))
          · obtain rfl := mem_singleton.1 hv
            exact .inr ⟨hfollow, hnone _ mem_cons_self⟩
        · exact .inr ⟨hclosed v hv, hnone v (mem_cons_of_mem _ hv)⟩
      obtain ⟨way, visited', hrun, hrest, hempty⟩ := ihrest rfl hchildren hsource halike
        (fun v hv => mem_append_left _ (mem_append_left _ (hstart hv))) hdone
      refine ⟨way, visited', hrun, ⟨?_, ?_, hrest.chain, hrest.head⟩, fun h => ?_⟩
      · rw [hrest.last, find?_nodesAt_cons hsource halike, find?_nodesAt_cons hsource halike,
          find?_nodesAt_append, ← hway.last]
        rfl
      · exact hrest.sublist.trans ((sublist_append_right _ _).cons_cons _)
      · rw [hempty h]
        simp
    | cons n way =>
      obtain rfl : c = n := Option.some.inj (hway.head (cons_ne_nil _ _)).symm
      refine ⟨source :: c :: way, visited', foldlM_tryChild_of_found, ⟨?_, ?_, ?_, fun _ => rfl⟩, by simp⟩
      · rw [find?_nodesAt_cons hsource halike, find?_nodesAt_append, ← hway.last]
        rfl
      · exact (hway.sublist.trans (sublist_append_left _ _)).cons_cons _
      · exact isChain_cons_cons.2 ⟨hchild, hway.chain⟩

/-- The search ends, and has gone through the nodes below its start. -/
theorem isWay_path (hg : g.WellFormed) (hsource : g.node? source.id = some source) (target : Node) :
    (∃ visited, g.descend target source [] = some (g.path source target, visited)) ∧
      g.IsWay target source (g.reachedIds [.child, .call] source.id) (g.path source target) := by
  obtain ⟨hpreorder, -, -⟩ := reachedIds_preorder hg [.child, .call] (by rw [hsource]; rfl)
  generalize g.reachedIds [.child, .call] source.id = ids at hpreorder ⊢
  cases hpreorder with
  | skip hx _ => cases hx
  | visit _ hbelow hrest =>
    cases hrest
    obtain ⟨way, visited, hrun, hway, -⟩ := finds_descend hsource not_mem_nil fun halike =>
      finds_children hg hbelow (map_id_targets hg _ source.id) (fun d hd => hd) hsource halike
        (Subset.refl _) fun v hv => .inl hv
    have hpath : g.path source target = way := by
      rw [path, hrun]
      rfl
    rw [hpath, append_nil]
    exact ⟨⟨visited, hrun⟩, hway⟩

/-- The search for a way down ends, and finds one if and only if the target is below its start. The
way starts where it should, leads to the target, visits no node twice and follows edges. -/
theorem path_leads (hg : g.WellFormed) (hnumbers : g.NumbersDiffer)
    (hsource : g.node? source.id = some source) (htarget : g.node? target.id = some target) :
    (∃ visited, g.descend target source [] = some (g.path source target, visited)) ∧
      (g.path source target = [] ↔ ¬g.Below source.id target.id) ∧
      (g.path source target ≠ [] → (g.path source target).head? = some source ∧
        (g.path source target).getLast? = some target ∧ ((g.path source target).map (·.id)).Nodup ∧
        (g.path source target).IsChain fun a b => b ∈ g.childrenOrCalled a.id) := by
  obtain ⟨hends, hway⟩ := isWay_path hg hsource target
  obtain ⟨-, hnodup, -⟩ := reachedIds_preorder hg [.child, .call] (by rw [hsource]; rfl)
  have hlast : (g.path source target).getLast? = (g.subtree source).find? fun n => n.alike target := hway.last
  generalize g.path source target = way at hends hway hlast ⊢
  have hfound (hne : way ≠ []) : target ∈ g.subtree source ∧ way.getLast? = some target := by
    obtain ⟨n, hn⟩ := Option.ne_none_iff_exists'.1 fun h => hne (getLast?_eq_none_iff.1 h)
    have hfirst := hlast.symm.trans hn
    have hmem := mem_of_find?_eq_some hfirst
    have halike : n.alike target := find?_some (p := fun n : Node => n.alike target) hfirst
    obtain rfl := hnumbers.eq_of_alike ((mem_subtree_iff hg hsource).1 hmem).2 htarget halike
    exact ⟨hmem, hn⟩
  refine ⟨hends, ⟨fun hempty hbelow => ?_, fun hbelow => ?_⟩, fun hne =>
    ⟨hway.head hne, (hfound hne).2, hnodup.sublist hway.sublist, hway.chain⟩⟩
  · rw [hempty] at hlast
    exact find?_eq_none.1 hlast.symm target ((mem_subtree_iff hg hsource).2 ⟨hbelow, htarget⟩) target.alike_refl
  · by_contra hne
    exact hbelow ((mem_subtree_iff hg hsource).1 (hfound hne).1).1

/-- A function with a loop, in which a unit calls the function, and a unit behind the loop. -/
def loopThenUnit : Graph :=
  ofEdges [numbered "1:0" 0 (.function {}), numbered "1:1" 1 (.loop {}),
      numbered "1:2" 2 (.unit {}), numbered "1:3" 3 (.unit {})]
    [("1:0", "1:1", .child), ("1:0", "1:3", .child), ("1:1", "1:2", .child), ("1:2", "1:0", .call)]

/-- From the loop, the unit behind it is found through the call. -/
theorem path_leads_loopThenUnit :
    let l := numbered "1:1" 1 (.loop {})
    let u := numbered "1:3" 3 (.unit {})
    loopThenUnit.WellFormed ∧ loopThenUnit.NumbersDiffer ∧ loopThenUnit.node? l.id = some l ∧
      loopThenUnit.node? u.id = some u ∧ (loopThenUnit.path l u).head? = some l ∧
      (loopThenUnit.path l u).getLast? = some u := by
  intro l u
  have hwell : loopThenUnit.WellFormed := .of_entries (by decide) (by decide)
  have hnumbers : loopThenUnit.NumbersDiffer := by unfold NumbersDiffer; decide
  obtain ⟨-, hempty, hway⟩ := path_leads hwell hnumbers (show loopThenUnit.node? l.id = some l from rfl)
    (show loopThenUnit.node? u.id = some u from rfl)
  have hbelow : loopThenUnit.Below l.id u.id :=
    .tail (.tail (.single (by decide : "1:2" ∈ _)) (by decide : "1:0" ∈ _)) (by decide)
  obtain ⟨hhead, hlast, -⟩ := hway fun h => hempty.1 h hbelow
  exact ⟨hwell, hnumbers, rfl, rfl, hhead, hlast⟩

end ParallelPatterns.Graph
