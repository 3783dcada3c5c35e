import Mathlib.Data.List.Nodup
import Mathlib.Data.List.Perm.Subperm
import ParallelPatterns.Proofs.WellFormed

/-!
# What lies below a node

A depth-first search goes through its elements in the order of a recursion (`Preorder`). If its
space has no more elements than it has turns, it visits exactly what its start leads to, each
element once, however the ways from there meet or run in circles. So the nodes below a node are
exactly those to which child and call edges lead, and the units below a node that is no unit itself
are those below its direct children.
-/

namespace ParallelPatterns.Search

open List

variable {α : Type} {next : α → List α}

/-- One element leads to another, over any number of turns. -/
def Leads (next : α → List α) : α → α → Prop := Relation.ReflTransGen fun a b => b ∈ next a

theorem Leads.mem_of_closed {space : List α} (hspace : ∀ x ∈ space, next x ⊆ space) {x y : α}
    (h : Leads next x y) (hx : x ∈ space) : y ∈ space := by
  induction h with
  | refl => exact hx
  | tail _ hstep ih => exact hspace _ ih hstep

/-- A recursion through elements `xs` that passes over what has been visited, and goes through all
that follows an element before it turns to the next one, visits the elements `out`, in this
order. -/
inductive Preorder (next : α → List α) : List α → List α → List α → Prop
  | nil {visited : List α} : Preorder next visited [] []
  | skip {visited xs out : List α} {x : α} (hx : x ∈ visited) (hrest : Preorder next visited xs out) :
      Preorder next visited (x :: xs) out
  | visit {visited xs below rest : List α} {x : α} (hx : x ∉ visited)
      (hbelow : Preorder next (visited ++ [x]) (next x) below)
      (hrest : Preorder next (visited ++ [x] ++ below) xs rest) :
      Preorder next visited (x :: xs) (x :: below ++ rest)

namespace Preorder

variable {visited xs out : List α}

variable (h : Preorder next visited xs out)
include h

theorem leads {y : α} (hy : y ∈ out) : ∃ x ∈ xs, Leads next x y := by
  induction h with
  | nil => cases hy
  | skip _ _ ih =>
    obtain ⟨z, hz, hleads⟩ := ih hy
    exact ⟨z, mem_cons_of_mem _ hz, hleads⟩
  | @visit _ _ _ _ x _ _ _ ihbelow ihrest =>
    rcases mem_append.1 hy with hy | hy
    · rcases mem_cons.1 hy with rfl | hy
      · exact ⟨y, mem_cons_self, .refl⟩
      · obtain ⟨z, hz, hleads⟩ := ihbelow hy
        exact ⟨x, mem_cons_self, .head hz hleads⟩
    · obtain ⟨z, hz, hleads⟩ := ihrest hy
      exact ⟨z, mem_cons_of_mem _ hz, hleads⟩

theorem closed : xs ⊆ visited ++ out ∧ ∀ v ∈ out, next v ⊆ visited ++ out := by
  induction h with
  | nil => simp
  | skip hx _ ih => exact ⟨cons_subset.2 ⟨mem_append_left _ hx, ih.1⟩, ih.2⟩
  | @visit visited _ below rest x _ _ _ ihbelow ihrest =>
    have hout : visited ++ (x :: below ++ rest) = visited ++ [x] ++ below ++ rest := by simp
    rw [hout]
    refine ⟨cons_subset.2 ⟨by simp, ihrest.1⟩, fun v hv => ?_⟩
    rcases mem_append.1 hv with hv | hv
    · refine Subset.trans ?_ (subset_append_left _ rest)
      rcases mem_cons.1 hv with rfl | hv
      · exact ihbelow.1
      · exact ihbelow.2 v hv
    · exact ihrest.2 v hv

theorem nodup (hvisited : visited.Nodup) : (visited ++ out).Nodup := by
  induction h with
  | nil => simpa using hvisited
  | skip _ _ ih => exact ih hvisited
  | @visit visited _ _ _ x hx _ _ ihbelow ihrest =>
    have hfirst : (visited ++ [x]).Nodup := by simpa using Nodup.concat hx hvisited
    simpa using ihrest (ihbelow hfirst)

theorem depthFirst_eq [BEq α] [LawfulBEq α] (fuel : Nat) (ys : List α) :
    depthFirst next (fuel + out.length) (xs ++ ys) visited = depthFirst next fuel ys (visited ++ out) := by
  induction h generalizing fuel ys with
  | nil => simp
  | @skip visited xs out x hx _ ih =>
    rw [← ih]
    cases fuel + out.length with
    | zero => rfl
    | succ k =>
      have hmem : visited.contains x := elem_iff.2 hx
      rw [depthFirst, depthFirst, cons_append, dropWhile_cons_of_pos hmem]
  | @visit visited xs below rest x hx _ _ ihbelow ihrest =>
    have hturns : fuel + (x :: below ++ rest).length = fuel + rest.length + below.length + 1 := by
      rw [length_append, length_cons]
      omega
    have hnew : ¬visited.contains x := fun hmem => hx (elem_iff.1 hmem)
    rw [hturns, depthFirst, cons_append, dropWhile_cons_of_neg hnew]
    show depthFirst next _ (next x ++ (xs ++ ys)) _ = _
    rw [ihbelow, ihrest]
    simp

end Preorder

variable [BEq α] [LawfulBEq α] {space : List α} (hspace : ∀ x ∈ space, next x ⊆ space)
include hspace

theorem exists_preorder (visited xs : List α) (hxs : xs ⊆ space) :
    ∃ out, Preorder next visited xs out :=
  match xs with
  | [] => ⟨[], .nil⟩
  | x :: xs => by
    obtain ⟨hx, hxs⟩ := cons_subset.1 hxs
    by_cases hmem : x ∈ visited
    · obtain ⟨out, hout⟩ := exists_preorder visited xs hxs
      exact ⟨out, .skip hmem hout⟩
    · obtain ⟨below, hbelow⟩ := exists_preorder (visited ++ [x]) (next x) (hspace x hx)
      obtain ⟨rest, hrest⟩ := exists_preorder (visited ++ [x] ++ below) xs hxs
      exact ⟨_, .visit hmem hbelow hrest⟩
termination_by ((space.filter fun y => !visited.contains y).length, xs.length)
decreasing_by
  · exact Prod.Lex.right _ (Nat.lt_succ_self _)
  · exact Prod.Lex.left _ _ (length_filter_lt (fun y => by simp; tauto) hx (by simpa using hmem) (by simp))
  · exact Prod.Lex.left _ _ (length_filter_lt (fun y => by simp; tauto) hx (by simpa using hmem) (by simp))

theorem depthFirst_preorder {starts : List α} (hstarts : starts ⊆ space) :
    let found := depthFirst next (space.length + 1) starts []
    Preorder next [] starts found ∧ found.Nodup ∧ ∀ x, x ∈ found ↔ ∃ s ∈ starts, Leads next s x := by
  obtain ⟨out, hout⟩ := exists_preorder hspace [] starts hstarts
  have hleads : ∀ x, x ∈ out ↔ ∃ s ∈ starts, Leads next s x := by
    refine fun x => ⟨hout.leads, ?_⟩
    rintro ⟨s, hs, hleads⟩
    exact hleads.mem_of_closed hout.closed.2 (hout.closed.1 hs)
  have hnodup : out.Nodup := hout.nodup nodup_nil
  have hsubset : out ⊆ space := by
    intro x hx
    obtain ⟨s, hs, hleads⟩ := hout.leads hx
    exact hleads.mem_of_closed hspace (hstarts hs)
  -- the space bounds the turns that the search takes
  have hle : out.length ≤ space.length := (subperm_of_subset hnodup hsubset).length_le
  have hfound : depthFirst next (space.length + 1) starts [] = out := by
    have hturns := hout.depthFirst_eq (space.length - out.length + 1) []
    have hfuel : space.length - out.length + 1 + out.length = space.length + 1 := by omega
    rwa [hfuel, append_nil] at hturns
  rw [hfound]
  exact ⟨hout, hnodup, hleads⟩

variable {start : α} (hstart : start ∈ space)
include hstart

theorem reached_preorder :
    Preorder next [] [start] (reached next space.length start) ∧ (reached next space.length start).Nodup ∧
      ∀ x, x ∈ reached next space.length start ↔ Leads next start x := by
  obtain ⟨hpreorder, hnodup, hleads⟩ := depthFirst_preorder hspace (cons_subset.2 ⟨hstart, nil_subset _⟩)
  exact ⟨hpreorder, hnodup, fun x => (hleads x).trans (by simp)⟩

theorem mem_reached_iff {x : α} : x ∈ reached next space.length start ↔ Leads next start x :=
  (reached_preorder hspace hstart).2.2 x

end ParallelPatterns.Search

/-! ## Nodes -/

namespace ParallelPatterns.Graph

variable {g : Graph} {id : NodeId}

/-- Edges of the given kinds lead from one node to the other. -/
def Reaches (g : Graph) (kinds : List EdgeKind) : NodeId → NodeId → Prop :=
  Search.Leads fun id => (g.outEdgesOf id kinds).map (·.target)

/-- Child and call edges lead from one node to the other. -/
def Below (g : Graph) : NodeId → NodeId → Prop :=
  Search.Leads fun id => (g.outEdgesOf id [.child, .call]).map (·.target)

theorem mem_keys_iff : id ∈ g.nodes.keys ↔ (g.node? id).isSome :=
  Table.mem_keys_iff

theorem targets_eq_nodesAt (es : List Edge) : g.targets es = g.nodesAt (es.map (·.target)) :=
  List.filterMap_map.symm

section

variable (hg : g.WellFormed)
include hg

theorem WellFormed.targets_subset (kinds : List EdgeKind) (id : NodeId) :
    (g.outEdgesOf id kinds).map (·.target) ⊆ g.nodes.keys := by
  intro target htarget
  obtain ⟨e, he, rfl⟩ := List.mem_map.1 htarget
  exact mem_keys_iff.2 (hg.target_known (List.mem_filter.1 he).1)

theorem mem_nodesAt_iff {ids : List NodeId} {n : Node} :
    n ∈ g.nodesAt ids ↔ n.id ∈ ids ∧ g.node? n.id = some n := by
  rw [nodesAt, List.mem_filterMap]
  constructor
  · rintro ⟨id, hid, hn⟩
    obtain rfl := hg.keyed id n hn
    exact ⟨hid, hn⟩
  · rintro ⟨hid, hn⟩
    exact ⟨n.id, hid, hn⟩

theorem map_id_nodesAt {ids : List NodeId} (hknown : ∀ id ∈ ids, (g.node? id).isSome) :
    (g.nodesAt ids).map (·.id) = ids := by
  rw [nodesAt, List.map_filterMap]
  refine (List.filterMap_congr fun id hid => ?_).trans List.filterMap_some
  obtain ⟨n, hn⟩ := Option.isSome_iff_exists.1 (hknown id hid)
  rw [hn, Option.map_some, hg.keyed id n hn]

theorem map_id_targets (kinds : List EdgeKind) (id : NodeId) :
    (g.targets (g.outEdgesOf id kinds)).map (·.id) = (g.outEdgesOf id kinds).map (·.target) := by
  rw [targets_eq_nodesAt]
  exact map_id_nodesAt hg fun _ h => mem_keys_iff.1 (hg.targets_subset kinds id h)

theorem reachedIds_preorder (kinds : List EdgeKind) {start : NodeId} (hstart : (g.node? start).isSome) :
    Search.Preorder (fun id => (g.outEdgesOf id kinds).map (·.target)) [] [start] (g.reachedIds kinds start) ∧
      (g.reachedIds kinds start).Nodup ∧ ∀ id, id ∈ g.reachedIds kinds start ↔ g.Reaches kinds start id := by
  have hsize : g.size = g.nodes.keys.length := by simp [size, Table.keys]
  rw [reachedIds, hsize]
  exact Search.reached_preorder (fun x _ => hg.targets_subset kinds x) (mem_keys_iff.2 hstart)

variable {kinds : List EdgeKind} {root n : Node}

theorem mem_reachedIds_iff {start : NodeId} (hstart : (g.node? start).isSome) :
    id ∈ g.reachedIds kinds start ↔ g.Reaches kinds start id :=
  (reachedIds_preorder hg kinds hstart).2.2 id

theorem mem_subtree_iff (hroot : g.node? root.id = some root) :
    n ∈ g.subtree root ↔ g.Below root.id n.id ∧ g.node? n.id = some n := by
  have hstart : (g.node? root.id).isSome := by rw [hroot]; rfl
  rw [subtree, mem_nodesAt_iff hg, mem_reachedIds_iff hg hstart]
  rfl

theorem mem_subtreeUnits_iff {u : Node} (hroot : g.node? root.id = some root) :
    u ∈ g.subtreeUnits root ↔ g.Below root.id u.id ∧ g.node? u.id = some u ∧ u.kind = .unit := by
  rw [subtreeUnits, subtreeOf, List.mem_filter, mem_subtree_iff hg hroot]
  simp [and_assoc]

theorem mem_targets_iff :
    n ∈ g.targets (g.outEdgesOf id kinds) ↔ g.node? n.id = some n ∧
      n.id ∈ (g.outEdgesOf id kinds).map (·.target) := by
  rw [targets_eq_nodesAt, mem_nodesAt_iff hg, and_comm]

theorem mem_childrenOrCalled_iff {c : Node} :
    c ∈ g.childrenOrCalled id ↔ g.node? c.id = some c ∧ c.id ∈ (g.outEdgesOf id [.child, .call]).map (·.target) :=
  mem_targets_iff hg

theorem mem_unitIds_iff_child (hroot : g.node? root.id = some root) (hkind : root.kind ≠ .unit) :
    id ∈ g.unitIds root ↔ ∃ c ∈ g.childrenOrCalled root.id, id ∈ g.unitIds c := by
  simp only [unitIds, List.mem_map]
  constructor
  · rintro ⟨u, hu, rfl⟩
    obtain ⟨hbelow, hnode, hunit⟩ := (mem_subtreeUnits_iff hg hroot).1 hu
    -- the node itself is no unit, so the way to a unit begins with an edge to a child
    rcases Relation.ReflTransGen.cases_head hbelow with hsame | ⟨id, hid, hrest⟩
    · rw [← hsame, hroot] at hnode
      cases hnode
      exact absurd hunit hkind
    · obtain ⟨c, hc⟩ := Option.isSome_iff_exists.1 (mem_keys_iff.1 (hg.targets_subset _ _ hid))
      obtain rfl := hg.keyed id c hc
      exact ⟨c, (mem_childrenOrCalled_iff hg).2 ⟨hc, hid⟩, u,
        (mem_subtreeUnits_iff hg hc).2 ⟨hrest, hnode, hunit⟩, rfl⟩
  · rintro ⟨c, hc, u, hu, rfl⟩
    obtain ⟨hnode, hedge⟩ := (mem_childrenOrCalled_iff hg).1 hc
    obtain ⟨hbelow, hu⟩ := (mem_subtreeUnits_iff hg hnode).1 hu
    exact ⟨u, (mem_subtreeUnits_iff hg hroot).2 ⟨.head hedge hbelow, hu⟩, rfl⟩

end

/-- A node of the first file that belongs to the function `1:0`, unless it is a function itself. -/
def numbered (id : NodeId) (number : Int) (body : NodeBody) : Node :=
  { id, file := 1, number, startLine := 1, endLine := 9, name := none, parentFunction := some "1:0", body }

/-- A graph of nodes with an edge for each of the given pairs. -/
def ofEdges (nodes : List Node) (edges : List (NodeId × NodeId × EdgeKind)) : Graph where
  nodes := ⟨nodes.map fun n => (n.id, n)⟩
  links := edges.map fun e => ⟨e.1, e.2.1, [(0, { edge := e.2.2 })]⟩

end ParallelPatterns.Graph
