import Mathlib.Order.Lattice
import ParallelPatterns.Proofs.Metadata
import ParallelPatterns.Task.Roles

/-!
# Widening loops to what they enclose

One pass over the loops, in the order in which they are stored, widens each to its children and
called nodes of the same file. The pass never widens a loop beyond what any enclosing choice of
ranges needs. A second pass changes nothing if and only if every loop encloses what it should, and
only a child that is a loop stored later can stick out.
-/

namespace ParallelPatterns

open Function List OrderDual

/-- First and last line, ordered by inclusion. -/
abbrev LineRange := ℤᵒᵈ × ℤ

def Node.range (n : Node) : LineRange := (toDual n.startLine, n.endLine)

def Node.ranged (n : Node) (r : LineRange) : Node := { n with startLine := ofDual r.1, endLine := r.2 }

namespace Graph

variable (g : Graph) (r : NodeId → LineRange)

def range (id : NodeId) : LineRange := ((g.node? id).map Node.range).getD default

def ranged : Graph := { g with nodes := g.nodes.map fun id n => n.ranged (r id) }

def loopIds : List NodeId := g.loops.map (·.id)

/-- The children and called nodes that are in the file of a node. -/
def inside (id : NodeId) : List NodeId :=
  ((g.childrenOrCalled id).filter fun c => (g.node? id).any (·.file == c.file)).map (·.id)

def Encloses : Prop := ∀ l ∈ g.loopIds, ∀ c ∈ g.inside l, r c ≤ r l

def widened (l : NodeId) : NodeId → LineRange := update r l (((g.inside l).map r).foldl (· ⊔ ·) (r l))

variable {g r} {r' : NodeId → LineRange} {l : NodeId} {ls : List NodeId}

/-! ## One loop -/

theorem foldl_sup_le_iff {s t : LineRange} {rs : List LineRange} :
    rs.foldl (· ⊔ ·) s ≤ t ↔ s ≤ t ∧ ∀ r ∈ rs, r ≤ t := by
  induction rs generalizing s with
  | nil => simp
  | cons r rs ih => simp [ih, and_assoc]

theorem widened_self_le_iff {t : LineRange} : g.widened r l l ≤ t ↔ r l ≤ t ∧ ∀ c ∈ g.inside l, r c ≤ t := by
  rw [widened, update_self, foldl_sup_le_iff, forall_mem_map]

theorem le_widened : r ≤ g.widened r l :=
  le_update_self_iff.2 (foldl_sup_le_iff.1 le_rfl).1

theorem widened_le (h : r ≤ r') (hl : ∀ c ∈ g.inside l, r' c ≤ r' l) : g.widened r l ≤ r' :=
  update_le_iff.2 ⟨foldl_sup_le_iff.2 ⟨h l, forall_mem_map.2 fun c hc => (h c).trans (hl c hc)⟩, fun id _ => h id⟩

/-! ## All loops -/

theorem le_foldl_widened : r ≤ ls.foldl g.widened r := by
  induction ls generalizing r with
  | nil => exact le_rfl
  | cons l ls ih => exact le_widened.trans ih

theorem foldl_widened_le (h : r ≤ r') (hls : ∀ l ∈ ls, ∀ c ∈ g.inside l, r' c ≤ r' l) :
    ls.foldl g.widened r ≤ r' := by
  induction ls generalizing r with
  | nil => exact h
  | cons l ls ih =>
    exact ih (widened_le h (hls l mem_cons_self)) fun m hm => hls m (mem_cons_of_mem l hm)

theorem foldl_widened_of_notMem {id : NodeId} (h : id ∉ ls) : ls.foldl g.widened r id = r id := by
  induction ls generalizing r with
  | nil => rfl
  | cons l ls ih =>
    rw [foldl_cons, ih fun hid => h (mem_cons_of_mem l hid), widened, update_of_ne (ne_of_not_mem_cons h)]

theorem le_foldl_widened_of_mem {c : NodeId} (hl : l ∈ ls) (hc : c ∈ g.inside l) :
    r c ≤ ls.foldl g.widened r l := by
  obtain ⟨before, after, rfl⟩ := append_of_mem hl
  rw [foldl_append]
  calc r c ≤ before.foldl g.widened r c := le_foldl_widened c
    _ ≤ g.widened (before.foldl g.widened r) l l := (widened_self_le_iff.1 le_rfl).2 c hc
    _ ≤ _ := le_foldl_widened l

theorem encloses_iff_pairwise (hnodup : g.loopIds.Nodup) :
    let r' := g.loopIds.foldl g.widened r
    g.Encloses r' ↔ g.loopIds.Pairwise fun l m => m ∈ g.inside l → r' m ≤ r' l := by
  refine ⟨fun h => pairwise_of_forall_mem_list fun l hl m _ => h l hl m, fun h l hl c hc => ?_⟩
  obtain ⟨before, after, heq⟩ := append_of_mem hl
  rw [heq] at hnodup h
  have hlater := (pairwise_cons.1 (pairwise_append.1 h).2.1).1
  by_cases hcafter : c ∈ after
  · rw [← heq] at hlater
    exact hlater c hcafter hc
  · -- neither the loop nor its child changes after the turn of the loop
    have hlafter := (nodup_cons.1 (nodup_append.1 hnodup).2.1).1
    rw [heq, foldl_append, foldl_cons, foldl_widened_of_notMem hcafter, foldl_widened_of_notMem hlafter]
    by_cases hcl : c = l
    · rw [hcl]
    · rw [widened, update_of_ne hcl]
      exact (widened_self_le_iff.1 le_rfl).2 c hc

/-! ## The run -/

theorem runOn_forIn {α β σ : Type} {f : α → Analysis (ForInStep PUnit)} {S : σ → Graph} {k : σ → α → σ}
    {xs : List α} (h : ∀ s, ∀ x ∈ xs, (f x).runOn (S s) = (.ok (.yield ⟨⟩), S (k s x))) (s : σ) (b : β) :
    (forIn xs PUnit.unit (fun x _ => f x) >>= fun _ => pure b).runOn (S s) = (.ok b, S (xs.foldl k s)) := by
  induction xs generalizing s with
  | nil => rfl
  | cons x xs ih =>
    rw [forIn_cons, bind_assoc, Analysis.runOn_bind_of_ok (h s x mem_cons_self)]
    exact ih (fun s y hy => h s y (mem_cons_of_mem x hy)) (k s x)

/-- What one child does to a node. -/
def cover (c n : Node) : Node :=
  if n.file == c.file then { n with startLine := min n.startLine c.startLine, endLine := max n.endLine c.endLine }
  else n

theorem annotates_ranged (g : Graph) (r : NodeId → LineRange) : g.Annotates (g.ranged r) :=
  ⟨rfl, fun id n => n.ranged (r id), fun _ _ => ⟨rfl, rfl⟩, rfl⟩

theorem node?_ranged (id : NodeId) : (g.ranged r).node? id = (g.node? id).map (·.ranged (r id)) :=
  Table.get?_map _ _ _

theorem childrenOrCalled_ranged (h : g.Keyed) (l : NodeId) :
    (g.ranged r).childrenOrCalled l = (g.childrenOrCalled l).map fun c => c.ranged (r c.id) := by
  unfold childrenOrCalled targets
  rw [map_filterMap]
  refine filterMap_congr fun e _ => ?_
  rw [node?_ranged]
  cases hn : g.node? e.target with
  | none => rfl
  | some c => rw [Option.map_some, Option.map_some, h _ c hn]

section

variable (hkeys : g.nodes.keys.Nodup)
include hkeys

theorem map_nodes_congr {f f' : NodeId → Node → Node}
    (h : ∀ id n, g.node? id = some n → f id n = f' id n) : g.nodes.map f = g.nodes.map f' := by
  unfold Table.map
  congr 1
  refine map_congr_left fun e he => ?_
  rw [h e.1 e.2 (Table.get?_of_mem hkeys he)]

theorem ranged_range : g.ranged g.range = g := by
  have hnodes : g.nodes.map (fun id n => n.ranged (g.range id)) = g.nodes.map fun _ n => n :=
    map_nodes_congr hkeys fun id n hn => by rw [range, hn]; rfl
  unfold ranged
  rw [hnodes]
  simp [Table.map]

theorem modifyNode_ranged {n : Node} {s s' : LineRange} {f : Node → Node} (hn : g.node? l = some n)
    (hf : f (n.ranged s) = n.ranged s') :
    (g.ranged (update r l s)).modifyNode l f = g.ranged (update r l s') := by
  unfold modifyNode ranged
  rw [Table.modify_eq_map, Table.map_map, map_nodes_congr hkeys]
  intro id m hm
  by_cases hid : id = l
  · subst hid
    cases hn.symm.trans hm
    simp [hf]
  · simp [hid]

theorem runOn_widen {β : Type} {n : Node} (h : g.Keyed) (hn : g.node? l = some n) (b : β) :
    (forIn ((g.ranged r).childrenOrCalled l) PUnit.unit (fun c _ => do
      Analysis.modifyNode l (cover c)
      pure (.yield ⟨⟩)) >>= fun _ => pure b : Analysis β).runOn (g.ranged r) =
      (.ok b, g.ranged (g.widened r l)) := by
  have hturn : ∀ s, ∀ c ∈ (g.ranged r).childrenOrCalled l,
      (do Analysis.modifyNode l (cover c); pure (.yield ⟨⟩) : Analysis (ForInStep PUnit)).runOn
          (g.ranged (update r l s)) =
        (.ok (.yield ⟨⟩), g.ranged (update r l (if n.file == c.file then s ⊔ c.range else s))) := by
    intro s c _
    refine congrArg (Prod.mk _) (modifyNode_ranged hkeys hn ?_)
    show (if n.file == c.file then _ else _) = _
    split <;> rfl
  have hrun := runOn_forIn hturn (r l) b
  rw [update_eq_self] at hrun
  rw [hrun, childrenOrCalled_ranged h, foldl_map, ← foldl_filter, widened, inside, hn, foldl_map, foldl_map]
  rfl

theorem runOn_widenLoops (h : g.WellFormed) (r : NodeId → LineRange) :
    widenLoops.runOn (g.ranged r) = (.ok (), g.ranged (g.loopIds.foldl g.widened r)) := by
  have hids : (g.ranged r).loops.map (·.id) = g.loopIds := (annotates_ranged g r).map_id_nodesOf [.loop]
  rw [← hids, foldl_map]
  refine runOn_forIn (fun r' l hl => ?_) r ()
  have hl : l.id ∈ g.loopIds := hids ▸ mem_map_of_mem hl
  obtain ⟨n, hn, hid⟩ := mem_map.1 hl
  exact runOn_widen hkeys h.keyed (hid ▸ h.node?_of_mem hkeys (mem_filter.1 hn).1) _

end

/-- Widening the loops takes no more lines into a loop than any ranges need with which every loop
encloses its own; all loops enclose theirs afterwards if and only if this is so for each child that
is a loop stored after its parent, and if and only if widening again changes nothing. -/
theorem widenLoops_least (h : g.WellFormed) (hkeys : g.nodes.keys.Nodup) :
    ∃ r, widenLoops.runOn g = (.ok (), g.ranged r) ∧ g.range ≤ r ∧ (∀ r', g.Encloses r' → g.range ≤ r' → r ≤ r') ∧
      (g.Encloses r ↔ g.loopIds.Pairwise fun l m => m ∈ g.inside l → r m ≤ r l) ∧
      (g.Encloses r ↔ widenLoops.runOn (g.ranged r) = (.ok (), g.ranged r)) := by
  have hrun := runOn_widenLoops hkeys h g.range
  rw [ranged_range hkeys] at hrun
  refine ⟨_, hrun, le_foldl_widened, fun r' hr' hle => foldl_widened_le hle hr', encloses_iff_pairwise ?_, ?_⟩
  · exact nodup_nodesOf h.keyed hkeys [.loop]
  · rw [runOn_widenLoops hkeys h]
    refine ⟨fun hr => ?_, fun hr l hl c hc => ?_⟩
    · rw [le_antisymm (foldl_widened_le le_rfl hr) le_foldl_widened]
    · obtain ⟨n, hn, rfl⟩ := mem_map.1 hl
      have heq := congrArg (fun run => (run.2.node? n.id).map Node.range) hr
      simp only [node?_ranged, h.node?_of_mem hkeys (mem_filter.1 hn).1] at heq
      refine (le_foldl_widened_of_mem hl hc).trans (Option.some.inj heq).le

/-- A loop stored before the loop in it, which is shorter than its own unit. -/
def outerFirst : Graph :=
  ofEdges [{ numbered "1:1" 1 (.loop {}) with endLine := 1 }, { numbered "1:2" 2 (.loop {}) with endLine := 2 },
    numbered "1:3" 3 (.unit {})] [("1:1", "1:2", .child), ("1:2", "1:3", .child)]

/-- The outer loop does not enclose the inner one afterwards: a second pass widens it. -/
theorem widenLoops_least_outerFirst :
    ∃ r, widenLoops.runOn outerFirst = (.ok (), outerFirst.ranged r) ∧ ¬outerFirst.Encloses r := by
  obtain ⟨r, hrun, -, -, -, hagain⟩ := widenLoops_least (g := outerFirst)
    (.of_entries (by decide) (by decide)) (by decide)
  refine ⟨r, hrun, fun h => ?_⟩
  have hend := congrArg (fun run => (run.2.node? "1:1").map (·.endLine)) (hagain.1 h)
  have hr : outerFirst.ranged r = (widenLoops.runOn outerFirst).2 := by rw [hrun]
  rw [hr] at hend
  exact absurd hend (by decide +kernel)

end Graph
end ParallelPatterns
