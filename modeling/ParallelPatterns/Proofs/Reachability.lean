import ParallelPatterns.Proofs.SuccessorView

/-!
# Reachability

A worklist search keeps what it meets open as often as it is met, and an element that is taken out
again brings in again what is still new behind it. Still it comes to an end: a turn visits something
new, or takes away one of the visited elements that are open again. What it finds is then what its
start leads to.

Nodes are told apart by their numbers, and functions know what their nodes reach by identifiers.
Where the numbers of different nodes differ, both tell whether a way leads from one node to another.
-/

namespace ParallelPatterns

open List

namespace Search

variable {α : Type}

/-- Where a search puts what it meets among the open elements. -/
structure Discipline (α : Type) where
  put : List α → List α → List α
  perm (todo met : List α) : (put todo met).Perm (todo ++ met)

def Discipline.queue : Discipline α := ⟨(· ++ ·), fun _ _ => .refl _⟩

/-- Has an element, or one that is the same, been visited? -/
def isSeen (same : α → α → Bool) (visited : List α) (x : α) : Bool := visited.any (same · x)

def visit (same : α → α → Bool) (visited : List α) (x : α) : List α :=
  if isSeen same visited x then visited else visited ++ [x]

/-- What follows an element and is still new when the element has been visited. -/
def fresh (same : α → α → Bool) (next : α → List α) (visited : List α) (x : α) : List α :=
  (next x).filter fun y => !isSeen same (visit same visited x) y

/-- Takes open elements one after the other, until one meets an element that is looked for. Nothing
bounds the number of turns: the result is `none` if there is no last one, else it has the visited
elements. -/
def Discipline.worklist (d : Discipline α) (same : α → α → Bool) (next : α → List α)
    (wanted : α → Bool) (todo visited : List α) : Option (Bool × List α) :=
  match todo with
  | [] => some (false, visited)
  | x :: todo =>
    if (fresh same next visited x).any wanted then some (true, visit same visited x)
    else d |>.worklist same next wanted (d.put todo (fresh same next visited x)) (visit same visited x)
partial_fixpoint

variable {same : α → α → Bool} {next : α → List α} {wanted : α → Bool} {space todo visited : List α} {x : α}

section

variable {d : Discipline α}

theorem worklist_cons :
    d.worklist same next wanted (x :: todo) visited =
      if (fresh same next visited x).any wanted then some (true, visit same visited x)
      else d.worklist same next wanted (d.put todo (fresh same next visited x)) (visit same visited x) := by
  rw [Discipline.worklist.eq_def]

/-- What a search has before it: the new elements of its space, and the visited ones that are open
again. -/
def ahead (same : α → α → Bool) (space todo visited : List α) : Nat × Nat :=
  ((space.filter fun y => !isSeen same visited y).length, todo.countP (isSeen same visited))

theorem ahead_decreases (hsame : ∀ x, same x x) (hx : x ∈ space) :
    Prod.Lex (· < ·) (· < ·) (ahead same space (d.put todo (fresh same next visited x)) (visit same visited x))
      (ahead same space (x :: todo) visited) := by
  by_cases hseen : isSeen same visited x
  · have hvisit : visit same visited x = visited := if_pos hseen
    have hfresh : (fresh same next visited x).countP (isSeen same visited) = 0 := by
      rw [fresh, hvisit, countP_eq_zero]
      intro y hy
      simpa using (mem_filter.1 hy).2
    rw [hvisit, ahead, ahead, (d.perm _ _).countP_eq, countP_append, hfresh, countP_cons_of_pos hseen]
    exact Prod.Lex.right _ (Nat.lt_succ_self _)
  · have hvisit : visit same visited x = visited ++ [x] := if_neg hseen
    rw [hvisit]
    refine Prod.Lex.left _ _ (length_filter_lt (fun y hy => ?_) hx (by simpa using hseen) ?_)
    · simp only [isSeen, any_append, Bool.not_or, Bool.and_eq_true] at hy ⊢
      exact hy.1
    · simp [isSeen, hsame]

theorem exists_worklist (hsame : ∀ x, same x x) {P : List α → List α → Prop} {Q : Bool → List α → Prop}
    (hspace : ∀ x todo visited, P (x :: todo) visited → x ∈ space)
    (hdone : ∀ visited, P [] visited → Q false visited)
    (hfound : ∀ x todo visited, P (x :: todo) visited → (fresh same next visited x).any wanted →
      Q true (visit same visited x))
    (hturn : ∀ x todo visited, P (x :: todo) visited → (fresh same next visited x).any wanted = false →
      P (d.put todo (fresh same next visited x)) (visit same visited x))
    (todo visited : List α) (h : P todo visited) :
    ∃ found visited', d.worklist same next wanted todo visited = some (found, visited') ∧ Q found visited' := by
  match todo with
  | [] => exact ⟨false, visited, by rw [Discipline.worklist.eq_def], hdone visited h⟩
  | x :: todo =>
    rw [worklist_cons]
    cases hany : (fresh same next visited x).any wanted with
    | true => exact ⟨true, _, rfl, hfound x todo visited h hany⟩
    | false => exact exists_worklist hsame hspace hdone hfound hturn _ _ (hturn x todo visited h hany)
termination_by ahead same space todo visited
decreasing_by exact ahead_decreases hsame (hspace x todo visited h)

variable [BEq α] [LawfulBEq α]

theorem isSeen_iff : isSeen (· == ·) visited x ↔ x ∈ visited := by
  simp [isSeen]

theorem mem_visit_iff {y : α} : y ∈ visit (· == ·) visited x ↔ y ∈ visited ∨ y = x := by
  rw [visit]
  split
  case isTrue hseen => exact ⟨.inl, fun hy => hy.elim id fun hy => hy ▸ isSeen_iff.1 hseen⟩
  case isFalse => simp

theorem mem_fresh_iff {y : α} : y ∈ fresh (· == ·) next visited x ↔ y ∈ next x ∧ y ∉ visit (· == ·) visited x := by
  rw [fresh, mem_filter, Bool.not_eq_true', ← Bool.not_eq_true, isSeen_iff]

/-- What is open or visited is led to and not looked for, and what follows the visited elements is
among it. -/
structure Searching (next : α → List α) (wanted : α → Bool) (start : α) (todo visited : List α) : Prop where
  leads : ∀ x, x ∈ todo ∨ x ∈ visited → Leads next start x ∧ wanted x = false
  start : start ∈ todo ∨ start ∈ visited
  closed : ∀ v ∈ visited, ∀ y ∈ next v, y ∈ todo ∨ y ∈ visited

variable {start : α}

theorem Searching.turn (h : Searching next wanted start (x :: todo) visited)
    (hnone : (fresh (· == ·) next visited x).any wanted = false) :
    Searching next wanted start (d.put todo (fresh (· == ·) next visited x)) (visit (· == ·) visited x) := by
  have hkept : ∀ y, y ∈ x :: todo ∨ y ∈ visited →
      y ∈ d.put todo (fresh (· == ·) next visited x) ∨ y ∈ visit (· == ·) visited x := by
    intro y hy
    rw [(d.perm _ _).mem_iff, mem_append, mem_visit_iff]
    rw [mem_cons] at hy
    tauto
  refine ⟨fun y hy => ?_, hkept _ h.start, fun v hv y hy => ?_⟩
  · rw [(d.perm _ _).mem_iff, mem_append] at hy
    rcases hy with (hy | hy) | hy
    · exact h.leads y (.inl (mem_cons_of_mem _ hy))
    · exact ⟨(h.leads x (.inl mem_cons_self)).1.tail (mem_fresh_iff.1 hy).1,
        by simpa using any_eq_false.1 hnone y hy⟩
    · rcases mem_visit_iff.1 hy with hy | rfl
      · exact h.leads y (.inr hy)
      · exact h.leads y (.inl mem_cons_self)
  · rcases mem_visit_iff.1 hv with hv | rfl
    · exact hkept y (h.closed v hv y hy)
    · by_cases hnew : y ∈ visit (· == ·) visited v
      · exact .inr hnew
      · exact .inl ((d.perm _ _).mem_iff.2 (mem_append_right _ (mem_fresh_iff.2 ⟨hy, hnew⟩)))

theorem exists_worklist_leads (wanted : α → Bool) (hspace : ∀ x ∈ space, next x ⊆ space)
    (hstart : start ∈ space) (hwanted : wanted start = false) :
    ∃ found visited, d.worklist (· == ·) next wanted [start] [] = some (found, visited) ∧
      (found ↔ ∃ x, Leads next start x ∧ wanted x) := by
  have hin : ∀ x todo visited, Searching next wanted start (x :: todo) visited → x ∈ space :=
    fun x _ _ h => (h.leads x (.inl mem_cons_self)).1.mem_of_closed hspace hstart
  refine exists_worklist (by simp) hin (fun visited h => ?_)
    (fun x todo visited h hany => ?_) (fun x todo visited h hnone => h.turn hnone) [start] [] ?_
  · have hvisited : ∀ x, Leads next start x → x ∈ visited := by
      intro x hleads
      induction hleads with
      | refl => simpa using h.start
      | tail _ hstep ih => simpa using h.closed _ ih _ hstep
    refine ⟨fun h => absurd h Bool.false_ne_true, ?_⟩
    rintro ⟨x, hleads, hx⟩
    rw [(h.leads x (.inr (hvisited x hleads))).2] at hx
    exact absurd hx Bool.false_ne_true
  · obtain ⟨y, hy, hwanted⟩ := any_eq_true.1 hany
    exact ⟨fun _ => ⟨y, (h.leads x (.inl mem_cons_self)).1.tail (mem_fresh_iff.1 hy).1, hwanted⟩, fun _ => rfl⟩
  · refine ⟨fun x hx => ?_, .inl mem_cons_self, fun v hv => absurd hv not_mem_nil⟩
    obtain rfl : x = start := by simpa using hx
    exact ⟨.refl, hwanted⟩

end

end Search

namespace Graph

variable {g : Graph} {kinds : List EdgeKind} {target source : Node}

/-- Looks for the source behind the target, with a queue of what is open and a list of what has been
visited. -/
def queuedSearch (g : Graph) (target source : Node) (kinds : List EdgeKind) : Option Bool :=
  if source.alike target then some true
  else (Search.Discipline.queue.worklist (· == ·) (fun id => (g.inEdgesOf id kinds).map (·.source))
    (fun id => (g.node? id).any fun n => n.alike source) [target.id] []).map (·.1)

theorem mem_sources_iff {a b : NodeId} :
    a ∈ (g.inEdgesOf b kinds).map (·.source) ↔ b ∈ (g.outEdgesOf a kinds).map (·.target) := by
  simp only [inEdgesOf, outEdgesOf, mem_map, mem_filter, mem_inEdges_iff, mem_outEdges_iff]
  constructor
  · rintro ⟨e, ⟨⟨rfl, he⟩, hkind⟩, rfl⟩
    exact ⟨e, ⟨⟨rfl, he⟩, hkind⟩, rfl⟩
  · rintro ⟨e, ⟨⟨rfl, he⟩, hkind⟩, rfl⟩
    exact ⟨e, ⟨⟨rfl, he⟩, hkind⟩, rfl⟩

theorem leads_sources_iff {stop id : NodeId} :
    Search.Leads (fun id => (g.inEdgesOf id kinds).map (·.source)) stop id ↔ g.Reaches kinds id stop := by
  unfold Search.Leads Reaches Search.Leads
  rw [← Relation.reflTransGen_swap]
  simp only [mem_sources_iff]

theorem sources_subset (g : Graph) (kinds : List EdgeKind) (stop id : NodeId) :
    (g.inEdgesOf id kinds).map (·.source) ⊆ stop :: g.links.map (·.source) := by
  intro s hs
  obtain ⟨e, he, rfl⟩ := mem_map.1 hs
  obtain ⟨l, hl, he⟩ := mem_flatMap.1 (mem_inEdges_iff.1 (mem_filter.1 he).1).2
  obtain ⟨p, -, rfl⟩ := mem_map.1 he
  exact mem_cons_of_mem _ (mem_map.2 ⟨l, hl, rfl⟩)

theorem mem_reachingIds_iff {stop id : NodeId} : id ∈ g.reachingIds kinds stop ↔ g.Reaches kinds id stop := by
  have hturns : g.links.length + 1 = (stop :: g.links.map (·.source)).length := by simp
  rw [reachingIds, hturns, ← leads_sources_iff]
  exact Search.mem_reached_iff (fun x _ => g.sources_subset kinds stop x) mem_cons_self

theorem nodup_reachingIds (g : Graph) (kinds : List EdgeKind) (stop : NodeId) :
    (g.reachingIds kinds stop).Nodup := by
  have hturns : g.links.length + 1 = (stop :: g.links.map (·.source)).length := by simp
  rw [reachingIds, hturns]
  exact (Search.reached_preorder (fun x _ => g.sources_subset kinds stop x) mem_cons_self).2.1

variable (htarget : g.node? target.id = some target)
include htarget

theorem reachable_iff_exists :
    g.reachable target source kinds ↔ ∃ id, g.Reaches kinds id target.id ∧ ∃ n,
      g.node? id = some n ∧ n.alike source := by
  simp only [reachable, nodesAt, Bool.or_eq_true, any_eq_true, mem_filterMap, mem_reachingIds_iff]
  constructor
  · rintro (halike | ⟨n, ⟨id, hreaches, hn⟩, halike⟩)
    · exact ⟨target.id, .refl, target, htarget, by rwa [Node.alike_comm]⟩
    · exact ⟨id, hreaches, n, hn, halike⟩
  · rintro ⟨id, hreaches, n, hn, halike⟩
    exact .inr ⟨n, ⟨id, hreaches, hn⟩, halike⟩

theorem queuedSearch_eq : g.queuedSearch target source kinds = some (g.reachable target source kinds) := by
  unfold queuedSearch
  split
  case isTrue halike => rw [reachable, halike, Bool.true_or]
  case isFalse halike =>
    obtain ⟨found, visited, hrun, hfound⟩ := Search.exists_worklist_leads
      (fun id => (g.node? id).any fun n => n.alike source) (fun x _ => g.sources_subset kinds target.id x)
      mem_cons_self (by simpa [htarget, Node.alike_comm] using halike)
    have hanswer : found ↔ g.reachable target source kinds := by
      rw [hfound, reachable_iff_exists htarget]
      simp only [leads_sources_iff, Option.any_eq_true]
    rw [hrun, Option.map_some, Bool.eq_iff_iff.2 hanswer]

theorem reachable_iff (hkeyed : g.Keyed) (hnumbers : g.NumbersDiffer) (hsource : g.node? source.id = some source) :
    g.reachable target source kinds ↔ g.Reaches kinds source.id target.id := by
  rw [reachable_iff_exists htarget]
  refine ⟨?_, fun h => ⟨source.id, h, source, hsource, source.alike_refl⟩⟩
  rintro ⟨id, hreaches, n, hn, halike⟩
  rwa [← hnumbers.eq_of_alike hn hsource halike, hkeyed id n hn]

end Graph

open ParallelPatterns.Graph in
/-- The search for a source ends, also over circles, and tells whether edges lead from the source to
the target. In the graph of a program, its answer over successor edges is what the function knows of
the source. -/
theorem Graph.reachable_agrees {g : Graph} {target source : Node} (hkeyed : g.Keyed) (hnumbers : g.NumbersDiffer)
    (htarget : g.node? target.id = some target) (hsource : g.node? source.id = some source)
    (kinds : List EdgeKind) :
    g.queuedSearch target source kinds = some (g.reachable target source kinds) ∧
      (g.reachable target source kinds = true ↔ source = target ∨ g.Reaches kinds source.id target.id) ∧
      ∀ {earlier : UnitFile} {nodes : List Markup} {p : ProgramInput} {g₀ g₁ : Graph},
        UnitFile.ofNodes earlier nodes = .ok p.units → p.toGraph = .ok g₀ → g₁ = g₀ ∨ g₁ = g₀.mapStaticRegions →
        g₁.computeMetadata = .ok g → ∀ f ∈ g.functions, ∃ b ids, f.function? = some b ∧
          b.children = some ids ∧ (source.id ∈ ids → ∃ rs, b.reach.get? source.id = some rs ∧
            (g.reachable target source [.successor] = true ↔ target.id ∈ rs)) := by
  have hiff (kinds) : g.reachable target source kinds ↔ g.Reaches kinds source.id target.id :=
    reachable_iff htarget hkeyed hnumbers hsource
  refine ⟨queuedSearch_eq htarget, ?_, ?_⟩
  · rw [hiff]
    exact ⟨.inr, fun h => h.elim (fun hsame => hsame ▸ .refl) id⟩
  · intro earlier nodes p g₀ g₁ hread hg hmapped hmeta f hf
    obtain ⟨b, hb, ids, hchildren, hreach⟩ :=
      (ProgramInput.ordered_of_ofNodes hread hg hmapped).knows_of_computeMetadata hmeta hf
    refine ⟨b, ids, hb, hchildren, fun hmem => ?_⟩
    obtain ⟨rs, hrs, hfollows⟩ := hreach source.id hmem
    exact ⟨rs, hrs, (hiff _).trans (hfollows target.id).symm⟩

/-- The graph of a function with two loops that follow each other in a circle, and a third one
behind them. -/
def circledLoops : Result Graph := do
  let u ← UnitFile.ofNodes {} [nodeOf "1:0" "1" "1:1,1:2,1:3" [] [], nodeOf "1:1" "2" "" ["1:2"] [],
    nodeOf "1:2" "2" "" ["1:1", "1:3"] [], nodeOf "1:3" "2" "" [] []]
  let g ← ProgramInput.toGraph ⟨u, [], ∅, none⟩
  g.computeMetadata

open ParallelPatterns.Graph in
/-- The last loop is reached from the first one, which is not reached from it. -/
theorem Graph.reachable_agrees_circledLoops :
    ∃ g first last, circledLoops = .ok g ∧ g.node? "1:1" = some first ∧ g.node? "1:3" = some last ∧
      g.queuedSearch last first [.successor] = some true ∧ g.queuedSearch first last [.successor] = some false ∧
      g.Reaches [.successor] first.id last.id ∧ ¬g.Reaches [.successor] last.id first.id := by
  obtain ⟨g, first, last, hrun, hentries, hnumbers, ⟨hfirst, hid⟩, ⟨hlast, hid'⟩, hanswers⟩ :
      ∃ g first last, circledLoops = .ok g ∧ (∀ e ∈ g.nodes.entries, e.2.id = e.1) ∧ g.NumbersDiffer ∧
        (g.node? "1:1" = some first ∧ first.id = "1:1") ∧ (g.node? "1:3" = some last ∧ last.id = "1:3") ∧
        g.reachable last first [.successor] = true ∧ g.reachable first last [.successor] = false :=
    ⟨_, _, _, rfl, by decide, by unfold NumbersDiffer; decide, ⟨rfl, rfl⟩, ⟨rfl, rfl⟩, rfl, rfl⟩
  have hkeyed : g.Keyed := fun id n hn => hentries (id, n) (Table.mem_of_get? hn)
  have hfirst' := hid.symm ▸ hfirst
  have hlast' := hid'.symm ▸ hlast
  obtain ⟨hforward, hreached, -⟩ := reachable_agrees hkeyed hnumbers hlast' hfirst' [.successor]
  obtain ⟨hback, hmissed, -⟩ := reachable_agrees hkeyed hnumbers hfirst' hlast' [.successor]
  have hne : first ≠ last := fun hsame => absurd (hid.symm.trans (hsame ▸ hid')) (by decide)
  refine ⟨g, first, last, hrun, hfirst, hlast, hanswers.1 ▸ hforward, hanswers.2 ▸ hback,
    (hreached.1 hanswers.1).resolve_left hne, fun h => ?_⟩
  rw [hmissed.2 (.inr h)] at hanswers
  exact absurd hanswers.2 (by decide)

end ParallelPatterns
