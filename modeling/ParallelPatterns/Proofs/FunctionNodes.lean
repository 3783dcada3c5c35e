import ParallelPatterns.Proofs.Forest
import ParallelPatterns.Proofs.Metadata

/-!
# The nodes of a function

A function collects the nodes below it with a stack and without a list of what has been visited.
Where child edges form a forest, the walk ends and meets each node below the function once, as the
nodes below two children have nothing in common. Each node then gets the function for its own; if no
function lies below another one, no other function takes it away.
-/

namespace ParallelPatterns

open List Search

/-! ## Walking with a stack -/

namespace Search

variable {α : Type} {next : α → List α} {p : α → Prop} {x : α} {xs ids : List α} {below : List (List α)}

/-- What is still open on a walk, the next element first. -/
abbrev Stack (α : Type) := List α

/-- Puts elements on top, the last one first. -/
def Stack.push (stack : Stack α) (xs : List α) : Stack α := xs.reverse ++ stack

/-- Goes through a stack: what follows its first element is collected and put on top. Nothing bounds
the number of turns: the result is `none` if there is no last one. -/
def Stack.collectUnder (next : α → List α) (stack : Stack α) (found : List α) : Option (List α) :=
  match stack with
  | [] => some found
  | x :: stack => Stack.push stack (next x) |>.collectUnder next (found ++ next x)
partial_fixpoint

open Stack

/-- The list has what lies below an element, each once, in the order in which a walk with a stack
meets it. -/
structure ListsUnder (next : α → List α) (x : α) (ids : List α) : Prop where
  nodup : ids.Nodup
  mem_iff : ∀ y, y ∈ ids ↔ Under next x y
  walk : ∀ stack found, collectUnder next (x :: stack) found = collectUnder next stack (found ++ ids)

theorem collectUnder_append (h : Forall₂ (ListsUnder next) xs below) (stack found : List α) :
    collectUnder next (xs ++ stack) found = collectUnder next stack (found ++ below.flatten) := by
  induction h generalizing found with
  | nil => simp
  | cons hids _ ih => rw [cons_append, hids.walk, ih, flatten_cons, append_assoc]

theorem ForestOn.flatten_below (hforest : ForestOn next p) (hx : p x) (hxs : xs ⊆ next x)
    (hnodup : xs.Nodup) (h : Forall₂ (ListsUnder next) xs below) :
    below.flatten.Nodup ∧ ∀ y, y ∈ below.flatten ↔ ∃ c ∈ xs, Under next c y := by
  induction h with
  | nil => simp
  | @cons c ids xs below hids _ ih =>
    obtain ⟨hc, hxs⟩ := cons_subset.1 hxs
    obtain ⟨hnotin, hnodup⟩ := nodup_cons.1 hnodup
    obtain ⟨hflatten, hmem⟩ := ih hxs hnodup
    refine ⟨hids.nodup.append hflatten fun y hy hy' => ?_, fun y => by simp [hids.mem_iff, hmem]⟩
    obtain ⟨d, hd, hdy⟩ := (hmem y).1 hy'
    have hcy : Under next c y := (hids.mem_iff y).1 hy
    obtain rfl : c = d := hforest.eq_of_leads_of_leads hx hc (hxs hd) hcy.to_reflTransGen hdy.to_reflTransGen
    exact hnotin hd

theorem ForestOn.listsUnder (hforest : ForestOn next p) (hx : p x)
    (h : Forall₂ (ListsUnder next) (next x).reverse below) :
    ListsUnder next x (next x ++ below.flatten) := by
  obtain ⟨hflatten, hmem⟩ :=
    hforest.flatten_below hx (reverse_subset.2 (Subset.refl _)) (nodup_reverse.2 (hforest.nodup hx)) h
  refine ⟨(hforest.nodup hx).append hflatten fun y hy hy' => ?_, fun y => ?_, fun stack found => ?_⟩
  · obtain ⟨c, hc, hcy⟩ := (hmem y).1 hy'
    obtain rfl : c = y := hforest.eq_of_leads_sibling hx (mem_reverse.1 hc) hy hcy.to_reflTransGen
    exact hforest.acyclic (hforest.closed hx hy) hcy
  · rw [mem_append, hmem, under_iff_exists_child]
    simp only [mem_reverse, leads_iff_eq_or_under]
    constructor
    · rintro (hy | ⟨c, hc, hcy⟩)
      · exact ⟨y, hy, .inl rfl⟩
      · exact ⟨c, hc, .inr hcy⟩
    · rintro ⟨c, hc, rfl | hcy⟩
      · exact .inl hc
      · exact .inr ⟨c, hc, hcy⟩
  · rw [collectUnder.eq_def]
    exact (collectUnder_append h stack _).trans (by rw [append_assoc])

end Search

namespace Graph

open Stack

variable {g g' : Graph} {p : NodeId → Prop} {f id : NodeId} {ids : List NodeId}

theorem Annotates.childIds_eq (h : g.Annotates g') : g'.childIds = g.childIds := by
  funext id
  rw [childIds, outEdgesOf, outEdges, h.links]
  rfl

/-! ## Collecting the nodes of one function -/

theorem exists_descendantsGo (hg : g.WellFormed) (hforest : ForestOn g.childIds p) {fuel : Nat}
    (hid : p id) (hfuel : countUnder g.childIds g.nodes.keys id < fuel) :
    ∃ ids, g.descendantsGo fuel id = .ok ids ∧ ListsUnder g.childIds id ids := by
  induction fuel generalizing id with
  | zero => exact absurd hfuel (Nat.not_lt_zero _)
  | succ fuel ih =>
    have hchildren : (g.children id).map (·.id) = g.childIds id := map_id_targets hg _ id
    obtain ⟨below, hbelow, hlists⟩ : ∃ below, (g.childIds id).reverse.mapM (g.descendantsGo fuel) = .ok below ∧
        Forall₂ (ListsUnder g.childIds) (g.childIds id).reverse below := by
      refine exists_forall₂_mapM fun c hc => ?_
      have hc : c ∈ g.childIds id := mem_reverse.1 hc
      have hless := hforest.countUnder_lt hid hc (hg.targets_subset _ _ hc)
      exact ih (hforest.closed hid hc) (by omega)
    refine ⟨_, ?_, hforest.listsUnder hid hlists⟩
    rw [descendantsGo, hchildren, hbelow]
    rfl

theorem parentFunction_modifyNode (g : Graph) (f id : NodeId) (k : FunctionBody → FunctionBody) :
    ((g.modifyNode f fun n => n.modifyFunction k).node? id).map (·.parentFunction) =
      (g.node? id).map (·.parentFunction) := by
  have hnode := Table.get?_modify g.nodes f id fun n => n.modifyFunction k
  rw [modifyNode, node?, hnode]
  split
  · rw [Option.map_map]
    refine congrArg (Option.map · _) (funext fun n => ?_)
    show (n.modifyFunction k).parentFunction = _
    unfold Node.modifyFunction
    split <;> rfl
  · rfl

theorem parentFunction_collectFunction (hids : g.descendants f = .ok ids)
    (hrun : g.collectFunction f = .ok g') (id : NodeId) :
    (g'.node? id).map (·.parentFunction) =
      (g.node? id).map fun n => if ids.contains id then some f else n.parentFunction := by
  rw [collectFunction, hids] at hrun
  cases hrun
  refine (parentFunction_modifyNode _ f id _).trans ?_
  rw [node?, Table.get?_map, Option.map_map]
  split <;> rfl

theorem children_collectFunction (hids : g.descendants f = .ok ids) (hrun : g.collectFunction f = .ok g') {n : Node}
    (hn : g'.node? id = some n) {b : FunctionBody} (hb : n.function? = some b) :
    if f = id then b.children = some ids else ∃ n₀, g.node? id = some n₀ ∧ n₀.function? = some b := by
  obtain ⟨ids', g₁, hids', -, -, hbodies, hnodes⟩ := collectFunction_eq_ok hrun
  obtain rfl : ids' = ids := Except.ok.inj (hids'.symm.trans hids)
  rw [hnodes, Option.map_eq_some_iff] at hn
  obtain ⟨n₁, hn₁, rfl⟩ := hn
  by_cases heq : f = id
  · rw [if_pos (beq_iff_eq.2 heq), function?_modifyFunction, Option.map_eq_some_iff] at hb
    obtain ⟨b₁, -, rfl⟩ := hb
    rw [if_pos heq]
  · rw [if_neg (by simpa using heq)] at hb
    rw [if_neg heq]
    obtain ⟨n₀, hn₀, hfunction⟩ := hbodies id n₁ hn₁
    exact ⟨n₀, hn₀, hfunction.trans hb⟩

/-! ## Collecting the nodes of all functions -/

/-- The functions `fs` know the nodes below them, and these know their function; nothing else has
changed. -/
structure Informed (g : Graph) (fs : List NodeId) (g' : Graph) : Prop where
  annotates : g.Annotates g'
  lists : ∀ f ∈ fs, ∀ n b, g'.node? f = some n → n.function? = some b →
    ∃ ids, b.children = some ids ∧ ListsUnder g.childIds f ids
  marks : ∀ f ∈ fs, ∀ id n, g'.node? id = some n → Under g.childIds f id → n.parentFunction = some f

section

variable (hg : g.WellFormed) (hforest : g.ChildForest)
include hg hforest

theorem Informed.collect {fs : List NodeId} (h : g.Informed fs g')
    (hapart : ∀ f' ∈ fs, ∀ id, Under g.childIds f' id → Under g.childIds f id → f' = f) :
    ∃ g'', g'.collectFunction f = .ok g'' ∧ g.Informed (fs ++ [f]) g'' := by
  have hsame := h.annotates.childIds_eq
  obtain ⟨ids, hids, hlists⟩ : ∃ ids, g'.descendants f = .ok ids ∧ ListsUnder g.childIds f ids := by
    rw [ChildForest, ← hsame] at hforest
    rw [← hsame]
    refine exists_descendantsGo (hg.annotates h.annotates) hforest trivial (Nat.lt_succ_of_le ?_)
    have hsize : g'.size = g'.nodes.keys.length := by simp [size, Table.keys]
    rw [hsize]
    exact countBelow_le _ _ _
  obtain ⟨g'', hrun⟩ : ∃ g'', g'.collectFunction f = .ok g'' := by
    rw [collectFunction, hids]
    exact ⟨_, rfl⟩
  obtain ⟨-, -, -, -, hannotates, -⟩ := collectFunction_eq_ok hrun
  refine ⟨g'', hrun, h.annotates.trans hannotates, fun f' hf' n b hn hb => ?_, fun f' hf' id n hn hunder => ?_⟩
  · have hchildren := children_collectFunction hids hrun hn hb
    split at hchildren
    case isTrue heq => exact ⟨ids, hchildren, heq ▸ hlists⟩
    case isFalse hne =>
      obtain ⟨n₀, hn₀, hb₀⟩ := hchildren
      have hold : f' ∈ fs := (mem_append.1 hf').resolve_right fun hlast => hne (mem_singleton.1 hlast).symm
      exact h.lists f' hold n₀ b hn₀ hb₀
  · have hmark := parentFunction_collectFunction hids hrun id
    rw [hn, Option.map_some, eq_comm, Option.map_eq_some_iff] at hmark
    obtain ⟨n₀, hn₀, hmark⟩ := hmark
    rw [← hmark]
    rcases mem_append.1 hf' with hold | hlast
    · by_cases hmem : id ∈ ids
      · rw [if_pos (contains_iff_mem.2 hmem), hapart f' hold id hunder ((hlists.mem_iff id).1 hmem)]
      · rw [if_neg (by simpa using hmem)]
        exact h.marks f' hold id n₀ hn₀ hunder
    · obtain rfl := mem_singleton.1 hlast
      rw [if_pos (contains_iff_mem.2 ((hlists.mem_iff id).2 hunder))]

theorem exists_informed {fs : List Node} {done : List NodeId} (h : g.Informed done g')
    (hapart : ∀ f' ∈ done ++ fs.map (·.id), ∀ f ∈ done ++ fs.map (·.id), ∀ id,
      Under g.childIds f' id → Under g.childIds f id → f' = f) :
    ∃ g'', fs.foldlM (fun g f => g.collectFunction f.id) g' = .ok g'' ∧ g.Informed (done ++ fs.map (·.id)) g'' := by
  induction fs generalizing done g' with
  | nil => exact ⟨g', rfl, by simpa using h⟩
  | cons f fs ih =>
    have hsplit : done ++ (f :: fs).map (·.id) = done ++ [f.id] ++ fs.map (·.id) := by simp
    rw [hsplit] at hapart ⊢
    obtain ⟨g₁, hfirst, h₁⟩ := h.collect hg hforest fun f' hf' => hapart f' (by simp [hf']) f.id (by simp)
    obtain ⟨g'', hrest, h''⟩ := ih h₁ hapart
    exact ⟨g'', by rw [foldlM_cons, hfirst]; exact hrest, h''⟩

end

/-- Where child edges form a forest and no function lies below a function, computing metadata comes
to its end. Each function then lists every node below it once, as a walk with a stack does, and is
the function of each of them. -/
theorem computeMetadata_lists_nodes (hg : g.WellFormed) (hkeys : g.nodes.keys.Nodup) (hnamed : g.node? "" = none)
    (hforest : g.ChildForest) (hfunctions : ∀ f ∈ g.functions, ∀ f' ∈ g.functions, ¬Under g.childIds f.id f'.id) :
    ∃ g', g.computeMetadata = .ok g' ∧ g'.nodes.keys = g.nodes.keys ∧
      g'.functions.map (·.id) = g.functions.map (·.id) ∧
      ∀ f ∈ g'.functions, ∃ b ids, f.function? = some b ∧ b.children = some ids ∧ ids.Nodup ∧
        (∀ id, id ∈ ids ↔ Under g.childIds f.id id) ∧ collectUnder g.childIds [f.id] [] = some ids ∧
        ∀ n ∈ g'.allNodes, Under g.childIds f.id n.id → g'.parentFunction n = .ok f := by
  obtain ⟨g₁, hrun, h₁⟩ : ∃ g₁, g.functions.foldlM (fun g f => g.collectFunction f.id) g = .ok g₁ ∧
      g.Informed (g.functions.map (·.id)) g₁ := by
    have hstart : g.Informed [] g := ⟨.refl g, by simp, by simp⟩
    refine exists_informed hg hforest hstart fun f' hf' f hf id hid' hid => ?_
    obtain ⟨n', hn', rfl⟩ := mem_map.1 hf'
    obtain ⟨n, hn, rfl⟩ := mem_map.1 hf
    rcases hforest.leads_or_leads trivial trivial hid'.to_reflTransGen hid.to_reflTransGen with hleads | hleads
    · exact (leads_iff_eq_or_under.1 hleads).elim Eq.symm fun hunder => absurd hunder (hfunctions _ hn' _ hn)
    · exact (leads_iff_eq_or_under.1 hleads).elim (·) fun hunder => absurd hunder (hfunctions _ hn _ hn')
  have hids : g₁.functions.map (·.id) = g.functions.map (·.id) := h₁.annotates.map_id_nodesOf _
  have hnode : ∀ n ∈ g₁.allNodes, g₁.node? n.id = some n := fun n hn =>
    (hg.annotates h₁.annotates).node?_of_mem (h₁.annotates.keys ▸ hkeys) hn
  refine ⟨g₁.removeRepeated, by rw [computeMetadata, hrun]; rfl, h₁.annotates.keys, hids, fun f hf => ?_⟩
  have hfid : f.id ∈ g.functions.map (·.id) := hids ▸ mem_map.2 ⟨f, hf, rfl⟩
  have hfnode := hnode f (mem_filter.1 hf).1
  obtain ⟨b, hb⟩ : ∃ b, f.function? = some b := by
    have hkind : f.kind = .function := by simpa using (mem_filter.1 hf).2
    cases hbody : f.body with
    | function b => exact ⟨b, by rw [Node.function?, hbody]⟩
    | _ => simp [Node.kind, hbody] at hkind
  obtain ⟨ids, hchildren, hlists⟩ := h₁.lists f.id hfid f b hfnode hb
  refine ⟨b, ids, hb, hchildren, hlists.nodup, hlists.mem_iff, ?_, fun n hn hunder => ?_⟩
  · rw [hlists.walk, collectUnder.eq_def, nil_append]
  · have hplain : n.isFunction = false := by
      by_contra hfunction
      have hn : n ∈ g₁.functions := mem_filter.2 ⟨hn, by simpa [Node.isFunction] using hfunction⟩
      obtain ⟨f₀, hf₀, hf₀id⟩ := mem_map.1 hfid
      obtain ⟨n₀, hn₀, hn₀id⟩ := mem_map.1 (hids ▸ mem_map.2 ⟨n, hn, rfl⟩ : n.id ∈ g.functions.map (·.id))
      exact hfunctions f₀ hf₀ n₀ hn₀ (hf₀id ▸ hn₀id ▸ hunder)
    have hnonempty : f.id ≠ "" := by
      intro hempty
      have hkey : f.id ∈ g.nodes.keys := h₁.annotates.keys ▸ mem_keys_iff.2 (by rw [hfnode]; rfl)
      rw [mem_keys_iff, hempty, hnamed] at hkey
      cases hkey
    rw [parentFunction, hplain, h₁.marks f.id hfid n.id n (hnode n hn) hunder]
    show (if f.id == "" then _ else g₁.node f.id) = _
    rw [if_neg (by simpa using hnonempty), node, hfnode]

/-- Two functions; a loop lies in the first one. -/
def twoFunctions : Graph :=
  ofEdges [numbered "1:0" 0 (.function {}), numbered "1:1" 1 (.loop {}),
      numbered "1:2" 2 (.unit {}), numbered "1:3" 3 (.function {}), numbered "1:4" 4 (.unit {})]
    [("1:0", "1:1", .child), ("1:1", "1:2", .child), ("1:2", "1:3", .call), ("1:3", "1:4", .child)]

/-- The unit of the loop is listed by the first function, which is its own. -/
theorem computeMetadata_lists_nodes_twoFunctions :
    twoFunctions.WellFormed ∧ twoFunctions.nodes.keys.Nodup ∧ twoFunctions.node? "" = none ∧
      twoFunctions.ChildForest ∧
      (∀ f ∈ twoFunctions.functions, ∀ f' ∈ twoFunctions.functions, ¬Under twoFunctions.childIds f.id f'.id) ∧
      ∃ g' f b ids, twoFunctions.computeMetadata = .ok g' ∧ f.id = "1:0" ∧ f.function? = some b ∧
        b.children = some ids ∧ "1:2" ∈ ids ∧ ∀ n ∈ g'.allNodes, n.id = "1:2" → g'.parentFunction n = .ok f := by
  have hg : twoFunctions.WellFormed := .of_entries (by decide) (by decide)
  have hkeys : twoFunctions.nodes.keys.Nodup := by decide
  have hforest : twoFunctions.ChildForest :=
    .of_edges (by decide) (fun id => twoFunctions.nodes.keys.idxOf id) (by decide)
  -- no child edge leads to a function
  have hfunctions : ∀ f ∈ twoFunctions.functions, ∀ f' ∈ twoFunctions.functions,
      ¬Under twoFunctions.childIds f.id f'.id := by
    intro f _ f' hf' hunder
    obtain ⟨c, -, hstep⟩ := Relation.TransGen.tail'_iff.1 hunder
    obtain ⟨e, he, -, htarget⟩ := mem_childIds_iff.1 hstep
    have hnone : ∀ e ∈ twoFunctions.linkedEdges.filter fun e => e.dep.edge == .child,
        e.target ∉ twoFunctions.functions.map (·.id) := by decide
    exact hnone e he (htarget ▸ mem_map.2 ⟨f', hf', rfl⟩)
  obtain ⟨g', hrun, -, hids, hall⟩ := computeMetadata_lists_nodes hg hkeys rfl hforest hfunctions
  obtain ⟨f, hf, hid⟩ : ∃ f ∈ g'.functions, f.id = "1:0" := mem_map.1 (by rw [hids]; decide)
  obtain ⟨b, ids, hb, hchildren, -, hmem, -, hparent⟩ := hall f hf
  have hunder : Under twoFunctions.childIds f.id "1:2" := by
    rw [hid]
    exact .tail (.single (by decide : "1:1" ∈ twoFunctions.childIds "1:0")) (by decide)
  exact ⟨hg, hkeys, rfl, hforest, hfunctions, g', f, b, ids, hrun, hid, hb, hchildren,
    (hmem _).2 hunder, fun n hn hnid => hparent n hn (hnid ▸ hunder)⟩

end Graph

end ParallelPatterns
