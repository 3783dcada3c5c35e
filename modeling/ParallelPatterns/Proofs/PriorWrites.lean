import ParallelPatterns.Proofs.DependenceOrder
import ParallelPatterns.Proofs.Reachability
import ParallelPatterns.Proofs.Relatives

/-!
# Writes before a task

Whether a task reads what was written before it is asked of the nodes that come before the task.
They are collected with a stack, and the task itself is one of them. The test does not look at the
variable, and of a dependence it takes the end at which the task stands: it tells whether the task
depends on any write.
-/

namespace ParallelPatterns

open List

namespace Search

variable {α : Type} {same : α → α → Bool} {visited : List α} {x y : α}

theorem isSeen_visit (h : isSeen same visited y) : isSeen same (visit same visited x) y := by
  unfold visit
  split
  · exact h
  · rw [isSeen, any_append, Bool.or_eq_true]
    exact .inl h

def Discipline.stack : Discipline α where
  put todo met := met.reverse ++ todo
  perm _ _ := ((reverse_perm _).append_right _).trans perm_append_comm

end Search

namespace Graph

variable {g : Graph} {task : Node}

/-- The task depends on a write of the variable at a node from which successor edges lead to the
task. -/
def WrittenPrior (g : Graph) (name : Option String) (task : Node) : Prop :=
  ∃ e ∈ g.outDataOf task.id .readAfterWrite, e.dep.var = name ∧
    Relation.TransGen (fun a b => b ∈ (g.outEdgesOf a [.successor]).map (·.target)) e.target task.id

/-- The nodes before a task, collected with a stack. -/
def collectBefore (g : Graph) (task : Node) : Option (Bool × List Node) :=
  Search.Discipline.stack.worklist Node.alike (fun n => g.sources (g.inEdgesOf n.id [.successor]))
    (fun _ => false) [task] []

theorem exists_collectBefore (g : Graph) (task : Node) :
    ∃ found before, g.collectBefore task = some (found, before) ∧ found = false ∧ task.among before := by
  -- the first turn visits the task, and from then on nodes of the graph are open
  let P (todo visited : List Node) : Prop := (∀ n ∈ todo, n ∈ g.allNodes) ∧ task.among visited
  have hput : ∀ n {todo visited}, (∀ m ∈ todo, m ∈ g.allNodes) → ∀ m ∈ Search.Discipline.stack.put todo
      (Search.fresh Node.alike (fun n => g.sources (g.inEdgesOf n.id [.successor])) visited n), m ∈ g.allNodes := by
    intro n todo visited htodo m hm
    rcases mem_append.1 ((Search.Discipline.perm _ _ _).mem_iff.1 hm) with hm | hm
    · exact htodo m hm
    · obtain ⟨e, -, he⟩ := mem_filterMap.1 (mem_filter.1 hm).1
      exact mem_allNodes_of_node? he
  rw [collectBefore, Search.worklist_cons, if_neg (by simp)]
  refine Search.exists_worklist (P := P)
    Node.alike_refl (fun n _ _ h => h.1 n mem_cons_self) (fun _ h => ⟨rfl, h.2⟩)
    (fun _ _ _ _ hany => by simp at hany) (fun n todo visited h _ => ?_) _ _ ?_
  · exact ⟨hput n fun m hm => h.1 m (mem_cons_of_mem n hm), Search.isSeen_visit h.2⟩
  · exact ⟨hput task (by simp), by simp [Search.visit, Search.isSeen, Node.among, Node.alike_refl]⟩

theorem source_of_mem_outDataOf {id : NodeId} {kind : DependenceKind} {e : Edge}
    (he : e ∈ g.outDataOf id kind) : e.source = id :=
  (mem_outData_iff.1 (mem_filter.1 he).1).1

theorem writtenBefore_iff : g.writtenBefore task ↔ ∃ e, e ∈ g.outDataOf task.id .readAfterWrite := by
  rw [writtenBefore, any_eq_true]
  refine exists_congr fun e => and_iff_left_of_imp fun he => ?_
  rw [source_of_mem_outDataOf he, contains_iff_mem, mem_reachingIds_iff]
  exact .refl

/-- The nodes before a task are collected, and the test asks whether one of them is at the task's
end of a dependence on a write. So it tells whether there is such a dependence, which says something
about writes of a variable before the task only if there is none, or if one leads to such a
write. -/
theorem writtenBefore_agrees_iff {g : Graph} {task : Node} (htask : g.node? task.id = some task)
    (name : Option String) : (∃ before, g.collectBefore task = some (false, before) ∧
      g.writtenBefore task = (g.outDataOf task.id .readAfterWrite).any fun e =>
        (g.node? e.source).any fun n => n.among before) ∧
      (g.writtenBefore task = true ↔ ∃ e, e ∈ g.outDataOf task.id .readAfterWrite) ∧
      ((g.writtenBefore task = true ↔ g.WrittenPrior name task) ↔
        ((∃ e, e ∈ g.outDataOf task.id .readAfterWrite) → g.WrittenPrior name task)) := by
  refine ⟨?_, writtenBefore_iff, ?_⟩
  · obtain ⟨_, before, hrun, rfl, hmem⟩ := g.exists_collectBefore task
    refine ⟨before, hrun, ?_⟩
    rw [Bool.eq_iff_iff, writtenBefore_iff, any_eq_true]
    refine exists_congr fun e => (and_iff_left_of_imp fun he => ?_).symm
    rw [source_of_mem_outDataOf he, htask]
    exact hmem
  · rw [writtenBefore_iff]
    refine ⟨fun h => h.1, fun h => ⟨h, ?_⟩⟩
    rintro ⟨e, he, -⟩
    exact ⟨e, he⟩

/-- The task depends on writes of its own only. -/
theorem writtenBefore_agrees_rereadGraph :
    ∃ before, rereadGraph.collectBefore rereadTask = some (false, before) ∧
      rereadGraph.writtenBefore rereadTask = (rereadGraph.outDataOf "1:2" .readAfterWrite).any fun e =>
        (rereadGraph.node? e.source).any fun n => n.among before := by
  have htask : rereadGraph.node? rereadTask.id = some rereadTask := rfl
  exact (writtenBefore_agrees_iff htask (some "x")).1

/-- No successor edge leads to the task, which still counts as reading what was written before
it. -/
theorem not_writtenPrior_rereadGraph :
    rereadGraph.writtenBefore rereadTask = true ∧ ¬ rereadGraph.WrittenPrior (some "x") rereadTask := by
  refine ⟨rfl, ?_⟩
  rintro ⟨e, -, -, hleads⟩
  obtain ⟨id, -, hid⟩ := Relation.TransGen.tail'_iff.1 hleads
  exact absurd (mem_sources_iff.2 hid) not_mem_nil

end Graph

end ParallelPatterns
