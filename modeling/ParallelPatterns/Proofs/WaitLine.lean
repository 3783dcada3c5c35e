import ParallelPatterns.Proofs.Planning
import ParallelPatterns.Proofs.Position
import ParallelPatterns.Proofs.Specificity
import ParallelPatterns.Task.Detection

/-!
# Where barriers wait

A barrier waits on the last of its dependent lines, in the order of its edges, that stand before its
last line as texts. This is the first line that it depends on only if the edges come in such an
order.
-/

namespace ParallelPatterns.Graph

open List

variable {last : Nat} {ps : List (Nat × Nat)}

/-- The positions whose line stands before the given one, both as texts. -/
def early (last : Nat) (ps : List (Nat × Nat)) : List (Nat × Nat) := ps.filter fun p => toString p.2 < toString last

theorem cut_position (file line : Nat) : Text.cut ":" (position file line) =
    (toString file, some (toString line)) := by
  refine Text.cut_append (c := ':') (s := toString file) ?_ (toString line)
  rw [Nat.toString_eq_repr, Nat.toList_repr]
  exact colon_notMem_toDigits file

/-- The loop keeps the last of the early lines. -/
theorem foldlM_waitLine {es : List Edge} (hlines : es.map (·.dep.sinkLine) = ps.map fun p => some (position p.1 p.2))
    (best : Nat × Nat) :
    es.foldlM (fun best e =>
      match e.dep.sinkLine with
      | none => .error .missingProperty
      | some line =>
        match Text.cut ":" line with
        | (_, some number) => .ok (if number < toString last then line else best)
        | (_, none) => .error .absentText) (position best.1 best.2) =
      (.ok (let p := (early last ps).getLast?.getD best; position p.1 p.2) : Result LineId) := by
  induction ps generalizing es best with
  | nil =>
    obtain rfl := map_eq_nil_iff.1 hlines
    rfl
  | cons p ps ih =>
    obtain ⟨e, es, rfl, hline, hlines⟩ := map_eq_cons_iff.1 hlines
    by_cases hearly : toString p.2 < toString last
    · have heq : early last (p :: ps) = p :: early last ps := filter_cons_of_pos (by simpa using hearly)
      rw [foldlM_cons, heq, getLast?_cons, Option.getD_some, ← ih hlines p]
      simp only [hline, cut_position, if_pos hearly, bind, Except.bind]
    · have heq : early last (p :: ps) = early last ps := filter_cons_of_neg (by simpa using hearly)
      rw [foldlM_cons, heq, ← ih hlines best]
      simp only [hline, cut_position, if_neg hearly, bind, Except.bind]

theorem toString_lt_iff {m n : Nat} (h : digitCount m = digitCount n) : toString m < toString n ↔ m < n := by
  rw [String.lt_iff_toList_lt, Nat.toString_eq_repr, Nat.toString_eq_repr, Nat.toList_repr,
    Nat.toList_repr, ← not_le, toDigits_le_iff_of_digitCount_eq h.symm, not_le]

/-- A barrier whose dependent lines are positions waits at the last of them that is early, or at its
end. Where all lines have the same number of digits, it waits at the first of all these lines if and
only if no dependent line before its end is before that one. -/
theorem waitLine_first_iff {g : Graph} {n : Node} {file : Nat} (hfile : n.file = file) (hend : n.endLine = last)
    (hlines : (g.outData n.id).map (·.dep.sinkLine) = ps.map fun p => some (position p.1 p.2)) :
    let p := (early last ps).getLast?.getD (file, last)
    g.waitLine n = .ok (position p.1 p.2) ∧ ((∀ q ∈ ps, digitCount q.2 = digitCount last) →
      ((∀ q ∈ (file, last) :: ps, p.2 ≤ q.2) ↔ ∀ q ∈ ps, q.2 < last → p.2 ≤ q.2)) := by
  refine ⟨?_, fun hdigits => ⟨fun h q hq _ => h q (mem_cons_of_mem _ hq), fun h => ?_⟩⟩
  · rw [waitLine, Node.finish, hfile, hend]
    exact foldlM_waitLine hlines (file, last)
  · have hle : ((early last ps).getLast?.getD (file, last)).2 ≤ last := by
      cases hp : (early last ps).getLast? with
      | none => exact le_rfl
      | some p =>
        obtain ⟨hp, hearly⟩ := mem_filter.1 (mem_of_getLast? hp)
        exact ((toString_lt_iff (hdigits p hp)).1 (of_decide_eq_true hearly)).le
    exact forall_mem_cons.2 ⟨hle, fun q hq => (lt_or_ge q.2 last).elim (h q hq) hle.trans⟩

/-- A unit up to line 9 that depends on the lines 7 and 8. -/
def twoReads : Graph where
  links := [⟨"1:1", "1:2", [(0, { edge := .data, sinkLine := some "1:7" }),
    (1, { edge := .data, sinkLine := some "1:8" })]⟩]

/-- The barrier waits on the later line. -/
theorem waitLine_first_iff_twoReads :
    twoReads.waitLine (numbered "1:1" 1 (.unit {})) = .ok "1:8" ∧ ¬∀ q ∈ [(1, 9), (1, 7), (1, 8)], 8 ≤ q.2 := by
  obtain ⟨hline, hfirst⟩ :=
    @waitLine_first_iff 9 [(1, 7), (1, 8)] twoReads (numbered "1:1" 1 (.unit {})) 1 rfl rfl rfl
  have hearly : early 9 [(1, 7), (1, 8)] = [(1, 7), (1, 8)] := by decide
  rw [hearly] at hline hfirst
  exact ⟨hline, fun h => absurd ((hfirst (by decide)).1 h) (by decide)⟩

end ParallelPatterns.Graph

namespace ParallelPatterns.Planning

open List

variable {p : Plan}

/-- The suggestion of a number is to wait on a line for a node. -/
def WaitsAt (p : Plan) (i : Nat) (n : Node) (line : LineId) : Prop :=
  (p.taskAt i).kind = .taskwait ∧ (p.taskAt i).node = n.id ∧ (p.taskAt i).line = .written line

/-- A new suggestion to wait keeps the graph and the suggestions with lower numbers. -/
theorem ends_newTask_taskwait (p : Plan) (n : Node) (line : LineId) :
    (newTask n .taskwait ["taskwait"] line [] [] []).Ends p fun i q => p.fresh ≤ i ∧ i < q.fresh ∧
      WaitsAt q i n line ∧ ∀ j < p.fresh, q.taskAt j = p.taskAt j := by
  obtain ⟨s, q, hrun, hfresh, hknown, hs⟩ : ∃ s q, (newTask n .taskwait ["taskwait"] line [] [] []).runOn p =
      (.ok (p.fresh + 9), q) ∧ q.fresh = p.fresh + 10 ∧ q.known = p.known.insert (p.fresh + 9) (.task s) ∧
        s.kind = .taskwait ∧ s.node = n.id ∧ s.line = .written line := ⟨_, _, rfl, rfl, rfl, rfl, rfl, rfl⟩
  have hget (j : Nat) : q.known.get? j = if p.fresh + 9 = j then some (.task s) else p.known.get? j := by
    simp [hknown, Table.get?_insert]
  have hnew : q.taskAt (p.fresh + 9) = s := Plan.taskAt_of_get? (by simp [hget])
  refine ⟨_, q, hrun, by omega, by omega, by rwa [WaitsAt, hnew], fun j hj => ?_⟩
  simp only [Plan.taskAt, Table.getD, hget, if_neg (show p.fresh + 9 ≠ j by omega)]

/-- Where each barrier has a line to wait on, each one gets a suggestion to wait on this line, which
is kept under its first line. -/
theorem ends_suggestWaits {lines : Node → LineId}
    (hlines : ∀ n ∈ p.graph.allNodes, n.role = .barrier → p.graph.waitLine n = .ok (lines n))
    (t : SuggestionsByLine) : (suggestWaits t).Ends p fun t' q => ∀ n ∈ p.graph.allNodes,
      n.role = .barrier → ∃ i ∈ t'.getD n.start [], WaitsAt q i n (lines n) := by
  let barriers := p.graph.allNodes.filter fun n => n.role == .barrier
  -- a barrier is still to come, or has its suggestion among those made so far
  let Made (ns : List Node) (t : SuggestionsByLine) (q : Plan) : Prop := (∀ n ∈ ns, n ∈ barriers) ∧
    ∀ n ∈ barriers, n ∈ ns ∨ ∃ i ∈ t.getD n.start [], i < q.fresh ∧ WaitsAt q i n (lines n)
  refine (ends_bind_of_ok (runOn_graph p)).2 ((Ends.foldlM (I := Made) (fun m ns t q hmade => ?_)
    ⟨fun n hn => hn, fun n hn => .inl hn⟩).mono fun t' q hmade n hn hrole => ?_)
  · obtain ⟨hns, hmade⟩ := hmade
    obtain ⟨hm, hrole⟩ := mem_filter.1 (hns m mem_cons_self)
    have hline : (lift (p.graph.waitLine m)).runOn q = (.ok (lines m), q) := by
      rw [hlines m hm (by simpa using hrole)]
      rfl
    refine (ends_bind_of_ok hline).2 ((ends_newTask_taskwait q m (lines m)).bind fun i r hnew => ends_pure ?_)
    obtain ⟨hle, hlt, hwaits, hkept⟩ := hnew
    refine ⟨fun n hn => hns n (mem_cons_of_mem _ hn), fun n hn => ?_⟩
    rw [Table.getD_update]
    rcases hmade n hn with hin | ⟨j, hj, hold, hwaits'⟩
    · rcases mem_cons.1 hin with rfl | hin
      · exact .inr ⟨i, by simp, hlt, hwaits⟩
      · exact .inl hin
    · refine .inr ⟨j, ?_, by omega, by rwa [WaitsAt, hkept j hold]⟩
      split <;> simp_all
  · obtain ⟨i, hi, -, hwaits⟩ := (hmade.2 n (mem_filter.2 ⟨hn, by simpa using hrole⟩)).resolve_left not_mem_nil
    exact ⟨i, hi, hwaits⟩

end ParallelPatterns.Planning
