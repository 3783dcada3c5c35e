import Mathlib.Data.List.Perm.Basic
import ParallelPatterns.Proofs.Planning
import ParallelPatterns.Task.Groups

/-!
# The order of suggestions

Suggestions are written file by file, and those of a file from its last line to its first one. The
files come in the order in which they first occur among the suggestions, so that their numbers
ascend only if they do so there.
-/

namespace ParallelPatterns

open List

/-- The file of a suggestion and the number of its first line. -/
def Suggestion.site? (s : Suggestion) : Option (String × Int) :=
  match s.place? with
  | .ok (some (file, line)) => (Text.integer? line).map fun n => (file, n)
  | _ => none

theorem Suggestion.exists_place? {s : Suggestion} (h : s.site?.isSome) :
    ∃ line, s.place? = .ok (some ((s.site?.getD default).1, line)) ∧
      number line = .ok (s.site?.getD default).2 := by
  rw [site?] at h ⊢
  split at h
  · next file line hplace =>
    obtain ⟨n, hn⟩ := Option.isSome_iff_exists.1 (Option.isSome_map.symm.trans h)
    exact ⟨line, by simp [hplace, hn], by simp [number, hn]⟩
  · cases h

theorem Suggestion.place?_of_omittable {s : Suggestion} (h : s.omittable?.isNone = false) :
    s.place? = .ok none := by
  cases s with
  | omittable o => rfl
  | task t => cases h
  | region r => cases h

namespace Plan

variable (p : Plan)

def fileAt (i : Nat) : String := ((p.known.getD i default).site?.getD default).1

def lineAt (i : Nat) : Int := ((p.known.getD i default).site?.getD default).2

/-- The current suggestions about tasks and parallel regions. -/
def placed : List Nat := p.current.filter fun i => (p.known.getD i default).omittable?.isNone

/-- The files of the suggestions, each where it first occurs. -/
def files : List String := distinct (p.placed.map p.fileAt)

/-- The table lists the suggestions `is` under their files, with their lines. -/
structure Filed (is : List Nat) (t : Table String (List (Nat × String))) : Prop where
  keys : t.keys = distinct (is.map p.fileAt)
  perm : t.values.flatten.map (·.1) ~ is
  filled : ∀ e ∈ t.entries, e.2 ≠ []
  sites : ∀ e ∈ t.entries, ∀ x ∈ e.2, p.fileAt x.1 = e.1 ∧ number x.2 = .ok (p.lineAt x.1)

end Plan

theorem Table.flatten_insertEntry {κ ν : Type} [BEq κ] (k : κ) (x : ν) (es : List (κ × List ν)) :
    ((insertEntry k (((es.find? fun e => e.1 == k).map (·.2)).getD [] ++ [x]) es).map (·.2)).flatten ~
      (es.map (·.2)).flatten ++ [x] := by
  induction es with
  | nil => simp [insertEntry]
  | cons e es ih =>
    by_cases h : e.1 == k
    · simpa [insertEntry, h] using (perm_append_singleton x _).symm.append_left e.2
    · simpa [insertEntry, h] using ih.append_left e.2

theorem Plan.Filed.update {p : Plan} {is : List Nat} {t : Table String (List (Nat × String))}
    (h : p.Filed is t) {i : Nat} {line : String} (hline : number line = .ok (p.lineAt i)) :
    p.Filed (is ++ [i]) (t.update (p.fileAt i) [] (· ++ [(i, line)])) := by
  have hkeys : (t.update (p.fileAt i) [] (· ++ [(i, line)])).keys = distinct ((is ++ [i]).map p.fileAt) := by
    rw [Table.update, Table.keys_insert, h.keys, distinct, distinct, map_append, addAll, addAll, foldl_append]
    rfl
  have hentries : ∀ e ∈ (t.update (p.fileAt i) [] (· ++ [(i, line)])).entries,
      e = (p.fileAt i, t.getD (p.fileAt i) [] ++ [(i, line)]) ∨ e ∈ t.entries := by
    rintro ⟨f, xs⟩ he
    have hget := Table.get?_of_mem (hkeys ▸ nodup_distinct _) he
    rw [Table.get?_update] at hget
    split at hget
    · next heq =>
      obtain rfl := LawfulBEq.eq_of_beq heq
      exact .inl (by rw [← Option.some.inj hget])
    · exact .inr (Table.mem_of_get? hget)
  refine ⟨hkeys, ?_, ?_, ?_⟩
  · have hperm := (Table.flatten_insertEntry (p.fileAt i) (i, line) t.entries).map (·.1)
    rw [map_append] at hperm
    exact hperm.trans (h.perm.append_right _)
  · intro e he
    rcases hentries e he with rfl | he
    · simp
    · exact h.filled e he
  · intro e he x hx
    rcases hentries e he with rfl | he
    · rcases mem_append.1 hx with hx | hx
      · cases hget : t.get? (p.fileAt i) with
        | none => simp [Table.getD, hget] at hx
        | some xs => exact h.sites _ (Table.mem_of_get? hget) x (by simpa [Table.getD, hget] using hx)
      · obtain rfl := mem_singleton.1 hx
        exact ⟨rfl, hline⟩
    · exact h.sites e he x hx

namespace Planning

variable {p : Plan}

/-- The suggestions of a file, from the last line to the first one. -/
def descending (p : Plan) (places : List (Nat × String)) : List Nat :=
  ((places.map fun x => (x.1, p.lineAt x.1)).mergeSort fun a b => b.2 ≤ a.2).map (·.1)

theorem descending_perm (p : Plan) (places : List (Nat × String)) : descending p places ~ places.map (·.1) := by
  refine ((mergeSort_perm _ _).map _).trans ?_
  rw [map_map]
  rfl

theorem descending_pairwise (p : Plan) (places : List (Nat × String)) :
    (descending p places).Pairwise fun i j => p.lineAt j ≤ p.lineAt i := by
  have hsorted := @pairwise_mergeSort _ (fun a b : Nat × Int => b.2 ≤ a.2)
    (fun a b c hab hbc => by simp at *; omega) (fun a b => by simp; omega) (places.map fun x => (x.1, p.lineAt x.1))
  refine pairwise_map.2 (hsorted.imp_of_mem fun ha hb hle => ?_)
  obtain ⟨x, -, rfl⟩ := mem_map.1 (mem_mergeSort.1 ha)
  obtain ⟨y, -, rfl⟩ := mem_map.1 (mem_mergeSort.1 hb)
  simpa using hle

theorem ends_sortByLine (hplaced : ∀ i ∈ p.placed, (p.known.getD i default).site?.isSome) :
    sortByLine.Ends p fun _ q =>
      ∃ t, p.Filed p.placed t ∧ q = { p with current := t.values.flatMap (descending p) } := by
  rw [sortByLine, ends_bind_of_ok (runOn_currentSuggestions p), foldlM_map]
  refine Ends.bind (P := fun t q => p = q ∧ p.Filed p.placed t) ?_ ?_
  · refine (Ends.foldlM (I := fun rest t q => p = q ∧ ∃ before, before ++ rest = p.current ∧
      p.Filed (before.filter fun i => (p.known.getD i default).omittable?.isNone) t) ?_ ?_).mono ?_
    · rintro i rest t _ ⟨rfl, before, hsplit, ht⟩
      have hnext : before ++ [i] ++ rest = p.current := by simpa using hsplit
      cases hkind : (p.known.getD i default).omittable?.isNone with
      | true =>
        obtain ⟨line, hplace, hline⟩ := Suggestion.exists_place?
          (hplaced i (mem_filter.2 ⟨by simp [← hsplit], hkind⟩))
        rw [ends_bind_of_ok (by rw [hplace]; rfl)]
        refine ends_pure ⟨rfl, _, hnext, ?_⟩
        rw [filter_append, filter_singleton, hkind]
        exact ht.update hline
      | false =>
        rw [ends_bind_of_ok (by rw [Suggestion.place?_of_omittable hkind]; rfl)]
        refine ends_pure ⟨rfl, _, hnext, ?_⟩
        rwa [filter_append, filter_singleton, hkind, cond_false, append_nil]
    · exact ⟨rfl, [], rfl, rfl, .nil, nofun, nofun⟩
    · rintro t _ ⟨rfl, before, hsplit, ht⟩
      obtain rfl : before = p.current := by simpa using hsplit
      exact ⟨rfl, ht⟩
  · rintro t _ ⟨rfl, ht⟩
    refine (ends_bind_of_ok (runOn_mapM_of_reads fun xs hxs => ?_)).2 ⟨(), _, rfl, t, ht, rfl⟩
    obtain ⟨e, he, rfl⟩ := mem_map.1 hxs
    refine (runOn_bind_of_ok (runOn_mapM_of_reads fun x hx => ?_)).trans rfl
    show (lift (number x.2) >>= _).runOn p = _
    rw [(ht.sites e he x hx).2]
    rfl

/-- The order of the suggestions is right within each file. It is right among the files, whatever
their ranks are, exactly if they first occur in that order. -/
theorem sortByLine_ascending_iff (hplaced : ∀ i ∈ p.placed, (p.known.getD i default).site?.isSome) :
    ∃ ns, sortByLine.runOn p = (.ok (), { p with current := ns }) ∧ ns ~ p.placed ∧
      (ns.Pairwise fun i j => p.fileAt i = p.fileAt j → p.lineAt j ≤ p.lineAt i) ∧
      ∀ rank : String → Int, (ns.Pairwise fun i j => rank (p.fileAt i) ≤ rank (p.fileAt j)) ↔
        p.files.Pairwise fun f f' => rank f ≤ rank f' := by
  obtain ⟨_, _, hrun, t, ht, rfl⟩ := ends_sortByLine hplaced
  have hfile : ∀ e ∈ t.entries, ∀ i ∈ descending p e.2, p.fileAt i = e.1 := by
    intro e he i hi
    obtain ⟨x, hx, rfl⟩ := mem_map.1 ((descending_perm p e.2).mem_iff.1 hi)
    exact (ht.sites e he x hx).1
  have hfilled : ∀ e ∈ t.entries, ∃ i, i ∈ descending p e.2 := by
    intro e he
    obtain ⟨x, hx⟩ := exists_mem_of_ne_nil _ (ht.filled e he)
    exact ⟨x.1, (descending_perm p e.2).mem_iff.2 (mem_map_of_mem hx)⟩
  have hkeys : t.entries.Pairwise fun e e' => e.1 ≠ e'.1 :=
    pairwise_map.1 (ht.keys ▸ nodup_distinct _ : t.keys.Nodup)
  refine ⟨_, hrun, ?_, ?_, fun rank => ?_⟩
  · refine (Perm.flatMap_left _ fun xs _ => descending_perm p xs).trans ?_
    simpa [flatMap] using ht.perm
  · rw [pairwise_flatMap, Table.values, forall_mem_map, pairwise_map]
    refine ⟨fun e _ => (descending_pairwise p e.2).imp (S := fun i j => _ → _) fun hle _ => hle,
      hkeys.imp_of_mem ?_⟩
    intro e e' he he' hne i hi j hj heq
    exact absurd ((hfile e he i hi).symm.trans (heq.trans (hfile e' he' j hj))) hne
  · rw [pairwise_flatMap, Table.values, forall_mem_map, pairwise_map, Plan.files, ← ht.keys,
      Table.keys, pairwise_map]
    have hgroup : ∀ e ∈ t.entries, (descending p e.2).Pairwise fun i j => rank (p.fileAt i) ≤
      rank (p.fileAt j) := by
      refine fun e he => (descending_pairwise p e.2).imp_of_mem fun {i j} hi hj _ => Int.le_of_eq ?_
      rw [hfile e he i hi, hfile e he j hj]
    refine (and_iff_right hgroup).trans (Pairwise.iff_of_mem fun {e e'} he he' => ⟨fun h => ?_, ?_⟩)
    · obtain ⟨i, hi⟩ := hfilled e he
      obtain ⟨j, hj⟩ := hfilled e' he'
      simpa only [hfile e he i hi, hfile e' he' j hj] using h i hi j hj
    · intro h i hi j hj
      rwa [hfile e he i hi, hfile e' he' j hj]

theorem sortByLine_ascending_iff_laterFileFirst :
    let plan : Plan := {
      graph := {}, current := [0, 1, 2]
      known := ⟨[(0, .task { (default : TaskSuggestion) with first := "2:7", regionStart := "7" }),
        (1, .omittable default), (2, .region { (default : RegionSuggestion) with regionStart := some "1:5" })]⟩ }
    let rank (file : String) : Int := (Text.integer? file).getD 0
    plan.files = ["2", "1"] ∧ ∃ ns, sortByLine.runOn plan = (.ok (), { plan with current := ns }) ∧
      ¬ ns.Pairwise fun i j => rank (plan.fileAt i) ≤ rank (plan.fileAt j) := by
  intro plan rank
  obtain ⟨ns, hrun, -, -, hranks⟩ := sortByLine_ascending_iff (p := plan) (by decide)
  exact ⟨by decide, ns, hrun, fun h => absurd ((hranks rank).1 h) (by decide)⟩

end Planning

end ParallelPatterns
