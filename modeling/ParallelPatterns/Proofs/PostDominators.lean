import Mathlib.Data.List.Chain
import ParallelPatterns.Proofs.Reachability

/-!
# Post-dominators

Every way from a node to an exit passes through the post-dominators of the node with respect to this
exit. A function with several exits keeps one immediate post-dominator for each node, with respect
to any of the exits that the node reaches. Going on from post-dominator to post-dominator can turn
from one exit to another, and the ways to the other exits can miss what is found.
-/

namespace ParallelPatterns

open List

theorem Table.get?_foldlM_insert {κ ν ω : Type} [BEq κ] [LawfulBEq κ] {f : κ → Result ω}
    {v : κ → ω → ν} {t t' : Table κ ν} {ks : List κ}
    (h : ks.foldlM (fun t k => do return t.insert k (v k (← f k))) t = .ok t') (k : κ) :
    (∃ w, f k = .ok w ∧ t'.get? k = some (v k w)) ∨ t'.get? k = t.get? k := by
  induction ks generalizing t with
  | nil =>
    cases h
    exact .inr rfl
  | cons j ks ih =>
    obtain ⟨t₁, hfirst, hrest⟩ := bind_eq_ok_iff.1 h
    obtain ⟨w, hw, hfirst⟩ := bind_eq_ok_iff.1 hfirst
    cases hfirst
    rcases ih hrest with hset | hget
    · exact .inl hset
    · by_cases hj : j = k
      · subst hj
        exact .inl ⟨w, hw, by simpa using hget⟩
      · exact .inr (by simpa [hj] using hget)

namespace Table

variable {κ ν : Type} [BEq κ] [LawfulBEq κ] {es : List (κ × ν)} {k : κ} {v : ν}

theorem mem_of_get?_ofList (h : (ofList es).get? k = some v) : (k, v) ∈ es := by
  refine foldlRecOn (motive := fun t : Table κ ν => t.get? k = some v → (k, v) ∈ es) es _ (fun h => ?_) ?_ h
  · cases h
  · intro t ih e he h
    rw [get?_insert] at h
    split at h
    next hk =>
      cases h
      exact LawfulBEq.eq_of_beq hk ▸ he
    · exact ih h

theorem mem_keys_ofList : k ∈ (ofList es).keys ↔ k ∈ es.map (·.1) := by
  have hfold := foldl_iff (M := fun t : Table κ ν => k ∈ t.keys) (N := fun e : κ × ν => k = e.1) (b := empty)
    fun t (e : κ × ν) (_ : e ∈ es) => mem_keys_insert (v := e.2)
  refine hfold.trans ?_
  simp [empty, keys]

end Table

namespace Graph

variable {g : Graph} {n d p e : NodeId} {way exits ids : List NodeId}

/-! ## Ways to an exit -/

/-- Successor edges join a node to an exit, by way of the nodes of the list. -/
structure WayTo (g : Graph) (e n : NodeId) (way : List NodeId) : Prop where
  chain : (n :: way).IsChain g.Next
  last : (n :: way).getLast? = some e

/-- Every way from the first node to the last one passes through the other one. -/
def PassesThrough (g : Graph) (n p e : NodeId) : Prop := ∀ way, g.WayTo e n way → p ∈ n :: way

theorem Follows.exists_way (h : g.Follows n e) : ∃ way, g.WayTo e n way := by
  obtain ⟨way, hchain, hlast⟩ := exists_isChain_cons_of_relationReflTransGen h
  exact ⟨way, hchain, by rw [getLast?_eq_some_getLast (cons_ne_nil n way), hlast]⟩

theorem WayTo.follows (h : g.WayTo e n way) : g.Follows n e := by
  have hlast := h.last
  rw [getLast?_eq_some_getLast (cons_ne_nil n way), Option.some.injEq] at hlast
  exact relationReflTransGen_of_exists_isChain_cons way h.chain hlast

theorem wayTo_cons_iff {m : NodeId} : g.WayTo e n (m :: way) ↔ g.Next n m ∧ g.WayTo e m way := by
  constructor
  · intro h
    obtain ⟨hstep, hchain⟩ := isChain_cons_cons.1 h.chain
    exact ⟨hstep, hchain, getLast?_cons_cons.symm.trans h.last⟩
  · rintro ⟨hstep, h⟩
    exact ⟨isChain_cons_cons.2 ⟨hstep, h.chain⟩, getLast?_cons_cons.trans h.last⟩

theorem WayTo.exists_rest (h : g.WayTo e n way) (hd : d ∈ way) :
    ∃ rest, g.WayTo e d rest ∧ d :: rest ⊆ way ∧ g.Follows n d := by
  induction way generalizing n with
  | nil => cases hd
  | cons m way ih =>
    obtain ⟨hstep, hway⟩ := wayTo_cons_iff.1 h
    rcases mem_cons.1 hd with rfl | hd
    · exact ⟨way, hway, Subset.refl _, .single hstep⟩
    · obtain ⟨rest, hrest, hsubset, hfollows⟩ := ih hway hd
      exact ⟨rest, hrest, subset_cons_of_subset m hsubset, .head hstep hfollows⟩

theorem PassesThrough.trans (h : g.PassesThrough n d e) (h' : g.PassesThrough d p e) : g.PassesThrough n p e := by
  intro way hway
  rcases mem_cons.1 (h way hway) with rfl | hd
  · exact h' way hway
  · obtain ⟨rest, hrest, hsubset, -⟩ := hway.exists_rest hd
    exact mem_cons_of_mem n (hsubset (h' rest hrest))

theorem PassesThrough.follows (h : g.PassesThrough n d e) (hreach : g.Follows n e) :
    g.Follows n d ∧ g.Follows d e := by
  obtain ⟨way, hway⟩ := hreach.exists_way
  rcases mem_cons.1 (h way hway) with rfl | hd
  · exact ⟨.refl, hreach⟩
  · obtain ⟨rest, hrest, -, hfollows⟩ := hway.exists_rest hd
    exact ⟨hfollows, hrest.follows⟩

/-! ## The post-dominators with respect to an exit -/

theorem mem_sourcesWithout_iff {a b : NodeId} : a ∈ g.sourcesWithout d b ↔ g.Next a b ∧ a ≠ d ∧ b ≠ d := by
  unfold sourcesWithout
  by_cases hb : b = d
  · simp [hb]
  · rw [if_neg (by simpa using hb), mem_filter, mem_sources_iff, Next]
    simp [hb]

theorem leads_sourcesWithout (h : g.WayTo e n way) (havoid : d ∉ n :: way) :
    Search.Leads (g.sourcesWithout d) e n := by
  induction way generalizing n with
  | nil =>
    obtain rfl : n = e := by simpa using h.last
    exact .refl
  | cons m way ih =>
    obtain ⟨hstep, hway⟩ := wayTo_cons_iff.1 h
    obtain ⟨hn, havoid⟩ := not_or.1 (mt mem_cons.2 havoid)
    have hm : m ≠ d := fun hm => havoid (hm ▸ mem_cons_self)
    exact .tail (ih hway havoid) (mem_sourcesWithout_iff.2 ⟨hstep, Ne.symm hn, hm⟩)

theorem mem_reachingExitWithout_iff :
    n ∈ g.reachingExitWithout d e ↔ e ≠ d ∧ Search.Leads (g.sourcesWithout d) e n := by
  unfold reachingExitWithout
  by_cases he : e = d
  · simp [he]
  · have hturns : g.links.length + 1 = (e :: g.links.map (·.source)).length := by simp
    have hspace : ∀ x ∈ e :: g.links.map (·.source), g.sourcesWithout d x ⊆ e :: g.links.map (·.source) := by
      intro x _ s hs
      exact g.sources_subset [.successor] e x (mem_sources_iff.2 (mem_sourcesWithout_iff.1 hs).1)
    rw [if_neg (by simpa using he), hturns, Search.mem_reached_iff hspace mem_cons_self]
    exact (and_iff_right he).symm

theorem passesThrough_of_notMem (h : n ∉ g.reachingExitWithout d e) : g.PassesThrough n d e := by
  intro way hway
  by_contra havoid
  refine h (mem_reachingExitWithout_iff.2 ⟨?_, leads_sourcesWithout hway havoid⟩)
  rintro rfl
  exact havoid (mem_of_getLast? hway.last)

theorem mem_strictPostDominators {ds : List NodeId} (h : (g.strictPostDominators e).get? n = some ds) (d : NodeId) :
    d ∈ ds ↔ d ≠ n ∧ g.Follows d e ∧ n ∉ g.reachingExitWithout d e := by
  rw [strictPostDominators, Table.get?_map_keys, Option.ite_none_right_eq_some] at h
  obtain ⟨-, h⟩ := h
  cases h
  simp only [filter_map, map_map, mem_map, mem_filter, Function.comp_apply, Bool.and_eq_true, Bool.not_eq_true',
    beq_eq_false_iff_ne, contains_eq_mem, decide_eq_false_iff_not, exists_eq_right, mem_reachingIds_iff]
  tauto

theorem foldl_choice (depth : NodeId → Nat) (n : NodeId) (ds : List NodeId) :
    let choice := ds.foldl (fun best d => if best == n || depth best < depth d then d else best) n
    choice ∈ ds ∨ ds = [] ∧ choice = n := by
  intro choice
  cases ds with
  | nil => exact .inr ⟨rfl, rfl⟩
  | cons d ds =>
    refine .inl (foldlRecOn ds _ ?_ fun best hbest d' hd' => ?_)
    · simp
    · split
      · exact mem_cons_of_mem d hd'
      · exact hbest

theorem keys_immediatePostDominators (g : Graph) (e : NodeId) :
    (g.immediatePostDominators e).keys = g.reachingIds [.successor] e := by
  rw [immediatePostDominators, Table.keys_map, strictPostDominators, Table.keys, map_map]
  exact map_id _

theorem isSome_get?_immediatePostDominators : ((g.immediatePostDominators e).get? n).isSome ↔ g.Follows n e := by
  rw [← Table.mem_keys_iff, keys_immediatePostDominators, mem_reachingIds_iff]
  rfl

theorem passesThrough_of_get? (h : (g.immediatePostDominators e).get? n = some d) :
    g.PassesThrough n d e ∧ (d = n → n = e) := by
  rw [immediatePostDominators, Table.get?_map, Option.map_eq_some_iff] at h
  obtain ⟨ds, hds, rfl⟩ := h
  rcases foldl_choice _ n ds with hmem | ⟨hnil, hchoice⟩
  · obtain ⟨hne, -, hnot⟩ := (mem_strictPostDominators hds _).1 hmem
    exact ⟨passesThrough_of_notMem hnot, fun hself => absurd hself hne⟩
  · rw [hchoice]
    refine ⟨fun way _ => mem_cons_self, fun _ => ?_⟩
    -- the exit is a strict post-dominator of every other node
    by_contra hne
    have hexit : e ∈ ds :=
      (mem_strictPostDominators hds e).2 ⟨Ne.symm hne, .refl, fun h => (mem_reachingExitWithout_iff.1 h).1 rfl⟩
    rw [hnil] at hexit
    cases hexit

/-! ## Several exits -/

/-- Every way from the first node to one of the exits, which it reaches, passes through the other
node. -/
def PassesFor (g : Graph) (exits : List NodeId) (n d : NodeId) : Prop :=
  ∃ e ∈ exits, g.Follows n e ∧ g.PassesThrough n d e

variable {order : SetOrder (NodeId × NodeId)}

theorem mem_pairs_iff : (n, d) ∈ order.list (distinct (exits.flatMap
    fun e => (g.immediatePostDominators e).entries)) ↔
    ∃ e ∈ exits, (g.immediatePostDominators e).get? n = some d := by
  simp only [(order.perm _).mem_iff, mem_distinct, mem_flatMap,
    Table.get?_eq_some_iff (keys_immediatePostDominators g _ ▸ g.nodup_reachingIds [.successor] _)]

/-- A node takes its entry from any exit that it reaches. -/
theorem exists_of_get?_mergedPostDominators (h : (g.mergedPostDominators order exits).get? n = some d) :
    ∃ e ∈ exits, (g.immediatePostDominators e).get? n = some d :=
  mem_pairs_iff.1 (Table.mem_of_get?_ofList h)

theorem exists_get?_mergedPostDominators (order : SetOrder (NodeId × NodeId)) (he : e ∈ exits)
    (hreach : g.Follows n e) : ∃ d, (g.mergedPostDominators order exits).get? n = some d := by
  obtain ⟨d, hd⟩ := Option.isSome_iff_exists.1 (isSome_get?_immediatePostDominators.2 hreach)
  rw [← Option.isSome_iff_exists, ← Table.mem_keys_iff, mergedPostDominators, Table.mem_keys_ofList]
  exact mem_map.2 ⟨(n, d), mem_pairs_iff.2 ⟨e, he, hd⟩, rfl⟩

theorem get?_childPostDominators (g : Graph) (ids : List NodeId) (n : NodeId) :
    (g.childPostDominators order ids).get? n =
      ((g.mergedPostDominators order (g.exitUnits ids)).get? n).or (if n ∈ ids then some n else none) :=
  Table.get?_foldl_insertNew ids _ n

theorem passesFor_of_get? (h : (g.childPostDominators order ids).get? n = some d) (hne : d ≠ n) :
    g.PassesFor (g.exitUnits ids) n d := by
  rw [get?_childPostDominators, Option.or_eq_some_iff] at h
  rcases h with h | ⟨-, h⟩
  · obtain ⟨e, he, hd⟩ := exists_of_get?_mergedPostDominators h
    exact ⟨e, he, isSome_get?_immediatePostDominators.1 (by rw [hd]; rfl), (passesThrough_of_get? hd).1⟩
  · rw [Option.ite_none_right_eq_some, Option.some.injEq] at h
    exact absurd h.2.symm hne

/-- Where a node reaches one exit only, the nodes behind it lead to the same exit. -/
theorem passesThrough_of_transGen (h : Relation.TransGen (g.PassesFor exits) n p)
    (hone : ∀ e' ∈ exits, g.Follows n e' → e' = e) : g.PassesThrough n p e ∧ g.Follows n p := by
  induction h with
  | single h =>
    obtain ⟨e', he', hreach, hpasses⟩ := h
    obtain rfl := hone e' he' hreach
    exact ⟨hpasses, (hpasses.follows hreach).1⟩
  | tail _ h ih =>
    obtain ⟨e', he', hreach, hpasses⟩ := h
    obtain rfl := hone e' he' (ih.2.trans hreach)
    exact ⟨ih.1.trans hpasses, ih.2.trans (hpasses.follows hreach).1⟩

theorem eq_of_follows_exit (he : e ∈ g.exitUnits ids) (h : g.Follows e d) : e = d := by
  have hout : (g.outEdgesOf e [.successor]).isEmpty := by
    have htest := (mem_filter.1 (mem_distinct.1 he)).2
    exact (Bool.and_eq_true_iff.1 htest).1
  rcases Relation.ReflTransGen.cases_head h with h | ⟨m, hm, -⟩
  · exact h
  · replace hm : g.Next e m := hm
    rw [Next, isEmpty_iff.1 hout] at hm
    cases hm

theorem getD_ne_of_follows_exit (he : e ∈ g.exitUnits ids) (hne : e ≠ n) (hreach : g.Follows n e) :
    (g.childPostDominators order ids).getD n n ≠ n := by
  obtain ⟨d, hd⟩ := exists_get?_mergedPostDominators order he hreach
  obtain ⟨last, hlast, hget⟩ := exists_of_get?_mergedPostDominators hd
  rw [Table.getD, get?_childPostDominators, hd, Option.some_or]
  intro hself
  obtain rfl := (passesThrough_of_get? hget).2 hself
  exact hne (eq_of_follows_exit hlast hreach).symm

/-! ## Outside of the parent -/

section

variable {dominators : Table NodeId NodeId} {parent : Option NodeId} {q next : NodeId} {fuel : Nat}
  {visited : List NodeId}

theorem outsideParentGo_eq_some (h : outsideParentGo g dominators parent (fuel + 1) d visited = .ok (some p)) :
    p = d ∨ ∃ next, dominators.get? d = some next ∧ next ≠ d ∧
      outsideParentGo g dominators parent fuel next (visited ++ [d]) = .ok (some p) := by
  obtain ⟨-, -, h⟩ := bind_eq_ok_iff.1 h
  obtain ⟨o, -, h⟩ := bind_eq_ok_iff.1 h
  split at h
  · cases h
    exact .inl rfl
  · cases o with
    | none => cases h
    | some q =>
      obtain ⟨u, -, h⟩ := bind_eq_ok_iff.1 h
      split at h
      · cases h
        exact .inl rfl
      · split at h
        · cases h
        · cases hnext : dominators.get? d with
          | none => simp [hnext] at h
          | some next =>
            simp only [hnext] at h
            split at h
            · cases h
              exact .inl rfl
            case isFalse hne => exact .inr ⟨next, rfl, by simpa using hne, h⟩

theorem transGen_of_outsideParentGo (hd : Relation.TransGen (g.PassesFor (g.exitUnits ids)) n d)
    (h : outsideParentGo g (g.childPostDominators order ids) parent fuel d visited = .ok (some p)) :
    Relation.TransGen (g.PassesFor (g.exitUnits ids)) n p := by
  induction fuel generalizing d visited with
  | zero => cases h
  | succ fuel ih =>
    rcases outsideParentGo_eq_some h with rfl | ⟨next, hnext, hne, hrest⟩
    · exact hd
    · exact ih (hd.tail (passesFor_of_get? hnext hne)) hrest

theorem outsideParentGo_of_function {v : Node} {o : Option NodeId} (hq : g.node q = .ok v)
    (hfunction : v.isFunction)
    (h : outsideParentGo g dominators (some q) (fuel + 1) d visited = .ok o) : o = some d := by
  obtain ⟨-, -, h⟩ := bind_eq_ok_iff.1 h
  obtain ⟨o', -, h⟩ := bind_eq_ok_iff.1 h
  split at h
  · cases h
    rfl
  case isFalse hsame =>
    obtain rfl : o' = some q := by simpa using hsame
    simp only [hq, hfunction, bind, Except.bind] at h
    cases h
    rfl

end

theorem transGen_of_outsideParent (h : g.outsideParent (g.childPostDominators order ids) n = .ok (some p))
    (hne : p ≠ n) : Relation.TransGen (g.PassesFor (g.exitUnits ids)) n p := by
  obtain ⟨u, -, h⟩ := bind_eq_ok_iff.1 h
  split at h
  · cases h
  · obtain ⟨parent, -, h⟩ := bind_eq_ok_iff.1 h
    by_cases hself : (g.childPostDominators order ids).getD n n = n
    · rw [hself] at h
      rcases outsideParentGo_eq_some h with rfl | ⟨next, hnext, hother, -⟩
      · exact absurd rfl hne
      · rw [Table.getD, hnext] at hself
        exact absurd hself hother
    · cases hget : (g.childPostDominators order ids).get? n with
      | none => simp [Table.getD, hget] at hself
      | some d =>
        rw [Table.getD, hget] at h hself
        exact transGen_of_outsideParentGo (.single (passesFor_of_get? hget hself)) h

/-- The node is a unit that stands directly below a function. -/
def DirectUnit (g : Graph) (n : NodeId) : Prop :=
  ∃ u q v, g.node? n = some u ∧ u.isUnit ∧ g.parentId n = .ok (some q) ∧ g.node? q = some v ∧ v.isFunction

theorem DirectUnit.outsideParent_eq {dominators : Table NodeId NodeId} {o : Option NodeId} (hn : g.DirectUnit n)
    (h : g.outsideParent dominators n = .ok o) : o = some (dominators.getD n n) := by
  obtain ⟨u, q, v, hu, hunit, hparent, hv, hfunction⟩ := hn
  simp only [outsideParent, node_eq_ok_iff.2 hu, hunit, hparent, bind, Except.bind] at h
  exact outsideParentGo_of_function (node_eq_ok_iff.2 hv) hfunction h

/-! ## What a function knows -/

variable {f : NodeId} {b : FunctionBody} {t : Table NodeId NodeId} {g' : Graph}

theorem exists_outsideParent (hchildren : b.children = some ids) (hnew : b.postDominators = none)
    (hrun : g.postDominators f b order = .ok (t, g')) (hp : t.get? n = some p) :
    ∃ o, g.outsideParent (g.childPostDominators order ids) n = .ok o ∧ p = o.getD n := by
  simp only [postDominators, hnew, hchildren] at hrun
  obtain ⟨t', ht, hrun⟩ := bind_eq_ok_iff.1 hrun
  cases hrun
  obtain ⟨o, ho, hget⟩ := (Table.get?_foldlM_insert ht n).resolve_right fun hget => by
    rw [hget] at hp
    cases hp
  exact ⟨o, ho, Option.some.inj (hp.symm.trans hget)⟩

/-- A unit directly below a function keeps its immediate post-dominator. -/
theorem getD_of_directUnit (hchildren : b.children = some ids) (hnew : b.postDominators = none)
    (hrun : g.postDominators f b order = .ok (t, g')) (hp : t.get? n = some p)
    (hn : g.DirectUnit n) : p = (g.childPostDominators order ids).getD n n := by
  obtain ⟨o, ho, rfl⟩ := exists_outsideParent hchildren hnew hrun hp
  rw [hn.outsideParent_eq ho]
  rfl

/-- If a function has another node for the post-dominator of a node, a row of steps leads to it,
each of them to a node that all ways to one of the exits pass; a unit directly below the function
takes one step. So all ways to all exits pass through it if the node reaches one exit only. Of the
units directly below the function, those that reach another node that is an exit have another node
for it. -/
theorem postDominators_pass (hchildren : b.children = some ids) (hnew : b.postDominators = none)
    (hrun : g.postDominators f b order = .ok (t, g')) (hp : t.get? n = some p) :
    (p ≠ n → Relation.TransGen (g.PassesFor (g.exitUnits ids)) n p ∧
      ((∀ e ∈ g.exitUnits ids, ∀ e' ∈ g.exitUnits ids, g.Follows n e → g.Follows n e' → e' = e) →
        ∀ e ∈ g.exitUnits ids, g.PassesThrough n p e)) ∧
    (g.DirectUnit n → (p ≠ n → g.PassesFor (g.exitUnits ids) n p) ∧
      (p ≠ n ↔ ∃ e ∈ g.exitUnits ids, e ≠ n ∧ g.Follows n e)) := by
  have hsteps : p ≠ n → Relation.TransGen (g.PassesFor (g.exitUnits ids)) n p := by
    obtain ⟨o, ho, rfl⟩ := exists_outsideParent hchildren hnew hrun hp
    cases o with
    | none => exact absurd rfl
    | some d => exact transGen_of_outsideParent ho
  refine ⟨fun hne => ⟨hsteps hne, fun hone e he way hway => ?_⟩, fun hunit => ?_⟩
  · exact (passesThrough_of_transGen (hsteps hne) fun e' he' => hone e he e' he' hway.follows).1 way hway
  · obtain rfl := getD_of_directUnit hchildren hnew hrun hp hunit
    have hpasses (hne : (g.childPostDominators order ids).getD n n ≠ n) :
        g.PassesFor (g.exitUnits ids) n ((g.childPostDominators order ids).getD n n) := by
      cases hd : (g.childPostDominators order ids).get? n with
      | none => exact absurd (by rw [Table.getD, hd]; rfl) hne
      | some d => simpa [Table.getD, hd] using passesFor_of_get? hd (by simpa [Table.getD, hd] using hne)
    refine ⟨hpasses, fun hne => ?_, ?_⟩
    · obtain ⟨e, he, hreach, hthrough⟩ := hpasses hne
      refine ⟨e, he, ?_, hreach⟩
      rintro rfl
      exact hne (by simpa using hthrough [] ⟨isChain_singleton e, rfl⟩)
    · rintro ⟨e, he, hother, hreach⟩
      exact getD_ne_of_follows_exit he hother hreach

/-- The body of a function with four units. -/
def fourUnits : FunctionBody := { children := some ["1:1", "1:2", "1:3", "1:4"] }

/-- The first unit goes on to two units. One of them is an exit, the other one has an exit behind
it. -/
def twoExits : Graph :=
  ofEdges [numbered "1:0" 0 (.function fourUnits), numbered "1:1" 1 (.unit {}),
      numbered "1:2" 2 (.unit {}), numbered "1:3" 3 (.unit {}), numbered "1:4" 4 (.unit {})]
    [("1:0", "1:1", .child), ("1:0", "1:2", .child), ("1:0", "1:3", .child), ("1:0", "1:4", .child),
      ("1:1", "1:2", .successor), ("1:1", "1:3", .successor), ("1:3", "1:4", .successor)]

/-- The third unit reaches one exit only, and all its ways pass through its post-dominator. -/
theorem postDominators_pass_twoExits :
    ∃ t g', twoExits.postDominators "1:0" fourUnits = .ok (t, g') ∧ t.get? "1:3" = some "1:4" ∧
      twoExits.DirectUnit "1:3" ∧ twoExits.exitUnits ["1:1", "1:2", "1:3", "1:4"] = ["1:2", "1:4"] ∧
      ∀ e ∈ ["1:2", "1:4"], twoExits.PassesThrough "1:3" "1:4" e := by
  have hget : ∃ t g', twoExits.postDominators "1:0" fourUnits = .ok (t, g') ∧ t.get? "1:3" = some "1:4" :=
    ⟨_, _, rfl, rfl⟩
  obtain ⟨t, g', hrun, hp⟩ := hget
  obtain ⟨-, hall⟩ := (postDominators_pass rfl rfl hrun hp).1 (by decide)
  refine ⟨t, g', hrun, hp, ⟨_, _, _, rfl, rfl, rfl, rfl, rfl⟩, rfl, hall ?_⟩
  have honly : ∀ e ∈ ["1:2", "1:4"], "1:3" ∈ twoExits.reachingIds [.successor] e → e = "1:4" := by decide
  intro e he e' he' hreach hreach'
  rw [honly e he (mem_reachingIds_iff.2 hreach), honly e' he' (mem_reachingIds_iff.2 hreach')]

/-- In whatever order the set comes, a way from the first unit to one of the exits misses its
post-dominator. -/
theorem not_postDominators_pass_twoExits :
    (∃ t g' p, twoExits.postDominators "1:0" fourUnits = .ok (t, g') ∧ t.get? "1:1" = some p) ∧
    ∀ order t g' p, twoExits.postDominators "1:0" fourUnits order = .ok (t, g') → t.get? "1:1" = some p →
      p ≠ "1:1" ∧ ∃ e ∈ twoExits.exitUnits ["1:1", "1:2", "1:3", "1:4"], ¬twoExits.PassesThrough "1:1" p e := by
  refine ⟨⟨_, _, _, rfl, rfl⟩, fun order t g' p hrun hp => ?_⟩
  have hreach : "1:1" ∈ twoExits.reachingIds [.successor] "1:2" := by decide
  obtain ⟨d, hd⟩ : ∃ d, (twoExits.mergedPostDominators order ["1:2", "1:4"]).get? "1:1" = some d :=
    exists_get?_mergedPostDominators order mem_cons_self (mem_reachingIds_iff.1 hreach)
  obtain rfl : p = d := by
    rw [getD_of_directUnit rfl rfl hrun hp ⟨_, _, _, rfl, rfl, rfl, rfl, rfl⟩, Table.getD, get?_childPostDominators]
    exact congrArg (fun o => (Option.or o _).getD "1:1") hd
  obtain ⟨e, he, hget⟩ := exists_of_get?_mergedPostDominators hd
  have hpairs : ∀ e ∈ ["1:2", "1:4"], ∀ d ∈ (twoExits.immediatePostDominators e).get? "1:1",
    d = "1:2" ∨ d = "1:3" := by
    decide
  have hway : ∀ {n m : NodeId}, m ∈ (twoExits.outEdgesOf n [.successor]).map (·.target) → twoExits.WayTo m n [m] :=
    fun hstep => wayTo_cons_iff.2 ⟨hstep, isChain_singleton _, rfl⟩
  rcases hpairs e he p hget with rfl | rfl
  · refine ⟨by decide, "1:4", by decide, fun h => ?_⟩
    exact absurd (h _ (wayTo_cons_iff.2 ⟨by unfold Next; decide,
      hway (m := "1:4") (n := "1:3") (by decide)⟩)) (by decide)
  · exact ⟨by decide, "1:2", by decide, fun h => absurd (h _ (hway (by decide))) (by decide)⟩

end Graph

end ParallelPatterns
