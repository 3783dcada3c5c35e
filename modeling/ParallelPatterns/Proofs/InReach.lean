import Mathlib.Order.WellFoundedSet
import ParallelPatterns.Proofs.Unrolling

/-!
# What unrolling keeps in reach

When a cycle is left from a node, the edge of the cycle into the node is redirected past it. If this
is the only edge by which the node is reached, the node is lost, and with it all that is reached
through it.

An edge lasts if its target does not lead back to its source, or if the target is straight: it goes
on to one successor only, which lies on every cycle through the node. What is reached over such
edges stays in reach. So everything does if each node that is not straight is where a way begins or
enters from before the loop. For loops without branches that are left from one node at most, nothing
less is enough.
-/

namespace ParallelPatterns

open List

namespace Graph

/-- A successor edge between two of the nodes. -/
def NextWithin (g : Graph) (ids : List NodeId) (a n : NodeId) : Prop := a ∈ ids ∧ n ∈ ids ∧ g.Next a n

/-- A way over successor edges between some nodes. -/
def ReachesWithin (g : Graph) (ids : List NodeId) : NodeId → NodeId → Prop :=
  Relation.ReflTransGen (g.NextWithin ids)

/-- The node goes on to one successor only, and where a way is redirected past that successor it
does not come back. -/
inductive Straight (g : Graph) : NodeId → Prop
  | last {n t : NodeId} (only : ∀ t', g.Next n t' → t' = t) (firm : g.Unbranched t ∨ g.WellLeft t) : Straight g n
  | before {n t : NodeId} (only : ∀ t', g.Next n t' → t' = t) (next : Straight g t) : Straight g n

theorem Straight.exists_only {g : Graph} {n : NodeId} (h : g.Straight n) :
    ∃ t, (∀ t', g.Next n t' → t' = t) ∧ (g.Unbranched t ∨ g.WellLeft t ∨ g.Straight t) := by
  cases h with
  | @last _ t only firm => exact ⟨t, only, firm.imp_right .inl⟩
  | @before _ t only next => exact ⟨t, only, .inr (.inr next)⟩

/-- The edge is on no cycle, or its target is straight. -/
def Lasting (g : Graph) (a n : NodeId) : Prop := ¬g.Follows n a ∨ g.Straight n

/-- A way over successor edges that last. -/
def ReachesLasting (g : Graph) (ids : List NodeId) : NodeId → NodeId → Prop :=
  Relation.ReflTransGen fun a n => g.NextWithin ids a n ∧ g.Lasting a n

/-- The node is the first one, or is entered by an edge from a node to which it does not lead
back. -/
def Entered (g : Graph) (ids : List NodeId) (e n : NodeId) : Prop :=
  n = e ∨ ∃ a, g.ReachesWithin ids e a ∧ g.NextWithin ids a n ∧ ¬g.Follows n a

/-- The loops among the nodes are without branches, and each is left from one node at most. -/
structure PlainLoops (g : Graph) (ids : List NodeId) : Prop where
  within : ∀ n ∈ ids, ∀ t, g.Next n t → t ∈ ids
  plain : ∀ n ∈ ids, g.Unbranched n
  oneExit : ∀ n ∈ ids, ∀ m ∈ ids, g.Follows n m → g.Follows m n → ¬g.Straight n → ¬g.Straight m → n = m

/-! ## Edges that last -/

/-- What holds between the rounds: a straight node goes around by its successor only, edges that
last are there, and each edge leads to a successor of a node of its loop. -/
structure Keeping (g : Graph) (ids : List NodeId) (u : Unrolling) : Prop extends Unwinding g ids u where
  straight : ∀ e ∈ u.flow.edges, g.Straight e.1 → g.Follows e.2.1 e.1 → g.Next e.1 e.2.1
  lasting : ∀ a n, g.NextWithin ids a n → g.Lasting a n → u.flow.Joins a n
  lastStep : ∀ e ∈ u.flow.edges, ∃ x ∈ ids, g.Follows e.1 x ∧ g.Follows x e.1 ∧ g.Next x e.2.1

section Cycle

variable {g : Graph} {ids : List NodeId} {flow : FlowGraph} {c : List (NodeId × NodeId × Nat)} {stuck : List NodeId}

variable (hc : flow.IsCycle c) (hstands : ∀ e ∈ c, g.Stands ids e)
  (hstraight : ∀ e ∈ c, g.Straight e.1 → g.Follows e.2.1 e.1 → g.Next e.1 e.2.1)
include hc hstands hstraight

theorem Straight.exits_eq_nil {n : NodeId} (h : g.Straight n) (hn : n ∈ c.map (·.1)) : g.exits c stuck n = [] := by
  obtain ⟨e, he, rfl⟩ := mem_map.1 hn
  have hnext := hstraight e he h (follows_back hc hstands he)
  obtain ⟨t₀, only, -⟩ := h.exists_only
  rw [eq_nil_iff_forall_not_mem]
  intro t ht
  obtain ⟨ht, hout⟩ := (mem_outside_iff hc).1 (mem_outside_of_mem_exits ht)
  -- the one successor is the next node of the cycle
  rw [only t ht, ← only _ hnext] at hout
  exact hout (hc.target_mem he)

theorem Straight.not_follows_of_exit (hstuck : ∀ n ∈ stuck, ¬g.WellLeft n)
    {e : NodeId × NodeId × Nat} (he : e ∈ c) (h : g.Straight e.1) {t : NodeId}
    (ht : t ∈ g.exits c stuck e.2.1) : ¬g.Follows t e.1 := by
  intro hback
  have htarget := hc.target_mem he
  have hnext := hstraight e he h (follows_back hc hstands he)
  have hout := mem_outside_of_mem_exits ht
  have hback' : g.Follows t e.2.1 := hback.tail hnext
  obtain ⟨t₀, only, firm⟩ := h.exists_only
  rw [← only _ hnext] at firm
  rcases firm with hplain | hleft | hstraight'
  · exact hplain.not_follows hc hstands htarget hout hback'
  · have hfree : e.2.1 ∉ stuck := fun hmem => hstuck _ hmem hleft
    exact hleft.not_follows hfree ht ((mem_outside_iff hc).1 hout).1 hback'
  · rw [hstraight'.exits_eq_nil hc hstands hstraight htarget] at ht
    cases ht

theorem Keeping.redirect {v : Unrolling} (hv : g.Keeping ids v) {e : NodeId × NodeId × Nat}
    (he : e ∈ c) (hexits : g.exits c v.stuck e.2.1 ≠ []) :
    g.Keeping ids { flow := v.flow.redirect e (g.exits c v.stuck e.2.1), stuck := [] } := by
  have htarget := hc.target_mem he
  have haround := follows_back hc hstands he
  refine ⟨hv.toUnwinding.redirect hc hstands he, ?_, ?_, ?_⟩
  · intro x hx h hback
    rcases FlowGraph.mem_edges_redirect hx with hx | ⟨hsource, ht⟩
    · exact hv.straight x hx h hback
    · rw [hsource] at h hback
      exact absurd hback (Straight.not_follows_of_exit hc hstands hstraight hv.stuck he h ht)
  · intro a n hnext hlasting
    obtain ⟨k, hk⟩ := hv.lasting a n hnext hlasting
    refine ⟨k, FlowGraph.mem_edges_redirect_of_ne _ hk ?_⟩
    rintro rfl
    rcases hlasting with hapart | h
    · exact hapart haround
    · exact hexits (h.exits_eq_nil hc hstands hstraight htarget)
  · intro x hx
    rcases FlowGraph.mem_edges_redirect hx with hx | ⟨hsource, ht⟩
    · exact hv.lastStep x hx
    · obtain ⟨e', he', heq⟩ := mem_map.1 htarget
      have hnext := ((mem_outside_iff hc).1 (mem_outside_of_mem_exits ht)).1
      rw [hsource]
      exact ⟨e.2.1, heq ▸ (hstands e' he').source, (hstands e he).follows, haround, hnext⟩

end Cycle

theorem Keeping.leaveNodes {g : Graph} {ids : List NodeId} {u : Unrolling} (hu : g.Keeping ids u)
    {c : List (NodeId × NodeId × Nat)} (hc : u.flow.IsCycle c) : g.Keeping ids (g.leaveNodes false c u) := by
  have hstands := hu.stands_of_mem hc
  exact leaveNodes_induct hc
    (fun e he _ v hv hexits => ⟨hv.toUnwinding.noteStuck hc hstands he hexits, hv.straight,
      hv.lasting, hv.lastStep⟩)
    (fun e he _ v _ hv hexits => hv.redirect hc hstands (fun x hx => hu.straight x (hc.mem_edges x hx)) he hexits)
    (fun _ _ => hu)

theorem Ordered.keeping {g : Graph} (h : g.Ordered) (ids : List NodeId) :
    g.Keeping ids { flow := g.flowGraph ids, stuck := [] } := by
  refine ⟨h.unwinding ids, fun e he _ _ => ?_, fun a n hnext _ => (joins_flowGraph_iff h).2 hnext, fun e he => ?_⟩
  · exact ((joins_flowGraph_iff h).1 ⟨e.2.2, he⟩).2.2
  · obtain ⟨hs, -, hnext⟩ := (joins_flowGraph_iff h).1 ⟨e.2.2, he⟩
    exact ⟨e.1, hs, .refl, .refl, hnext⟩

/-! ## Nodes that stay in reach -/

section Reach

variable {g : Graph} {ids : List NodeId} {e n : NodeId}

theorem Keeping.leads_of_reachesLasting {u : Unrolling} (hu : g.Keeping ids u)
    (h : g.ReachesLasting ids e n) : u.flow.Leads e n := by
  induction h with
  | refl => exact .refl
  | tail _ hstep ih => exact ih.tail (hu.lasting _ _ hstep.1 hstep.2)

def Precedes (g : Graph) (a n : NodeId) : Prop := g.Follows a n ∧ ¬g.Follows n a

instance : IsStrictOrder NodeId g.Precedes where
  irrefl _ h := h.2 h.1
  trans _ _ _ h h' := ⟨h.1.trans h'.1, fun hback => h.2 (h'.1.trans hback)⟩

theorem reachesLasting_of_entered (hentered : ∀ n, g.ReachesWithin ids e n → ¬g.Straight n → g.Entered ids e n)
    (hn : g.ReachesWithin ids e n) : g.ReachesLasting ids e n := by
  rcases Relation.ReflTransGen.cases_tail hn with rfl | ⟨-, -, -, hids, -⟩
  · exact .refl
  -- loops are taken in the order of the ways between them, and inside of a loop the way to the node is followed
  refine (ids.finite_toSet.wellFoundedOn (r := g.Precedes)).induction
    (P := fun n => g.ReachesWithin ids e n → g.ReachesLasting ids e n) hids (fun n _ ih hn => ?_) hn
  have hway : ∀ m, g.ReachesWithin ids e m → g.Follows m n → g.ReachesLasting ids e m := by
    intro m hm
    induction hm with
    | refl => exact fun _ => .refl
    | @tail a m ha hstep ihway =>
      intro hmn
      have hbefore : g.ReachesLasting ids e a := ihway (.head hstep.2.2 hmn)
      by_cases hlasting : g.Lasting a m
      · exact hbefore.tail ⟨hstep, hlasting⟩
      · obtain ⟨-, hbent⟩ := not_or.1 hlasting
        rcases hentered m (ha.tail hstep) hbent with rfl | ⟨b, hb, hentry, hapart⟩
        · exact .refl
        · have hprecedes : g.Precedes b n := ⟨.head hentry.2.2 hmn, fun hback => hapart (hmn.trans hback)⟩
          exact (ih b hentry.1 hprecedes hb).tail ⟨hentry, .inl hapart⟩
  exact hway n hn .refl

theorem PlainLoops.entered_of_leads (h : g.PlainLoops ids) {flow : FlowGraph} {stuck : List NodeId}
    (hacyclic : flow.Acyclic) (hflow : g.Keeping ids { flow, stuck }) (hn : g.ReachesWithin ids e n)
    (hbent : ¬g.Straight n) (hleads : flow.Leads e n) : g.Entered ids e n := by
  by_contra hout
  obtain ⟨hne, hentry⟩ := not_or.1 hout
  have hends : e ∈ ids ∧ n ∈ ids := by
    rcases Relation.ReflTransGen.cases_head hn with heq | ⟨_, hfirst, -⟩
    · exact absurd heq.symm hne
    · rcases Relation.ReflTransGen.cases_tail hn with heq | ⟨_, -, hlast⟩
      · exact absurd heq hne
      · exact ⟨hfirst.1, hlast.2.1⟩
  have hwithin : ∀ m, g.Follows e m → g.ReachesWithin ids e m ∧ m ∈ ids := by
    intro m hm
    induction hm with
    | refl => exact ⟨.refl, hends.1⟩
    | tail _ hstep ih =>
      have hm := h.within _ ih.2 _ hstep
      exact ⟨ih.1.tail ⟨ih.2, hm, hstep⟩, hm⟩
  have hfollows : ∀ m, flow.Leads e m → g.Follows e m := by
    intro m hm
    induction hm with
    | refl => exact .refl
    | tail _ hstep ih =>
      obtain ⟨k, hk⟩ := hstep
      exact ih.trans (hflow.stands _ hk).follows
  -- the last edge comes from the loop of the node
  rcases Relation.ReflTransGen.cases_tail hleads with heq | ⟨s, hs, k, hk⟩
  · exact hne heq
  obtain ⟨x, hx, hsx, hxs, hnext⟩ := hflow.lastStep _ hk
  have hback : g.Follows n x := by
    by_contra hapart
    exact hentry ⟨x, (hwithin x ((hfollows s hs).trans hsx)).1, ⟨hx, hends.2, hnext⟩, hapart⟩
  have hns : g.Follows n s := hback.trans hxs
  have hsn : g.Follows s n := hsx.tail hnext
  -- from the node on, the edges of the loop last
  have haround : ∀ m, g.Follows n m → g.Follows m n → flow.Leads n m ∧ m ∈ ids := by
    intro m hm
    induction hm with
    | refl => exact fun _ => ⟨.refl, hends.2⟩
    | @tail a m ha hstep ih =>
      intro hmn
      obtain ⟨hna, hids⟩ := ih (.head hstep hmn)
      have hm := h.within a hids m hstep
      refine ⟨?_, hm⟩
      by_cases hstraight : g.Straight m
      · exact hna.tail (hflow.lasting a m ⟨hids, hm, hstep⟩ (.inr hstraight))
      · rw [← h.oneExit n hends.2 m hm (ha.tail hstep) hmn hbent hstraight]
        exact .refl
  exact hacyclic n (.tail' (haround s hns hsn).1 ⟨k, hk⟩)

end Reach

theorem Ordered.get?_unrolledFunctions {g : Graph} (h : g.Ordered) {copies : Bool}
    {t : Table NodeId FlowGraph} (ht : g.unrolledFunctions copies = .ok t) {f : Node}
    (hf : f ∈ g.functions) : ∃ flow, t.get? f.id = some flow ∧ g.unrolled copies f = .ok flow := by
  obtain ⟨hkeys, hentries, -⟩ := unrolledFunctions_eq_ok ht
  have hkey : f.id ∈ t.keys := hkeys ▸ mem_map.2 ⟨f, hf, rfl⟩
  obtain ⟨flow, hflow⟩ := Option.isSome_iff_exists.1 (Table.mem_keys_iff.1 hkey)
  obtain ⟨f', hf', hid, hunrolled⟩ := hentries _ (Table.mem_of_get? hflow)
  -- the identifier tells the function
  have heq : some f' = some f := by
    rw [← h.node?_of_mem (mem_filter.1 hf').1, ← h.node?_of_mem (mem_filter.1 hf).1, hid]
  cases heq
  exact ⟨flow, hflow, hunrolled⟩

end Graph

open ParallelPatterns.Graph in
/-- Where the unrolling of a program ends, a node of a function stays in reach if it is reached over
edges that last. All nodes do if each one that is not straight is entered from before its loop, and
in plain loops only then. -/
theorem ProgramInput.unrolledFunctions_reach {earlier : UnitFile} {nodes : List Markup} {p : ProgramInput}
    {g g₁ g₂ : Graph} (hread : UnitFile.ofNodes earlier nodes = .ok p.units) (hg : p.toGraph = .ok g)
    (hmapped : g₁ = g ∨ g₁ = g.mapStaticRegions) (hmeta : g₁.computeMetadata = .ok g₂)
    {t : Table NodeId FlowGraph} (ht : g₂.unrolledFunctions false = .ok t) {f : Node}
    (hf : f ∈ g₂.functions) : ∃ flow, t.get? f.id = some flow ∧ ∀ e,
      (∀ n, g₂.ReachesLasting (g₂.flowNodes f) e n → flow.Leads e n) ∧
      ((∀ n, g₂.ReachesWithin (g₂.flowNodes f) e n → ¬g₂.Straight n → g₂.Entered (g₂.flowNodes f) e n) →
        ∀ n, g₂.ReachesWithin (g₂.flowNodes f) e n → flow.Leads e n) ∧
      (g₂.PlainLoops (g₂.flowNodes f) → (∀ n, g₂.ReachesWithin (g₂.flowNodes f) e n → flow.Leads e n) →
        ∀ n, g₂.ReachesWithin (g₂.flowNodes f) e n → ¬g₂.Straight n → g₂.Entered (g₂.flowNodes f) e n) := by
  have h : g₂.Ordered := (ordered_of_ofNodes hread hg hmapped).computeMetadata hmeta
  obtain ⟨flow, hget, hunrolled⟩ := h.get?_unrolledFunctions ht hf
  obtain ⟨v, hflow, rfl, hnone⟩ := unrolled_keeps (P := g₂.Keeping (g₂.flowNodes f))
    (fun u c hu hc => hu.leaveNodes (hu.isCycle hc)) (h.keeping (g₂.flowNodes f)) hunrolled
  have hacyclic := FlowGraph.acyclic_of_cycle? hflow.closed hnone
  refine ⟨v.flow, hget, fun e => ⟨fun n hn => hflow.leads_of_reachesLasting hn, fun hentered n hn => ?_, ?_⟩⟩
  · exact hflow.leads_of_reachesLasting (reachesLasting_of_entered hentered hn)
  · exact fun hplain hall n hn hbent => hplain.entered_of_leads hacyclic hflow hn hbent (hall n hn)

/-- A unit with its successors. -/
def unitOf (id : String) (successors : List String) : Markup :=
  nodeOf id "0" "" successors
    [.element "readPhaseLines" [] [.text "1:2"], .element "writePhaseLines" [] [.text "1:2"],
      .element "localVariables" [] [], .element "globalVariables" [] [], .element "callsNode" [] [],
      .element "instructionsCount" [] [.text "1"]]

/-- A function with a loop over `1:3` and `1:4`, which is entered from `1:1` at `1:3` and left to
`1:5`. -/
def twoUnitLoop (third fourth : List String) : List Markup :=
  [nodeOf "1:0" "1" "1:1,1:2,1:5" [] [], unitOf "1:1" ["1:3"], nodeOf "1:2" "2" "1:3,1:4" [] [],
    unitOf "1:3" third, unitOf "1:4" fourth, unitOf "1:5" []]

namespace Graph

theorem unrolled_of_round {g : Graph} {f : Node} {c : List (NodeId × NodeId × Nat)}
    {flow : FlowGraph} (hcycle : (g.flowGraph (g.flowNodes f)).cycle? = some c)
    (hround : (g.leaveNodes false c { flow := g.flowGraph (g.flowNodes f), stuck := [] }).flow = flow)
    (hlast : flow.cycle? = none) : g.unrolled false f = .ok flow := by
  rw [unrolled,
    unrollGo_of_cycle (u := { flow := g.flowGraph (g.flowNodes f), stuck := [] }) hcycle,
    unrollGo, hround, hlast]

theorem unrolledFunctions_of_singleton {g : Graph} {f : Node} (hfunctions : g.functions = [f]) {flow : FlowGraph}
    (hf : g.unrolled false f = .ok flow) : g.unrolledFunctions false = .ok ⟨[(f.id, flow)]⟩ := by
  rw [unrolledFunctions, hfunctions, mapM_cons, hf]
  rfl

end Graph

open ParallelPatterns.Graph in
/-- A loop that is left where it is entered: all units stay in reach. -/
theorem ProgramInput.unrolledFunctions_reach_whileLoop :
    ∃ u g g₂ t, UnitFile.ofNodes {} (twoUnitLoop ["1:4", "1:5"] ["1:3"]) = .ok u ∧
      toGraph ⟨u, [], ∅, none⟩ = .ok g ∧ g.computeMetadata = .ok g₂ ∧
        g₂.unrolledFunctions false = .ok t ∧ ∃ f ∈ g₂.functions, ∃ flow, t.get? f.id = some flow ∧
          ∀ n, g₂.ReachesWithin (g₂.flowNodes f) "1:1" n → flow.Leads "1:1" n := by
  obtain ⟨g₂, f, flow, hrun, hfunctions, hcycle, hround, hlast, hnodes, hnext, hways⟩ :
      ∃ g₂ f flow, (UnitFile.ofNodes {} (twoUnitLoop ["1:4", "1:5"] ["1:3"]) >>= fun u =>
          toGraph ⟨u, [], ∅, none⟩ >>= fun g => g.computeMetadata) = .ok g₂ ∧ g₂.functions = [f] ∧
        (g₂.flowGraph (g₂.flowNodes f)).cycle? = some [("1:3", "1:4", 0), ("1:4", "1:3", 0)] ∧
          (g₂.leaveNodes false [("1:3", "1:4", 0), ("1:4", "1:3", 0)]
            { flow := g₂.flowGraph (g₂.flowNodes f), stuck := [] }).flow = flow ∧ flow.cycle? = none ∧
          g₂.flowNodes f = ["1:1", "1:2", "1:5", "1:3", "1:4"] ∧
            ["1:1", "1:2", "1:3", "1:4", "1:5"].map (fun n => (g₂.outEdgesOf n [.successor]).map (·.target)) =
              [["1:3"], [], ["1:4", "1:5"], ["1:3"], []] ∧
            g₂.waysOut "1:3" "1:4" = [] ∧ g₂.waysOut "1:3" "1:5" = ["1:5"] :=
    ⟨_, _, _, rfl, rfl, rfl, rfl, rfl, rfl, rfl, rfl, rfl⟩
  obtain ⟨u, hread, hrun⟩ := bind_eq_ok_iff.1 hrun
  obtain ⟨g, hg, hmeta⟩ := bind_eq_ok_iff.1 hrun
  have ht := unrolledFunctions_of_singleton hfunctions (unrolled_of_round hcycle hround hlast)
  have hf : f ∈ g₂.functions := by simp [hfunctions]
  obtain ⟨flow', hget, hreach⟩ := unrolledFunctions_reach hread hg (.inl rfl) hmeta ht hf
  refine ⟨u, g, g₂, _, hread, hg, hmeta, ht, f, hf, flow', hget, (hreach "1:1").2.1 fun n hn hbent => ?_⟩
  rw [hnodes] at hn ⊢
  simp only [map_cons, map_nil, cons.injEq] at hnext
  obtain ⟨h₁, h₂, h₃, h₄, h₅, -⟩ := hnext
  have hafter : ∀ m, g₂.Follows "1:3" m → m = "1:3" ∨ m = "1:4" ∨ m = "1:5" := by
    intro m hm
    induction hm with
    | refl => exact .inl rfl
    | @tail b c _ hstep ih =>
      have hstep : g₂.Next b c := hstep
      rcases ih with rfl | rfl | rfl
      · exact .inr (by simpa [Next, h₃] using hstep)
      · exact .inl (by simpa [Next, h₄] using hstep)
      · simp [Next, h₅] at hstep
  have hentry : g₂.Entered ["1:1", "1:2", "1:5", "1:3", "1:4"] "1:1" "1:3" :=
    .inr ⟨"1:1", .refl, ⟨by simp, by simp, by simp [Next, h₁]⟩, fun hback => by simpa using hafter _ hback⟩
  have hleft : g₂.WellLeft "1:3" := wellLeft_of_branch h₃ hways.1 hways.2 h₅ (by decide)
  have hbody : g₂.Straight "1:4" := .last (t := "1:3") (fun t ht => by simpa [Next, h₄] using ht) (.inr hleft)
  have hend : g₂.Straight "1:5" := .last (t := "1:3") (fun t ht => by simp [Next, h₅] at ht) (.inr hleft)
  rcases Relation.ReflTransGen.cases_tail hn with rfl | ⟨a, -, ha, -, hstep⟩
  · exact .inl rfl
  · simp only [mem_cons, not_mem_nil, or_false] at ha
    rcases ha with rfl | rfl | rfl | rfl | rfl
    · obtain rfl : n = "1:3" := by simpa [Next, h₁] using hstep
      exact hentry
    · simp [Next, h₂] at hstep
    · simp [Next, h₅] at hstep
    · have hn : n = "1:4" ∨ n = "1:5" := by simpa [Next, h₃] using hstep
      rcases hn with rfl | rfl
      · exact absurd hbody hbent
      · exact absurd hend hbent
    · obtain rfl : n = "1:3" := by simpa [Next, h₄] using hstep
      exact hentry

open ParallelPatterns.Graph in
/-- A loop that is entered at one unit and left from the other one: the other one is lost. -/
theorem not_leads_unrolledFunctions_doWhile :
    ∃ u g g₂ t, UnitFile.ofNodes {} (twoUnitLoop ["1:4"] ["1:3", "1:5"]) = .ok u ∧
      ProgramInput.toGraph ⟨u, [], ∅, none⟩ = .ok g ∧ g.computeMetadata = .ok g₂ ∧
        g₂.unrolledFunctions false = .ok t ∧ ∃ f ∈ g₂.functions, ∃ flow, t.get? f.id = some flow ∧
          g₂.ReachesWithin (g₂.flowNodes f) "1:1" "1:4" ∧ ¬flow.Leads "1:1" "1:4" := by
  let flow : FlowGraph :=
    { nodes := ["1:1", "1:2", "1:3", "1:4", "1:5"]
      links := [("1:1", "1:3", [0]), ("1:4", "1:3", [0]), ("1:4", "1:5", [0]), ("1:3", "1:5", [0])] }
  obtain ⟨g₂, f, hrun, hfunctions, hcycle, hround, hnodes, h₁, h₃⟩ :
      ∃ g₂ f, (UnitFile.ofNodes {} (twoUnitLoop ["1:4"] ["1:3", "1:5"]) >>= fun u =>
          ProgramInput.toGraph ⟨u, [], ∅, none⟩ >>= fun g => g.computeMetadata) = .ok g₂ ∧ g₂.functions = [f] ∧
        (g₂.flowGraph (g₂.flowNodes f)).cycle? = some [("1:3", "1:4", 0), ("1:4", "1:3", 0)] ∧
          (g₂.leaveNodes false [("1:3", "1:4", 0), ("1:4", "1:3", 0)]
            { flow := g₂.flowGraph (g₂.flowNodes f), stuck := [] }).flow = flow ∧
            g₂.flowNodes f = ["1:1", "1:2", "1:5", "1:3", "1:4"] ∧
            (g₂.outEdgesOf "1:1" [.successor]).map (·.target) = ["1:3"] ∧
            (g₂.outEdgesOf "1:3" [.successor]).map (·.target) = ["1:4"] :=
    ⟨_, _, rfl, rfl, rfl, rfl, rfl, rfl, rfl⟩
  obtain ⟨u, hread, hrun⟩ := bind_eq_ok_iff.1 hrun
  obtain ⟨g, hg, hmeta⟩ := bind_eq_ok_iff.1 hrun
  have ht := unrolledFunctions_of_singleton hfunctions (unrolled_of_round hcycle hround rfl)
  refine ⟨u, g, g₂, _, hread, hg, hmeta, ht, f, by simp [hfunctions], flow, by simp [Table.get?],
    ?_, fun hleads => ?_⟩
  · rw [hnodes]
    exact .tail (b := "1:3") (.single ⟨by simp, by simp, by simp [Next, h₁]⟩) ⟨by simp, by simp, by simp [Next, h₃]⟩
  · -- no edge leads to the unit any more
    rcases Relation.ReflTransGen.cases_tail hleads with heq | ⟨s, -, k, hk⟩
    · exact absurd heq (by decide)
    · have hnone : ∀ e ∈ flow.edges, e.2.1 ≠ "1:4" := by decide
      exact hnone _ hk rfl

end ParallelPatterns
