import ParallelPatterns.Proofs.DoAll

/-!
# The operators after both detections

Reductions are looked for first, and then do-all loops. Both detections take the loops of the graph
one by one; what a turn can do is said once, by `DetectionTurn`. From it follows what a turn, and
then a whole detection, does to the operators of the variables:

* `operators_of_detectDoAll`: every loop gives the signs of the variables that it combines; in the
end, the variables that the reported loops share lose theirs. * `operators_of_detectReductions`: a
variable keeps its operator, or it is one that a loop combines. * `operator?_of_detections`: after
both detections, the operator of a variable is the sign of the last loop that combines it, unless a
reported do-all loop shares it. * `operatorsSurvive_iff`: when the operators are those of the
reported reductions, and of no other variables.
-/

namespace ParallelPatterns

open List Analysis

variable {g₁ g₂ g₃ : Graph} {loop : Node}

open ParallelPatterns.Graph

variable {g g' : Graph} {id : NodeId} {ds : List DoAllPattern} {rs : List ReductionPattern} {v : Variable}

namespace Graph

variable {signs : List (Variable × String)}

/-! ## Giving signs -/

/-- From one graph to the other, marks have changed but no reductions, and signs have been given to
variables. -/
structure Gives (signs : List (Variable × String)) (g h : Graph) : Prop where
  same : g.SameReductions h
  operators : ∀ place, h.operators.get? place = (signAt place signs).or (g.operators.get? place)

theorem Gives.refl (g : Graph) : Gives [] g g where
  same := g.sameReductions_operators g.operators
  operators _ := rfl

theorem Gives.trans {more : List (Variable × String)} (h : Gives signs g₁ g₂)
    (h' : Gives more g₂ g₃) : Gives (signs ++ more) g₁ g₃ where
  same := h.same.trans h'.same
  operators place := by rw [h'.operators, h.operators, signAt_append, Option.or_assoc]

theorem Gives.quiet (h : Gives signs g₁ g₂) (h' : Gives [] g₂ g₃) : Gives signs g₁ g₃ := by
  have hboth := h.trans h'
  rwa [append_nil] at hboth

theorem Gives.once {h : Graph} (hgives : Gives (signs ++ signs) g h) : Gives signs g h where
  same := hgives.same
  operators place := by
    rw [hgives.operators, signAt_append]
    cases signAt place signs <;> rfl

theorem gives_modifyNode (g : Graph) (id : NodeId) {f : Node → Node}
    (hf : ∀ n, (f n).unmarked = n.unmarked ∧ (f n).reduction = n.reduction) : Gives [] g (g.modifyNode id f) where
  same := g.remarks_modifyNode id (fun _ => rfl) hf
  operators _ := rfl

theorem gives_classifyLoop {classes : LoopVariables}
    (hloop : g.node id = .ok loop) (h : (classifyLoop loop).runOn g = (.ok classes, g')) :
    Gives (g.combinedAt id) g g' := by
  obtain ⟨signs, hsigns, rfl, -⟩ := classifyLoop_spec h
  obtain ⟨operators, heq, hgiven⟩ := g.giveOperators_eq signs
  rw [combinedAt_of_ok hloop hsigns, heq]
  exact ⟨g.sameReductions_operators operators, hgiven⟩

theorem gives_workloadGo {fuel : Nat} {w : Int} (h : (workloadGo fuel id).runOn g = (.ok w, g')) :
    Gives [] g g' := by
  induction fuel generalizing id g g' w with
  | zero => cases h
  | succ fuel ih =>
    obtain ⟨n, -, h⟩ := runOn_query_bind_eq_ok h
    split at h
    · cases h
      exact .refl _
    · obtain ⟨total, g₁, htotal, h⟩ := runOn_bind_eq_ok (Analysis.runOn_graph_bind _ g ▸ h)
      cases h
      refine Gives.quiet ?_ (g₁.gives_modifyNode id fun n => ⟨rfl, rfl⟩)
      have hbelow : ∀ {c : NodeId} {f : Int → Int} {w' : Int} {g₂ g₃ : Graph},
          (workloadGo fuel c >>= fun w => pure (f w)).runOn g₂ = (.ok w', g₃) → Gives [] g₂ g₃ := by
        intro c f w' g₂ g₃ hturn
        obtain ⟨_, _, hbelow, hturn⟩ := runOn_bind_eq_ok hturn
        cases hturn
        exact ih hbelow
      unfold workloadOver at htotal
      split at htotal
      · cases htotal
        exact .refl _
      · cases htotal
        exact .refl _
      all_goals
        refine foldlM_runOn_induction (M := fun _ _ g _ g' => Gives [] g g') (fun _ g => .refl g) ?_ htotal
        intro c cs w g₂ w' g₃ w'' g₄ hturn hrest
      · exact (hbelow hturn).trans hrest
      · split at hturn
        · obtain ⟨_, -, hturn⟩ := runOn_lift_bind_eq_ok hturn
          cases hturn
          exact hrest
        · exact (hbelow hturn).trans hrest

theorem gives_withWorkload {s s' : PatternSite} (h : s.withWorkload.runOn g = (.ok s', g')) :
    Gives [] g g' ∧ ∃ workload, s' = { s with workload } := by
  unfold PatternSite.withWorkload at h
  split at h
  · cases h
    exact ⟨.refl _, _, rfl⟩
  · obtain ⟨w, _, hworkload, h⟩ := runOn_bind_eq_ok h
    cases h
    rw [workload, runOn_graph_bind] at hworkload
    exact ⟨gives_workloadGo hworkload, _, rfl⟩

end Graph

/-! ## The turns of a detection -/

inductive DetectionTurn {α : Type} (test : Node → Analysis Bool) (mark : Node → Node) (counts : Node → Bool)
    (report : PatternSite → LoopVariables → α) (id : NodeId) (found : List α) (g : Graph) : List α → Graph → Prop
  | rejected {loop : Node} {g' : Graph} (hloop : g.node id = .ok loop)
      (htest : (test loop).runOn g = (.ok false, g')) : DetectionTurn test mark counts report id found g found g'
  | unreported {loop n : Node} {g₁ : Graph} (hloop : g.node id = .ok loop)
      (htest : (test loop).runOn g = (.ok true, g₁)) (hnode : (g₁.modifyNode id mark).node id = .ok n)
      (hcounts : counts n = false) : DetectionTurn test mark counts report id found g found (g₁.modifyNode id mark)
  | reported {loop n : Node} {g₁ g' : Graph} {vars : LoopVariables} (hloop : g.node id = .ok loop)
      (htest : (test loop).runOn g = (.ok true, g₁)) (hnode : (g₁.modifyNode id mark).node id = .ok n)
      (hcounts : counts n) (hvars : (classifyLoop n).runOn (g₁.modifyNode id mark) = (.ok vars, g')) :
      DetectionTurn test mark counts report id found g (found ++ [report (.ofNode n) vars]) g'

theorem detectionTurn_cases {α : Type} {test : Node → Analysis Bool} {mark : Node → Node}
    {counts : Node → Bool} {report : PatternSite → LoopVariables → α} {found found' : List α}
    {l : Node} (h : (detectionTurn test mark counts report found l).runOn g = (.ok found', g')) :
    DetectionTurn test mark counts report l.id found g found' g' := by
  obtain ⟨loop, hloop, h⟩ := runOn_query_bind_eq_ok h
  obtain ⟨verdict, g₁, htest, h⟩ := runOn_bind_eq_ok h
  cases verdict with
  | false =>
    cases h
    exact .rejected hloop htest
  | true =>
    obtain ⟨_, _, hmark, h⟩ := runOn_bind_eq_ok h
    cases hmark
    obtain ⟨n, hnode, h⟩ := runOn_query_bind_eq_ok h
    split at h
    · rename_i hcounts
      obtain ⟨vars, _, hvars, h⟩ := runOn_bind_eq_ok h
      cases h
      exact .reported hloop htest hnode hcounts hvars
    · rename_i hcounts
      cases h
      exact .unreported hloop htest hnode (Bool.eq_false_iff.2 hcounts)

/-! ## Do-all loops -/

theorem gives_isDoAllLoop {verdict : Bool} (hloop : g.node id = .ok loop)
    (h : (isDoAllLoop loop).runOn g = (.ok verdict, g')) : Gives (g.combinedAt id) g g' := by
  obtain ⟨classes, _, hclasses, -⟩ := runOn_isDoAllLoop h
  exact gives_classifyLoop hloop hclasses

theorem gives_doAllTurn {found found' : List DoAllPattern}
    (h : DetectionTurn isDoAllLoop markDoAll countsAsDoAll DoAllPattern.mk id found g found' g') :
    Gives (g.combinedAt id) g g' := by
  have hmark : ∀ g₁ : Graph, Gives [] g₁ (g₁.modifyNode id markDoAll) := fun g₁ =>
    g₁.gives_modifyNode id fun n => ⟨rfl, rfl⟩
  cases h with
  | rejected hloop htest => exact gives_isDoAllLoop hloop htest
  | unreported hloop htest => exact (gives_isDoAllLoop hloop htest).quiet (hmark _)
  | reported hloop htest hnode hcounts hvars =>
    have hmarked := (gives_isDoAllLoop hloop htest).quiet (hmark _)
    have hagain := gives_classifyLoop hnode hvars
    rw [hmarked.same.combinedAt] at hagain
    exact (hmarked.trans hagain).once

theorem gives_doAllTurns {ls : List Node} {found found' : List DoAllPattern}
    (h : (ls.foldlM (detectionTurn isDoAllLoop markDoAll countsAsDoAll DoAllPattern.mk) found).runOn g =
      (.ok found', g')) : Gives ((ls.map (·.id)).flatMap g.combinedAt) g g' := by
  refine foldlM_runOn_induction
    (M := fun ls _ g _ g' => Gives ((ls.map (·.id)).flatMap g.combinedAt) g g') (fun _ g => .refl g) ?_ h
  intro l ls found g found₁ g₁ found' g' hturn hrest
  have hgives := gives_doAllTurn (detectionTurn_cases hturn)
  -- no turn changes what the later loops combine
  rw [hgives.same.combinedAt] at hrest
  exact hgives.trans hrest

/-- A variable at the place is shared by one of the loops. -/
def SharedAt (ds : List DoAllPattern) (place : Option Nat) : Prop := ∃ d ∈ ds, ∃ v ∈ d.vars.shared, v.place = place

instance (ds : List DoAllPattern) (place : Option Nat) : Decidable (SharedAt ds place) := by
  unfold SharedAt
  infer_instance

theorem exists_mem_shared_iff {place : Option Nat} :
    (∃ v ∈ ds.flatMap fun d => d.vars.shared, v.place = place) ↔ SharedAt ds place := by
  simp only [mem_flatMap]
  constructor
  · rintro ⟨v, ⟨d, hd, hv⟩, hplace⟩
    exact ⟨d, hd, v, hv, hplace⟩
  · rintro ⟨d, hd, v, hv, hplace⟩
    exact ⟨v, ⟨d, hd, hv⟩, hplace⟩

theorem Graph.clearOperators_eq (g : Graph) (vs : List Variable) :
    ∃ operators, vs.foldl clearOperator g = { g with operators } ∧
      ∀ place, operators.get? place = if ∃ v ∈ vs, v.place = some place then none else g.operators.get? place := by
  induction vs generalizing g with
  | nil => exact ⟨g.operators, rfl, fun place => by simp⟩
  | cons v vs ih =>
    obtain ⟨operators, heq, hcleared⟩ := ih (g.clearOperator v)
    rw [foldl_cons, heq]
    unfold clearOperator at hcleared ⊢
    cases hv : v.place with
    | none =>
      exact ⟨operators, rfl, by simpa [hv] using hcleared⟩
    | some p =>
      rw [hv] at hcleared
      refine ⟨operators, rfl, fun place => ?_⟩
      rw [hcleared, Table.get?_erase]
      by_cases hp : p = place <;> simp [hv, hp]

theorem operators_of_detectDoAll (h : detectDoAll.runOn g = (.ok ds, g')) :
    g.SameReductions g' ∧ ∀ place, g'.operators.get? place =
      if SharedAt ds (some place) then none else (signAt place g.signs).or (g.operators.get? place) := by
  rw [detectDoAll, runOn_graph_bind] at h
  obtain ⟨found, g₁, hfold, h⟩ := runOn_bind_eq_ok h
  obtain ⟨ds, g₂, hmap, h⟩ := runOn_bind_eq_ok h
  cases h
  have hloops : Gives g.signs g g₁ := gives_doAllTurns hfold
  have hsites : Gives g.signs g g₂ := by
    refine (mapM_runOn_keeps (R := fun _ _ => True) ?_ hloops hmap).1
    intro p q g₁ g₂ hg₁ hsite
    obtain ⟨_, _, hsite, hq⟩ := runOn_bind_eq_ok hsite
    cases hq
    exact ⟨hg₁.quiet (gives_withWorkload hsite).1, trivial⟩
  obtain ⟨operators, heq, hcleared⟩ := g₂.clearOperators_eq (ds.flatMap fun p => p.vars.shared)
  simp only [heq]
  refine ⟨hsites.same.trans (g₂.sameReductions_operators operators), fun place => ?_⟩
  simp only [hcleared, hsites.operators, exists_mem_shared_iff]

/-! ## Reductions -/

namespace Graph

variable {ids : List NodeId} {h : Graph}

/-- From one graph to the other, marks have changed, and each variable has its operator still or is
combined by one of the loops. -/
structure Reduces (ids : List NodeId) (g h : Graph) : Prop where
  keeps : g.KeepsReductions h
  operators : ∀ place, h.operators.get? place = g.operators.get? place ∨
    ∃ id ∈ ids, ∃ e ∈ h.combinedAt id, e.1.place = some place

theorem Gives.reduces {signs : List (Variable × String)} (hgives : Gives signs g h)
    (hsigns : ∀ e ∈ signs, ∃ id ∈ ids, e ∈ g.combinedAt id) : Reduces ids g h where
  keeps := hgives.same.keeps
  operators place := by
    rw [hgives.operators, hgives.same.combinedAt]
    cases hsign : signAt place signs with
    | none => exact .inl rfl
    | some sign =>
      have hsome : (signAt place signs).isSome := by rw [hsign]; rfl
      obtain ⟨e, he, hplace⟩ := isSome_signAt_iff.1 hsome
      obtain ⟨id, hid, he⟩ := hsigns e he
      exact .inr ⟨id, hid, e, he, hplace⟩

theorem Gives.reduces_nil (hgives : Gives [] g h) : Reduces [] g h :=
  hgives.reduces fun _ he => absurd he not_mem_nil

theorem Gives.reduces_singleton (hgives : Gives (g.combinedAt id) g h) : Reduces [id] g h :=
  hgives.reduces fun _ he => ⟨id, mem_singleton_self id, he⟩

theorem Reduces.trans {more : List NodeId} (h : Reduces ids g₁ g₂) (h' : Reduces more g₂ g₃) :
    Reduces (ids ++ more) g₁ g₃ where
  keeps := h.keeps.trans h'.keeps fun hab hbc ha => hbc (hab ha)
  operators place := by
    rcases h'.operators place with heq | ⟨id, hid, e, he, hplace⟩
    · rcases h.operators place with heq' | ⟨id, hid, e, he, hplace⟩
      · exact .inl (heq.trans heq')
      · exact .inr ⟨id, mem_append_left more hid, e, h'.keeps.mem_combinedAt he, hplace⟩
    · exact .inr ⟨id, mem_append_right ids hid, e, he, hplace⟩

theorem Reduces.mono {more : List NodeId} (hreduces : Reduces ids g h) (hsub : ids ⊆ more) : Reduces more g h where
  keeps := hreduces.keeps
  operators place := by
    rcases hreduces.operators place with heq | ⟨id, hid, e⟩
    · exact .inl heq
    · exact .inr ⟨id, hsub hid, e⟩

theorem reduces_modifyNode (g : Graph) (id : NodeId) :
    Reduces [] g (g.modifyNode id fun n => { n with reduction := true }) where
  keeps := g.remarks_modifyNode id (fun _ hb => hb) fun _ => ⟨rfl, fun _ => rfl⟩
  operators _ := .inl rfl

theorem gives_isReductionLoop {verdict : Bool}
    (hloop : g.node id = .ok loop) (h : (isReductionLoop loop).runOn g = (.ok verdict, g')) :
    Gives (g.combinedAt id) g g' := by
  obtain ⟨reported, -, h⟩ := runOn_lift_bind_eq_ok h
  obtain ⟨classes, g₁, hclasses, h⟩ := runOn_bind_eq_ok h
  have hgives : Gives (g.combinedAt id) g g₁ := gives_classifyLoop hloop hclasses
  rw [runOn_graph_bind] at h
  dsimp only at h
  split at h
  · cases h
    exact hgives
  · obtain ⟨indirect, -, h⟩ := runOn_lift_bind_eq_ok h
    split at h
    · cases h
      exact hgives.quiet (g₁.gives_modifyNode loop.id fun n => ⟨n.unmarked_modifyLoop true,
        by unfold Node.modifyLoop; split <;> rfl⟩)
    · cases h
      exact hgives

end Graph

def ReductionPattern.CombinedIn (g : Graph) (ids : List NodeId) (p : ReductionPattern) : Prop :=
  ∀ v ∈ p.vars.reduction, ∃ id ∈ ids, ∃ e ∈ g.combinedAt id, e.1 = v

theorem ReductionPattern.CombinedIn.keeps {h : Graph} {ids more : List NodeId} {p : ReductionPattern}
    (hp : p.CombinedIn g ids) (hkeeps : g.KeepsReductions h) (hsub : ids ⊆ more) : p.CombinedIn h more := by
  intro v hv
  obtain ⟨id, hid, e, he, hv⟩ := hp v hv
  exact ⟨id, hsub hid, e, hkeeps.mem_combinedAt he, hv⟩

theorem ReductionPattern.combinedIn_classifyLoop {vars : LoopVariables}
    (hloop : g.node id = .ok loop) (h : (classifyLoop loop).runOn g = (.ok vars, g'))
    (site : PatternSite) : CombinedIn g' [id] { site, vars } := by
  obtain ⟨signs, hsigns, -, hperm⟩ := classifyLoop_spec h
  intro v hv
  refine ⟨id, mem_singleton_self id, ?_⟩
  rw [(gives_classifyLoop hloop h).same.combinedAt, combinedAt_of_ok hloop hsigns]
  exact mem_map.1 (hperm.mem_iff.1 hv)

theorem reduces_reductionTurn {found found' : List ReductionPattern}
    (h : DetectionTurn isReductionLoop markReduction isReportable ReductionPattern.mk id found g found' g') :
    Reduces [id] g g' ∧ ∀ p ∈ found', p ∈ found ∨ p.CombinedIn g' [id] := by
  cases h with
  | rejected hloop htest =>
    exact ⟨(gives_isReductionLoop hloop htest).reduces_singleton, fun p hp => .inl hp⟩
  | unreported hloop htest =>
    have htested := (gives_isReductionLoop hloop htest).reduces_singleton
    exact ⟨htested.trans (reduces_modifyNode _ id), fun p hp => .inl hp⟩
  | reported hloop htest hnode hcounts hvars =>
    have htested := (gives_isReductionLoop hloop htest).reduces_singleton
    have hmarked := htested.trans (reduces_modifyNode _ id)
    refine ⟨?_, fun p hp => ?_⟩
    · exact (hmarked.trans (gives_classifyLoop hnode hvars).reduces_singleton).mono (by simp)
    · rcases mem_append.1 hp with hp | hp
      · exact .inl hp
      · obtain rfl := mem_singleton.1 hp
        exact .inr (ReductionPattern.combinedIn_classifyLoop hnode hvars _)

theorem reduces_reductionTurns {ls : List Node} {found found' : List ReductionPattern}
    (h : (ls.foldlM (detectionTurn isReductionLoop markReduction isReportable ReductionPattern.mk) found).runOn g =
      (.ok found', g')) :
    Reduces (ls.map (·.id)) g g' ∧ ∀ p ∈ found', p ∈ found ∨ p.CombinedIn g' (ls.map (·.id)) := by
  refine foldlM_runOn_induction (M := fun ls found g found' g' => Reduces (ls.map (·.id)) g g' ∧
    ∀ p ∈ found', p ∈ found ∨ p.CombinedIn g' (ls.map (·.id))) ?_ ?_ h
  · intro found g
    exact ⟨(Gives.refl g).reduces_nil, fun p hp => .inl hp⟩
  · intro l ls found g found₁ g₁ found' g' hturn hrest
    obtain ⟨hreduces, hfound⟩ := reduces_reductionTurn (detectionTurn_cases hturn)
    refine ⟨hreduces.trans hrest.1, fun p hp => ?_⟩
    rcases hrest.2 p hp with hp | hp
    · rcases hfound p hp with hp | hp
      · exact .inl hp
      · exact .inr (hp.keeps hrest.1.keeps (by simp))
    · exact .inr (hp.keeps (Gives.refl g').same.keeps (by simp))

theorem operators_of_detectReductions (h : detectReductions.runOn g = (.ok rs, g')) :
    Reduces (g.loops.map (·.id)) g g' ∧ ∀ p ∈ rs, p.CombinedIn g' (g.loops.map (·.id)) := by
  rw [detectReductions, runOn_graph_bind] at h
  obtain ⟨found, g₁, hfold, hmap⟩ := runOn_bind_eq_ok h
  obtain ⟨hreduces, hfound⟩ := reduces_reductionTurns hfold
  obtain ⟨hsites, hvars⟩ : Gives [] g₁ g' ∧ ∀ q ∈ rs, ∃ p ∈ found, q.vars = p.vars := by
    refine mapM_runOn_keeps (P := Gives [] g₁) ?_ (.refl g₁) hmap
    intro p q g₁ g₂ hg₁ hsite
    obtain ⟨_, _, hsite, hq⟩ := runOn_bind_eq_ok hsite
    cases hq
    exact ⟨hg₁.quiet (gives_withWorkload hsite).1, rfl⟩
  refine ⟨(hreduces.trans hsites.reduces_nil).mono (by simp), fun q hq => ?_⟩
  obtain ⟨p, hp, hvars⟩ := hvars q hq
  have hcombined := ((hfound p hp).resolve_left not_mem_nil).keeps hsites.same.keeps (Subset.refl _)
  rwa [ReductionPattern.CombinedIn, ← hvars] at hcombined

/-! ## Reports -/

/-- The sign of the last loop of the graph that combines the variable. -/
def Graph.lastSign? (g : Graph) (v : Variable) : Option String := v.place.bind fun place => signAt place g.signs

theorem isSome_lastSign? {sign : String} {place : Nat} (hmem : (v, sign) ∈ g.signs)
    (hplace : v.place = some place) : (g.lastSign? v).isSome := by
  rw [lastSign?, hplace]
  exact isSome_signAt_iff.2 ⟨(v, sign), hmem, hplace⟩

section

variable (hr : detectReductions.runOn g = (.ok rs, g₁)) (hd : detectDoAll.runOn g₁ = (.ok ds, g₂))
include hr hd

theorem operator?_of_detections (v : Variable) :
    g₂.operator? v = if SharedAt ds v.place then none else (g₂.lastSign? v).or (g.operator? v) := by
  obtain ⟨hreduces, -⟩ := operators_of_detectReductions hr
  obtain ⟨hsame, hoperators⟩ := operators_of_detectDoAll hd
  unfold operator? lastSign?
  cases hv : v.place with
  | none => simp
  | some place =>
    rw [Option.bind_some, Option.bind_some, Option.bind_some, hoperators, hsame.signs]
    rcases hreduces.operators place with heq | ⟨id, hid, e, he, hplace⟩
    · rw [heq]
    · -- the operator that the first detection left is given again by the second one
      have hsome : (signAt place g₁.signs).isSome := by
        refine isSome_signAt_iff.2 ⟨e, mem_flatMap.2 ⟨id, ?_, he⟩, hplace⟩
        rwa [map_id_loops_of_unmarked hreduces.keeps.unmarked]
      obtain ⟨sign, hsign⟩ := Option.isSome_iff_exists.1 hsome
      rw [hsign, Option.some_or, Option.some_or]

theorem exists_mem_signs_of_detections {p : ReductionPattern} (hp : p ∈ rs)
    (hv : v ∈ p.vars.reduction) : ∃ sign, (v, sign) ∈ g₂.signs := by
  obtain ⟨hreduces, hcombined⟩ := operators_of_detectReductions hr
  obtain ⟨id, hid, e, he, rfl⟩ := hcombined p hp v hv
  rw [← map_id_loops_of_unmarked hreduces.keeps.unmarked] at hid
  rw [(operators_of_detectDoAll hd).1.signs]
  exact ⟨e.2, mem_flatMap.2 ⟨id, hid, he⟩⟩

end

/-- The variables of a loop that are reported by their names. -/
def LoopVariables.plain (c : LoopVariables) : List Variable :=
  c.firstPrivate ++ c.privates ++ c.lastPrivate ++ c.shared

/-- The variables of all reported loops, by classes. -/
def reportedClasses (rs : List ReductionPattern) (ds : List DoAllPattern) : List LoopVariables :=
  rs.map (·.vars) ++ ds.map (·.vars)

/-- Every reduction variable of a reported reduction has the sign that the run reported for the
loop, and the other variables of the reported loops appear as plain names. -/
structure OperatorsSurvive (rs : List ReductionPattern) (ds : List DoAllPattern) (g : Graph) : Prop where
  reduction : ∀ p ∈ rs, ∀ v ∈ p.vars.reduction, ∃ sign ≠ "",
    g.reductionSign p.site.startLine v.name = .ok sign ∧ g.operator? v = some sign
  plain : ∀ c ∈ reportedClasses rs ds, ∀ v ∈ c.plain, PatternEncoding.variableText g v = .optionStr v.name

theorem variableText_eq_name_iff :
    PatternEncoding.variableText g v = .optionStr v.name ↔ (g.operator? v).getD "" = "" := by
  unfold PatternEncoding.variableText
  cases hop : g.operator? v with
  | none => simp
  | some op =>
    rw [Option.getD_some]
    by_cases hempty : op = ""
    · simp [hempty]
    · simp only [beq_iff_eq, hempty, iff_false]
      cases v.name with
      | none => simp [Json.optionStr]
      | some n =>
        intro heq
        have hlength := congrArg String.length (Json.str.inj heq)
        simp at hlength

/-- After both detections, the operators are those of the reported reductions exactly if no reported
do-all loop shares a reduction variable and the last loop that combines it does so by the same sign,
and if every plain variable is shared by a reported do-all loop or has no sign, neither from the
last loop that combines it nor from before. -/
theorem operatorsSurvive_iff {g g₁ g₂ : Graph} {rs : List ReductionPattern} {ds : List DoAllPattern}
    (hr : detectReductions.runOn g = (.ok rs, g₁)) (hd : detectDoAll.runOn g₁ = (.ok ds, g₂)) :
    OperatorsSurvive rs ds g₂ ↔
      (∀ p ∈ rs, ∀ v ∈ p.vars.reduction, ¬ SharedAt ds v.place ∧ ∃ sign ≠ "",
        g₂.reductionSign p.site.startLine v.name = .ok sign ∧ g₂.lastSign? v = some sign) ∧
      ∀ c ∈ reportedClasses rs ds, ∀ v ∈ c.plain,
        SharedAt ds v.place ∨ ((g₂.lastSign? v).or (g.operator? v)).getD "" = "" := by
  have hlaw := operator?_of_detections hr hd
  constructor
  · intro h
    refine ⟨fun p hp v hv => ?_, fun c hc v hv => ?_⟩
    · obtain ⟨sign, hne, hsign, hop⟩ := h.reduction p hp v hv
      obtain ⟨place, hplace, -⟩ := Option.bind_eq_some_iff.1 hop
      obtain ⟨_, hmem⟩ := exists_mem_signs_of_detections hr hd hp hv
      obtain ⟨last, hlast⟩ := Option.isSome_iff_exists.1 (isSome_lastSign? hmem hplace)
      rw [hlaw, hlast] at hop
      split at hop
      · cases hop
      · rename_i hshared
        cases hop
        exact ⟨hshared, sign, hne, hsign, hlast⟩
    · have hplain := variableText_eq_name_iff.1 (h.plain c hc v hv)
      rw [hlaw] at hplain
      by_cases hshared : SharedAt ds v.place
      · exact .inl hshared
      · rw [if_neg hshared] at hplain
        exact .inr hplain
  · rintro ⟨hown, hplain⟩
    refine ⟨fun p hp v hv => ?_, fun c hc v hv => ?_⟩
    · obtain ⟨hshared, sign, hne, hsign, hlast⟩ := hown p hp v hv
      refine ⟨sign, hne, hsign, ?_⟩
      rw [hlaw, if_neg hshared, hlast, Option.some_or]
    · rw [variableText_eq_name_iff, hlaw]
      by_cases hshared : SharedAt ds v.place
      · rw [if_pos hshared]
        rfl
      · rw [if_neg hshared]
        exact (hplain c hc v hv).resolve_left hshared

/-- A loop in a loop, with one unit that changes a variable. -/
def nestedLoops (reductions : List ReductionRecord) : Graph where
  nodes :=
    let loop (id : NodeId) (number start finish : Int) : Node :=
      { id, file := 1, number, startLine := start, endLine := finish, name := none, parentFunction := some "1:0",
        body := .loop { iterations := 10 } }
    let unit (id : NodeId) (number line : Int) (locals : List Variable) : Node :=
      { id, file := 1, number, startLine := line, endLine := line, name := none, parentFunction := some "1:0",
        body := .unit { locals } }
    let x : Variable := { type := some "int", name := some "x", defLine := some "1:2", size := 4, place := some 0 }
    ⟨[("1:0", { id := "1:0", file := 1, number := 0, startLine := 1, endLine := 9, name := some "main",
                body := .function {} }),
      ("1:1", loop "1:1" 1 3 7), ("1:2", loop "1:2" 2 4 6), ("1:3", unit "1:3" 3 8 []),
      ("1:4", unit "1:4" 4 5 [x])]⟩
  links :=
    let link (s t : NodeId) (kind : EdgeKind) : Link := ⟨s, t, [(0, { edge := kind })]⟩
    [link "1:0" "1:1" .child, link "1:0" "1:3" .child, link "1:1" "1:2" .child,
      link "1:2" "1:4" .child, link "1:4" "1:3" .successor,
      ⟨"1:4", "1:4", [(0, { edge := .data, kind := some .readAfterWrite, var := some "x", region := some "m",
                            sourceLine := some "1:5", sinkLine := some "1:5",
                            intraIteration := true, level := 0 })]⟩]
  reductions := some reductions

/-- The loop on the line combines the variable. -/
def combinesOn (line : LineId) (sign : String) : ReductionRecord where
  loopLine := line
  name := "x"
  reductionLine := "1:5"
  operation := sign

/-- What a detection finds, and nothing if it fails. -/
def foundIn {α : Type} (a : Analysis (List α)) (g : Graph) : List α := ((a.runOn g).1.toOption).getD []

theorem runOn_eq_foundIn {α : Type} {a : Analysis (List α)} (h : (a.runOn g).1.toOption.isSome) :
    a.runOn g = (.ok (foundIn a g), (a.runOn g).2) := by
  unfold foundIn
  cases hrun : a.runOn g with
  | mk r g' =>
    cases r with
    | error e =>
      rw [hrun] at h
      cases h
    | ok found => rfl

def afterReductions (g : Graph) : Graph := (detectReductions.runOn g).2

def afterDetections (g : Graph) : Graph := (detectDoAll.runOn (afterReductions g)).2

/-- Both loops add to the variable. -/
def addingLoops : Graph := nestedLoops [combinesOn "1:3" "+", combinesOn "1:4" "+"]

/-- Both loops are reported as reductions, and the variable keeps the operator that they have in
common. -/
theorem operatorsSurvive_iff_addingLoops :
    ∃ rs g₁ ds g₂, detectReductions.runOn addingLoops = (.ok rs, g₁) ∧ detectDoAll.runOn g₁ = (.ok ds, g₂) ∧
      rs.map (·.site.startLine) = ["1:3", "1:4"] ∧ OperatorsSurvive rs ds g₂ := by
  have hr := runOn_eq_foundIn (a := detectReductions) (g := addingLoops) (by decide +kernel)
  have hd := runOn_eq_foundIn (a := detectDoAll) (g := afterReductions addingLoops) (by decide +kernel)
  have hplus : ∀ p ∈ foundIn detectReductions addingLoops, ∀ v ∈ p.vars.reduction,
      ¬ SharedAt (foundIn detectDoAll (afterReductions addingLoops)) v.place ∧
        (afterDetections addingLoops).reductionSign p.site.startLine v.name = .ok "+" ∧
        (afterDetections addingLoops).lastSign? v = some "+" := by decide +kernel
  refine ⟨_, _, _, _, hr, hd, by decide +kernel, (operatorsSurvive_iff hr hd).2 ⟨fun p hp v hv => ?_, ?_⟩⟩
  · obtain ⟨hshared, hsign, hlast⟩ := hplus p hp v hv
    exact ⟨hshared, "+", by decide, hsign, hlast⟩
  · decide +kernel

/-- The inner loop adds to the variable. -/
def addingInside : Graph := nestedLoops [combinesOn "1:4" "+"]

/-- The inner loop adds to the variable, and the outer one multiplies it. -/
def mixingLoops : Graph := nestedLoops [combinesOn "1:3" "*", combinesOn "1:4" "+"]

/-- If only the inner loop adds to the variable, the outer loop is reported as a do-all loop, and
its private variable has the operator of the inner loop. If the outer loop multiplies the variable,
its reduction is reported with the operator of the inner loop. -/
theorem not_operatorsSurvive_nestedLoops :
    (∃ rs g₁ ds g₂, detectReductions.runOn addingInside = (.ok rs, g₁) ∧ detectDoAll.runOn g₁ = (.ok ds, g₂) ∧
      (∃ d ∈ ds, d.site.startLine = "1:3" ∧ ∃ v ∈ d.vars.privates, g₂.operator? v = some "+") ∧
      ¬ OperatorsSurvive rs ds g₂) ∧
    ∃ rs g₁ ds g₂, detectReductions.runOn mixingLoops = (.ok rs, g₁) ∧ detectDoAll.runOn g₁ = (.ok ds, g₂) ∧
      (∃ p ∈ rs, p.site.startLine = "1:3" ∧ ∃ v ∈ p.vars.reduction,
        g₂.reductionSign p.site.startLine v.name = .ok "*" ∧ g₂.operator? v = some "+") ∧
      ¬ OperatorsSurvive rs ds g₂ := by
  constructor
  · have hr := runOn_eq_foundIn (a := detectReductions) (g := addingInside) (by decide +kernel)
    have hd := runOn_eq_foundIn (a := detectDoAll) (g := afterReductions addingInside) (by decide +kernel)
    have hprivate : ∃ d ∈ foundIn detectDoAll (afterReductions addingInside), d.site.startLine = "1:3" ∧
        ∃ v ∈ d.vars.privates, (afterDetections addingInside).operator? v = some "+" := by decide +kernel
    refine ⟨_, _, _, _, hr, hd, hprivate, fun h => ?_⟩
    obtain ⟨d, hmem, -, v, hv, hop⟩ := hprivate
    have hclass : d.vars ∈ reportedClasses (foundIn detectReductions addingInside)
        (foundIn detectDoAll (afterReductions addingInside)) :=
      mem_append_right _ (mem_map_of_mem hmem)
    have hplain := variableText_eq_name_iff.1 (h.plain d.vars hclass v (by simp [LoopVariables.plain, hv]))
    rw [show (detectDoAll.runOn (afterReductions addingInside)).2.operator? v = some "+" from hop] at hplain
    exact absurd hplain (by decide)
  · have hr := runOn_eq_foundIn (a := detectReductions) (g := mixingLoops) (by decide +kernel)
    have hd := runOn_eq_foundIn (a := detectDoAll) (g := afterReductions mixingLoops) (by decide +kernel)
    have hmixed : ∃ p ∈ foundIn detectReductions mixingLoops, p.site.startLine = "1:3" ∧ ∃ v ∈ p.vars.reduction,
        (afterDetections mixingLoops).reductionSign p.site.startLine v.name = .ok "*" ∧
          (afterDetections mixingLoops).operator? v = some "+" := by decide +kernel
    refine ⟨_, _, _, _, hr, hd, hmixed, fun h => ?_⟩
    obtain ⟨p, hp, -, v, hv, hsign, hop⟩ := hmixed
    obtain ⟨sign, -, hsign', hop'⟩ := h.reduction p hp v hv
    cases hsign.symm.trans hsign'
    exact absurd (hop.symm.trans hop') (by decide)

end ParallelPatterns
