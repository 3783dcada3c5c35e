import ParallelPatterns.Proofs.Assembly

/-!
# Descriptions read after earlier ones

The units on a line are kept from one description of units to the next. What an earlier description
leaves behind stands in front of the units of the description that is read, and reading it fails or
succeeds as if it were the first.

What stays behind can show in the graph: a recorded dependence then also joins units of the earlier
program that stand on its lines, or fails because of them. The graph is the same up to the order of
its edges if and only if every record by itself joins the same units. One direction is plain. For
the other one, the dependence that an arc carries tells the records it can come from, and these
records join the same units as often as each other; so no record can make up for what another one
adds or loses.
-/

open List

namespace ParallelPatterns

variable {α β : Type} {earlier u u' v : UnitFile}

theorem exists_mapM_perm {f f' : α → Result (List β)} {xs : List α} {yss : List (List β)} (h : xs.mapM f = .ok yss)
    (hsame : ∀ x ∈ xs, ∃ ys ys', f x = .ok ys ∧ f' x = .ok ys' ∧ ys' ~ ys) :
    ∃ yss', xs.mapM f' = .ok yss' ∧ yss'.flatten ~ yss.flatten := by
  have hperm : ∀ x ∈ xs, ∀ ys, f x = .ok ys → ∃ ys', f' x = .ok ys' ∧ ys' ~ ys := by
    intro x hx ys hys
    obtain ⟨ys₁, ys', hys₁, hys', hperm⟩ := hsame x hx
    cases hys.symm.trans hys₁
    exact ⟨ys', hys', hperm⟩
  obtain ⟨yss', hyss', hperms⟩ := exists_mapM_forall₂ hperm h
  exact ⟨yss', hyss', .flatten_congr hperms⟩

/-! ## Units on lines -/

theorem addAll_addNew [BEq α] [LawfulBEq α] (xs ys : List α) (y : α) :
    addAll xs (addNew ys y) = addNew (addAll xs ys) y := by
  by_cases hy : ys.contains y
  · have hmem : y ∈ addAll xs ys := mem_addAll.2 (.inr (elem_iff.1 hy))
    have hcontains : (addAll xs ys).contains y := elem_iff.2 hmem
    rw [addNew, if_pos hy, addNew, if_pos hcontains]
  · rw [addNew, if_neg hy, addAll, foldl_append]
    rfl

namespace UnitFile

/-- The description says what the other one says, after what the earlier one noted on lines. -/
structure After (earlier u u' : UnitFile) : Prop where
  records : u'.records = u.records
  readers : ∀ line, u'.readers.getD line [] = addAll (earlier.readers.getD line []) (u.readers.getD line [])
  writers : ∀ line, u'.writers.getD line [] = addAll (earlier.writers.getD line []) (u.writers.getD line [])

theorem getD_noteLines {e t t' : Table LineId (List NodeId)}
    (h : ∀ line, t'.getD line [] = addAll (e.getD line []) (t.getD line [])) (lines : List LineId) (id : NodeId) :
    ∀ line, (noteLines t' lines id).getD line [] =
      addAll (e.getD line []) ((noteLines t lines id).getD line []) := by
  induction lines generalizing t t' with
  | nil => exact h
  | cons l lines ih =>
    refine ih fun line => ?_
    rw [Table.getD_update, Table.getD_update]
    split
    · rw [h, addAll_addNew]
    · exact h line

theorem After.addRecord (h : earlier.After u u') {r : NodeRecord}
    (hv : (if u.records.any (fun o => o.id == r.id) then pure u
      else pure { u with records := u.records ++ [r] } : Result UnitFile) = .ok v) :
    ∃ v', (if u'.records.any (fun o => o.id == r.id) then pure u'
      else pure { u' with records := u'.records ++ [r] } : Result UnitFile) = .ok v' ∧ earlier.After v v' := by
  rw [h.records]
  by_cases hknown : u.records.any (fun o => o.id == r.id)
  · rw [if_pos hknown] at hv ⊢
    cases hv
    exact ⟨u', rfl, h⟩
  · rw [if_neg hknown] at hv ⊢
    cases hv
    exact ⟨_, rfl, rfl, h.readers, h.writers⟩

theorem After.add (h : earlier.After u u') {m : Markup} (hv : u.add m = .ok v) :
    ∃ v', u'.add m = .ok v' ∧ earlier.After v v' := by
  unfold UnitFile.add at hv ⊢
  obtain ⟨r, hr, hv⟩ := bind_eq_ok_iff.1 hv
  simp only [hr]
  by_cases htype : (r.type == some "0")
  · rw [if_pos htype] at hv
    obtain ⟨written, hwritten, hv⟩ := bind_eq_ok_iff.1 hv
    obtain ⟨read, hread, hv⟩ := bind_eq_ok_iff.1 hv
    have hnoted : earlier.After
        { u with
          writers := noteLines u.writers (Text.split "," written.shown) (r.id.getD "")
          readers := noteLines u.readers (Text.split "," read.shown) (r.id.getD "") }
        { u' with
          writers := noteLines u'.writers (Text.split "," written.shown) (r.id.getD "")
          readers := noteLines u'.readers (Text.split "," read.shown) (r.id.getD "") } :=
      ⟨h.records, getD_noteLines h.readers _ _, getD_noteLines h.writers _ _⟩
    obtain ⟨v', hv', hafter⟩ := hnoted.addRecord hv
    refine ⟨v', ?_, hafter⟩
    show (if _ then _ else _) = _
    rw [if_pos htype, hwritten, hread]
    exact hv'
  · rw [if_neg htype] at hv
    obtain ⟨v', hv', hafter⟩ := h.addRecord hv
    refine ⟨v', ?_, hafter⟩
    show (if _ then _ else _) = _
    rw [if_neg htype]
    exact hv'

theorem After.foldlM_add (h : earlier.After u u') {ms : List Markup}
    (hv : ms.foldlM UnitFile.add u = .ok v) : ∃ v', ms.foldlM UnitFile.add u' = .ok v' ∧ earlier.After v v' := by
  induction ms generalizing u u' with
  | nil =>
    cases hv
    exact ⟨u', rfl, h⟩
  | cons m ms ih =>
    rw [foldlM_cons, bind_eq_ok_iff] at hv
    obtain ⟨w, hfirst, hrest⟩ := hv
    obtain ⟨w', hfirst', hw⟩ := h.add hfirst
    obtain ⟨v', hrest', hafter⟩ := ih hw hrest
    refine ⟨v', ?_, hafter⟩
    rw [foldlM_cons, bind_eq_ok_iff]
    exact ⟨w', hfirst', hrest'⟩

theorem exists_parse_after {text : String} (h : parse {} text = .ok u) (earlier : UnitFile) :
    ∃ u', parse earlier text = .ok u' ∧ earlier.After u u' := by
  obtain ⟨root, hroot, h⟩ := bind_eq_ok_iff.1 h
  obtain ⟨v, hv, h⟩ := bind_eq_ok_iff.1 h
  obtain ⟨records, hrecords, h⟩ := bind_eq_ok_iff.1 h
  cases h
  have hstart : earlier.After { ({} : UnitFile) with records := [] } { earlier with records := [] } :=
    ⟨rfl, fun line => rfl, fun line => rfl⟩
  obtain ⟨v', hv', hafter⟩ := hstart.foldlM_add hv
  refine ⟨{ v' with records }, ?_, rfl, hafter.readers, hafter.writers⟩
  have hrecords' : resolveDummies v'.records = .ok records := by rw [hafter.records, hrecords]
  exact bind_eq_ok_iff.2 ⟨root, hroot, bind_eq_ok_iff.2 ⟨v', hv', bind_eq_ok_iff.2 ⟨records, hrecords', rfl⟩⟩⟩

end UnitFile

/-! ## Arcs of records -/

theorem Dependence.parseKind_eq_init_iff {type : String} :
    parseKind type = .ok (.initial, none) ↔ type = "INIT" := by
  constructor
  · intro h
    rcases parseKind_eq_ok h with ⟨-, htype⟩ | ⟨hlevel, -⟩
    · exact htype
    · exact absurd rfl hlevel
  · rintro rfl
    rfl

variable {g : Graph} {p : ProgramInput}

namespace Graph

theorem recordArcs_eq_of_dependence {d d' : DependenceRecord} {dep : Dependence} (h : d.dependence = .ok dep)
    (h' : d'.dependence = .ok dep) : g.recordArcs u d = g.recordArcs u d' := by
  obtain ⟨kind, level, hkind, heq⟩ := DependenceRecord.dependence_eq_ok h
  obtain ⟨kind', level', hkind', heq'⟩ := DependenceRecord.dependence_eq_ok h'
  rw [heq, Dependence.mk.injEq] at heq'
  obtain ⟨-, hkinds, hvar, hregion, hsource, hsink, hintra, hlevels⟩ := heq'
  rw [Option.some.injEq] at hkinds hvar hsource hsink
  -- a record tells a first write if its kind says so and no level is given
  have htype : (d.type == "INIT") = (d'.type == "INIT") := by
    rw [Bool.eq_iff_iff, beq_iff_eq, beq_iff_eq, ← Dependence.parseKind_eq_init_iff,
      ← Dependence.parseKind_eq_init_iff, hkind, hkind', hkinds]
    cases level with
    | none =>
      cases level' with
      | none => rfl
      | some n => cases hintra
    | some n =>
      cases level' with
      | none => cases hintra
      | some n' => simp
  have hpairs : pairsOnLines u d = pairsOnLines u d' := by
    rw [pairsOnLines, pairsOnLines, htype, hsink, hsource]
  have harcs : g.arcsBetween d = g.arcsBetween d' := by
    funext p
    rw [arcsBetween, arcsBetween, htype, hvar, h, h']
  rw [recordArcs, recordArcs, hpairs, harcs]

/-- With both notes of the units on lines, the record joins the same units. -/
def JoinsSame (g : Graph) (u u' : UnitFile) (d : DependenceRecord) : Prop :=
  ∃ as as', g.recordArcs u d = .ok as ∧ g.recordArcs u' d = .ok as' ∧ as' ~ as

theorem count_flatten_recordArcs {ds : List DependenceRecord} {ass : List (List Arc)}
    (hass : ds.mapM (g.recordArcs u) = .ok ass) {d : DependenceRecord} {as : List Arc}
    (has : g.recordArcs u d = .ok as) {a : Arc} (hdep : d.dependence = .ok a.dep) :
    ass.flatten.count a = ds.countP (fun d' => d'.dependence.toOption == some a.dep) * as.count a := by
  induction ds generalizing ass with
  | nil =>
    cases hass
    simp
  | cons d' ds ih =>
    rw [mapM_cons, bind_eq_ok_iff] at hass
    obtain ⟨as', has', hass⟩ := hass
    obtain ⟨ass', hass', hass⟩ := bind_eq_ok_iff.1 hass
    cases hass
    rw [flatten_cons, count_append, ih hass']
    by_cases hd' : d'.dependence = .ok a.dep
    · rw [recordArcs_eq_of_dependence hd' hdep, has] at has'
      cases has'
      rw [countP_cons_of_pos (by rw [hd']; simp [Except.toOption]), Nat.succ_mul, Nat.add_comm]
    · have hzero : as'.count a = 0 := by
        rw [count_eq_zero]
        intro ha
        exact hd' (dependence_of_mem_recordArcs has' ha)
      rw [hzero, Nat.zero_add, countP_cons_of_neg]
      cases hx : d'.dependence with
      | error e => simp [Except.toOption]
      | ok x =>
        rw [hx] at hd'
        simpa [Except.toOption] using hd'

theorem hasUnknownTarget_addArcs_congr (g : Graph) {as as' : List Arc} (h : as' ~ as) :
    (g.addArcs as').hasUnknownTarget = (g.addArcs as).hasUnknownTarget := by
  have hpairs : ∀ as : List Arc, (g.addArcs as).hasUnknownTarget ↔
      ∃ pair, (pair ∈ g.links.map Link.pair ∨ ∃ a ∈ as, (a.source, a.target) = pair) ∧
        g.nodes.contains pair.2 = false := by
    intro as
    rw [hasUnknownTarget, any_eq_true, nodes_addArcs]
    constructor
    · rintro ⟨l, hl, hunknown⟩
      refine ⟨l.pair, mem_map_pair_addArcs.1 (mem_map.2 ⟨l, hl, rfl⟩), ?_⟩
      rwa [Bool.not_eq_true'] at hunknown
    · rintro ⟨pair, hpair, hunknown⟩
      obtain ⟨l, hl, rfl⟩ := mem_map.1 (mem_map_pair_addArcs.2 hpair)
      refine ⟨l, hl, ?_⟩
      rwa [Bool.not_eq_true']
  rw [Bool.eq_iff_iff, hpairs, hpairs]
  simp only [h.mem_iff]

end Graph

open ParallelPatterns.Graph in
theorem ProgramInput.sameArcs_iff (hg : p.toGraph = .ok g) (hrecords : u.records = p.units.records) :
    (∃ g', toGraph { p with units := u } = .ok g' ∧ g'.nodes = g.nodes ∧ g'.arcs ~ g.arcs) ↔
      ∀ d ∈ p.dependences, g.JoinsSame p.units u d := by
  obtain ⟨s, ass, hs, hass, hknown, hgraph⟩ := toGraph_eq_ok_iff.1 hg
  have hskeleton : skeleton { p with units := u } = .ok s := by
    rw [← hs, skeleton, skeleton, hrecords]
  have hnodes : g.nodes = s.nodes := by
    rw [hgraph]
    exact nodes_addArcs s ass.flatten
  have harcs : g.arcs ~ s.arcs ++ ass.flatten := by
    rw [hgraph]
    exact arcs_addArcs_perm s ass.flatten
  unfold JoinsSame
  rw [recordArcs_congr hnodes]
  constructor
  · rintro ⟨g', hg', -, hsame⟩ d hd
    obtain ⟨s', ass', hs', hass', -, hgraph'⟩ := toGraph_eq_ok_iff.1 hg'
    rw [hskeleton] at hs'
    cases hs'
    have harcs' : g'.arcs ~ s.arcs ++ ass'.flatten := by
      rw [hgraph']
      exact arcs_addArcs_perm s ass'.flatten
    -- the skeleton is the same, so the records make the same arcs when taken together
    have htogether : ass'.flatten ~ ass.flatten :=
      (perm_append_left_iff s.arcs).1 (harcs'.symm.trans (hsame.trans harcs))
    obtain ⟨as, has⟩ := exists_of_mapM_eq_ok hass hd
    obtain ⟨as', has'⟩ := exists_of_mapM_eq_ok hass' hd
    refine ⟨as, as', has, has', perm_iff_count.2 fun a => ?_⟩
    by_cases hdep : d.dependence = .ok a.dep
    · have hcount := htogether.count_eq a
      rw [count_flatten_recordArcs hass has hdep, count_flatten_recordArcs hass' has' hdep] at hcount
      have hpos : 0 < p.dependences.countP (fun d' => d'.dependence.toOption == some a.dep) :=
        countP_pos_iff.2 ⟨d, hd, by rw [hdep]; simp [Except.toOption]⟩
      exact Nat.eq_of_mul_eq_mul_left hpos hcount
    · have hnone : ∀ {v : UnitFile} {bs : List Arc}, s.recordArcs v d = .ok bs → bs.count a = 0 := by
        intro v bs hbs
        rw [count_eq_zero]
        exact fun ha => hdep (dependence_of_mem_recordArcs hbs ha)
      rw [hnone has, hnone has']
  · intro hjoins
    obtain ⟨ass', hass', hsame⟩ := exists_mapM_perm hass hjoins
    have hknown' : (s.addArcs ass'.flatten).hasUnknownTarget = false := by
      rw [hasUnknownTarget_addArcs_congr s hsame, hknown]
    refine ⟨_, toGraph_eq_ok_iff.2 ⟨s, ass', hskeleton, hass', hknown', rfl⟩, ?_, ?_⟩
    · rw [hnodes]
      exact nodes_addArcs s ass'.flatten
    · exact (arcs_addArcs_perm s ass'.flatten).trans ((hsame.append_left s.arcs).trans harcs.symm)

theorem ProgramInput.loadBeside_eq_ok {own : UnitFile} {files : Files} {paths : ProgramPaths}
    (h : loadBeside own files paths = .ok p) (u : UnitFile) :
    p.units = own ∧ loadBeside u files paths = .ok { p with units := u } := by
  unfold loadBeside at h ⊢
  obtain ⟨dependences, hdependences, h⟩ := bind_eq_ok_iff.1 h
  obtain ⟨mapping, hmapping, h⟩ := bind_eq_ok_iff.1 h
  rw [hdependences, hmapping]
  show _ ∧ (if _ then _ else _) = _
  by_cases hpresent : files.present paths.reductions
  · rw [if_pos hpresent] at h ⊢
    obtain ⟨text, htext, h⟩ := bind_eq_ok_iff.1 h
    obtain ⟨reductions, hreductions, h⟩ := bind_eq_ok_iff.1 h
    cases h
    exact ⟨rfl, bind_eq_ok_iff.2 ⟨text, htext, bind_eq_ok_iff.2 ⟨reductions, hreductions, rfl⟩⟩⟩
  · rw [if_neg hpresent] at h ⊢
    cases h
    exact ⟨rfl, rfl⟩

/-- After an earlier description the files of a run can be read as before, and the units of the
earlier one stand in front on every line. The graph of the program has the same nodes and the same
edges as without the earlier description if and only if every recorded dependence by itself joins
the same units. -/
theorem ProgramInput.graph_after_iff {description : String} {files : Files} {paths : ProgramPaths}
    {p : ProgramInput}
    {g : Graph} (hp : loadAfter {} description files paths = .ok p) (hg : p.toGraph = .ok g) (earlier : UnitFile) :
    ∃ u, loadAfter earlier description files paths = .ok { p with units := u } ∧ earlier.After p.units u ∧
      ((∃ g', toGraph { p with units := u } = .ok g' ∧ g'.nodes = g.nodes ∧ g'.arcs ~ g.arcs) ↔
        ∀ d ∈ p.dependences, g.JoinsSame p.units u d) := by
  obtain ⟨own, hown, hp⟩ := bind_eq_ok_iff.1 hp
  obtain ⟨u, hu, hafter⟩ := UnitFile.exists_parse_after hown earlier
  obtain ⟨rfl, hload⟩ := loadBeside_eq_ok hp u
  exact ⟨u, bind_eq_ok_iff.2 ⟨u, hu, hload⟩, hafter, sameArcs_iff hg hafter.records⟩

/-- The description of a program of one loop. -/
def loopDescription : String :=
  "<Nodes>\n<Node id='1:1' type='2' startsAtLine='1:1' endsAtLine='1:9'><childrenNodes/></Node>\n</Nodes>\n"

/-- The recorded dependences tell a first write on line 5. -/
def loopFiles : Files where
  texts := ⟨[("dependences", "1:5 NOM INIT *|x(m)\n"), ("mapping", "")]⟩

def loopPaths : ProgramPaths where
  units := "units"
  dependences := "dependences"
  reductions := "reductions"
  mapping := "mapping"

/-- No unit of the program stands on the line of the first write, but one of an earlier program
does. -/
theorem ProgramInput.graph_after_iff_loop :
    ∃ p g, loadAfter {} loopDescription loopFiles loopPaths = .ok p ∧ p.toGraph = .ok g ∧ g.arcs.length = 0 ∧
      ∃ u, loadAfter { readers := ⟨[("1:5", ["1:1"])]⟩ } loopDescription loopFiles loopPaths =
          .ok { p with units := u } ∧
        ((∃ g', toGraph { p with units := u } = .ok g' ∧ g'.nodes = g.nodes ∧ g'.arcs ~ g.arcs) ↔
          ∀ d ∈ p.dependences, g.JoinsSame p.units u d) := by
  have hrun : ((loadAfter {} loopDescription loopFiles loopPaths >>= toGraph).toOption.any
      fun g => g.arcs.length == 0) = true := by decide +kernel
  obtain ⟨g, hg, harcs⟩ := (Option.any_eq_true _ _).1 hrun
  have hload : (loadAfter {} loopDescription loopFiles loopPaths >>= toGraph) = .ok g := by
    cases hresult : loadAfter {} loopDescription loopFiles loopPaths >>= toGraph with
    | error e =>
      rw [hresult] at hg
      cases hg
    | ok g' =>
      rw [hresult] at hg
      cases hg
      rfl
  obtain ⟨p, hp, hgraph⟩ := bind_eq_ok_iff.1 hload
  obtain ⟨u, hu, -, hiff⟩ := graph_after_iff hp hgraph { readers := ⟨[("1:5", ["1:1"])]⟩ }
  exact ⟨p, g, hp, hgraph, beq_iff_eq.1 harcs, u, hu, hiff⟩

/-- A unit that reads on a line. -/
def unitReading (line : LineId) : Markup :=
  .element "Node" [("id", "1:1"), ("type", "0"), ("startsAtLine", "1:5"), ("endsAtLine", "1:6")]
    [.element "childrenNodes" [] [], .element "readPhaseLines" [] [.text line], .element "writePhaseLines" [] [],
      .element "localVariables" [] [], .element "globalVariables" [] [], .element "callsNode" [] [],
      .element "instructionsCount" [] [.text "1"]]

/-- A first write on line 5 is an edge of a unit on line 6, once a unit has been described on line
5. -/
theorem earlierUnits_show :
    ∃ earlier own kept, UnitFile.ofNodes {} [unitReading "1:5"] = .ok earlier ∧
      UnitFile.ofNodes {} [unitReading "1:6"] = .ok own ∧ UnitFile.ofNodes earlier [unitReading "1:6"] = .ok kept ∧
        ∃ g g', ProgramInput.toGraph ⟨own, [⟨"1:5", "*", "INIT", "x", "m"⟩], ∅, none⟩ = .ok g ∧
          ProgramInput.toGraph ⟨kept, [⟨"1:5", "*", "INIT", "x", "m"⟩], ∅, none⟩ = .ok g' ∧
            g.arcs.length = 0 ∧ g'.arcs.length = 1 :=
  ⟨_, _, _, rfl, rfl, rfl, _, _, rfl, rfl, rfl, rfl⟩

end ParallelPatterns
