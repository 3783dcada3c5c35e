import Mathlib.Order.Bounds.Basic
import ParallelPatterns.Proofs.AccessTables
import ParallelPatterns.Proofs.SuccessorView

/-!
# Handing accesses on to callers

The accesses below a function are handed on to the units that call it, round after round, until a
round records nothing new. Each function remembers what it has collected, from round to round and
from run to run.

A step of a round is described by what it does to two things: the accesses that are recorded, and
the accesses that functions remember. From this alone follows that the records end at the least ones
that hold the given accesses, hand on the accesses below every function to its callers, and hand on
what the functions remembered at the start. There is a last round, since nothing is recorded but
accesses to known regions by known units.

What a function remembered before a run is handed on as well, so a run depends on those before it;
it does not if and only if it hands on itself what they had found.
-/

namespace ParallelPatterns

open List

/-- What is recorded of the accesses of the nodes on each device, and what the functions
remember. -/
structure Standing where
  writes : Int → NodeId → Region → Set (Option Int)
  known : NodeId → Region → Set (Option Int)

namespace Graph

/-- The body of a function. -/
def body? (g : Graph) (f : NodeId) : Option FunctionBody := (g.node? f).bind Node.function?

/-- The identifiers of the functions. -/
def functionIds (g : Graph) : List NodeId := g.functions.map (·.id)

/-- The units that call the function. -/
def callers (g : Graph) (f : NodeId) : List NodeId := (g.inEdgesOf f [.call]).map (·.source)

/-- The nodes below the function. -/
def below (g : Graph) (f : NodeId) : List NodeId := ((g.body? f).bind (·.children)).getD []

/-- The accesses that the function remembers. -/
def remembered (g : Graph) (f : NodeId) : DeviceAccesses := ((g.body? f).bind (·.accesses)).getD ∅

def known (g : Graph) (f : NodeId) (r : Region) : Set (Option Int) := {i | ∃ d, i ∈ (g.remembered f).accessed d r}

/-- The accesses below every function, on any device, are accesses of its callers on the host. -/
def HandsOn (g : Graph) (V : Int → NodeId → Region → Set (Option Int)) : Prop :=
  ∀ f ∈ g.functionIds, ∀ c ∈ g.callers f, ∀ n ∈ g.below f, ∀ d r, V d n r ⊆ V 0 c r

/-- What the functions know are accesses of their callers on the host. -/
def Respects (g : Graph) (known : NodeId → Region → Set (Option Int))
    (V : Int → NodeId → Region → Set (Option Int)) : Prop :=
  ∀ f ∈ g.functionIds, ∀ c ∈ g.callers f, ∀ r, known f r ⊆ V 0 c r

/-- The accesses below a function. -/
def accessesBelow (g : Graph) (V : Int → NodeId → Region → Set (Option Int)) (f : NodeId)
    (r : Region) : Set (Option Int) :=
  {i | ∃ d, ∃ n ∈ g.below f, i ∈ V d n r}

/-! ## Steps and rounds -/

/-- The function collects the accesses below it and hands on all that it knows then. -/
structure Hands (g : Graph) (f : NodeId) (s s' : Standing) : Prop where
  known : ∀ r, s'.known f r = s.known f r ∪ g.accessesBelow s.writes f r
  others : ∀ f', f' ≠ f → s'.known f' = s.known f'
  writes : ∀ d n r i, i ∈ s'.writes d n r ↔ i ∈ s.writes d n r ∨ d = 0 ∧ n ∈ g.callers f ∧ i ∈ s'.known f r

inductive HandsAll (g : Graph) : List NodeId → Standing → Standing → Prop
  | nil (s : Standing) : HandsAll g [] s s
  | cons {f : NodeId} {fs : List NodeId} {s s₁ s' : Standing} (first : g.Hands f s s₁)
    (rest : HandsAll g fs s₁ s') : HandsAll g (f :: fs) s s'

/-- The records are the least ones that hold those at the start, hand on the accesses below
functions and respect what the functions knew at the start. In the end the functions know what is
recorded below them, too. -/
structure Settles (g : Graph) (s s' : Standing) : Prop where
  least : IsLeast {V | s.writes ≤ V ∧ g.HandsOn V ∧ g.Respects s.known V} s'.writes
  known : ∀ f ∈ g.functionIds, ∀ r, s'.known f r = s.known f r ∪ g.accessesBelow s'.writes f r

variable {known : NodeId → Region → Set (Option Int)} {b : FunctionBody}
  {xs : List (Int × NodeId × Region × Option Int)}

section Steps

variable {g : Graph} {f : NodeId} {fs : List NodeId} {s s₁ s' : Standing}
  {V V' : Int → NodeId → Region → Set (Option Int)}

theorem accessesBelow_mono (h : V ≤ V') (f : NodeId) (r : Region) :
    g.accessesBelow V f r ⊆ g.accessesBelow V' f r := by
  rintro i ⟨d, n, hn, hi⟩
  exact ⟨d, n, hn, h d n r hi⟩

theorem Respects.mono {known' : NodeId → Region → Set (Option Int)} (h : g.Respects known' V)
    (hknown : known ≤ known') : g.Respects known V :=
  fun f hf c hc r _ hi => h f hf c hc r (hknown f r hi)

theorem Hands.writes_le (h : g.Hands f s s') : s.writes ≤ s'.writes :=
  fun d n r i hi => (h.writes d n r i).2 (.inl hi)

theorem Hands.known_le (h : g.Hands f s s') : s.known ≤ s'.known := by
  intro f' r
  by_cases hf : f' = f
  · rw [hf, h.known]
    exact Set.subset_union_left
  · rw [h.others f' hf]

theorem Hands.bounded (h : g.Hands f s s') (hf : f ∈ g.functionIds) (hV : g.HandsOn V)
    (hs : s.writes ≤ V ∧ g.Respects s.known V) : s'.writes ≤ V ∧ g.Respects s'.known V := by
  have hrespects : g.Respects s'.known V := by
    intro f' hf' c hc r
    by_cases heq : f' = f
    · rw [heq, h.known]
      rw [heq] at hc
      refine Set.union_subset (hs.2 f hf c hc r) ?_
      rintro i ⟨d, n, hn, hi⟩
      exact hV f hf c hc n hn d r (hs.1 d n r hi)
    · rw [h.others f' heq]
      exact hs.2 f' hf' c hc r
  refine ⟨fun d n r i hi => ?_, hrespects⟩
  rcases (h.writes d n r i).1 hi with hi | ⟨rfl, hn, hi⟩
  · exact hs.1 d n r hi
  · exact hrespects f hf n hn r hi

section

variable (h : g.HandsAll fs s s')
include h

theorem HandsAll.writes_le : s.writes ≤ s'.writes := by
  induction h with
  | nil s => exact le_refl _
  | cons first _ ih => exact first.writes_le.trans ih

theorem HandsAll.known_le : s.known ≤ s'.known := by
  induction h with
  | nil s => exact le_refl _
  | cons first _ ih => exact first.known_le.trans ih

theorem HandsAll.bounded (hfs : ∀ f ∈ fs, f ∈ g.functionIds) (hV : g.HandsOn V)
    (hs : s.writes ≤ V ∧ g.Respects s.known V) : s'.writes ≤ V ∧ g.Respects s'.known V := by
  induction h with
  | nil s => exact hs
  | cons first _ ih =>
    obtain ⟨hfirst, hrest⟩ := forall_mem_cons.1 hfs
    exact ih hrest (first.bounded hfirst hV hs)

theorem HandsAll.known_subset (f : NodeId) (r : Region) :
    s'.known f r ⊆ s.known f r ∪ g.accessesBelow s'.writes f r := by
  induction h with
  | nil s => exact Set.subset_union_left
  | @cons f' fs s s₁ s' first rest ih =>
    refine ih.trans (Set.union_subset ?_ Set.subset_union_right)
    by_cases hf : f = f'
    · rw [hf, first.known]
      exact Set.union_subset_union_right _ (accessesBelow_mono (first.writes_le.trans rest.writes_le) f' r)
    · rw [first.others f hf]
      exact Set.subset_union_left

theorem HandsAll.settled (hsame : s'.writes ≤ s.writes) :
    ∀ f ∈ fs, ∀ r, (∀ c ∈ g.callers f, s.known f r ∪ g.accessesBelow s.writes f r ⊆ s.writes 0 c r) ∧
      g.accessesBelow s.writes f r ⊆ s'.known f r := by
  induction h with
  | nil s => simp
  | @cons f fs s s₁ s' first rest ih =>
    have heq : s₁.writes = s.writes := le_antisymm (rest.writes_le.trans hsame) first.writes_le
    refine forall_mem_cons.2 ⟨fun r => ⟨fun c hc i hi => ?_, ?_⟩, fun f' hf' r => ?_⟩
    · rw [← first.known] at hi
      exact hsame 0 c r (rest.writes_le 0 c r ((first.writes 0 c r i).2 (.inr ⟨rfl, hc, hi⟩)))
    · refine Set.Subset.trans ?_ (rest.known_le f r)
      rw [first.known]
      exact Set.subset_union_right
    · obtain ⟨hcallers, hbelow⟩ := ih (hsame.trans heq.ge) f' hf' r
      rw [heq] at hcallers hbelow
      refine ⟨fun c hc => Set.Subset.trans ?_ (hcallers c hc), hbelow⟩
      exact Set.union_subset_union_left _ (first.known_le f' r)

end

theorem HandsAll.settles (h : g.HandsAll g.functionIds s s') (hsame : s'.writes ≤ s.writes) : g.Settles s s' := by
  have heq : s'.writes = s.writes := le_antisymm hsame h.writes_le
  have hsettled := h.settled hsame
  refine ⟨⟨⟨h.writes_le, ?_, ?_⟩, ?_⟩, ?_⟩
  · rw [heq]
    intro f hf c hc n hn d r i hi
    exact (hsettled f hf r).1 c hc (.inr ⟨d, n, hn, hi⟩)
  · rw [heq]
    intro f hf c hc r i hi
    exact (hsettled f hf r).1 c hc (.inl hi)
  · rintro V ⟨hV, -, -⟩
    rw [heq]
    exact hV
  · intro f hf r
    refine Set.Subset.antisymm (h.known_subset f r) (Set.union_subset (h.known_le f r) ?_)
    rw [heq]
    exact (hsettled f hf r).2

theorem HandsAll.settles_trans (h : g.HandsAll g.functionIds s s₁) (hrest : g.Settles s₁ s') : g.Settles s s' := by
  obtain ⟨⟨⟨hle, hhands, hrespects⟩, hleast⟩, hknown⟩ := hrest
  refine ⟨⟨⟨h.writes_le.trans hle, hhands, hrespects.mono h.known_le⟩, ?_⟩, fun f hf r => ?_⟩
  · rintro V ⟨hV, hVhands, hVrespects⟩
    obtain ⟨hV₁, hVrespects₁⟩ := h.bounded (fun _ hf => hf) hVhands ⟨hV, hVrespects⟩
    exact hleast ⟨hV₁, hVhands, hVrespects₁⟩
  · rw [hknown f hf r]
    refine Set.Subset.antisymm (Set.union_subset ?_ Set.subset_union_right) ?_
    · exact (h.known_subset f r).trans (Set.union_subset_union_right _ (accessesBelow_mono hle f r))
    · exact Set.union_subset_union_left _ (h.known_le f r)

end Steps

/-! ## The steps of the analysis -/

structure SameCalls (g g' : Graph) : Prop where
  functionIds : g'.functionIds = g.functionIds
  callers : g'.callers = g.callers
  below : g'.below = g.below

variable {g g' : Graph}

theorem SameCalls.trans {g₁ : Graph} (h : g.SameCalls g₁) (h' : g₁.SameCalls g') : g.SameCalls g' :=
  ⟨h'.functionIds.trans h.functionIds, h'.callers.trans h.callers, h'.below.trans h.below⟩

section SameCalls

variable {s s' : Standing} {V : Int → NodeId → Region → Set (Option Int)} (h : g.SameCalls g')
include h

theorem SameCalls.hands {f : NodeId} (hs : g'.Hands f s s') : g.Hands f s s' := by
  obtain ⟨hknown, hothers, hwrites⟩ := hs
  unfold accessesBelow at hknown
  rw [h.below] at hknown
  rw [h.callers] at hwrites
  exact ⟨hknown, hothers, hwrites⟩

theorem SameCalls.handsAll {fs : List NodeId} (hs : g'.HandsAll fs s s') : g.HandsAll fs s s' := by
  induction hs with
  | nil s => exact .nil s
  | cons first _ ih => exact .cons (h.hands first) ih

theorem SameCalls.handsOn : g'.HandsOn V ↔ g.HandsOn V := by
  unfold HandsOn
  rw [h.functionIds, h.callers, h.below]

theorem SameCalls.respects :
    g'.Respects known V ↔ g.Respects known V := by
  unfold Respects
  rw [h.functionIds, h.callers]

theorem SameCalls.settles (hs : g'.Settles s s') : g.Settles s s' := by
  obtain ⟨hleast, hknown⟩ := hs
  simp only [h.handsOn, h.respects] at hleast
  unfold accessesBelow at hknown
  rw [h.functionIds, h.below] at hknown
  exact ⟨hleast, hknown⟩

end SameCalls

/-- The functions have collected the nodes below them. -/
def Collected (g : Graph) : Prop := ∀ f ∈ g.functionIds, ∃ b ids, g.body? f = some b ∧ b.children = some ids

/-- The functions have collected the nodes below them, and no table lists anything twice or leaves
out the host. -/
structure Ready (g : Graph) (w : WritesByDevice) : Prop where
  collected : g.Collected
  proper : ∀ f ∈ g.functionIds, (g.remembered f).Proper
  hosted : ∀ f ∈ g.functionIds, (g.remembered f).Hosted
  writes : w.Proper
  host : 0 ∈ w.keys

variable {w : WritesByDevice}

theorem Collected.ready (h : g.Collected) (hempty : ∀ f ∈ g.functionIds, g.remembered f = ∅)
    (hw : w.Proper) (hhost : 0 ∈ w.keys) : g.Ready w := by
  refine ⟨h, fun f hf => ?_, fun f hf => ?_, hw, hhost⟩
  · rw [hempty f hf]
    exact Table.proper_empty _
  · rw [hempty f hf]
    exact .inl rfl

def standing (g : Graph) (w : WritesByDevice) : Standing := ⟨w.recorded, g.known⟩

section Remember

variable {g : Graph} {f : NodeId}

theorem body?_remember (g : Graph) (f : NodeId) (t : DeviceAccesses) (f' : NodeId) :
    (g.remember f t).body? f' =
      if f = f' then (g.body? f').map fun b => { b with accesses := some t } else g.body? f' := by
  unfold body? remember node? modifyNode
  rw [Table.get?_modify]
  by_cases hf : f = f'
  · rw [if_pos (by simpa using hf), if_pos hf]
    cases g.nodes.get? f' with
    | none => rfl
    | some n => exact function?_modifyFunction n _
  · rw [if_neg (by simpa using hf), if_neg hf]

theorem sameCalls_remember (g : Graph) (f : NodeId) (t : DeviceAccesses) : g.SameCalls (g.remember f t) := by
  refine ⟨?_, rfl, ?_⟩
  · refine Annotates.map_id_nodesOf (annotates_modifyNode g f fun n => ?_) [.function]
    exact annotates_modifyFunction n _
  · funext f'
    unfold below
    rw [body?_remember]
    split
    · cases g.body? f' <;> rfl
    · rfl

theorem remembered_remember (hb : g.body? f = some b) (t : DeviceAccesses) :
    (g.remember f t).remembered f = t := by
  rw [remembered, body?_remember, if_pos rfl, hb]
  rfl

theorem remembered_remember_of_ne {f' : NodeId} (hf : f' ≠ f) (t : DeviceAccesses) :
    (g.remember f t).remembered f' = g.remembered f' := by
  rw [remembered, body?_remember, if_neg (Ne.symm hf)]
  rfl

theorem Ready.remember {w : WritesByDevice} (h : g.Ready w) {t : DeviceAccesses} (ht : t.Proper)
    (hhost : t.Hosted) : (g.remember f t).Ready w := by
  have hsame := sameCalls_remember g f t
  have htables : ∀ f' ∈ g.functionIds, ((g.remember f t).remembered f').Proper ∧
      ((g.remember f t).remembered f').Hosted := by
    intro f' hf'
    by_cases hf : f' = f
    · obtain ⟨b, -, hb, -⟩ := h.collected f' hf'
      rw [hf] at hb ⊢
      rw [remembered_remember hb]
      exact ⟨ht, hhost⟩
    · rw [remembered_remember_of_ne hf]
      exact ⟨h.proper f' hf', h.hosted f' hf'⟩
  rw [← hsame.functionIds] at htables
  refine ⟨fun f' hf' => ?_, fun f' hf' => (htables f' hf').1, fun f' hf' => (htables f' hf').2, h.writes, h.host⟩
  rw [hsame.functionIds] at hf'
  obtain ⟨b, ids, hb, hids⟩ := h.collected f' hf'
  rw [body?_remember, hb]
  split
  · exact ⟨_, ids, rfl, hids⟩
  · exact ⟨b, ids, rfl, hids⟩

end Remember

def gathered (g : Graph) (w : WritesByDevice) (f : NodeId) : DeviceAccesses :=
  (g.below f).foldl (DeviceAccesses.addNode w) (g.remembered f)

theorem runOn_functionAccesses {f : NodeId} {ids : List NodeId} (hb : g.body? f = some b)
    (hids : b.children = some ids) (w : WritesByDevice) :
    (functionAccesses w f).runOn g = (.ok (g.gathered w f), g.remember f (g.gathered w f)) := by
  have hgathered : g.gathered w f = ids.foldl (DeviceAccesses.addNode w) (b.accesses.getD ∅) := by
    rw [gathered, below, remembered, hb, Option.bind_some, Option.bind_some, hids, Option.getD_some]
  obtain ⟨n, hn, hfunction⟩ := Option.bind_eq_some_iff.1 hb
  have hnode : g.node f = .ok n := by rw [node, hn]
  rw [hgathered, functionAccesses, Analysis.runOn_bind_of_ok (Analysis.runOn_query_of_ok hnode)]
  simp only [hfunction, hids]
  rfl

section Turn

variable {g : Graph} {w : WritesByDevice} {f : NodeId}

theorem Ready.exists_onHost (h : g.Ready w) (hf : f ∈ g.functionIds) :
    ∃ host, (g.gathered w f).onHost = .ok host ∧ host.Proper ∧ host.Hosted ∧
      ∀ d r i, i ∈ host.accessed d r ↔ d = 0 ∧ i ∈ g.known f r ∪ g.accessesBelow w.recorded f r := by
  obtain ⟨host, honHost, hproper, hhosted, haccessed⟩ :=
    ((h.hosted f hf).addNodes h.host (g.below f)).exists_onHost ((h.proper f hf).addNodes w (g.below f))
  refine ⟨host, honHost, hproper, hhosted, fun d r i => (haccessed d r i).trans (and_congr_right fun _ => ?_)⟩
  simp only [DeviceAccesses.mem_accessed_addNodes h.writes, exists_or]
  rfl

theorem Ready.exists_handToCallers (h : g.Ready w) (hf : f ∈ g.functionIds) :
    ∃ w' g', (handToCallers true w f).runOn g = (.ok w', g') ∧ g'.Ready w' ∧ g.SameCalls g' ∧
      g.Hands f (g.standing w) (g'.standing w') := by
  obtain ⟨host, honHost, hproper, hhosted, haccessed⟩ := h.exists_onHost hf
  obtain ⟨b, ids, hb, hids⟩ := h.collected f hf
  have hready₁ : (g.remember f (g.gathered w f)).Ready w :=
    h.remember ((h.proper f hf).addNodes w (g.below f)) ((h.hosted f hf).addNodes h.host (g.below f))
  have hsame₁ := sameCalls_remember g f (g.gathered w f)
  have hrun := runOn_functionAccesses hb hids w
  generalize g.gathered w f = accesses at honHost hready₁ hsame₁ hrun
  obtain ⟨b₁, -, hb₁, -⟩ := hready₁.collected f (hsame₁.functionIds ▸ hf)
  let g' := (g.remember f accesses).remember f host
  have hready : g'.Ready w := hready₁.remember hproper hhosted
  have hknown : ∀ r, g'.known f r = g.known f r ∪ g.accessesBelow w.recorded f r := by
    intro r
    ext i
    unfold known
    rw [remembered_remember hb₁]
    constructor
    · rintro ⟨d, hi⟩
      exact ((haccessed d r i).1 hi).2
    · intro hi
      exact ⟨0, (haccessed 0 r i).2 ⟨rfl, hi⟩⟩
  refine ⟨w.addToCallers host (g.callers f), g', ?_, ?_, hsame₁.trans (sameCalls_remember _ f host), hknown, ?_, ?_⟩
  · rw [handToCallers, Analysis.runOn_bind_of_ok hrun, honHost]
    rfl
  · exact ⟨hready.collected, hready.proper, hready.hosted, h.writes.addToCallers host _,
      WritesByDevice.mem_keys_addToCallers h.host host _⟩
  · intro f' hf'
    show g'.known f' = g.known f'
    unfold known
    rw [remembered_remember_of_ne hf', remembered_remember_of_ne hf']
  · intro d n r i
    refine (WritesByDevice.mem_recorded_addToCallers hproper).trans (or_congr_right ?_)
    rw [haccessed, ← hknown, and_left_comm]
    rfl

end Turn

theorem Ready.exists_foldlM {fs : List Node} (h : g.Ready w) (hfs : ∀ f ∈ fs, f.id ∈ g.functionIds) :
    ∃ w' g', (fs.foldlM (fun w f => handToCallers true w f.id) w).runOn g = (.ok w', g') ∧ g'.Ready w' ∧
      g.SameCalls g' ∧ g.HandsAll (fs.map (·.id)) (g.standing w) (g'.standing w') := by
  induction fs generalizing g w with
  | nil => exact ⟨w, g, rfl, h, ⟨rfl, rfl, rfl⟩, .nil _⟩
  | cons f fs ih =>
    obtain ⟨hfirst, hrest⟩ := forall_mem_cons.1 hfs
    obtain ⟨w₁, g₁, hrun₁, h₁, hsame₁, hhands⟩ := h.exists_handToCallers hfirst
    rw [← hsame₁.functionIds] at hrest
    obtain ⟨w', g', hrun, h', hsame, hall⟩ := ih h₁ hrest
    refine ⟨w', g', ?_, h', hsame₁.trans hsame, .cons hhands (hsame₁.handsAll hall)⟩
    rw [foldlM_cons, Analysis.runOn_bind_of_ok hrun₁]
    exact hrun

/-! ## The last round -/

def recordable (g : Graph) (w : WritesByDevice) : List (Int × NodeId × Region × Option Int) :=
  let accesses := w.facts.map (fun x => x.2.2) ++
    g.functionIds.flatMap fun f => (g.remembered f).facts.map (·.2)
  w.facts ++ (g.functionIds.flatMap g.callers).flatMap fun c => accesses.map fun x => (0, c, x)

/-- The accesses in a list. -/
def listed (xs : List (Int × NodeId × Region × Option Int)) : Int → NodeId → Region → Set (Option Int) :=
  fun d n r => {i | (d, n, r, i) ∈ xs}

theorem Ready.listed_recordable (h : g.Ready w) :
    g.HandsOn (listed (g.recordable w)) ∧ w.recorded ≤ listed (g.recordable w) ∧
      g.Respects g.known (listed (g.recordable w)) := by
  -- a caller may record every access, so it is enough that the accesses are among those of the tables
  have hcaller : ∀ {f c : NodeId} {accesses : List (Region × Option Int)} {x : Region × Option Int},
      f ∈ g.functionIds → c ∈ g.callers f → x ∈ accesses →
        ((0 : Int), c, x) ∈ (g.functionIds.flatMap g.callers).flatMap fun c => accesses.map fun x => (0, c, x) :=
    fun hf hc hx => mem_flatMap.2 ⟨_, mem_flatMap.2 ⟨_, hf, hc⟩, mem_map.2 ⟨_, hx, rfl⟩⟩
  refine ⟨fun f hf c hc n hn d r i hi => ?_, fun d n r i hi => ?_, fun f hf c hc r i hi => ?_⟩
  · refine mem_append_right _ (hcaller hf hc ?_)
    rcases mem_append.1 hi with hi | hi
    · exact mem_append_left _ (mem_map.2 ⟨_, hi, rfl⟩)
    · obtain ⟨c', -, hi⟩ := mem_flatMap.1 hi
      obtain ⟨x, hx, heq⟩ := mem_map.1 hi
      cases heq
      exact hx
  · exact mem_append_left _ (h.writes.mem_facts_iff.2 hi)
  · obtain ⟨d, hi⟩ := hi
    refine mem_append_right _ (hcaller hf hc (mem_append_right _ ?_))
    exact mem_flatMap.2 ⟨f, hf, mem_map.2 ⟨_, (h.proper f hf).mem_facts_iff.2 hi, rfl⟩⟩

theorem facts_subperm (h : w.Proper) (hxs : w.recorded ≤ listed xs) : w.facts <+~ xs := by
  refine h.nodup_facts.subperm ?_
  rintro ⟨d, n, r, i⟩ hfact
  exact hxs d n r (h.mem_facts_iff.1 hfact)

variable {w' : WritesByDevice}

theorem facts_subperm_facts (h : w.Proper) (h' : w'.Proper) (hle : w.recorded ≤ w'.recorded) :
    w.facts <+~ w'.facts :=
  facts_subperm h fun d n r _ hi => h'.mem_facts_iff.2 (hle d n r hi)

theorem callAccessesGo_of_round (h : (callAccessRound true w).runOn g = (.ok w', g')) :
    g.callAccessesGo true w = if w'.count == w.count then some (.ok w', g') else g'.callAccessesGo true w' := by
  rw [callAccessesGo, h]

theorem runOn_addCallAccesses
    (h : g.callAccessesGo true w = some (.ok w', g')) : (addCallAccesses true w).runOn g = (.ok w', g') := by
  rw [addCallAccesses, Analysis.runOn_graph_bind, h]
  rfl

theorem Ready.exists_callAccessesGo (h : g.Ready w) (hxs : g.HandsOn (listed xs))
    (hbounded : w.recorded ≤ listed xs ∧ g.Respects g.known (listed xs)) :
    ∃ w' g', g.callAccessesGo true w = some (.ok w', g') ∧ g'.Ready w' ∧ g.SameCalls g' ∧
      g.Settles (g.standing w) (g'.standing w') := by
  -- a round that is not the last one records more of what can be recorded
  induction hk : xs.length - w.count using Nat.strong_induction_on generalizing g w with
  | _ k ih =>
    obtain ⟨w₁, g₁, hrun, h₁, hsame, hall⟩ := h.exists_foldlM fun _ hf => mem_map.2 ⟨_, hf, rfl⟩
    rw [callAccessesGo_of_round hrun]
    by_cases hcount : w₁.count == w.count
    · refine ⟨w₁, g₁, if_pos hcount, h₁, hsame, hall.settles fun d n r i hi => ?_⟩
      rw [beq_iff_eq, ← WritesByDevice.length_facts, ← WritesByDevice.length_facts] at hcount
      have hperm := (facts_subperm_facts h.writes h₁.writes hall.writes_le).perm_of_length_le hcount.le
      exact h.writes.mem_facts_iff.1 (hperm.mem_iff.2 (h₁.writes.mem_facts_iff.2 hi))
    · obtain ⟨hwrites₁, hrespects₁⟩ := hall.bounded (fun _ hf => hf) hxs hbounded
      have hmore : w.count < w₁.count := by
        have hne : w₁.count ≠ w.count := fun heq => hcount (beq_iff_eq.2 heq)
        have hle := (facts_subperm_facts h.writes h₁.writes hall.writes_le).length_le
        rw [w.length_facts, w₁.length_facts] at hle
        omega
      have hmax : w₁.count ≤ xs.length := w₁.length_facts ▸ (facts_subperm h₁.writes hwrites₁).length_le
      obtain ⟨w', g', hrun', h', hsame', hsettles⟩ :=
        ih (xs.length - w₁.count) (by omega) h₁ (hsame.handsOn.2 hxs) ⟨hwrites₁, hsame.respects.2 hrespects₁⟩ rfl
      exact ⟨w', g', (if_neg hcount).trans hrun', h', hsame.trans hsame',
        hall.settles_trans (hsame.settles hsettles)⟩

theorem Ready.exists_addCallAccesses (h : g.Ready w) :
    ∃ w' g', (addCallAccesses true w).runOn g = (.ok w', g') ∧ g'.Ready w' ∧ g.SameCalls g' ∧
      g.Settles (g.standing w) (g'.standing w') := by
  obtain ⟨hhands, hbounded⟩ := h.listed_recordable
  obtain ⟨w', g', hrun, h', hsame, hsettles⟩ := h.exists_callAccessesGo hhands hbounded
  exact ⟨w', g', runOn_addCallAccesses hrun, h', hsame, hsettles⟩

/-! ## One run -/

/-- With functions that remember nothing, the records of a run are the least ones that hold the
given accesses and hand on the accesses below every function to its callers, on the host. -/
theorem addCallAccesses_least {g : Graph} {w : WritesByDevice} (hcollected : g.Collected)
    (hempty : ∀ f ∈ g.functionIds, g.remembered f = ∅) (hw : w.Proper) (hhost : 0 ∈ w.keys) :
    ∃ W g', (addCallAccesses true w).runOn g = (.ok W, g') ∧
      IsLeast {V | w.recorded ≤ V ∧ g.HandsOn V} W.recorded := by
  have hready := hcollected.ready hempty hw hhost
  have hrespects : ∀ V, g.Respects g.known V := by
    rintro V f hf c - r i ⟨d, hi⟩
    rw [hempty f hf] at hi
    exact absurd hi not_mem_nil
  obtain ⟨W, g', hrun, -, -, ⟨⟨hle, hhands, -⟩, hleast⟩, -⟩ := hready.exists_addCallAccesses
  exact ⟨W, g', hrun, ⟨hle, hhands⟩, fun V hV => hleast ⟨hV.1, hV.2, hrespects V⟩⟩

end Graph

/-- Two functions of one unit each. -/
def twoUnits (links : List Link) : Graph where
  nodes :=
    let function (id unit : NodeId) : Node :=
      { id, file := 1, number := 0, startLine := 1, endLine := 9, name := none
        body := .function { children := some [unit] } }
    ⟨[("1:0", function "1:0" "1:1"), ("2:0", function "2:0" "2:1")]⟩
  links

def callTo (unit f : NodeId) : Link := ⟨unit, f, [(0, { edge := .call })]⟩

variable (links : List Link)

theorem collected_twoUnits : (twoUnits links).Collected := by
  intro f hf
  have hids : (twoUnits links).functionIds = ["1:0", "2:0"] := rfl
  rw [hids, mem_pair] at hf
  rcases hf with rfl | rfl <;> exact ⟨_, _, rfl, rfl⟩

theorem remembered_twoUnits : ∀ f ∈ (twoUnits links).functionIds, (twoUnits links).remembered f = ∅ := by
  intro f hf
  have hids : (twoUnits links).functionIds = ["1:0", "2:0"] := rfl
  rw [hids, mem_pair] at hf
  rcases hf with rfl | rfl <;> rfl

/-- Two functions that call each other get the accesses of each other, also those on the device. -/
theorem addCallAccesses_least_twoUnits :
    let g := twoUnits [callTo "1:1" "2:0", callTo "2:1" "1:0"]
    let w : WritesByDevice := ⟨[(0, ⟨[("1:1", ⟨[("m", [some 7])]⟩)]⟩), (1, ⟨[("2:1", ⟨[("k", [none])]⟩)]⟩)]⟩
    g.Collected ∧ (∀ f ∈ g.functionIds, g.remembered f = ∅) ∧ w.Proper ∧ 0 ∈ w.keys ∧
      ∃ W g', (addCallAccesses true w).runOn g = (.ok W, g') ∧
        IsLeast {V | w.recorded ≤ V ∧ g.HandsOn V} W.recorded ∧ some 7 ∈ W.recorded 0 "2:1" "m" ∧
          none ∈ W.recorded 0 "1:1" "k" := by
  intro g w
  have hw : w.Proper := by decide
  have hhost : 0 ∈ w.keys := by decide
  obtain ⟨W, g', hrun, hleast⟩ :=
    Graph.addCallAccesses_least (collected_twoUnits _) (remembered_twoUnits _) hw hhost
  refine ⟨collected_twoUnits _, remembered_twoUnits _, hw, hhost, W, g', hrun, hleast, ?_, ?_⟩
  · have hown : some 7 ∈ W.recorded 0 "1:1" "m" := hleast.1.1 0 "1:1" "m" (by decide)
    exact hleast.1.2 "1:0" (by decide) "2:1" (by decide) "1:1" (by decide) 0 "m" hown
  · have hown : none ∈ W.recorded 1 "2:1" "k" := hleast.1.1 1 "2:1" "k" (by decide)
    exact hleast.1.2 "2:0" (by decide) "1:1" (by decide) "2:1" (by decide) 1 "k" hown

/-! ## One run after another -/

namespace Graph

/-- A run after another one gives the least records that hold those it gives by itself and hand on
what the earlier run had found below the functions. So they are the same if and only if it hands
that on by itself. -/
theorem addCallAccesses_again_iff {g : Graph} {w₁ w₂ : WritesByDevice} (h₁ : g.Ready w₁)
    (h₂ : g.Ready w₂) : ∃ W₁ g₁ W₂ g₂ W g', (addCallAccesses true w₁).runOn g = (.ok W₁, g₁) ∧
      (addCallAccesses true w₂).runOn g = (.ok W₂, g₂) ∧ (addCallAccesses true w₂).runOn g₁ = (.ok W, g') ∧
        IsLeast {V | W₂.recorded ≤ V ∧ g.HandsOn V ∧ g.Respects (g.accessesBelow W₁.recorded) V} W.recorded ∧
          (W.recorded = W₂.recorded ↔ g.Respects (g.accessesBelow W₁.recorded) W₂.recorded) := by
  obtain ⟨W₁, g₁, hrun₁, hready₁, hsame₁, -, hknown₁⟩ := h₁.exists_addCallAccesses
  obtain ⟨W₂, g₂, hrun₂, -, -, ⟨⟨hle₂, hhands₂, hrespects₂⟩, hleast₂⟩, -⟩ := h₂.exists_addCallAccesses
  have hready : g₁.Ready w₂ := ⟨hready₁.collected, hready₁.proper, hready₁.hosted, h₂.writes, h₂.host⟩
  obtain ⟨W, g', hrun, -, -, hsettles⟩ := hready.exists_addCallAccesses
  obtain ⟨⟨⟨hle, hhands, hrespects⟩, hleast⟩, -⟩ := hsame₁.settles hsettles
  -- after the earlier run, the functions know what they knew before and what that run found below them
  have hsplit : ∀ V, g.Respects g₁.known V ↔ g.Respects g.known V ∧ g.Respects (g.accessesBelow W₁.recorded) V := by
    refine fun V => ⟨fun h => ⟨fun f hf c hc r i hi => ?_, fun f hf c hc r i hi => ?_⟩,
      fun h f hf c hc r i hi => ?_⟩
    · exact h f hf c hc r ((hknown₁ f hf r).ge (.inl hi))
    · exact h f hf c hc r ((hknown₁ f hf r).ge (.inr hi))
    · rcases (hknown₁ f hf r).le hi with hi | hi
      · exact h.1 f hf c hc r hi
      · exact h.2 f hf c hc r hi
  obtain ⟨hrespects, hfound⟩ := (hsplit _).1 hrespects
  have hmore : W₂.recorded ≤ W.recorded := hleast₂ ⟨hle, hhands, hrespects⟩
  have hleast' : ∀ V, W₂.recorded ≤ V → g.HandsOn V → g.Respects (g.accessesBelow W₁.recorded) V →
    W.recorded ≤ V := by
    intro V hV hVhands hVfound
    refine hleast ⟨le_trans hle₂ hV, hVhands, (hsplit V).2 ⟨?_, hVfound⟩⟩
    exact fun f hf c hc r i hi => hV 0 c r (hrespects₂ f hf c hc r hi)
  refine ⟨W₁, g₁, W₂, g₂, W, g', hrun₁, hrun₂, hrun, ⟨⟨hmore, hhands, hfound⟩, ?_⟩, fun heq => ?_,
    fun hfound₂ => ?_⟩
  · exact fun V hV => hleast' V hV.1 hV.2.1 hV.2.2
  · rw [← heq]
    exact hfound
  · exact le_antisymm (hleast' _ (le_refl _) hhands₂ hfound₂) hmore

end Graph

/-- The first function is called by the second one. -/
def calledUnit : Graph := twoUnits [callTo "2:1" "1:0"]

theorem ready_calledUnit {w : WritesByDevice} (hw : w.Proper) (hhost : 0 ∈ w.keys) : calledUnit.Ready w :=
  (collected_twoUnits _).ready (remembered_twoUnits _) hw hhost

/-- A write in the called function. -/
def calledWrite : WritesByDevice := ⟨[(0, ⟨[("1:1", ⟨[("m", [some 1])]⟩)]⟩), (1, ∅)]⟩

/-- No accesses, on two devices. -/
def noWrites : WritesByDevice := ⟨[(0, ∅), (1, ∅)]⟩

/-- Other writes in the called function, one of which the earlier run has found. -/
theorem addCallAccesses_again_iff_calledUnit :
    let w : WritesByDevice := ⟨[(0, ⟨[("1:1", ⟨[("m", [some 2, some 1])]⟩)]⟩), (1, ∅)]⟩
    calledUnit.Ready calledWrite ∧ calledUnit.Ready w ∧
      ∃ W₁ g₁ W₂ g₂ W g', (addCallAccesses true calledWrite).runOn calledUnit = (.ok W₁, g₁) ∧
        (addCallAccesses true w).runOn calledUnit = (.ok W₂, g₂) ∧ (addCallAccesses true w).runOn g₁ = (.ok W, g') ∧
          (W.recorded = W₂.recorded ↔
            calledUnit.Respects (calledUnit.accessesBelow W₁.recorded) W₂.recorded) := by
  intro w
  have h₁ : calledUnit.Ready calledWrite := ready_calledUnit (by decide) (by decide)
  have h₂ : calledUnit.Ready w := ready_calledUnit (by decide) (by decide)
  obtain ⟨W₁, g₁, W₂, g₂, W, g', hrun₁, hrun₂, hrun, -, hiff⟩ := Graph.addCallAccesses_again_iff h₁ h₂
  exact ⟨h₁, h₂, W₁, g₁, W₂, g₂, W, g', hrun₁, hrun₂, hrun, hiff⟩

theorem runOn_addCallAccesses_of_rounds {g g' : Graph} {w w' : WritesByDevice} (g₁ : Graph)
    (hfirst : (callAccessRound true w).runOn g = (.ok w', g₁)) (hcount : (w'.count == w.count) = false)
    (hlast : (callAccessRound true w').runOn g₁ = (.ok w', g')) :
    (addCallAccesses true w).runOn g = (.ok w', g') := by
  refine Graph.runOn_addCallAccesses ?_
  rw [Graph.callAccessesGo_of_round hfirst, if_neg (by simp [hcount]),
    Graph.callAccessesGo_of_round hlast, if_pos (by simp)]

def calledUnitAfter (t : DeviceAccesses) : Graph := (calledUnit.remember "1:0" t).remember "2:0" t

/-- A run that is given no accesses records none, unless it follows one that was given some. -/
theorem addCallAccesses_noWrites_again :
    ∃ W₁ g₁ W₂ g₂ W g', (addCallAccesses true calledWrite).runOn calledUnit = (.ok W₁, g₁) ∧
      (addCallAccesses true noWrites).runOn calledUnit = (.ok W₂, g₂) ∧
        (addCallAccesses true noWrites).runOn g₁ = (.ok W, g') ∧
          some 1 ∉ W₂.recorded 0 "2:1" "m" ∧ some 1 ∈ W.recorded 0 "2:1" "m" := by
  have hrun₁ : (addCallAccesses true calledWrite).runOn calledUnit =
      (.ok ⟨[(0, ⟨[("1:1", ⟨[("m", [some 1])]⟩), ("2:1", ⟨[("m", [some 1])]⟩)]⟩), (1, ∅)]⟩,
        calledUnitAfter ⟨[(0, ⟨[("m", [some 1])]⟩)]⟩) :=
    runOn_addCallAccesses_of_rounds (calledUnitAfter ⟨[(0, ⟨[("m", [some 1])]⟩)]⟩) rfl rfl rfl
  have hrun₂ : (addCallAccesses true noWrites).runOn calledUnit =
      (.ok ⟨[(0, ⟨[("2:1", ∅)]⟩), (1, ∅)]⟩, calledUnitAfter ⟨[(0, ∅)]⟩) :=
    Graph.runOn_addCallAccesses ((Graph.callAccessesGo_of_round rfl).trans (if_pos rfl))
  have hrun : (addCallAccesses true noWrites).runOn (calledUnitAfter ⟨[(0, ⟨[("m", [some 1])]⟩)]⟩) =
      (.ok ⟨[(0, ⟨[("2:1", ⟨[("m", [some 1])]⟩)]⟩), (1, ∅)]⟩, calledUnitAfter ⟨[(0, ⟨[("m", [some 1])]⟩)]⟩) :=
    runOn_addCallAccesses_of_rounds (calledUnitAfter ⟨[(0, ⟨[("m", [some 1])]⟩)]⟩) rfl rfl rfl
  exact ⟨_, _, _, _, _, _, hrun₁, hrun₂, hrun, by decide, by decide⟩

end ParallelPatterns
