import Mathlib.Logic.Relation
import ParallelPatterns.Proofs.Computation
import ParallelPatterns.Proofs.Table

/-!
# What the phases of a step record

Entering a node notes the node's own writes, finds the updates that are required, synchronises the
two devices, and requests further updates. Here each phase is described by what the devices have
recorded after it: `Records` is the view through which contexts are compared, and `Extends` says
that a phase only adds to what one device has recorded.
-/

namespace ParallelPatterns.DeviceContext

open Tracking Table

variable {ws known : List SeenWrite} {i : Option Int} {c : DeviceContext} {d device : Int}
  {t : Table Region (List SeenWrite)} {r : Region}

/-! ## The view of a context -/

/-- What a device has seen of a region, if it uses the region. -/
def seenAt (c : DeviceContext) (d : Int) (r : Region) : Option (List SeenWrite) :=
  (c.seen.get? d).bind (·.get? r)

def Tracks (c : DeviceContext) (d : Int) : Prop := (c.seen.get? d).isSome

/-- Has the device recorded the region? -/
def Uses (c : DeviceContext) (d : Int) (r : Region) : Prop := (c.seenAt d r).isSome

/-- Has the device recorded the identifier for the region? The identifier of a mark for reading is
`none`. -/
def Records (c : DeviceContext) (d : Int) (r : Region) (i : Option Int) : Prop :=
  ∃ ws, c.seenAt d r = some ws ∧ knows ws i

instance (c : DeviceContext) (d : Int) (r : Region) : Decidable (c.Uses d r) :=
  inferInstanceAs (Decidable ((c.seenAt d r).isSome))

instance (c : DeviceContext) (d : Int) (r : Region) (i : Option Int) : Decidable (c.Records d r i) :=
  decidable_of_iff ((c.seenAt d r).any (knows · i)) (by simp [Records, Option.any_eq_true])

/-- What holds of every context between host and device: no key stands twice in its tables, and the
devices are the host and the one device. -/
structure Orderly (c : DeviceContext) : Prop where
  current : c.device = 0 ∨ c.device = 1
  distinct_devices : c.seen.keys.Nodup
  devices : ∀ d, c.Tracks d → d = 0 ∨ d = 1
  distinct_regions : ∀ d t, c.seen.get? d = some t → t.keys.Nodup

theorem knows_iff : knows ws i ↔ ∃ w ∈ ws, w.1 = i := by
  simp [knows]

theorem knows_addWrites {idents : List (Option Int)} {origin : NodeId} :
    knows (addWrites ws idents origin) i ↔ knows ws i ∨ i ∈ idents := by
  rw [addWrites, foldl_iff (M := (knows · i)) (N := (· = i))]
  · simp
  · intro ws j _
    split
    · rename_i hj
      exact ⟨.inl, fun h => h.elim id fun heq => heq ▸ hj⟩
    · simp [knows]

theorem knows_addAll {vs : List SeenWrite} : knows (addAll ws vs) i ↔ knows ws i ∨ knows vs i := by
  simp only [knows_iff, mem_addAll, or_and_right, exists_or]

theorem knows_addAll_missing :
    knows (addAll known (ws.filter fun w => !knows known w.1)) i ↔ knows known i ∨ knows ws i := by
  rw [knows_addAll]
  by_cases hi : knows known i
  · simp [hi]
  · simp only [hi, Bool.false_eq_true, false_or, knows_iff, List.mem_filter]
    constructor
    · rintro ⟨w, ⟨hw, -⟩, rfl⟩
      exact ⟨w, hw, rfl⟩
    · rintro ⟨w, hw, rfl⟩
      exact ⟨w, ⟨hw, by simp [hi]⟩, rfl⟩

theorem seenOn_eq_ok_iff : c.seenOn d = .ok t ↔ c.seen.get? d = some t := by
  unfold seenOn
  cases c.seen.get? d <;> simp

theorem Tracks.exists_seenOn (h : c.Tracks d) : ∃ t, c.seen.get? d = some t ∧ c.seenOn d = .ok t := by
  obtain ⟨t, ht⟩ := Option.isSome_iff_exists.1 h
  exact ⟨t, ht, seenOn_eq_ok_iff.2 ht⟩

theorem seenAt_of_get? (h : c.seen.get? d = some t) : c.seenAt d r = t.get? r := by
  simp [seenAt, h]

theorem records_iff_getD : c.Records d r i ↔ knows (((c.seen.get? d).getD ∅).getD r []) i := by
  rw [Records, seenAt, getD]
  cases c.seen.get? d with
  | none => simp [knows]
  | some t => cases ht : t.get? r <;> simp [ht, knows]

theorem Records.uses (h : c.Records d r i) : c.Uses d r := by
  obtain ⟨ws, hws, -⟩ := h
  simp [Uses, hws]

theorem Uses.tracks (h : c.Uses d r) : c.Tracks d := by
  unfold Uses seenAt at h
  unfold Tracks
  cases hd : c.seen.get? d with
  | none => simp [hd] at h
  | some t => rfl

/-! ## Adding to what one device has recorded -/

theorem seenAt_withSeen (c : DeviceContext) (device d : Int) (t : Table Region (List SeenWrite)) (r : Region) :
    (c.withSeen device t).seenAt d r = if device = d then t.get? r else c.seenAt d r := by
  unfold seenAt withSeen
  by_cases h : device = d <;> simp [h]

theorem tracks_withSeen : (c.withSeen device t).Tracks d ↔ c.Tracks d ∨ d = device := by
  unfold Tracks withSeen
  by_cases h : device = d
  · simp [h]
  · simp [h, Ne.symm h]

theorem Orderly.withSeen (h : c.Orderly) (hd : device = 0 ∨ device = 1)
    (ht : t.keys.Nodup) : (c.withSeen device t).Orderly where
  current := h.current
  distinct_devices := nodup_keys_insert h.distinct_devices device t
  devices d hd' := by
    rcases tracks_withSeen.1 hd' with hd' | rfl
    · exact h.devices d hd'
    · exact hd
  distinct_regions d t' ht' := by
    rw [DeviceContext.withSeen, get?_insert] at ht'
    split at ht'
    · cases ht'
      exact ht
    · exact h.distinct_regions d t' ht'

/-- A context `c'` that comes from `c` by recording more on one device: the regions `uses` and, for
each region, the identifiers `records`. -/
structure Extends (c c' : DeviceContext) (device : Int) (uses : Region → Prop)
    (records : Region → Option Int → Prop) : Prop where
  current : c'.device = c.device
  tracks : ∀ d, c'.Tracks d ↔ c.Tracks d ∨ d = device
  uses : ∀ d r, c'.Uses d r ↔ c.Uses d r ∨ d = device ∧ uses r
  records : ∀ d r i, c'.Records d r i ↔ c.Records d r i ∨ d = device ∧ records r i
  orderly : c.Orderly → device = 0 ∨ device = 1 → c'.Orderly

theorem Extends.trans {c₁ c₂ : DeviceContext} {u₁ u₂ : Region → Prop}
    {p₁ p₂ : Region → Option Int → Prop} (h₁ : Extends c c₁ device u₁ p₁) (h₂ : Extends c₁ c₂ device u₂ p₂) :
    Extends c c₂ device (fun r => u₁ r ∨ u₂ r) (fun r i => p₁ r i ∨ p₂ r i) where
  current := h₂.current.trans h₁.current
  tracks d := by rw [h₂.tracks, h₁.tracks, or_assoc, or_self]
  uses d r := by rw [h₂.uses, h₁.uses, or_assoc, ← and_or_left]
  records d r i := by rw [h₂.records, h₁.records, or_assoc, ← and_or_left]
  orderly hc hd := h₂.orderly (h₁.orderly hc hd) hd

theorem Extends.congr {c' : DeviceContext} {u u' : Region → Prop}
    {p p' : Region → Option Int → Prop} (h : Extends c c' device u p) (hu : ∀ r, u r ↔ u' r)
    (hp : ∀ r i, p r i ↔ p' r i) : Extends c c' device u' p' where
  current := h.current
  tracks := h.tracks
  uses d r := by rw [h.uses, hu]
  records d r i := by rw [h.records, hp]
  orderly := h.orderly

theorem extends_withSeen {t' : Table Region (List SeenWrite)}
    (ht : c.seen.get? device = some t) (hkeys : t.keys.Nodup → t'.keys.Nodup) {u : Region → Prop}
    {p : Region → Option Int → Prop} (hu : ∀ r, (t'.get? r).isSome ↔ (t.get? r).isSome ∨ u r)
    (hp : ∀ r i, (∃ ws, t'.get? r = some ws ∧ knows ws i) ↔
      (∃ ws, t.get? r = some ws ∧ knows ws i) ∨ p r i) : Extends c (c.withSeen device t') device u p where
  current := rfl
  tracks _ := tracks_withSeen
  uses d r := by
    rw [Uses, Uses, seenAt_withSeen]
    by_cases h : device = d
    · subst h
      rw [if_pos rfl, hu, seenAt_of_get? ht]
      simp
    · simp [h, Ne.symm h]
  records d r i := by
    rw [Records, Records, seenAt_withSeen]
    by_cases h : device = d
    · subst h
      rw [if_pos rfl, hp, seenAt_of_get? ht]
      simp
    · simp [h, Ne.symm h]
  orderly hc hd := hc.withSeen hd (hkeys (hc.distinct_regions device t ht))

/-! ## Noting the writes of a node -/

theorem exists_isNewRegion (hd : c.Tracks device) (hc : c.Tracks c.device)
    (r : Region) : ∃ fresh, c.isNewRegion device r = .ok fresh := by
  obtain ⟨t, -, hok⟩ := hd.exists_seenOn
  obtain ⟨tc, -, hokc⟩ := hc.exists_seenOn
  unfold isNewRegion
  rw [hok, hokc]
  by_cases hr : t.contains r
  · exact ⟨false, by simp [bind, Except.bind, hr, pure, Except.pure]⟩
  · exact ⟨!tc.contains r, by simp [bind, Except.bind, hr, pure, Except.pure]⟩

theorem runOn_noteRegion (hd : c.Tracks device) (hc : c.Tracks c.device)
    (origin : NodeId) (r : Region) (idents : List (Option Int)) :
    ∃ out c', (noteRegion device origin r idents).runOn c = (.ok out, c') ∧
      Extends c c' device (fun r' => r = r') (fun r' i => r = r' ∧ i ∈ idents) := by
  obtain ⟨t, ht, hok⟩ := hd.exists_seenOn
  obtain ⟨fresh, hfresh⟩ := exists_isNewRegion hd hc r
  have hold : (do return (← c.seenOn device).getD r [] : Result (List SeenWrite)) = .ok (t.getD r []) := by
    rw [hok]
    rfl
  have htable : c.seen.getD device ∅ = t := by rw [getD, ht, Option.getD_some]
  refine ⟨if idents.all (knows (t.getD r [])) then [] else [(r, fresh)],
    c.withSeen device (t.insert r (addWrites (t.getD r []) idents origin)), ?_, ?_⟩
  · unfold noteRegion
    rw [runOn_bind_of_ok (runOn_query_of_ok hfresh),
      runOn_bind_of_ok (runOn_query_of_ok hold),
      runOn_bind_of_ok (runOn_modify _ c), runOn_pure, htable]
  · refine extends_withSeen ht (fun hkeys => nodup_keys_insert hkeys r _) ?_ ?_
    · intro r'
      by_cases h : r = r' <;> simp [h]
    · intro r' i
      rw [get?_insert]
      by_cases h : r = r'
      · subst h
        simp only [beq_self_eq_true, if_true, Option.some.injEq, exists_eq_left', knows_addWrites,
          getD]
        cases t.get? r with
        | none => simp [knows]
        | some ws => simp
      · simp [h]

/-- The identifiers that the writes of a node name for a region. -/
def Names (own : Table Region (List (Option Int))) (r : Region) (i : Option Int) : Prop :=
  ∃ e ∈ own.entries, e.1 = r ∧ i ∈ e.2

instance (own : Table Region (List (Option Int))) (r : Region) (i : Option Int) : Decidable (Names own r i) :=
  inferInstanceAs (Decidable (∃ e ∈ own.entries, e.1 = r ∧ i ∈ e.2))

theorem runOn_noteRegions (origin : NodeId) (es : List (Region × List (Option Int))) :
    ∀ {c : DeviceContext}, c.Tracks device → c.Tracks c.device →
      ∃ out c', (es.mapM fun (r, idents) => noteRegion device origin r idents : Tracking _).runOn c =
          (.ok out, c') ∧
        Extends c c' device (fun r => ∃ e ∈ es, e.1 = r) (fun r i => ∃ e ∈ es, e.1 = r ∧ i ∈ e.2) := by
  induction es with
  | nil =>
    intro c hd _
    refine ⟨[], c, rfl, ⟨rfl, ?_, by simp, by simp, fun h _ => h⟩⟩
    intro d
    exact ⟨.inl, fun h => h.elim id fun h => h ▸ hd⟩
  | cons e es ih =>
    intro c hd hc
    obtain ⟨out₁, c₁, hrun₁, hext₁⟩ := runOn_noteRegion hd hc origin e.1 e.2
    -- both devices keep their tables, so that the next region can be noted
    have hd₁ : c₁.Tracks device := (hext₁.tracks device).2 (.inr rfl)
    have hc₁ : c₁.Tracks c₁.device := by
      rw [hext₁.current]
      exact (hext₁.tracks _).2 (.inl hc)
    obtain ⟨out, c', hrun, hext⟩ := ih hd₁ hc₁
    refine ⟨out₁ :: out, c', ?_, (hext₁.trans hext).congr ?_ ?_⟩
    · rw [List.mapM_cons, runOn_bind_of_ok hrun₁, runOn_bind_of_ok hrun]
      rfl
    · intro r
      simp
    · intro r i
      simp

theorem extends_insertNew (c : DeviceContext) (device : Int) :
    Extends c { c with seen := c.seen.insertNew device ∅ } device (fun _ => False) (fun _ _ => False) := by
  have hseen : ∀ d r, ({ c with seen := c.seen.insertNew device ∅ } : DeviceContext).seenAt d r =
      c.seenAt d r := by
    intro d r
    unfold seenAt
    rw [get?_insertNew]
    by_cases h : device = d
    · subst h
      cases hd : c.seen.get? device <;> simp
    · simp [h]
  refine ⟨rfl, ?_, ?_, ?_, ?_⟩
  · intro d
    unfold Tracks
    rw [get?_insertNew]
    by_cases h : device = d
    · simp [h]
    · simp [h, Ne.symm h]
  · intro d r
    simp [Uses, hseen]
  · intro d r i
    simp [Records, hseen]
  · intro hc hd
    unfold insertNew
    split
    · exact hc
    · exact hc.withSeen hd List.nodup_nil

theorem runOn_noteWrites (h : c.Tracks c.device ∨ c.device = device)
    (own : Table Region (List (Option Int))) (origin : NodeId) :
    ∃ out c', (noteWrites device own origin).runOn c = (.ok out, c') ∧
      Extends c c' device (fun r => r ∈ own.keys) (Names own) := by
  have hnew := extends_insertNew c device
  have hc : ({ c with seen := c.seen.insertNew device ∅ } : DeviceContext).Tracks c.device :=
    (hnew.tracks _).2 h
  obtain ⟨out, c', hrun, hext⟩ :=
    runOn_noteRegions origin own.entries ((hnew.tracks device).2 (.inr rfl)) hc
  refine ⟨out.flatten, c', ?_, (hnew.trans hext).congr ?_ ?_⟩
  · unfold noteWrites
    rw [runOn_bind_of_ok (runOn_modify _ c), runOn_bind_of_ok hrun,
      runOn_pure]
  · intro r
    simp [keys]
  · intro r i
    simp [Names]

/-! ## Synchronising the devices -/

theorem runOn_synchronise (hd : c.Tracks device) (hc : c.Tracks c.device) :
    ∃ c', (synchronise device).runOn c = (.ok (), c') ∧
      Extends c c' device (fun _ => False) (fun r i => c.Uses device r ∧ c.Records c.device r i) := by
  obtain ⟨t, ht, hok⟩ := hd.exists_seenOn
  obtain ⟨here, hhere, hokc⟩ := hc.exists_seenOn
  have hrec : ∀ r i, c.Records c.device r i ↔ knows (here.getD r []) i := by
    intro r i
    rw [records_iff_getD, hhere]
    rfl
  unfold synchronise
  rw [runOn_bind_of_ok (runOn_query_of_ok hokc)]
  by_cases hempty : here.entries.isEmpty
  · -- the context's device has recorded nothing
    have hnone : ∀ r, here.get? r = none := by
      intro r
      rw [get?, List.isEmpty_iff.1 hempty]
      rfl
    refine ⟨c, by rw [if_pos hempty]; rfl, rfl, ?_, by simp, ?_, fun h _ => h⟩
    · intro d
      exact ⟨.inl, fun h => h.elim id fun h => h ▸ hd⟩
    · intro d r i
      simp [hrec, getD, hnone, knows]
  · -- regions that the new device does not use stay unknown to it
    refine ⟨c.withSeen device (t.map fun r ws => addAll ws (here.getD r [])), ?_, ?_⟩
    · rw [if_neg hempty, runOn_bind_of_ok (runOn_query_of_ok hok)]
      exact runOn_modify _ c
    · refine extends_withSeen ht (fun hkeys => by rwa [keys_map]) (by simp) ?_
      intro r i
      rw [get?_map, hrec, Uses, seenAt_of_get? ht]
      cases t.get? r with
      | none => simp
      | some ws => simp [knows_addAll]

/-! ## The updates that a device needs -/

variable (answer : NodeId → NodeId → Bool)

/-- A test for the order of nodes that always answers. -/
def answering (a b : NodeId) : Result Bool := .ok (answer a b)

def Lacks (c : DeviceContext) (source target : Int) (r : Region) (i : Option Int) : Prop :=
  c.Uses target r ∧ c.Records source r i ∧ ¬ c.Records target r i

theorem exists_lastPlace (w : SeenWrite) (ws : List SeenWrite) :
    ∃ place, lastPlace (answering answer) (w :: ws) = .ok (some place) := by
  obtain ⟨i, first⟩ := w
  obtain ⟨last, hlast⟩ := exists_foldlM_eq_ok (fun _ _ _ => ⟨_, rfl⟩) first
  refine ⟨last, ?_⟩
  exact bind_eq_ok_iff.2 ⟨_, rfl, bind_eq_ok_iff.2 ⟨last, hlast, rfl⟩⟩

theorem needFor_spec (r : Region) (source target : Int) (missing : List SeenWrite) :
    (missing = [] ∧ needFor (answering answer) r source target missing = .ok none) ∨
      (missing ≠ [] ∧ ∃ place, needFor (answering answer) r source target missing =
        .ok (some { region := r, source, target, place })) := by
  cases missing with
  | nil => exact .inl ⟨rfl, rfl⟩
  | cons w ws =>
    obtain ⟨place, hplace⟩ := exists_lastPlace answer w ws
    refine .inr ⟨by simp, place, ?_⟩
    rw [needFor, hplace]
    rfl

theorem filter_missing_ne_nil {p : Option Int → Bool} :
    (ws.filter fun w => p w.1 && !knows known w.1) ≠ [] ↔ ∃ i, p i ∧ knows ws i ∧ ¬ knows known i := by
  rw [Ne, List.filter_eq_nil_iff]
  simp only [@knows_iff ws, Bool.and_eq_true, Bool.not_eq_true', Bool.not_eq_true]
  constructor
  · intro h
    by_contra hnone
    exact h fun w hw hp => hnone ⟨w.1, hp.1, ⟨w, hw, rfl⟩, hp.2⟩
  · rintro ⟨i, hp, ⟨w, hw, rfl⟩, hk⟩ h
    exact h w hw ⟨hp, hk⟩

/-- The needs are needs of a device, for these regions from these other devices. -/
structure Covers (needs : List Need) (device : Int) (q : Region → Int → Prop) : Prop where
  target : ∀ n ∈ needs, n.target = device
  covered : ∀ r x, (∃ n ∈ needs, n.region = r ∧ n.source = x) ↔ q r x

theorem exists_mapM_covers {α β : Type} {xs : List α} {f : α → Result β} {k : β → List Need}
    {q : α → Region → Int → Prop} (h : ∀ a ∈ xs, ∃ b, f a = .ok b ∧ Covers (k b) device (q a)) :
    ∃ bs, xs.mapM f = .ok bs ∧ Covers (bs.flatMap k) device fun r x => ∃ a ∈ xs, q a r x := by
  obtain ⟨bs, hbs, hfound, hmade⟩ := exists_mapM_of_spec h
  refine ⟨bs, hbs, fun n hn => ?_, fun r x => ⟨?_, ?_⟩⟩
  · obtain ⟨b, hb, hn⟩ := List.mem_flatMap.1 hn
    obtain ⟨a, -, hcovers⟩ := hfound b hb
    exact hcovers.target n hn
  · rintro ⟨n, hn, hneed⟩
    obtain ⟨b, hb, hn⟩ := List.mem_flatMap.1 hn
    obtain ⟨a, ha, hcovers⟩ := hfound b hb
    exact ⟨a, ha, (hcovers.covered r x).1 ⟨n, hn, hneed⟩⟩
  · rintro ⟨a, ha, hq⟩
    obtain ⟨b, hb, hcovers⟩ := hmade a ha
    obtain ⟨n, hn, hneed⟩ := (hcovers.covered r x).2 hq
    exact ⟨n, List.mem_flatMap.2 ⟨b, hb, hn⟩, hneed⟩

theorem needFor_missing {source : Int} (hs : c.seenAt source r = some ws) (ht : c.seenAt device r = some known)
    (p : Option Int → Bool) (answer : NodeId → NodeId → Bool) :
    ∃ o, needFor (answering answer) r source device (ws.filter fun w => p w.1 && !knows known w.1) = .ok o ∧
      Covers o.toList device fun r' x => r = r' ∧ source = x ∧ ∃ i, p i ∧ c.Lacks source device r i := by
  have hlacks : ∀ i, c.Lacks source device r i ↔ knows ws i ∧ ¬ knows known i := by
    intro i
    simp [Lacks, Uses, Records, hs, ht]
  simp only [hlacks]
  rw [← filter_missing_ne_nil]
  rcases needFor_spec answer r source device (ws.filter fun w => p w.1 && !knows known w.1) with
    ⟨hnil, hneed⟩ | ⟨hne, place, hneed⟩
  · exact ⟨none, hneed, by simp, by simp [hnil]⟩
  · exact ⟨_, hneed, by simp, by simp [hne]⟩

theorem requirement_spec (htd : c.Tracks device)
    (hs : c.seenAt c.device r = some ws) (answer : NodeId → NodeId → Bool) :
    ∃ o, c.requirement (answering answer) device r ws = .ok o ∧ Covers o.toList device fun r' x =>
      r = r' ∧ c.device = x ∧ ∃ i : Int, c.Lacks c.device device r (some i) := by
  obtain ⟨there, hthere, hokd⟩ := htd.exists_seenOn
  rw [requirement, hokd]
  cases ht : there.get? r with
  | none =>
    refine ⟨none, by simp [bind, Except.bind, ht, pure, Except.pure], by simp, ?_⟩
    simp [Lacks, Uses, seenAt_of_get? hthere, ht]
  | some known =>
    obtain ⟨o, ho, hcovers⟩ := needFor_missing hs ((seenAt_of_get? hthere).trans ht) Option.isSome answer
    exact ⟨o, by simpa [bind, Except.bind, ht] using ho, by simpa [Option.exists] using hcovers⟩

theorem Orderly.seenAt_of_mem (hc : c.Orderly)
    (ht : c.seen.get? d = some t) {e : Region × List SeenWrite} (he : e ∈ t.entries) :
    c.seenAt d e.1 = some e.2 := by
  rw [seenAt_of_get? ht]
  exact get?_of_mem (hc.distinct_regions d t ht) he

theorem requiredUpdates_spec (hc : c.Orderly) (htd : c.Tracks device)
    (htc : c.Tracks c.device) (answer : NodeId → NodeId → Bool) :
    ∃ needs, c.requiredUpdates (answering answer) device = .ok needs ∧
      Covers needs device fun r x => x = c.device ∧ ∃ i : Int, c.Lacks x device r (some i) := by
  obtain ⟨here, hhere, hokc⟩ := htc.exists_seenOn
  obtain ⟨needs, hneeds, htarget, hcovered⟩ := exists_mapM_covers fun e he =>
    requirement_spec htd (hc.seenAt_of_mem hhere he) answer
  have hflat : needs.flatMap Option.toList = needs.filterMap id := (List.filterMap_eq_flatMap_toList id needs).symm
  rw [hflat] at htarget hcovered
  refine ⟨needs.filterMap id, ?_, htarget, fun r x => (hcovered r x).trans ⟨?_, ?_⟩⟩
  · rw [requiredUpdates, hokc]
    exact bind_eq_ok_iff.2 ⟨here, rfl, bind_eq_ok_iff.2 ⟨needs, hneeds, rfl⟩⟩
  · rintro ⟨e, -, rfl, rfl, hl⟩
    exact ⟨rfl, hl⟩
  · rintro ⟨rfl, i, hl⟩
    obtain ⟨ws, hws, -⟩ := hl.2.1
    rw [seenAt_of_get? hhere] at hws
    exact ⟨(r, ws), mem_of_get? hws, rfl, rfl, i, hl⟩

theorem mem_others_iff (hc : c.Orderly) {x : Int} :
    (x, t) ∈ c.others device ↔ c.seen.get? x = some t ∧ x ≠ device := by
  rw [others, get?_eq_some_iff hc.distinct_devices]
  simp

theorem request_spec {x : Int} (hx : c.seen.get? x = some t) (ht : c.seenAt device r = some known)
    (answer : NodeId → NodeId → Bool) :
    ∃ o, request (answering answer) device r known x t = .ok o ∧
      Covers o.toList device fun r' x' => r = r' ∧ x = x' ∧ ∃ i, c.Lacks x device r i := by
  unfold request
  cases hs : t.get? r with
  | none =>
    refine ⟨none, rfl, by simp, ?_⟩
    simp [Lacks, Records, seenAt_of_get? hx, hs]
  | some ws =>
    obtain ⟨o, ho, hcovers⟩ := needFor_missing ((seenAt_of_get? hx).trans hs) ht (fun _ => true) answer
    exact ⟨o, by simpa using ho, by simpa using hcovers⟩

/-- The requested updates are those of the regions that the new device uses and of which it lacks an
identifier of another device, be it a write or a mark for reading. -/
theorem missingOn_spec (hc : c.Orderly) (htd : c.Tracks device) (answer : NodeId → NodeId → Bool) :
    ∃ needs, c.missingOn (answering answer) device = .ok needs ∧
      Covers needs device fun r x => x ≠ device ∧ ∃ i, c.Lacks x device r i := by
  obtain ⟨there, hthere, hokd⟩ := htd.exists_seenOn
  -- keys are distinct, so each other device stands in the list once, with its own table
  obtain ⟨needs, hneeds, htarget, hcovered⟩ := exists_mapM_covers fun e he =>
    exists_mapM_covers fun o (ho : o ∈ c.others device) =>
      request_spec ((mem_others_iff hc).1 ho).1 (hc.seenAt_of_mem hthere he) answer
  have hflat : needs.flatMap (fun os => os.flatMap Option.toList) = needs.flatten.filterMap id := by
    simp [List.filterMap_eq_flatMap_toList, List.flatMap_def, List.flatten_flatten, Function.comp_def]
  rw [hflat] at htarget hcovered
  refine ⟨needs.flatten.filterMap id, ?_, htarget, fun r x => (hcovered r x).trans ⟨?_, ?_⟩⟩
  · rw [missingOn, hokd]
    exact bind_eq_ok_iff.2 ⟨there, rfl, bind_eq_ok_iff.2 ⟨needs, hneeds, rfl⟩⟩
  · rintro ⟨e, -, o, ho, rfl, rfl, hl⟩
    exact ⟨((mem_others_iff hc).1 ho).2, hl⟩
  · rintro ⟨hx, i, hl⟩
    obtain ⟨known, hknown⟩ := Option.isSome_iff_exists.1 hl.1
    rw [seenAt_of_get? hthere] at hknown
    obtain ⟨t, ht⟩ := Option.isSome_iff_exists.1 hl.2.1.uses.tracks
    exact ⟨(r, known), mem_of_get? hknown, (x, t), (mem_others_iff hc).2 ⟨ht, hx⟩, rfl, rfl, i, hl⟩

end ParallelPatterns.DeviceContext
