import ParallelPatterns.Proofs.DeviceContext

/-!
# Runs of a context between host and device

A run starts with nothing recorded, or with the writes of the first node, and enters one node after
another, each on the host (device 0) or on the device (device 1). What entering a node does is said
once, by `Entered`; two laws of every step of every run are derived from it:

* the devices stay in step: of the regions that it uses, the device of the context knows all writes
of the other device, no write is forgotten, and what is learnt from the other device is brought by
an update; * an update is due to a write that its target lacks, with one exception, which is stated
exactly.
-/

namespace ParallelPatterns

open Tracking List

namespace DeviceContext

variable {c : DeviceContext} {device : Int}

/-! ### Requesting updates -/

theorem receive_spec (c : DeviceContext) (needs : List Need) :
    ∀ there : Table Region (List SeenWrite), (∀ n ∈ needs, (there.get? n.region).isSome) →
      (there.keys.Nodup → (c.receive needs there).keys.Nodup) ∧
      (∀ r, ((c.receive needs there).get? r).isSome = (there.get? r).isSome) ∧
      ∀ r i, (∃ ws, (c.receive needs there).get? r = some ws ∧ knows ws i) ↔
        (∃ ws, there.get? r = some ws ∧ knows ws i) ∨ ∃ n ∈ needs, n.region = r ∧ c.Records n.source r i := by
  induction needs with
  | nil => exact fun there _ => ⟨id, fun _ => rfl, by simp [receive]⟩
  | cons n needs ih =>
    intro there hneeds
    -- meeting the first need changes the table at its own region only, and adds no region
    obtain ⟨known, hknown⟩ := Option.isSome_iff_exists.1 (hneeds n (by simp))
    let ws := ((c.seen.get? n.source).getD ∅).getD n.region []
    let next := there.update n.region [] fun known => addAll known (ws.filter fun w => !knows known w.1)
    have hget : ∀ r, next.get? r =
        if n.region = r then some (addAll known (ws.filter fun w => !knows known w.1)) else there.get? r := by
      intro r
      simp [next, Table.getD, hknown]
    have hsome : ∀ r, (next.get? r).isSome = (there.get? r).isSome := by
      intro r
      rw [hget]
      split
      · next h => rw [← h, hknown]; rfl
      · rfl
    obtain ⟨hkeys, hregions, hrecords⟩ := ih next fun m hm => by
      rw [hsome]
      exact hneeds m (by simp [hm])
    refine ⟨fun h => hkeys (Table.nodup_keys_update h _ _ _), fun r => (hregions r).trans (hsome r), ?_⟩
    intro r i
    refine (hrecords r i).trans ?_
    rw [hget]
    by_cases h : n.region = r
    · subst h
      have hsource : knows ws i ↔ c.Records n.source n.region i := records_iff_getD.symm
      simp only [if_true, Option.some.injEq, exists_eq_left', knows_addAll_missing, hknown,
        mem_cons, exists_eq_or_imp, true_and, or_assoc, hsource]
    · simp [h]

variable {there : Table Region (List SeenWrite)}

theorem mem_readMarks {r : Region} {w : SeenWrite} (h : (r, w) ∈ c.readMarks device there) : w.1 = none := by
  rw [readMarks, mem_flatMap] at h
  obtain ⟨⟨r', ws⟩, -, h⟩ := h
  dsimp only at h
  split at h
  · simp only [mem_map, mem_filter, Option.isNone_iff_eq_none] at h
    obtain ⟨v, ⟨-, hv⟩, heq⟩ := h
    cases heq
    exact hv
  · cases h

theorem knows_filter_readMarks {r : Region} {ws : List SeenWrite} {i : Int} :
    knows (ws.filter fun w => !(c.readMarks device there).contains (r, w)) (some i) ↔ knows ws (some i) := by
  simp only [knows_iff, mem_filter]
  constructor
  · rintro ⟨w, ⟨hw, -⟩, hi⟩
    exact ⟨w, hw, hi⟩
  · rintro ⟨w, hw, hi⟩
    refine ⟨w, ⟨hw, ?_⟩, hi⟩
    rw [Bool.not_eq_true', ← Bool.not_eq_true, contains_iff_mem]
    intro hmark
    rw [mem_readMarks hmark] at hi
    cases hi

/-- A context `c'` that comes from `c` by requesting updates on a device: the device has recorded
the writes of the others to the regions that it uses. -/
structure Received (c c' : DeviceContext) (device : Int) : Prop where
  tracks : ∀ d, c'.Tracks d ↔ c.Tracks d
  uses : ∀ d r, c'.Uses d r ↔ c.Uses d r
  writes : ∀ d r (i : Int), c'.Records d r (some i) ↔ c.Records d r (some i) ∨
    d = device ∧ c.Uses device r ∧ ∃ x, x ≠ device ∧ c.Records x r (some i)
  orderly : c'.Orderly

theorem runOn_requestUpdates (hc : c.Orderly) (htd : c.Tracks device) (answer : NodeId → NodeId → Bool) :
    ∃ needs c', (requestUpdates (answering answer) device).runOn c = (.ok needs, c') ∧
      Covers needs device (fun r x => x ≠ device ∧ ∃ i, c.Lacks x device r i) ∧ Received c c' device := by
  obtain ⟨there, hthere, hokd⟩ := htd.exists_seenOn
  obtain ⟨needs, hneeds, htarget, hiff⟩ := missingOn_spec hc htd answer
  -- a need is one for a region that the device uses, so that no region comes in
  have hused : ∀ n ∈ needs, (there.get? n.region).isSome := by
    intro n hn
    obtain ⟨-, i, hl⟩ := (hiff n.region n.source).1 ⟨n, hn, rfl, rfl⟩
    rw [← seenAt_of_get? hthere]
    exact hl.1
  obtain ⟨hkeys, hregions, hrecords⟩ := receive_spec c needs there hused
  let after := (c.receive needs there).map fun r ws =>
    ws.filter fun w => !(c.readMarks device there).contains (r, w)
  refine ⟨needs, c.withSeen device after, ?_, ⟨htarget, hiff⟩, ?_, ?_, ?_, ?_⟩
  · unfold requestUpdates
    rw [runOn_bind_of_ok (runOn_query_of_ok hneeds),
      runOn_bind_of_ok (runOn_query_of_ok hokd),
      runOn_bind_of_ok (runOn_modify _ c), runOn_pure]
  · intro d
    rw [tracks_withSeen]
    exact ⟨fun h => h.elim id fun h => h ▸ htd, .inl⟩
  · intro d r
    rw [Uses, Uses, seenAt_withSeen]
    split
    · next h =>
      subst h
      rw [seenAt_of_get? hthere, Table.get?_map, Option.isSome_map, hregions]
    · rfl
  · intro d r i
    rw [Records, seenAt_withSeen]
    by_cases h : device = d
    · subst h
      -- what is dropped in the end are marks for reading, and no write
      have hafter : (∃ ws, after.get? r = some ws ∧ knows ws (some i)) ↔
          ∃ ws, (c.receive needs there).get? r = some ws ∧ knows ws (some i) := by
        rw [Table.get?_map]
        cases (c.receive needs there).get? r with
        | none => simp
        | some ws =>
          simp only [Option.map_some, Option.some.injEq, exists_eq_left', knows_filter_readMarks]
      rw [if_pos rfl, hafter, hrecords, ← seenAt_of_get? hthere]
      show c.Records device r (some i) ∨ _ ↔ _
      by_cases hrec : c.Records device r (some i)
      · simp [hrec]
      · simp only [hrec, false_or, true_and]
        constructor
        · rintro ⟨n, hn, rfl, hsource⟩
          obtain ⟨hne, j, hl⟩ := (hiff n.region n.source).1 ⟨n, hn, rfl, rfl⟩
          exact ⟨hl.1, n.source, hne, hsource⟩
        · rintro ⟨huses, x, hx, hsource⟩
          obtain ⟨n, hn, rfl, rfl⟩ := (hiff r x).2 ⟨hx, some i, huses, hsource, hrec⟩
          exact ⟨n, hn, rfl, hsource⟩
    · simp [h, Ne.symm h, Records]
  · exact hc.withSeen (hc.devices device htd)
      (by rw [Table.keys_map]; exact hkeys (hc.distinct_regions _ _ hthere))

end DeviceContext

/-! ### Entering a node -/

/-- The update brings the region from the source to the target. -/
def DeviceUpdate.Moves (u : DeviceUpdate) (r : Region) (source target : Int) : Prop :=
  u.regions = [r] ∧ TransferKind.between source target = .ok u.kind

instance (u : DeviceUpdate) (r : Region) (source target : Int) : Decidable (u.Moves r source target) :=
  inferInstanceAs (Decidable (u.regions = [r] ∧ TransferKind.between source target = .ok u.kind))

namespace DeviceContext

theorem other_unique {x y device : Int} (hx : x = 0 ∨ x = 1) (hy : y = 0 ∨ y = 1)
    (hd : device = 0 ∨ device = 1) (hxd : x ≠ device) (hyd : y ≠ device) : x = y := by
  omega

theorem exists_updateFor (source sink : NodeId) {n : Need} (hs : n.source = 0 ∨ n.source = 1)
    (ht : n.target = 0 ∨ n.target = 1) (hne : n.source ≠ n.target) :
    ∃ u, updateFor source sink n = .ok u ∧ u.Moves n.region n.source n.target := by
  have hkind : ∃ kind, TransferKind.between n.source n.target = .ok kind := by
    unfold TransferKind.between
    rcases hs with hs | hs <;> rcases ht with ht | ht <;> simp_all
  obtain ⟨kind, hkind⟩ := hkind
  refine ⟨{ source, sink, regions := [n.region], kind, lastWrites := [(n.region, n.place)] }, ?_, rfl, hkind⟩
  rw [updateFor, hkind]
  rfl

theorem exists_updates (source sink : NodeId) {device : Int} (hd : device = 0 ∨ device = 1) {needs : List Need}
    (hneeds : ∀ n ∈ needs, n.target = device ∧ (n.source = 0 ∨ n.source = 1) ∧ n.source ≠ device) :
    ∃ updates, needs.mapM (updateFor source sink) = .ok updates ∧
      (∀ u ∈ updates, ∃ n ∈ needs, u.Moves n.region n.source device) ∧
      ∀ n ∈ needs, ∃ u ∈ updates, u.Moves n.region n.source device := by
  refine exists_mapM_of_spec fun n hn => ?_
  obtain ⟨htarget, hsource, hne⟩ := hneeds n hn
  rw [← htarget] at hd hne ⊢
  exact exists_updateFor source sink hsource hd hne

/-- The target lacks a write to the region that the source has recorded: it has not recorded it, and
it is not one of the writes `own` that are noted first. -/
def LacksWrite (c : DeviceContext) (own : Table Region (List (Option Int))) (r : Region)
    (source target : Int) : Prop :=
  ∃ i : Int, c.Records source r (some i) ∧ ¬ c.Records target r (some i) ∧ ¬ Names own r (some i)

/-- The target lacks a mark for reading of the region that the source has recorded. -/
def LacksMark (c : DeviceContext) (own : Table Region (List (Option Int))) (r : Region)
    (source target : Int) : Prop :=
  c.Records source r none ∧ ¬ c.Records target r none ∧ ¬ Names own r none

/-- What entering a node on a device does, by the context before and the node's own writes. -/
structure Entered (c : DeviceContext) (own : Table Region (List (Option Int))) (device : Int)
    (updates : List DeviceUpdate) (c' : DeviceContext) : Prop where
  current : c'.device = device
  orderly : c'.Orderly
  tracks : ∀ d, c'.Tracks d ↔ c.Tracks d ∨ d = device
  writes : ∀ d r (i : Int), c'.Records d r (some i) ↔ c.Records d r (some i) ∨ d = device ∧
    (Names own r (some i) ∨ c'.Uses device r ∧ ∃ x, x ≠ device ∧ c.Records x r (some i))
  updates_from_other : ∀ u ∈ updates, ∃ r x, (x = 0 ∨ x = 1) ∧ x ≠ device ∧ u.Moves r x device
  /-- A region is brought because of a write that is lacking, or, if the step stays on its device,
  because of a mark for reading that is lacking. -/
  moves : ∀ r x, x = 0 ∨ x = 1 → x ≠ device → ((∃ u ∈ updates, u.Moves r x device) ↔
    c'.Uses device r ∧ (c.LacksWrite own r x device ∨ c.device = device ∧ c.LacksMark own r x device))

section phases

variable {c c₁ c₂ : DeviceContext} {own : Table Region (List (Option Int))} {device : Int}

theorem lacks_noted (h : Extends c c₁ device (fun r => r ∈ own.keys) (Names own)) {x : Int}
    (hx : x ≠ device) {r : Region} {i : Option Int} :
    c₁.Lacks x device r i ↔ c₁.Uses device r ∧ c.Records x r i ∧ ¬ c.Records device r i ∧ ¬ Names own r i := by
  simp [Lacks, h.records, hx]

variable (hnoted : Extends c c₁ device (fun r => r ∈ own.keys) (Names own))
include hnoted

variable (hsync : Extends c₁ c₂ device (fun _ => False) fun r i => c₁.Uses device r ∧ c₁.Records c₁.device r i)
include hsync

/-- The two searches for updates find the writes that are lacking, and the second one also finds a
mark for reading that is lacking, unless synchronising has brought it. -/
theorem lacks_before_or_after (hc : c.device = 0 ∨ c.device = 1) (hd : device = 0 ∨ device = 1)
    {x : Int} (hx : x = 0 ∨ x = 1) (hxd : x ≠ device) {r : Region} :
    (x = c₁.device ∧ ∃ i : Int, c₁.Lacks x device r (some i)) ∨ (∃ i, c₂.Lacks x device r i) ↔
      c₁.Uses device r ∧ (c.LacksWrite own r x device ∨ c.device = device ∧ c.LacksMark own r x device) := by
  have hafter : ∀ i, c₂.Lacks x device r i ↔ c₁.Lacks x device r i ∧ ¬ c₁.Records c.device r i := by
    intro i
    rw [← hnoted.current]
    simp only [Lacks, hsync.uses, hsync.records, hxd, false_and, or_false, true_and, not_or, not_and]
    constructor
    · rintro ⟨hu, hx, hd, hs⟩
      exact ⟨⟨hu, hx, hd⟩, hs hu⟩
    · rintro ⟨⟨hu, hx, hd⟩, hs⟩
      exact ⟨hu, hx, hd, fun _ => hs⟩
  rw [hnoted.current]
  by_cases hstay : c.device = device
  · -- the step stays on its device: synchronising changes nothing
    have hlacks : ∀ i, c₂.Lacks x device r i ↔ c₁.Lacks x device r i := by
      intro i
      rw [hafter, hstay]
      exact ⟨And.left, fun h => ⟨h, h.2.2⟩⟩
    constructor
    · rintro (⟨h, -⟩ | ⟨i, hl⟩)
      · exact absurd (h.trans hstay) hxd
      · obtain ⟨hu, h⟩ := (lacks_noted hnoted hxd).1 ((hlacks i).1 hl)
        cases i with
        | none => exact ⟨hu, .inr ⟨hstay, h⟩⟩
        | some i => exact ⟨hu, .inl ⟨i, h⟩⟩
    · rintro ⟨hu, ⟨i, h⟩ | ⟨-, h⟩⟩
      · exact .inr ⟨some i, (hlacks _).2 ((lacks_noted hnoted hxd).2 ⟨hu, h⟩)⟩
      · exact .inr ⟨none, (hlacks _).2 ((lacks_noted hnoted hxd).2 ⟨hu, h⟩)⟩
  · -- the step leaves the device: synchronising has brought everything
    have hx' : c.device = x := other_unique hc hx hd hstay hxd
    have hnone : ∀ i, ¬ c₂.Lacks x device r i := by
      intro i h
      rw [hafter, hx'] at h
      exact h.2 h.1.2.1
    rw [hx']
    constructor
    · rintro (⟨-, i, hl⟩ | ⟨i, hl⟩)
      · obtain ⟨hu, h⟩ := (lacks_noted hnoted hxd).1 hl
        exact ⟨hu, .inl ⟨i, h⟩⟩
      · exact absurd hl (hnone i)
    · rintro ⟨hu, ⟨i, h⟩ | ⟨h, -⟩⟩
      · exact .inl ⟨rfl, i, (lacks_noted hnoted hxd).2 ⟨hu, h⟩⟩
      · exact absurd h hxd

omit hnoted in
theorem Received.uses_iff {c₃ : DeviceContext} (hreceived : Received c₂ c₃ device) (r : Region) :
    c₃.Uses device r ↔ c₁.Uses device r := by
  rw [hreceived.uses, hsync.uses]
  simp

theorem records_received {c₃ : DeviceContext} (hreceived : Received c₂ c₃ device) (d : Int)
    (r : Region) (i : Int) : c₃.Records d r (some i) ↔ c.Records d r (some i) ∨ d = device ∧
      (Names own r (some i) ∨ c₃.Uses device r ∧ ∃ x, x ≠ device ∧ c.Records x r (some i)) := by
  have hother : ∀ x, x ≠ device → (c₂.Records x r (some i) ↔ c.Records x r (some i)) := by
    intro x hx
    rw [hsync.records, hnoted.records]
    simp [hx]
  rw [hreceived.writes, hreceived.uses_iff hsync, hsync.uses, hsync.records, hnoted.records, hnoted.current]
  constructor
  · rintro (((h | ⟨hd, h⟩) | ⟨hd, hu, h⟩) | ⟨hd, hu, x, hx, h⟩)
    · exact .inl h
    · exact .inr ⟨hd, .inl h⟩
    · -- what synchronising shows comes from the device that the step leaves, if it leaves one
      rcases (hnoted.records _ _ _).1 h with h | ⟨-, h⟩
      · by_cases hstay : c.device = device
        · exact .inl (hd ▸ hstay ▸ h)
        · exact .inr ⟨hd, .inr ⟨hu, c.device, hstay, h⟩⟩
      · exact .inr ⟨hd, .inl h⟩
    · exact .inr ⟨hd, .inr ⟨hu.elim id fun h => h.2.elim, x, hx, (hother x hx).1 h⟩⟩
  · rintro (h | ⟨hd, h | ⟨hu, x, hx, h⟩⟩)
    · exact .inl (.inl (.inl h))
    · exact .inl (.inl (.inr ⟨hd, h⟩))
    · exact .inr ⟨hd, .inl hu, x, hx, (hother x hx).2 h⟩

end phases

theorem runOn_enter {c : DeviceContext} (hc : c.Orderly) {device : Int} (hd : device = 0 ∨ device = 1)
    (hready : c.Tracks c.device ∨ c.device = device) {writes : WritesByDevice}
    (hwrites : (writes.get? device).isSome) (answer : NodeId → NodeId → Bool) (next : NodeId) :
    ∃ updates c', (enter (answering answer) device writes next).runOn c = (.ok updates, c') ∧
      Entered c (writes.ofNode device next) device updates c' := by
  obtain ⟨units, hunits⟩ := Option.isSome_iff_exists.1 hwrites
  have hown : writes.ofNode device next = units.getD next ∅ := by
    simp [WritesByDevice.ofNode, hunits, Table.getD]
  obtain ⟨changed, c₁, hnote, hnoted⟩ := runOn_noteWrites hready (writes.ofNode device next) next
  have hc₁ : c₁.Orderly := hnoted.orderly hc hd
  have htd₁ : c₁.Tracks device := (hnoted.tracks device).2 (.inr rfl)
  have htc₁ : c₁.Tracks c₁.device := by
    rw [hnoted.current, hnoted.tracks]
    exact hready
  obtain ⟨required, hrequired, htargets, hlacking⟩ := requiredUpdates_spec hc₁ htd₁ htc₁ answer
  obtain ⟨c₂, hsync, hsynced⟩ := runOn_synchronise htd₁ htc₁
  have hc₂ : c₂.Orderly := hsynced.orderly hc₁ hd
  have htd₂ : c₂.Tracks device := (hsynced.tracks device).2 (.inr rfl)
  obtain ⟨requested, c₃, hrequest, ⟨htargets', hmissing⟩, hreceived⟩ := runOn_requestUpdates hc₂ htd₂ answer
  -- a device has recorded what it has recorded, so both searches look at the other device only
  have hneeds : ∀ n ∈ required ++ requested,
      n.target = device ∧ (n.source = 0 ∨ n.source = 1) ∧ n.source ≠ device := by
    intro n hn
    rcases mem_append.1 hn with hn | hn
    · obtain ⟨hsource, i, hl⟩ := (hlacking n.region n.source).1 ⟨n, hn, rfl, rfl⟩
      refine ⟨htargets n hn, hsource ▸ hc₁.current, fun h => ?_⟩
      rw [h] at hl
      exact hl.2.2 hl.2.1
    · obtain ⟨hne, i, hl⟩ := (hmissing n.region n.source).1 ⟨n, hn, rfl, rfl⟩
      exact ⟨htargets' n hn, hc₂.devices _ hl.2.1.uses.tracks, hne⟩
  have hregion : ∀ r x, x ≠ device → ((∃ n ∈ required ++ requested, n.region = r ∧ n.source = x) ↔
      (x = c₁.device ∧ ∃ i : Int, c₁.Lacks x device r (some i)) ∨ ∃ i, c₂.Lacks x device r i) := by
    intro r x hxd
    simp only [mem_append, or_and_right, exists_or, hlacking, hmissing, hxd, ne_eq,
      not_false_eq_true, true_and]
  obtain ⟨updates, hupdates, hfound, hbrought⟩ := exists_updates c₃.node next hd hneeds
  refine ⟨distinct updates, { c₃ with node := next, device }, ?_, rfl, ?_, ?_, ?_, ?_, ?_⟩
  · unfold enter
    rw [hunits]
    rw [hown] at hnote
    rw [runOn_bind_of_ok hnote, runOn_bind_of_ok (runOn_query_of_ok hrequired),
      runOn_bind_of_ok hsync, runOn_bind_of_ok hrequest,
      runOn_bind_of_ok (runOn_get c₃),
      runOn_bind_of_ok (runOn_query_of_ok hupdates),
      runOn_bind_of_ok (runOn_modify _ c₃), runOn_pure]
  · exact ⟨hd, hreceived.orderly.distinct_devices, hreceived.orderly.devices,
      hreceived.orderly.distinct_regions⟩
  · intro d
    show c₃.Tracks d ↔ _
    rw [hreceived.tracks, hsynced.tracks, hnoted.tracks, or_assoc, or_self]
  · intro d r i
    exact (records_received hnoted hsynced hreceived d r i :)
  · intro u hu
    obtain ⟨n, hn, hmoves⟩ := hfound u (mem_distinct.1 hu)
    obtain ⟨-, hsource, hne⟩ := hneeds n hn
    exact ⟨n.region, n.source, hsource, hne, hmoves⟩
  · intro r x hx hxd
    show _ ↔ c₃.Uses device r ∧ _
    rw [hreceived.uses_iff hsynced, ← lacks_before_or_after hnoted hsynced hc.current hd hx hxd, ← hregion r x hxd]
    constructor
    · rintro ⟨u, hu, hmoves⟩
      obtain ⟨n, hn, hnu⟩ := hfound u (mem_distinct.1 hu)
      obtain ⟨-, hsource, hne⟩ := hneeds n hn
      have hr : [n.region] = [r] := hnu.1.symm.trans hmoves.1
      exact ⟨n, hn, singleton_inj.1 hr, other_unique hsource hx hd hne hxd⟩
    · rintro ⟨n, hn, rfl, rfl⟩
      obtain ⟨u, hu, hmoves⟩ := hbrought n hn
      exact ⟨u, mem_distinct.2 hu, hmoves⟩

end DeviceContext

end ParallelPatterns

/-! ## Runs -/

namespace ParallelPatterns.DeviceContext

open Tracking

variable {device i : Int} {c c' : DeviceContext} {next : NodeId} {updates : List DeviceUpdate}

/-- A context at the start of a run: nothing is recorded, or the writes of its node are. -/
inductive Starts : DeviceContext → Prop
  | fresh (node : NodeId) {device : Int} (hd : device = 0 ∨ device = 1) : Starts { node, device }
  | noted (node : NodeId) {device : Int} (hd : device = 0 ∨ device = 1)
      (own : Table Region (List (Option Int))) {out : List (Region × Bool)} {c : DeviceContext}
      (h : (noteWrites device own node).runOn { node, device } = (.ok out, c)) : Starts c

variable (answer : NodeId → NodeId → Bool)

/-- A step of a run: a node is entered on one of the two devices. -/
def Steps (writes : WritesByDevice) (c c' : DeviceContext) : Prop :=
  ∃ device next updates, (device = 0 ∨ device = 1) ∧
    (enter (answering answer) device writes next).runOn c = (.ok updates, c')

/-- A run: any number of steps. -/
def Run (writes : WritesByDevice) : DeviceContext → DeviceContext → Prop :=
  Relation.ReflTransGen (Steps answer writes)

/-- What holds along a run: the tables are orderly, and nothing at all is recorded or the device of
the context has a table. -/
structure Followed (c : DeviceContext) : Prop where
  orderly : c.Orderly
  blank_or_tracks : c.seen = ∅ ∨ c.Tracks c.device

theorem orderly_fresh (node : NodeId) (hd : device = 0 ∨ device = 1) :
    ({ node, device } : DeviceContext).Orderly where
  current := hd
  distinct_devices := List.nodup_nil
  devices d h := by simp [Tracks] at h
  distinct_regions d t h := by simp at h

theorem Starts.followed (h : Starts c) : c.Followed := by
  cases h with
  | fresh node hd => exact ⟨orderly_fresh node hd, .inl rfl⟩
  | @noted node device hd own out c h =>
    obtain ⟨out', c', hrun, hext⟩ := @runOn_noteWrites { node, device } device (.inr rfl) own node
    obtain rfl : c' = c := by rw [h] at hrun; exact (Prod.mk.inj hrun).2.symm
    refine ⟨hext.orderly (orderly_fresh node hd) hd, .inr ?_⟩
    rw [hext.current]
    exact (hext.tracks device).2 (.inr rfl)

theorem runOn_enter_of_blank (hblank : c.seen = ∅) (hne : c.device ≠ device)
    {writes : WritesByDevice} (hwrites : (writes.get? device).isSome)
    (answer : NodeId → NodeId → Bool) (next : NodeId) :
    ∃ c', (enter (answering answer) device writes next).runOn c = (.error .unknownKey, c') := by
  obtain ⟨units, hunits⟩ := Option.isSome_iff_exists.1 hwrites
  let c₀ : DeviceContext := { c with seen := c.seen.insertNew device ∅ }
  have hthere : c₀.seenOn device = .ok ∅ := by
    rw [seenOn_eq_ok_iff, Table.get?_insertNew, hblank]
    simp
  have hhere : c₀.seenOn c₀.device = .error .unknownKey := by
    have hget : c₀.seen.get? c.device = none := by
      rw [Table.get?_insertNew, hblank]
      simp [Ne.symm hne]
    rw [seenOn, hget]
  -- noting the writes fails at the first one, or there is none
  have hnote : ∃ r, (noteWrites device (units.getD next ∅) next).runOn c = (r, c₀) ∧
      ∀ e, r = .error e → e = .unknownKey := by
    unfold noteWrites
    rw [runOn_bind_of_ok (runOn_modify _ c)]
    cases (units.getD next ∅).entries with
    | nil => exact ⟨.ok [], rfl, by simp⟩
    | cons e es =>
      have hnew : c₀.isNewRegion device e.1 = .error .unknownKey := by
        rw [isNewRegion, hthere, hhere]
        rfl
      have hregion : (noteRegion device next e.1 e.2).runOn c₀ = (.error .unknownKey, c₀) := by
        exact runOn_bind_of_error (runOn_query_of_error hnew)
      refine ⟨.error .unknownKey, runOn_bind_of_error ?_, by simp⟩
      exact runOn_bind_of_error hregion
  have hrequired : c₀.requiredUpdates (answering answer) device = .error .unknownKey := by
    rw [requiredUpdates, hhere]
    rfl
  obtain ⟨r, hrun, hr⟩ := hnote
  refine ⟨c₀, ?_⟩
  unfold enter
  rw [hunits]
  cases r with
  | error e =>
    rw [hr e rfl] at hrun
    exact runOn_bind_of_error hrun
  | ok out =>
    refine (runOn_bind_of_ok hrun).trans ?_
    exact runOn_bind_of_error (runOn_query_of_error hrequired)

section run

variable {answer : NodeId → NodeId → Bool} {writes : WritesByDevice}

variable (hc : c.Followed)
include hc

theorem Followed.entered (hd : device = 0 ∨ device = 1)
    (hstep : (enter (answering answer) device writes next).runOn c = (.ok updates, c')) :
    Entered c (writes.ofNode device next) device updates c' := by
  have hwrites : (writes.get? device).isSome := by
    cases hw : writes.get? device with
    | some units => rfl
    | none =>
      unfold enter at hstep
      rw [hw] at hstep
      cases hstep
  -- from a blank context only a step on its own device succeeds
  have hready : c.Tracks c.device ∨ c.device = device := by
    rcases hc.blank_or_tracks with hblank | htracks
    · by_contra hnot
      obtain ⟨c₁, hfail⟩ := runOn_enter_of_blank hblank (fun h => hnot (.inr h)) hwrites answer next
      rw [hfail] at hstep
      cases hstep
    · exact .inl htracks
  obtain ⟨updates', c₁, hrun, hentered⟩ := runOn_enter hc.orderly hd hready hwrites answer next
  rw [hstep] at hrun
  cases hrun
  exact hentered

theorem Followed.step (hstep : Steps answer writes c c') : c'.Followed := by
  obtain ⟨device, next, updates, hd, hstep⟩ := hstep
  have hentered := hc.entered hd hstep
  refine ⟨hentered.orderly, .inr ?_⟩
  rw [hentered.current]
  exact (hentered.tracks device).2 (.inr rfl)

theorem Followed.run (hrun : Run answer writes c c') : c'.Followed := by
  induction hrun with
  | refl => exact hc
  | tail _ hstep ih => exact ih.step hstep

theorem Followed.records_of_run (hrun : Run answer writes c c')
    {d : Int} {r : Region} (h : c.Records d r (some i)) : c'.Records d r (some i) := by
  induction hrun with
  | refl => exact h
  | tail hbefore hstep ih =>
    obtain ⟨device, next, updates, hd, hstep⟩ := hstep
    have hentered := (hc.run hbefore).entered hd hstep
    exact (hentered.writes d r i).2 (.inl ih)

end run

/-! ### The devices stay in step -/

theorem other_ne : 1 - device ≠ device := by omega

theorem Entered.exists_update {own : Table Region (List (Option Int))}
    (h : Entered c own device updates c') (hc : c.Orderly) (hd : device = 0 ∨ device = 1)
    {r : Region} (hafter : c'.Records device r (some i)) (hbefore : ¬ c.Records device r (some i))
    (hown : ¬ Names own r (some i)) : ∃ u ∈ updates, u.Moves r (1 - device) device := by
  rcases (h.writes _ _ _).1 hafter with hrec | ⟨-, hrec | ⟨huses, x, hx, hrec⟩⟩
  · exact absurd hrec hbefore
  · exact absurd hrec hown
  · have hother : 1 - device = x :=
      other_unique (by omega) (hc.devices x hrec.uses.tracks) hd other_ne hx
    rw [hother]
    exact (h.moves r x (hc.devices x hrec.uses.tracks) hx).2 ⟨huses, .inl ⟨i, hrec, hbefore, hown⟩⟩

/-- At every step of a run, whatever the order of the nodes is said to be: of each region that it
uses, the device of the context has recorded all writes of the other device; no device has forgotten
a write that it had recorded earlier in the run; and each write that the device has gained, and that
is not one of the entered node, is brought by an update from the other device. The step gives its
updates, unless nothing at all is recorded and it leaves the device of the context. -/
theorem devices_stay_in_step (answer : NodeId → NodeId → Bool) {writes : WritesByDevice}
    (hhost : (writes.get? 0).isSome = true) (hdevice : (writes.get? 1).isSome = true)
    {start earlier c : DeviceContext} (hstart : Starts start) (hearlier : Run answer writes start earlier)
    (hrun : Run answer writes earlier c) {device : Int} (hd : device = 0 ∨ device = 1)
    (next : NodeId) : match (enter (answering answer) device writes next).runOn c with
    | (.ok updates, c') =>
      c'.device = device ∧
      (∀ r (i : Int), c'.Uses device r → c'.Records (1 - device) r (some i) →
        c'.Records device r (some i)) ∧
      (∀ d r (i : Int), earlier.Records d r (some i) → c'.Records d r (some i)) ∧
      ∀ r (i : Int), c'.Records device r (some i) → ¬ c.Records device r (some i) →
        ¬ Names (writes.ofNode device next) r (some i) → ∃ u ∈ updates, u.Moves r (1 - device) device
    | (.error e, _) => e = .unknownKey ∧ c.seen = ∅ ∧ c.device ≠ device := by
  have hfollowed := hstart.followed.run hearlier
  have hc := hfollowed.run hrun
  have hwrites : (writes.get? device).isSome = true := by
    rcases hd with rfl | rfl
    · exact hhost
    · exact hdevice
  by_cases hready : c.Tracks c.device ∨ c.device = device
  · obtain ⟨updates, c', hstep, hentered⟩ := runOn_enter hc.orderly hd hready hwrites answer next
    rw [hstep]
    refine ⟨hentered.current, ?_, ?_, ?_⟩
    · intro r i huses hother
      rcases (hentered.writes _ _ _).1 hother with hbefore | ⟨hsame, -⟩
      · exact (hentered.writes _ _ _).2 (.inr ⟨rfl, .inr ⟨huses, 1 - device, other_ne, hbefore⟩⟩)
      · exact absurd hsame other_ne
    · intro d r i hrec
      exact (hentered.writes d r i).2 (.inl (hfollowed.records_of_run hrun hrec))
    · intro r i
      exact hentered.exists_update hc.orderly hd
  · have hblank : c.seen = ∅ := hc.blank_or_tracks.resolve_right fun h => hready (.inl h)
    have hleaves : c.device ≠ device := fun h => hready (.inr h)
    obtain ⟨c', hstep⟩ := runOn_enter_of_blank hblank hleaves hwrites answer next
    rw [hstep]
    exact ⟨rfl, hblank, hleaves⟩

/-- The host writes `r` at one node, and the device reads it at the next. -/
def writeThenRead : WritesByDevice :=
  ⟨[(0, ⟨[("1:2", ⟨[("r", [some 5])]⟩)]⟩), (1, ⟨[("1:3", ⟨[("r", [none])]⟩)]⟩)]⟩

/-- The context after the host's write. -/
def written : DeviceContext :=
  ((enter (answering fun _ _ => false) 0 writeThenRead "1:2").runOn { node := "1:1", device := 0 }).2

theorem run_written : Run (fun _ _ => false) writeThenRead { node := "1:1", device := 0 } written :=
  .single ⟨0, "1:2", [], .inl rfl, rfl⟩

/-- The device, which does not know the host's write, learns of it by an update. -/
theorem devices_stay_in_step_written :
    written.Records 0 "r" (some 5) ∧ ¬ written.Records 1 "r" (some 5) ∧
      ∃ updates c', (enter (answering fun _ _ => false) 1 writeThenRead "1:3").runOn written = (.ok updates, c') ∧
        c'.Records 0 "r" (some 5) ∧ c'.Records 1 "r" (some 5) ∧ ∃ u ∈ updates, u.Moves "r" 0 1 := by
  obtain ⟨-, hsync, hkept, hbrought⟩ := devices_stay_in_step (fun _ _ => false) rfl rfl
    (.fresh "1:1" (.inl rfl)) run_written .refl (.inr rfl) "1:3"
  have hlearnt := hsync "r" 5 (by decide) (hkept 0 "r" 5 (by decide))
  exact ⟨by decide, by decide, _, _, rfl, hkept 0 "r" 5 (by decide), hlearnt,
    hbrought "r" 5 hlearnt (by decide) (by decide)⟩

/-! ### What an update is due to -/

/-- Every update of a step of a run brings one region from the other device. A region of which the
target lacks no write is brought exactly if the step stays on its device, the device uses the
region, and it lacks a mark for reading. -/
theorem brings_without_write_iff (answer : NodeId → NodeId → Bool) {writes : WritesByDevice}
    {start c c' : DeviceContext} (hstart : Starts start) (hrun : Run answer writes start c)
    {device : Int} (hd : device = 0 ∨ device = 1) (next : NodeId) {updates : List DeviceUpdate}
    (hstep : (enter (answering answer) device writes next).runOn c = (.ok updates, c')) :
    (∀ u ∈ updates, ∃ r, u.Moves r (1 - device) device) ∧
      ∀ r, (∃ u ∈ updates, u.Moves r (1 - device) device ∧
          ¬ c.LacksWrite (writes.ofNode device next) r (1 - device) device) ↔
        c.device = device ∧ c'.Uses device r ∧
          c.LacksMark (writes.ofNode device next) r (1 - device) device ∧
          ¬ c.LacksWrite (writes.ofNode device next) r (1 - device) device := by
  have hentered := (hstart.followed.run hrun).entered hd hstep
  have hother : 1 - device = 0 ∨ 1 - device = 1 := by omega
  constructor
  · intro u hu
    obtain ⟨r, x, hx, hne, hmoves⟩ := hentered.updates_from_other u hu
    rw [other_unique hx hother hd hne other_ne] at hmoves
    exact ⟨r, hmoves⟩
  · intro r
    have hbrought := hentered.moves r (1 - device) hother other_ne
    constructor
    · rintro ⟨u, hu, hmoves, hwrite⟩
      obtain ⟨huses, hlacks | ⟨hstays, hmark⟩⟩ := hbrought.1 ⟨u, hu, hmoves⟩
      · exact absurd hlacks hwrite
      · exact ⟨hstays, huses, hmark, hwrite⟩
    · rintro ⟨hstays, huses, hmark, hwrite⟩
      obtain ⟨u, hu, hmoves⟩ := hbrought.2 ⟨huses, .inr ⟨hstays, hmark⟩⟩
      exact ⟨u, hu, hmoves, hwrite⟩

/-- The device reads `r` at one node, and the host writes it at the next. -/
def readThenWrite : WritesByDevice :=
  ⟨[(0, ⟨[("1:3", ⟨[("r", [some 5])]⟩)]⟩), (1, ⟨[("1:2", ⟨[("r", [none])]⟩)]⟩)]⟩

/-- The context after the host's write. -/
def readThenWritten : DeviceContext :=
  let steps : Tracking Unit := do
    let _ ← enter (answering fun _ _ => false) 1 readThenWrite "1:2"
    let _ ← enter (answering fun _ _ => false) 0 readThenWrite "1:3"
  (steps.runOn { node := "1:1", device := 1 }).2

theorem run_readThenWritten : Run (fun _ _ => false) readThenWrite { node := "1:1", device := 1 } readThenWritten :=
  .tail (.single ⟨1, "1:2", [], .inr rfl, rfl⟩) ⟨0, "1:3", [], .inl rfl, rfl⟩

theorem not_records_readThenWritten (i : Int) : ¬ readThenWritten.Records 1 "r" (some i) := by
  rintro ⟨ws, hws, hknows⟩
  obtain rfl : ws = [(none, "1:2")] := (Option.some.inj hws).symm
  simp [knows] at hknows

theorem brings_without_write_readThenWritten :
    readThenWritten.Uses 0 "r" ∧ readThenWritten.LacksMark ∅ "r" 1 0 ∧
      ∃ updates c',
        (enter (answering fun _ _ => false) 0 readThenWrite "1:4").runOn readThenWritten = (.ok updates, c') ∧
        ∃ u ∈ updates, u.Moves "r" 1 0 ∧ ¬ readThenWritten.LacksWrite ∅ "r" 1 0 := by
  have hmark : readThenWritten.LacksMark ∅ "r" 1 0 := ⟨by decide, by decide, by decide⟩
  have hwrite : ¬ readThenWritten.LacksWrite ∅ "r" 1 0 := fun ⟨i, h, _⟩ => not_records_readThenWritten i h
  obtain ⟨-, hbrought⟩ := brings_without_write_iff (fun _ _ => false) (.fresh "1:1" (.inr rfl))
    run_readThenWritten (.inl rfl) "1:4" rfl
  exact ⟨by decide, hmark, _, _, rfl, (hbrought "r").2 ⟨rfl, by decide, hmark, hwrite⟩⟩

/-- The host has written what the device has only read; its next step copies the device's data over
the data that it has written. -/
theorem copies_after_reading :
    (∀ i : Int, ¬ readThenWritten.Records 1 "r" (some i)) ∧ readThenWritten.Records 0 "r" (some 5) ∧
      ∃ updates c',
        (enter (answering fun _ _ => false) 0 readThenWrite "1:4").runOn readThenWritten = (.ok updates, c') ∧
        ∃ u ∈ updates, u.Moves "r" 1 0 :=
  ⟨not_records_readThenWritten, by decide, _, _, rfl, by decide⟩

end ParallelPatterns.DeviceContext
