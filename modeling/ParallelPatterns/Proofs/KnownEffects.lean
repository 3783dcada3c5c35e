import ParallelPatterns.Proofs.Computation
import ParallelPatterns.Proofs.Table
import ParallelPatterns.Task.CallEffects

/-!
# What is known of a function's effects

The first call of a function stores what the function does to its arguments. A later call reads it
and adds nothing.
-/

namespace ParallelPatterns.EffectContext

variable {α β : Type} {c : EffectContext} {q : CallQuery} {s s' : EffectState} {f : Node} {name : String}
  {old : List Effect} {given : List ArgumentEffect}

theorem run_lift_bind_eq_ok {r : Result α} {k : α → EffectSearch β} {b : β}
    (h : ((liftM r : EffectSearch α) >>= k).run s = .ok (b, s')) : ∃ a, r = .ok a ∧ (k a).run s = .ok (b, s') := by
  obtain ⟨p, hp, hk⟩ := bind_eq_ok_iff.1 h
  obtain ⟨a, hr, ha⟩ := bind_eq_ok_iff.1 hp
  cases ha
  exact ⟨a, hr, hk⟩

theorem run_get_bind (k : EffectState → EffectSearch β) : (get >>= k).run s = (k s).run s := rfl

theorem run_modify_bind (g : EffectState → EffectState) (k : PUnit → EffectSearch β) :
    (modify g >>= k).run s = (k ⟨⟩).run (g s) := rfl

section

variable (hf : c.calledFunction q = .ok (some (f, name))) (hvisited : f.among s.visited)
  (hknown : s.known.get? f.name = some old) (h : (c.effects q).run s = .ok (some given, s'))
include hf hvisited hknown h

theorem run_effects_of_visited : s' = s ∧ ∃ direct, c.recorded f = .ok direct := by
  have hkeep : ∀ direct, { s with known := s.known.insertNew f.name direct } = s := by
    simp [Table.insertNew, Table.contains_eq_isSome, hknown]
  obtain ⟨called, hcalled, h⟩ := run_lift_bind_eq_ok h
  obtain rfl := Except.ok.inj (hcalled.symm.trans hf)
  obtain ⟨direct, hdirect, h⟩ := run_lift_bind_eq_ok h
  refine ⟨?_, direct, hdirect⟩
  rw [run_modify_bind, hkeep] at h
  split at h
  · obtain ⟨line, -, h⟩ := run_lift_bind_eq_ok h
    obtain ⟨source, -, h⟩ := run_lift_bind_eq_ok h
    obtain ⟨text, -, h⟩ := run_lift_bind_eq_ok h
    split at h
    · cases h
    obtain ⟨arguments, -, h⟩ := run_lift_bind_eq_ok h
    rw [run_get_bind] at h
    extract_lets jp at h
    rw [if_pos hvisited, run_get_bind] at h
    unfold jp at h
    split at h <;> cases h
    rfl
  · cases h

/-- A call of a function that was visited before changes nothing. So each argument is then known as
written exactly if it was known or is recorded as written, if and only if all that is recorded had
been known. -/
theorem effects_accumulate_iff :
    s' = s ∧ ∃ direct, c.recorded f = .ok direct ∧ (old.length = direct.length →
      ((s'.known.getD f.name []).map (·.written) = old.zipWith (fun o d => o.written || d.written) direct ↔
        ∀ e ∈ old.zip direct, e.2.written → e.1.written)) := by
  obtain ⟨rfl, direct, hdirect⟩ := run_effects_of_visited hf hvisited hknown h
  refine ⟨rfl, direct, hdirect, fun hlength => ?_⟩
  rw [Table.getD, hknown, Option.getD_some]
  clear hdirect hknown
  induction old generalizing direct with
  | nil => simp
  | cons o old ih =>
    cases direct with
    | nil => cases hlength
    | cons d direct => simp [ih direct (Nat.succ.inj hlength)]

end

/-- A function whose argument is recorded as written. -/
def writingFunction : Node :=
  { id := "1:0", file := 1, number := 0, startLine := 1, endLine := 2, name := some "g"
    body := .function { args := [.named "q"] } }

def writingContext : EffectContext where
  graph := { nodes := ⟨[("1:0", writingFunction)]⟩ }
  program := ⟨{ texts := ⟨[("a.c", "g(q)\n;\n")]⟩ }, ⟨[("1", "a.c")]⟩, { known := ⟨[("g", "g(int)")]⟩ }⟩
  dependences := { flow := [⟨some "g", "1:2", "q"⟩] }
  aliases := ∅

def secondCall : CallQuery := ⟨"1:1", writingFunction, 1, .fromOn, some "1:0", some "g"⟩

def afterFirstCall : EffectState := ⟨[writingFunction], ⟨[(some "g", [{}])]⟩⟩

/-- What is recorded is not taken up. -/
theorem effects_accumulate_writingContext : ∃ given s',
    (writingContext.effects secondCall).run afterFirstCall = .ok (some given, s') ∧
    writingContext.recorded writingFunction = .ok [⟨true, false⟩] ∧
    (s'.known.getD (some "g") []).map (·.written) ≠ [true] := by
  refine ⟨_, _, rfl, rfl, fun hwritten => ?_⟩
  obtain ⟨-, direct, hdirect, hiff⟩ :=
    effects_accumulate_iff (c := writingContext) (q := secondCall) (s := afterFirstCall) rfl (by decide) rfl rfl
  cases hdirect
  exact absurd ((hiff rfl).1 hwritten _ (.head _) rfl) (by decide)

end ParallelPatterns.EffectContext
