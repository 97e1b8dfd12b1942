import Mathlib.Data.List.Basic
import Capsule.GoInt64

/-!
# Capsule.Supervise

`Run` of `supervise/supervise.go`: how long it waits before it starts a child again. Durations are
nanoseconds in an `int64`, and a minimum or maximum that is not set has a default.

* `InRange`: the loop invariant. The backoff is between the two bounds, far from overflow.
* `run_schedule`: the delays of any sequence of turns.
* `run_capped_doubling`: without cancellation they double from the minimum up to the maximum, and
  start again after a run of more than ten seconds.
-/

namespace Capsule.Supervise

structure Config where
  minRestart : Int64
  maxRestart : Int64

def defaultMinRestart : Int64 := 200000000

def defaultMaxRestart : Int64 := 30000000000

def Config.minBackoff (cfg : Config) : Int64 :=
  if cfg.minRestart ≤ 0 then defaultMinRestart else cfg.minRestart

def Config.maxBackoff (cfg : Config) : Int64 :=
  if cfg.maxRestart ≤ 0 then defaultMaxRestart else cfg.maxRestart

/-- Where the loop looks at the context. -/
inductive Check where
  | start
  | ended
  | waiting
  deriving DecidableEq

/-- One turn of the loop: how long the child ran, and where the context was found cancelled. -/
structure Turn where
  ran : Int64
  cancelled : Option Check := none

def tenSeconds : Int64 := 10000000000

def run (cfg : Config) : Int64 → List Turn → List Int64
  | _, [] => []
  | backoff, t :: ts =>
    match t.cancelled with
    | some .start => []
    | some .ended => []
    | c =>
      let backoff := if t.ran > tenSeconds then cfg.minBackoff else backoff
      match c with
      | some _ => []
      | none => backoff :: run cfg (min (backoff * 2) cfg.maxBackoff) ts

section Schedule

variable {cfg : Config} {b d : Int64} {t : Turn} {ts : List Turn}

theorem run_cons (h : t.cancelled = none) :
    run cfg b (t :: ts) = (if t.ran > tenSeconds then cfg.minBackoff else b) ::
      run cfg (min ((if t.ran > tenSeconds then cfg.minBackoff else b) * 2) cfg.maxBackoff) ts := by
  rw [run, h]

theorem minBackoff_pos (cfg : Config) : 0 < cfg.minBackoff.toInt := by
  unfold Config.minBackoff
  split
  · decide
  · rename_i h; rw [Int64.le_iff_toInt_le, Int64.toInt_zero] at h; omega

/-- A backoff that may be waited for. -/
def InRange (cfg : Config) (d : Int64) : Prop := cfg.minBackoff ≤ d ∧ d ≤ cfg.maxBackoff

variable (hle : cfg.minBackoff ≤ cfg.maxBackoff) (hmax : cfg.maxBackoff.toInt < 2 ^ 62)

include hmax in
theorem toInt_doubled (hd : InRange cfg d) :
    (min (d * 2) cfg.maxBackoff).toInt = min (2 * d.toInt) cfg.maxBackoff.toInt := by
  have hpos := minBackoff_pos cfg
  obtain ⟨hlo, hhi⟩ := hd
  rw [Int64.le_iff_toInt_le] at hlo hhi
  have htwo : d.toInt * (2 : Int64).toInt = 2 * d.toInt := Int.mul_comm _ _
  have hmul := GoInt64.toInt_mul_of_lt (a := d) (b := 2) (by omega) (by omega)
  rw [GoInt64.toInt_min, hmul, htwo]

include hle

theorem inRange_reset (hb : InRange cfg b) :
    InRange cfg (if t.ran > tenSeconds then cfg.minBackoff else b) := by
  split
  · exact ⟨Int64.le_refl _, hle⟩
  · exact hb

include hmax

theorem inRange_doubled (hd : InRange cfg d) : InRange cfg (min (d * 2) cfg.maxBackoff) := by
  have hpos := minBackoff_pos cfg
  have hto := toInt_doubled hmax hd
  obtain ⟨hlo, -⟩ := hd
  rw [Int64.le_iff_toInt_le] at hle hlo
  constructor <;> rw [Int64.le_iff_toInt_le, hto] <;> omega

theorem run_schedule (hts : ∀ t ∈ ts, t.cancelled = none) (hb : InRange cfg b) :
    (run cfg b ts).length = ts.length ∧ (∀ d ∈ run cfg b ts, InRange cfg d) ∧
      ∀ i t, ts[i]? = some t → ∀ d, (run cfg b ts)[i]? = some d →
        (t.ran > tenSeconds → d = cfg.minBackoff) ∧
        (¬ t.ran > tenSeconds → (i = 0 → d = b) ∧ ∀ j prev, i = j + 1 →
          (run cfg b ts)[j]? = some prev →
            d.toInt = min (2 * prev.toInt) cfg.maxBackoff.toInt) := by
  induction ts generalizing b with
  | nil => exact ⟨rfl, by simp [run], by simp⟩
  | cons t ts ih =>
    obtain ⟨ht, hts⟩ := List.forall_mem_cons.mp hts
    have hreset : InRange cfg (if t.ran > tenSeconds then cfg.minBackoff else b) :=
      inRange_reset hle hb
    obtain ⟨hlen, hall, hstep⟩ := ih hts (inRange_doubled hle hmax hreset)
    rw [run_cons ht]
    refine ⟨by rw [List.length_cons, List.length_cons, hlen],
      List.forall_mem_cons.mpr ⟨hreset, hall⟩, ?_⟩
    intro i u hu d hd
    cases i with
    | zero =>
      cases hu
      cases hd
      refine ⟨fun h => if_pos h, fun h => ⟨fun _ => if_neg h, ?_⟩⟩
      intro j prev hj
      cases hj
    | succ i =>
      rw [List.getElem?_cons_succ] at hu hd
      obtain ⟨hlong, hshort⟩ := hstep i u hu d hd
      refine ⟨hlong, fun h => ⟨fun h0 => (by cases h0), ?_⟩⟩
      rintro j prev hj hprev
      cases hj
      cases i with
      | zero => cases hprev; rw [(hshort h).1 rfl]; exact toInt_doubled hmax hreset
      | succ i => exact (hshort h).2 i prev rfl hprev

end Schedule

/-- Without cancellation every delay lies between the bounds; it is the minimum after the first run
and after every run of more than ten seconds, and otherwise twice the delay before, up to the
maximum. -/
theorem run_capped_doubling (cfg : Config) (hle : cfg.minBackoff ≤ cfg.maxBackoff)
    (hmax : cfg.maxBackoff.toInt < 2 ^ 62) (ts : List Turn) (hts : ∀ t ∈ ts, t.cancelled = none) :
    (run cfg cfg.minBackoff ts).length = ts.length ∧
      (∀ d ∈ run cfg cfg.minBackoff ts, cfg.minBackoff ≤ d ∧ d ≤ cfg.maxBackoff) ∧
      ∀ i t d, ts[i]? = some t → (run cfg cfg.minBackoff ts)[i]? = some d →
        (i = 0 ∨ t.ran > tenSeconds → d = cfg.minBackoff) ∧
        ∀ j prev, i = j + 1 → ¬ t.ran > tenSeconds →
          (run cfg cfg.minBackoff ts)[j]? = some prev →
          d.toInt = min (2 * prev.toInt) cfg.maxBackoff.toInt := by
  obtain ⟨hlen, hall, hstep⟩ := run_schedule hle hmax hts ⟨Int64.le_refl _, hle⟩
  refine ⟨hlen, hall, fun i t d ht hd => ?_⟩
  obtain ⟨hlong, hshort⟩ := hstep i t ht d hd
  refine ⟨?_, fun j prev hj h => (hshort h).2 j prev hj⟩
  rintro (h0 | h)
  · by_cases h : t.ran > tenSeconds
    · exact hlong h
    · exact (hshort h).1 h0
  · exact hlong h

/-- The default bounds, with a child that dies at once, twice, and then runs for a while. -/
theorem run_capped_doubling_default :
    let ts : List Turn := [⟨1, none⟩, ⟨1, none⟩, ⟨tenSeconds + 1, none⟩]
    (run ⟨0, 0⟩ defaultMinRestart ts).map Int64.toInt =
      [defaultMinRestart.toInt, 2 * defaultMinRestart.toInt, defaultMinRestart.toInt] := by
  intro ts
  obtain ⟨hlen, -, hstep⟩ := run_capped_doubling ⟨0, 0⟩ (by decide) (by decide) ts (by simp [ts])
  obtain ⟨d₀, d₁, d₂, hds⟩ := List.length_eq_three.mp hlen
  rw [hds] at hstep
  have h₀ : d₀ = defaultMinRestart := (hstep 0 ⟨1, none⟩ d₀ rfl rfl).1 (.inl rfl)
  have h₁ := (hstep 1 ⟨1, none⟩ d₁ rfl rfl).2 0 d₀ rfl (by decide) rfl
  have h₂ : d₂ = defaultMinRestart :=
    (hstep 2 ⟨tenSeconds + 1, none⟩ d₂ rfl rfl).1 (.inr (by decide))
  have hbelow : min (2 * defaultMinRestart.toInt) (Config.maxBackoff ⟨0, 0⟩).toInt =
      2 * defaultMinRestart.toInt := by decide
  change (run ⟨0, 0⟩ (Config.minBackoff ⟨0, 0⟩) ts).map Int64.toInt = _
  rw [hds, List.map_cons, List.map_cons, List.map_singleton, h₁, h₀, h₂, hbelow]

end Capsule.Supervise
