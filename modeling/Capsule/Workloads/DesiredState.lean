import Capsule.Atomic.Steps
import Capsule.Workloads.Acts

/-!
# Capsule.Workloads.DesiredState

What a row's `desired_state` goes through over sequential runs of requests, passes and reboots.

* `Act.invariant`: the rule for such runs, from `Act.safe`.
* `Act.Respects`, `tombstone_kept`: DELETING is set by `Delete` only and stays until the row is
  removed, if no `Apply` asks for it and none of `Apply`, `Start` and `Stop` is called on the row.
* `Act.LeavesStopped`, `stopped_kept`: no pass starts a stopped workload before it is started by
  name, if whatever is applied under the name asks for STOPPED.
-/

namespace Capsule.Workloads

open Atomic Keyed

section

variable {δ : Side → Type}

def desired (n : String) (s : State δ) : Option DesiredState :=
  (s.rows.get n).map Workload.desiredState

@[simp] theorem desired_put_self (s : State δ) (w : Workload) :
    desired w.name { s with rows := s.rows.put w } = some w.desiredState := by
  simp [desired]

theorem desired_put_ne (s : State δ) {w : Workload} {n : String} (h : n ≠ w.name) :
    desired n { s with rows := s.rows.put w } = desired n s := by
  simp [desired, Table.get_put_ne _ h]

@[simp] theorem desired_del_self (s : State δ) (n : String) :
    desired n { s with rows := s.rows.del n } = none := by
  simp [desired]

theorem desired_del_ne (s : State δ) {n m : String} (h : n ≠ m) :
    desired n { s with rows := s.rows.del m } = desired n s := by
  simp [desired, Table.get_del_ne _ h]

theorem desired_of_body {n : String} {s : State δ} {w : Workload}
    (h : rowBody n s = some w.body) : desired n s = some w.desiredState := by
  obtain ⟨r, hr, hb⟩ := Option.map_eq_some_iff.mp h
  have hd : r.body.desiredState = w.body.desiredState := congrArg Workload.desiredState hb
  simp only [desired, hr, Option.map_some]
  exact congrArg some hd

end

section

variable {δ : Side → Type} {ε : Type} {dsem : (s : Side) → Sem DriverCall DriverCall.Res (δ s) ε}
  {wired : Side → Bool}

/-- The rule for acts: what every allowed `Put` and row removal keeps, the act keeps. -/
theorem Act.invariant {a : Act δ ε} {s₀ : State δ} {J : (String → Option DesiredState) → Prop}
    (hput : ∀ s w, a.Puts s₀ s w → J (desired · s) →
      J (desired · { s with rows := s.rows.put w }))
    (hdel : ∀ (s : State δ) n, a.Deletes n → J (desired · s) →
      J (desired · { s with rows := s.rows.del n }))
    (hs : J (desired · s₀)) : J (desired · (a.after dsem wired s₀)) := by
  have hrun : J (desired · (a.outcome dsem wired s₀).st) := by
    refine (a.safe s₀).exec (J := fun s => J (desired · s)) ?_ hs a.answers
    intro o e s ho hJ
    cases o with
    | get n => rwa [get_state]
    | list => exact hJ
    | put w =>
      simp only [sem]
      cases e.fault with
      | none => exact hput s w ho hJ
      | some m => exact hJ
    | delete n =>
      simp only [sem]
      cases e.fault with
      | none => exact hdel s n ho hJ
      | some m => exact hJ
    | drv side d => exact hJ
  cases a with
  | reboot dev => exact hs
  | _ => exact hrun

theorem Act.Ensures.wanted {a : Act δ ε} {s : State δ} {n : String}
    (h : a.Ensures dsem wired s n) :
    desired n s ≠ some .stopped ∧ desired n s ≠ some .deleting := by
  obtain ⟨side, w, rfl, hop⟩ := h
  obtain ⟨s', -, hrow, -, -, hstop, hdel⟩ := (a.safe s).exec_ops a.answers _ hop
  rw [desired_of_body hrow]
  exact ⟨fun h => hstop (Option.some.inj h), fun h => hdel (Option.some.inj h)⟩

/-- No `Apply` asks for DELETING, and a row that is DELETING sees no `Apply`, `Start` or `Stop`. -/
def Act.Respects (s : State δ) : Act δ ε → Prop
  | .request (.apply (some w)) _ =>
    w.desiredState ≠ .deleting ∧ desired w.name s ≠ some .deleting
  | .request (.start n) _ | .request (.stop n) _ => desired n s ≠ some .deleting
  | _ => True

variable (dsem wired) in
/-- What an act does to the tombstone of a name. -/
structure Act.KeepsTombstone (s : State δ) (a : Act δ ε) (n : String) : Prop where
  made : desired n (a.after dsem wired s) = some .deleting →
    desired n s = some .deleting ∨ a.Deletes n
  kept : desired n s = some .deleting →
    desired n (a.after dsem wired s) = some .deleting ∨
      (a.Deletes n ∧ (a.after dsem wired s).rows.get n = none)
  untouched : desired n s = some .deleting → ¬ a.Ensures dsem wired s n

theorem Act.Puts.tombstone {a : Act δ ε} {s₀ s : State δ} {w : Workload} (hp : a.Puts s₀ s w)
    (ha : a.Respects s₀) :
    desired w.name s = some w.desiredState ∨
      (a.Deletes w.name ∧ w.desiredState = .deleting) ∨
      (w.desiredState ≠ .deleting ∧ desired w.name s₀ ≠ some .deleting) := by
  cases a with
  | request r es =>
    cases r with
    | apply v =>
      obtain ⟨-, v', rfl, -, hname, -, hd⟩ := hp; rw [hname, hd]; exact .inr (.inr ha)
    | start m => obtain ⟨⟨rfl, -⟩, hd⟩ := hp; exact .inr (.inr ⟨by simp [hd], ha⟩)
    | stop m => obtain ⟨⟨rfl, -⟩, hd⟩ := hp; exact .inr (.inr ⟨by simp [hd], ha⟩)
    | restart m => exact absurd hp id
    | delete m => obtain ⟨⟨rfl, -⟩, hd⟩ := hp; exact .inr (.inl ⟨⟨es, rfl⟩, hd⟩)
  | setStatus m st es => exact .inl (desired_of_body hp)
  | tick es => exact .inl (desired_of_body hp)
  | reboot dev => exact absurd hp id

/-- How far the desired state `d` of a name may be from the one `s₀` has. -/
def Act.Tombstoned (a : Act δ ε) (s₀ : State δ) (n : String) (d : Option DesiredState) : Prop :=
  (d = some .deleting → desired n s₀ = some .deleting ∨ a.Deletes n) ∧
    (desired n s₀ = some .deleting → d = some .deleting ∨ (a.Deletes n ∧ d = none))

theorem Act.Respects.tombstoned {a : Act δ ε} {s : State δ} (ha : a.Respects s) (n : String) :
    a.Tombstoned s n (desired n (a.after dsem wired s)) := by
  refine Act.invariant (J := fun d => a.Tombstoned s n (d n)) ?_ ?_ ⟨.inl, .inl⟩
  · intro s' w hp hJ
    dsimp only at hJ ⊢
    by_cases hn : n = w.name
    · subst hn
      rw [desired_put_self]
      rcases hp.tombstone ha with hsame | ⟨hdel, hd⟩ | ⟨hd, hs⟩
      · rwa [← hsame]
      · rw [hd]; exact ⟨fun _ => .inr hdel, fun _ => .inl rfl⟩
      · exact ⟨fun h => absurd (Option.some.inj h) hd, fun h => absurd h hs⟩
    · rwa [desired_put_ne s' hn]
  · intro s' m hdel hJ
    dsimp only at hJ ⊢
    by_cases hn : n = m
    · subst hn
      rw [desired_del_self]
      exact ⟨fun h => (nomatch h), fun _ => .inr ⟨hdel, rfl⟩⟩
    · rwa [desired_del_ne s' hn]

/-- The step lemma. -/
theorem Act.Respects.keeps {a : Act δ ε} {s : State δ} (ha : a.Respects s) (n : String) :
    a.KeepsTombstone dsem wired s n where
  made := (ha.tombstoned n).1
  kept h := ((ha.tombstoned n).2 h).imp_right fun h => ⟨h.1, Option.map_eq_none_iff.mp h.2⟩
  untouched h he := he.wanted.2 h

/-- Over every sequential run in which no `Apply` asks for DELETING and no `Apply`, `Start` or
`Stop` meets a row that is DELETING: a row becomes DELETING by `Delete` of its name only, stays
DELETING until `Delete` of its name removes it, and is not started meanwhile. -/
theorem tombstone_kept (dsem : (s : Side) → Sem DriverCall DriverCall.Res (δ s) ε)
    (wired : Side → Bool) (s : State δ) (acts : List (Act δ ε))
    (hacts : Along (Act.after dsem wired) Act.Respects s acts) :
    Along (Act.after dsem wired) (fun s a => ∀ n, a.KeepsTombstone dsem wired s n) s acts :=
  hacts.of_invariant (I := fun _ => True) (fun _ _ _ _ => trivial) (fun _ _ _ ha n => ha.keeps n)
    trivial

end

/-- Drivers whose calls fail when told to. -/
def flaky (_ : Side) : Sem DriverCall DriverCall.Res Unit (Option String)
  | .ensureRunning _, e, s => (s, e.elim (.ok ()) fun m => .error (.text m))
  | .remove _, e, s => (s, e.elim (.ok ()) fun m => .error (.text m))
  | .status _, _, s => (s, .ok ⟨.running, ""⟩)

def bothWired (_ : Side) : Bool := true

/-- A manifest that leaves `desired_state` out. -/
def blog : Workload where
  name := "blog"
  kind := .container
  container := some ⟨"blog", []⟩
  microVm := none
  status := none
  desiredState := .unspecified

def blogStored : State fun _ => Unit := ⟨Table.empty.put blog, fun _ => ()⟩

/-- Store and drivers answer; there are enough answers for any of the acts below. -/
def served : List (Env (Option String)) := List.replicate 6 ⟨none, none⟩

/-- The driver's `Remove` fails, so that `Delete` leaves its tombstone. -/
def failedDelete : Act (fun _ => Unit) (Option String) :=
  .request (.delete "blog") [⟨none, none⟩, ⟨none, none⟩, ⟨none, some "device busy"⟩]

theorem tombstone_kept_blog :
    desired "blog" (failedDelete.after flaky bothWired blogStored) = some .deleting ∧
      Along (Act.after flaky bothWired) (fun s a => ∀ n, a.KeepsTombstone flaky bothWired s n)
        blogStored [failedDelete, .tick served, .request (.restart "blog") served,
          .request (.delete "blog") served] :=
  ⟨by decide, tombstone_kept flaky bothWired blogStored _
    ⟨trivial, trivial, trivial, trivial, trivial⟩⟩

/-- `Start` turns the tombstone that a failed `Delete` left into a running workload, which the next
pass starts; and `Apply` makes a tombstone that no `Delete` asked for. -/
theorem tombstone_undone :
    desired "blog" (failedDelete.after flaky bothWired blogStored) = some .deleting ∧
      desired "blog" ((Act.request (.start "blog") served).after flaky bothWired
        (failedDelete.after flaky bothWired blogStored)) = some .running ∧
      (Act.tick served).Ensures flaky bothWired
        ((Act.request (.start "blog") served).after flaky bothWired
          (failedDelete.after flaky bothWired blogStored)) "blog" ∧
      desired "blog"
        ((Act.request (.apply (some { blog with desiredState := .deleting })) served).after flaky
          bothWired blogStored) = some .deleting := by
  refine ⟨by decide, by decide, ?_, by decide⟩
  exact ⟨.container, _, rfl, .tail _ (.head _)⟩

section

variable {δ : Side → Type} {ε : Type} {dsem : (s : Side) → Sem DriverCall DriverCall.Res (δ s) ε}
  {wired : Side → Bool}

/-- The act is neither `Start` nor `Delete` of the name. -/
def Act.LeavesStopped (n : String) : Act δ ε → Prop
  | .request (.start m) _ | .request (.delete m) _ => m ≠ n
  | _ => True

/-- What is applied under the name asks for STOPPED. -/
def Act.AppliesStopped (n : String) : Act δ ε → Prop
  | .request (.apply (some w)) _ => w.name = n → w.desiredState = .stopped
  | _ => True

/-- The step lemma. -/
theorem Act.stopped_after {a : Act δ ε} {s : State δ} {n : String} (hleave : a.LeavesStopped n)
    (happly : a.AppliesStopped n) (hs : desired n s = some .stopped) :
    desired n (a.after dsem wired s) = some .stopped := by
  refine Act.invariant (J := fun d => d n = some .stopped) ?_ ?_ hs
  · intro s' w hp hJ
    dsimp only at hJ ⊢
    by_cases hn : n = w.name
    · subst hn
      rw [desired_put_self]
      congr 1
      cases a with
      | request r es =>
        cases r with
        | apply v =>
          obtain ⟨-, v', rfl, -, hname, -, hd⟩ := hp; rw [hd]; exact happly hname.symm
        | start m => exact absurd hp.1.1.symm hleave
        | stop m => exact hp.2
        | restart m => exact absurd hp id
        | delete m => exact absurd hp.1.1.symm hleave
      | setStatus m st es => exact Option.some.inj ((desired_of_body hp).symm.trans hJ)
      | tick es => exact Option.some.inj ((desired_of_body hp).symm.trans hJ)
      | reboot dev => exact absurd hp id
    · rwa [desired_put_ne s' hn]
  · rintro s' m ⟨es, rfl⟩ hJ
    dsimp only at hJ ⊢
    rwa [desired_del_ne s' (Ne.symm hleave)]

/-- Once `Stop` has returned nil, nothing calls `EnsureRunning` for the name while neither `Start`
nor `Delete` of it is called and what is applied under it asks for STOPPED, reboots included. -/
theorem stopped_kept (dsem : (s : Side) → Sem DriverCall DriverCall.Res (δ s) ε)
    (wired : Side → Bool) (n : String) (s : State δ) (es : List (Env ε))
    (hstop : ((Act.request (.stop n) es).outcome dsem wired s).val = some (.ok ()))
    (acts : List (Act δ ε)) (hleave : ∀ a ∈ acts, a.LeavesStopped n)
    (happly : ∀ a ∈ acts, a.AppliesStopped n) :
    Along (Act.after dsem wired) (fun s a => ¬ a.Ensures dsem wired s n)
      ((Act.request (.stop n) es).after dsem wired s) acts := by
  have hsafe : (stop (callService wired) n).Safe (sem dsem) Eq
      ((Act.request (.stop n) es : Act δ ε).At wired s)
      (fun r s => r = .ok () → ∃ w, s.rows.get n = some w ∧ w.desiredState = .stopped) s :=
    stop_at n
  have hs : desired n ((Act.request (.stop n) es).after dsem wired s) = some .stopped := by
    obtain ⟨w, hw, hd⟩ := hsafe.exec_val hstop rfl
    exact (congrArg (Option.map Workload.desiredState) hw).trans (congrArg some hd)
  have hacts : Along (Act.after dsem wired)
      (fun _ a => a.LeavesStopped n ∧ a.AppliesStopped n) _ acts :=
    along_of_forall (fun _ a ha => ⟨hleave a ha, happly a ha⟩)
      ((Act.request (.stop n) es).after dsem wired s)
  exact hacts.of_invariant (I := fun s => desired n s = some .stopped)
    (fun s a hs ha => Act.stopped_after ha.1 ha.2 hs) (fun s a hs _ he => he.wanted.1 hs) hs

end

theorem stopped_kept_blog :
    Along (Act.after flaky bothWired) (fun s a => ¬ a.Ensures flaky bothWired s "blog")
      ((Act.request (.stop "blog") served).after flaky bothWired blogStored)
      [.tick served, .request (.apply (some { blog with desiredState := .stopped })) served,
        .reboot fun _ => (), .tick served] :=
  stopped_kept flaky bothWired "blog" blogStored served rfl _
    (by simp [Act.LeavesStopped]) (by simp [Act.AppliesStopped])

/-- The manifest is applied once more, as it was: the workload runs again. -/
theorem stopped_restarted :
    ((Act.request (.stop "blog") served).outcome flaky bothWired blogStored).val = some (.ok ()) ∧
      (Act.tick served).Ensures flaky bothWired
        ((Act.request (.apply (some blog)) served).after flaky bothWired
          ((Act.request (.stop "blog") served).after flaky bothWired blogStored)) "blog" :=
  ⟨rfl, .container, _, rfl, .tail _ (.head _)⟩

end Capsule.Workloads
