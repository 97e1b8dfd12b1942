import Capsule.Atomic.Pool
import Capsule.Update.Bundle
import Capsule.Update.Machine

/-!
# Capsule.Update.Pushes

Several `ReceiveBundle` calls on one service. They share the inactive slot, the staging directory,
the boot files and the `os_state` row, and no lock: `UpdateOS` calls the service for every stream.

* `OthersLook`: from the call's first operation on, the others only perform operations that leave
  everything as it is.
* `installed_of_apart`: then its success means that its bundle is installed, whatever happened
  before. By `Pool.safe_run` it goes as if it ran alone.
-/

namespace Capsule.Update

open Atomic

/-- Operations of a call that leave everything as it is. Mounting is not among them: the boot
partition is mounted once for all. -/
def Op.Looks : Op → Bool
  | .mkdirStaging | .findPartition _ | .blockDeviceSize _ | .readStaging _ | .readBoot _ _
  | .stateGet | .now => true
  | _ => false

theorem sem_looks {o : Op} (ho : o.Looks = true) (e : Env) (h : Host) : (sem o e h).1 = h := by
  cases o with
  | stateGet => exact stateGet_same e h
  | mkdirStaging | findPartition | blockDeviceSize | readStaging | readBoot | now => rfl
  | _ => cases ho

def pushes {ι : Type} (s : Service) (r : ι → Push) (h : Host) :
    Pool ι Op Res Host (Except Err (Slot × Bytes)) :=
  ⟨h, fun i => receiveBundle s (r i)⟩

/-- The others only look. -/
def OthersLook {ι α : Type} (i : ι) (c : Pool ι Op Res Host α) (j : ι) (_ : Env) : Prop :=
  j ≠ i → ∀ o ∈ (c.thr j).next?, o.Looks = true

instance {ι α : Type} [DecidableEq ι] (i : ι) (c : Pool ι Op Res Host α) (j : ι) (e : Env) :
    Decidable (OthersLook i c j e) :=
  match h : (c.thr j).next? with
  | none => .isTrue fun _ o ho => by rw [h] at ho; cases ho
  | some o => decidable_of_iff (j ≠ i → o.Looks = true) (by simp [OthersLook, h])

section Runs

variable {ι : Type} [DecidableEq ι]

theorem thr_run_of_absent {α : Type} {i : ι} {c : Pool ι Op Res Host α} {w : List (ι × Env)}
    (hw : ∀ x ∈ w, x.1 ≠ i) : (c.run sem w).thr i = c.thr i := by
  induction w generalizing c with
  | nil => rfl
  | cons x w ih =>
    rw [Pool.run, ih fun y hy => hw y (List.mem_cons_of_mem x hy)]
    exact Pool.step_thr_ne (Ne.symm (hw x List.mem_cons_self))

theorem gives_installed {s : Service} {r : Push} {h : Host}
    (hclash : ∀ active ∈ s.activeSlot, NoClash s r (otherSlot active) h) :
    (receiveBundle s r).Gives sem (fun x h' => Installed r x.1 x.2 h') h := by
  cases hactive : s.activeSlot with
  | none => rw [receiveBundle, hactive]; exact Prog.gives_error
  | some active =>
    exact (gives_receiveBundle hactive (hclash active hactive)).mono fun _ _ hx => hx.2.2.2

/-- However the calls are interleaved before call `i` begins: if from then on the others only look,
its success means that its bundle is installed. -/
theorem installed_of_apart (s : Service) (r : ι → Push) (h : Host) (i : ι)
    (before during : List (ι × Env)) (hbefore : ∀ x ∈ before, x.1 ≠ i)
    (hduring : ((pushes s r h).run sem before).Allowed sem (OthersLook i) during)
    (hclash : ∀ active ∈ s.activeSlot,
      NoClash s (r i) (otherSlot active) ((pushes s r h).run sem before).st)
    {slot : Slot} {version : Bytes}
    (hret : (((pushes s r h).run sem before).run sem during).thr i = .ret (.ok (slot, version))) :
    Installed (r i) slot version (((pushes s r h).run sem before).run sem during).st := by
  have hsafe : (((pushes s r h).run sem before).thr i).Gives sem
      (fun x h' => Installed (r i) x.1 x.2 h') ((pushes s r h).run sem before).st := by
    rw [thr_run_of_absent hbefore]
    exact gives_installed hclash
  have hothers : ∀ (c : Pool ι Op Res Host (Except Err (Slot × Bytes))) j e o k,
      OthersLook i c j e → j ≠ i → c.thr j = .call o k → (sem o e c.st).1 = c.st := by
    intro c j e o k hok hj hcall
    refine sem_looks (hok hj o ?_) e c.st
    rw [hcall]
    rfl
  have hend := Pool.safe_run hothers hsafe hduring
  rw [hret, Prog.safe_alone_ret] at hend
  exact hend (slot, version) rfl

end Runs

/-- A running slot A and a digest that tells the bundles below apart. -/
def onSlotA : Service := ⟨some .a, fun d => String.ofList (d.map fun b => Char.ofNat b.toNat)⟩

/-- A host with its row stored. -/
def seeded : Host := { bench.powerOn with osState := some (seed .a) }

/-- The bundles of two pushes. -/
def twoBundles (second : Bool) : Push := if second then bundle 2 else bundle 1

abbrev twoPushes : Pool Bool Op Res Host (Except Err (Slot × Bytes)) :=
  pushes onSlotA twoBundles seeded

theorem noClash_after_other : ∀ active ∈ onSlotA.activeSlot,
    NoClash onSlotA (twoBundles false) (otherSlot active)
      (twoPushes.run sem (List.replicate 22 (true, .ok))).st := by
  intro active ha
  cases ha
  intro f old hold d hd heq
  obtain rfl : [1] = d := by cases f <;> exact Option.some_inj.mp hd
  obtain rfl : [2] = old := by cases f <;> exact Option.some_inj.mp hold
  exact absurd heq (by decide)

theorem first_returns_after_other :
    ((twoPushes.run sem (List.replicate 22 (true, .ok))).run sem
      (List.replicate 22 (false, .ok))).thr false = .ret (.ok (.b, [1])) := rfl

/-- The first push after the whole of the second. -/
theorem installed_after_other :
    Installed (twoBundles false) .b [1] ((twoPushes.run sem (List.replicate 22 (true, .ok))).run sem
      (List.replicate 22 (false, .ok))).st :=
  installed_of_apart onSlotA twoBundles seeded false
    (List.replicate 22 (true, .ok)) (List.replicate 22 (false, .ok)) (by decide) (by decide)
    noClash_after_other first_returns_after_other

/-- The first push is through its tar loop when the second runs from beginning to end. -/
def overtaken : List (Bool × Env) :=
  List.replicate 7 (false, .ok) ++ List.replicate 22 (true, .ok) ++ List.replicate 10 (false, .ok)

theorem overtaken_returns :
    (twoPushes.run sem (overtaken ++ [(false, .ok)])).thr false = .ret (.ok (.b, [1])) := rfl

theorem overtaken_rootfs :
    (twoPushes.run sem (overtaken ++ [(false, .ok)])).st.rootfs .b = [2] := by decide

/-- With its last operation the overtaken push returns success, over the root file system and the
kernel of the other. -/
theorem pushes_mix :
    ¬ ∀ (s : Service) (r : Bool → Push) (h : Host) (w : List (Bool × Env)) (i : Bool) (e : Env)
      (slot : Slot) (version : Bytes),
      ((pushes s r h).run sem (w ++ [(i, e)])).thr i = .ret (.ok (slot, version)) →
      (((pushes s r h).run sem w).thr i).next? ≠ none →
      Installed (r i) slot version ((pushes s r h).run sem (w ++ [(i, e)])).st := by
  intro hall
  have h := hall onSlotA twoBundles seeded overtaken false .ok .b [1] overtaken_returns (by decide)
  obtain ⟨d, hd, hroot⟩ := h.rootfs
  obtain rfl : [1] = d := Option.some_inj.mp hd
  rw [overtaken_rootfs] at hroot
  exact absurd hroot (by decide)

end Capsule.Update
