import Mathlib.Algebra.BigOperators.Group.Finset.Piecewise
import Capsule.Identity.Flow

/-!
# Capsule.Identity.LastKey

Whether an adopted capsule can lose its last key to `KeyRemove`, which counts the keys and then
deletes one. The calls are the threads of a `Pool`; what one of their steps can be is `Move`.

* `outstanding`: the removals past their count.
* `Spare`: a removal that counts at least two keys counts two more than are outstanding.
* `keys_remain`: in every interleaving that is so, a key is left.
-/

namespace Capsule.Identity

open Atomic Auth Keyed

/-- The next step deletes a key: the removal is past its count. -/
def removing (p : Code Reply) : Bool :=
  match p.next? with
  | some (.keysDelete _) => true
  | _ => false

theorem removing_iff {c : Codec} {call : Call} {p : Code Reply} {g : Phase}
    (h : p.Obeys (flow c call) g) : removing p = true ↔ g = .counted := by
  cases p with
  | ret r =>
    refine ⟨fun hr => (by cases hr), ?_⟩
    rintro rfl
    exact absurd h id
  | call o k =>
    have ho := h.1
    cases o with
    | keysDelete kid =>
      refine ⟨fun _ => ?_, fun _ => rfl⟩
      cases g <;> first | rfl | exact absurd ho id
    | _ =>
      refine ⟨fun hr => (by cases hr), ?_⟩
      rintro rfl
      exact absurd ho id

section

variable {ι : Type} [Fintype ι]

/-- The removals past their count. -/
def outstanding (c : Pool ι Op Res State Reply) : Nat :=
  (Finset.univ.filter fun j => removing (c.thr j) = true).card

/-- A removal that counts at least two keys counts two more than there are removals past their
count. -/
def Spare (c : Pool ι Op Res State Reply) (i : ι) (_ : Env) : Prop :=
  (c.thr i).next? = some .keysCount → 2 ≤ c.st.keys.count →
    outstanding c + 2 ≤ c.st.keys.count

instance (c : Pool ι Op Res State Reply) (i : ι) (e : Env) : Decidable (Spare c i e) :=
  inferInstanceAs (Decidable ((c.thr i).next? = some .keysCount → 2 ≤ c.st.keys.count →
    outstanding c + 2 ≤ c.st.keys.count))

/-- The calls in the phase `counted`. -/
def past (g : ι → Phase) : Nat := (Finset.univ.filter fun j => g j = .counted).card

theorem outstanding_eq {c : Codec} {calls : ι → Call} {g : ι → Phase}
    {p : Pool ι Op Res State Reply} (hob : ∀ j, (p.thr j).Obeys (flow c (calls j)) (g j)) :
    outstanding p = past g := by
  unfold outstanding past
  congr 1
  exact Finset.filter_congr fun j _ => removing_iff (hob j)

variable [DecidableEq ι]

theorem past_update (g : ι → Phase) (i : ι) (g' : Phase) :
    past (Function.update g i g') + (if g i = .counted then 1 else 0) =
      past g + (if g' = .counted then 1 else 0) := by
  have hothers : ∀ f : ι → Phase, past f = (if f i = .counted then 1 else 0) +
      ∑ j ∈ Finset.univ.erase i, (if f j = .counted then 1 else 0) := by
    intro f
    rw [past, Finset.card_filter]
    exact (Finset.add_sum_erase _ _ (Finset.mem_univ i)).symm
  have hsame : ∑ j ∈ Finset.univ.erase i, (if Function.update g i g' j = .counted then 1 else 0) =
      ∑ j ∈ Finset.univ.erase i, (if g j = .counted then 1 else 0) := by
    refine Finset.sum_congr rfl fun j hj => ?_
    rw [Function.update_of_ne (Finset.ne_of_mem_erase hj)]
  have h1 := hothers (Function.update g i g')
  have h2 := hothers g
  rw [hsame, Function.update_self] at h1
  omega

theorem Move.keys_left {c : Codec} {call : Call} {i : ι} {g : ι → Phase} {gi g' : Phase}
    {s s' : State} {ev : Event ι Op Res} (h : Move c call i s gi ev s' g') (hgi : g i = gi)
    (hleft : past g + 1 ≤ s.keys.count)
    (hspare : ev.op = .keysCount → 2 ≤ s.keys.count → past g + 2 ≤ s.keys.count) :
    past (Function.update g i g') + 1 ≤ s'.keys.count := by
  have hup := past_update g i g'
  rw [hgi] at hup
  cases h with
  | count hn =>
    have hroom := hspare rfl hn
    simp only [reduceCtorEq, if_false, if_true] at hup
    omega
  | @remove kid _ =>
    have hdel := Table.count_le_del s.keys kid
    simp only [reduceCtorEq, if_false, if_true] at hup
    dsimp only
    omega
  | removeFails => simp only [reduceCtorEq, if_false, if_true] at hup; omega
  | @keyAdd k t keys hk ht =>
    have hadd := Table.count_add ht
    simp only [reduceCtorEq, if_false] at hup
    dsimp only
    omega
  | @enrol k t keys hk ht =>
    have hadd := Table.count_add ht
    simp only [reduceCtorEq, if_false] at hup
    dsimp only
    omega
  | read => rw [Function.update_eq_self_iff.mpr hgi.symm]; exact hleft
  | record | close => simp only [reduceCtorEq, if_false] at hup; dsimp only; omega
  | look | enter | giveUp | keyAddFails | enrolled | enrolFails | recordFails =>
    simp only [reduceCtorEq, if_false] at hup; omega

/-- In every run whose removals count enough keys, a capsule that had a key has one. -/
theorem keys_remain (c : Codec) (ctl : Controller) (calls : ι → Call) (s : State)
    (hs : 1 ≤ s.keys.count) (w : List (ι × Env))
    (hw : (handlers c ctl calls s).Allowed sem Spare w) :
    1 ≤ ((handlers c ctl calls s).run sem w).st.keys.count := by
  obtain ⟨g, hleft, -⟩ := Pool.run_monitor (M := fun i => flow c (calls i))
    (P := fun _ g p => past g + 1 ≤ p.st.keys.count) (g := fun _ => Phase.idle) (by
      intro h g p i e o k hleft hob hp hok
      have hobi := hob i
      rw [hp] at hobi
      have hmove := move_of_ok hobi.1 i e p.st
      rw [Pool.step_call hp]
      refine hmove.keys_left rfl hleft ?_
      intro ho hn
      rw [← outstanding_eq hob]
      exact hok (by rw [hp]; exact congrArg some ho) hn)
    (fun j => handle_obeys c ctl (calls j))
    (by simpa [past, handlers] using hs) hw
  omega

end

def noCodec : Codec where
  b64url _ := none
  b64urlEncode _ := ""
  b64std _ := none
  headerJSON _ := none
  claimsJSON _ := none
  bundleJSON _ := none
  sha256 _ := []
  ed25519Verify _ _ _ := false
  uuidHead _ := none

def quietController : Controller := ⟨"", false⟩

def twoKeys : State where
  keys := (Table.empty.put ⟨"kid-a", [], "ann", "", 1⟩).put ⟨"kid-b", [], "bob", "kid-a", 2⟩
  identity := none
  claim := false
  jti := fun _ => none
  firstBoot := none
  tls := fun _ => none

/-- Each operator removes the other's key. -/
def removeEachOther : Bool → Call
  | true => ⟨"kid-a", .keyRemove "kid-b"⟩
  | false => ⟨"kid-b", .keyRemove "kid-a"⟩

theorem keys_remain_serial :
    1 ≤ ((handlers noCodec quietController removeEachOther twoKeys).run sem
      [(true, {}), (true, {}), (false, {}), (false, {})]).st.keys.count :=
  keys_remain noCodec quietController removeEachOther twoKeys (by decide) _ (by decide)

/-- Both count two keys, then both delete. -/
theorem last_key_removed :
    1 ≤ twoKeys.keys.count ∧
      ((handlers noCodec quietController removeEachOther twoKeys).run sem
        [(true, {}), (false, {}), (true, {}), (false, {})]).st.keys.count = 0 := by
  decide

end Capsule.Identity
