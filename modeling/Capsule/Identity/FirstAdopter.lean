import Capsule.Identity.LastKey

/-!
# Capsule.Identity.FirstAdopter

Whether only the first adopter gets in while the claim window is open: any number of `Adopt` calls
with different keys, interleaved at their store calls, and the timer that closes the window.

* `OneAtATime`: a call that sees the window open is the only one past its look, and no write of the
  identity fails.
* `First`, `step`: the invariant. At most one call has enrolled its key, and the row names it.
* `first_adopter`: so it is in every run that comes one at a time.
-/

namespace Capsule.Identity

open Atomic Auth Keyed

/-- An `Adopt` call, or the timer of the claim window. -/
inductive Party where
  | adopt (pubkey : Bytes) (name : String)
  | timer

namespace Party

def isAdopt : Party → Bool
  | .adopt _ _ => true
  | .timer => false

def code (c : Codec) (ctl : Controller) : Party → Code Reply
  | .adopt pubkey name => Identity.adopt c ctl pubkey name
  | .timer => do
    claimClose
    return .ok .other

def monitor (c : Codec) : Party → Monitor Op Res Reply Phase
  | .adopt pubkey name => flow c ⟨"", .adopt pubkey name⟩
  | .timer =>
    ⟨fun g o => g = .idle ∧ o = .claimClose, fun _ _ _ => .done false, fun g _ => g = .done false⟩

theorem code_obeys (c : Codec) (ctl : Controller) (p : Party) :
    (p.code c ctl).Obeys (p.monitor c) .idle := by
  cases p with
  | adopt pubkey name =>
    have hreq : (Call.mk "" (.adopt pubkey name)).req = .adopt pubkey name := rfl
    exact adopt_obeys hreq
  | timer => exact ⟨⟨rfl, rfl⟩, fun _ => rfl⟩

end Party

def Phase.Added : Phase → Prop
  | .stored a | .recorded a | .failed a | .done a => a = true
  | _ => False

def recording (p : Code Reply) : Bool :=
  match p.next? with
  | some (.identityPut _) => true
  | _ => false

theorem not_active_of_settled {c : Codec} {x : Party} {p : Code Reply} {g : Phase}
    (h : p.Obeys (x.monitor c) g) (hs : x.isAdopt = true → settled p = true) : ¬ g.Active := by
  cases x with
  | timer =>
    cases p with
    | ret r => obtain rfl : g = .done false := h; exact id
    | call o k => obtain rfl : g = .idle := h.1.1; exact id
  | adopt pubkey name =>
    have hs := hs rfl
    cases p with
    | ret r => exact not_active_of_fin h
    | call o k =>
      cases o with
      | claimOpen => exact not_active_of_look h.1
      | _ => cases hs

theorem done_of_returned {c : Codec} {pub : Bytes} {name : String} {p : Code Reply} {g : Phase}
    (h : p.Obeys ((Party.adopt pub name).monitor c) g) (hret : p.next? = none) (ha : g.Added)
    (hfail : ∀ a, g ≠ .failed a) : g = .done true := by
  cases p with
  | call o k => cases hret
  | ret r =>
    cases g with
    | idle | opened | counted => exact absurd ha id
    | stored a | recorded a => exact absurd h id
    | failed a => exact absurd rfl (hfail a)
    | done a => obtain rfl : a = true := ha; rfl

section

variable {ι : Type}

def adopters (c : Codec) (ctl : Controller) (ps : ι → Party) (s : State) :
    Pool ι Op Res State Reply :=
  ⟨s, fun i => (ps i).code c ctl⟩

/-- A call that sees the window open is the only one past its look, and no adoption fails to be
recorded. -/
def OneAtATime (ps : ι → Party) (p : Pool ι Op Res State Reply) (i : ι) (e : Env) : Prop :=
  ((p.thr i).next? = some .claimOpen → p.st.claim = true →
      ∀ j, j ≠ i → (ps j).isAdopt = true → settled (p.thr j) = true) ∧
    (recording (p.thr i) = true → e.fault = none)

/-- The event is the call's own key entering the table. -/
def enrols [DecidableEq ι] (i : ι) : Event ι Op Res → Bool
  | ⟨j, .keysAdd _, .ok ()⟩ => j = i
  | _ => false

/-- The call enrolled its key through the bootstrap path. -/
def Enrolled [DecidableEq ι] (h : List (Event ι Op Res)) (i : ι) : Prop :=
  h.any (enrols i) = true

instance [Fintype ι] [DecidableEq ι] (ps : ι → Party) (p : Pool ι Op Res State Reply) (i : ι)
    (e : Env) : Decidable (OneAtATime ps p i e) :=
  inferInstanceAs (Decidable (((p.thr i).next? = some .claimOpen → p.st.claim = true →
      ∀ j, j ≠ i → (ps j).isAdopt = true → settled (p.thr j) = true) ∧
    (recording (p.thr i) = true → e.fault = none)))

instance [DecidableEq ι] (h : List (Event ι Op Res)) (i : ι) : Decidable (Enrolled h i) :=
  inferInstanceAs (Decidable (_ = true))

/-- The adoption on record is the one of `x`. -/
def Names (c : Codec) (x : Party) (s : State) : Prop :=
  ∃ id pub name, s.identity = some id ∧ x = .adopt pub name ∧ id.adoptedByKid = kidFromPubkey c pub

/-- What holds while the calls come one at a time. -/
structure First [DecidableEq ι] (c : Codec) (ps : ι → Party) (h : List (Event ι Op Res))
    (g : ι → Phase) (s : State) : Prop where
  one : ∀ i j, (g i).Active → (g j).Active → i = j
  closed : ∀ i, g i = .done true → s.claim = false ∧ ∀ j, ¬ (g j).Active
  single : ∀ i j, (g i).Added → (g j).Added → i = j
  named : ∀ i, g i = .recorded true ∨ g i = .done true → Names c (ps i) s
  kept : ∀ i a, g i ≠ .failed a
  logged : ∀ i, Enrolled h i ↔ (g i).Added

variable [DecidableEq ι] {c : Codec} {ps : ι → Party} {h : List (Event ι Op Res)} {g : ι → Phase}
  {s s' : State} {i : ι} {ev : Event ι Op Res} {gi g' : Phase}

theorem enrolled_append : Enrolled (h ++ [ev]) i ↔ Enrolled h i ∨ enrols i ev = true := by
  simp [Enrolled]

namespace First

theorem log (hf : First c ps h g s) (hi : g'.Added ↔ (g i).Added ∨ enrols i ev = true)
    (ho : ∀ j, j ≠ i → enrols j ev = false) (j : ι) :
    Enrolled (h ++ [ev]) j ↔ (Function.update g i g' j).Added := by
  revert j
  refine (Function.forall_update_iff g fun j x => Enrolled (h ++ [ev]) j ↔ x.Added).mpr ⟨?_, ?_⟩
  · rw [enrolled_append, hf.logged i, hi]
  · intro j hj; rw [enrolled_append, hf.logged j, ho j hj]; simp

theorem keep (hf : First c ps h g s) (hact : g'.Active → (g i).Active)
    (hadd : g'.Added ↔ (g i).Added) (hrec : g' = .recorded true ∨ g' = .done true → g i = g')
    (hfail : ∀ a, g' ≠ .failed a) (hclaim : s'.claim = s.claim ∨ s'.claim = false)
    (hid : s'.identity = s.identity) (hev : ∀ j, enrols j ev = false) :
    First c ps (h ++ [ev]) (Function.update g i g') s' := by
  have hA : ∀ j, (Function.update g i g' j).Active → (g j).Active :=
    (Function.forall_update_iff g fun j x => x.Active → (g j).Active).mpr ⟨hact, fun _ _ => id⟩
  have hD : ∀ j, (Function.update g i g' j).Added → (g j).Added :=
    (Function.forall_update_iff g fun j x => x.Added → (g j).Added).mpr
      ⟨hadd.mp, fun _ _ => id⟩
  have hR : ∀ j, Function.update g i g' j = .recorded true ∨
      Function.update g i g' j = .done true → g j = Function.update g i g' j :=
    (Function.forall_update_iff g fun j x => x = .recorded true ∨ x = .done true → g j = x).mpr
      ⟨hrec, fun _ _ _ => rfl⟩
  refine ⟨?_, ?_, ?_, ?_, ?_, ?_⟩
  · intro j l hj hl; exact hf.one j l (hA j hj) (hA l hl)
  · intro j hj
    obtain ⟨hcl, hno⟩ := hf.closed j ((hR j (.inr hj)).trans hj)
    refine ⟨?_, fun l hl => hno l (hA l hl)⟩
    rcases hclaim with hc | hc
    · exact hc.trans hcl
    · exact hc
  · intro j l hj hl; exact hf.single j l (hD j hj) (hD l hl)
  · intro j hj
    have hnames := hf.named j (by rw [hR j hj]; exact hj)
    rwa [Names, ← hid] at hnames
  · exact (Function.forall_update_iff g fun _ x => ∀ a, x ≠ .failed a).mpr
      ⟨hfail, fun j _ => hf.kept j⟩
  · exact hf.log (by rw [hadd, hev i]; simp) fun j _ => hev j

theorem enter (hf : First c ps h g s) (hgi : g i = .idle) (hopen : s.claim = true)
    (hothers : ∀ j, j ≠ i → ¬ (g j).Active) :
    First c ps (h ++ [⟨i, .claimOpen, true⟩]) (Function.update g i .opened) s := by
  -- whoever has adopted has closed the window
  have hnone : ∀ j, g j ≠ .done true := by
    intro j hj; rw [(hf.closed j hj).1] at hopen; cases hopen
  have hA : ∀ j, (Function.update g i .opened j).Active → j = i :=
    (Function.forall_update_iff g fun j x => x.Active → j = i).mpr
      ⟨fun _ => rfl, fun j hj ha => absurd ha (hothers j hj)⟩
  have hD : ∀ j, (Function.update g i .opened j).Added → (g j).Added :=
    (Function.forall_update_iff g fun j x => x.Added → (g j).Added).mpr
      ⟨fun hx => absurd hx id, fun _ _ => id⟩
  refine ⟨?_, ?_, ?_, ?_, ?_, ?_⟩
  · intro j l hj hl; exact (hA j hj).trans (hA l hl).symm
  · refine (Function.forall_update_iff g fun _ x => x = .done true → s.claim = false ∧
      ∀ l, ¬ (Function.update g i .opened l).Active).mpr ⟨?_, ?_⟩
    · intro hx; cases hx
    · exact fun j _ hj => absurd hj (hnone j)
  · intro j l hj hl; exact hf.single j l (hD j hj) (hD l hl)
  · refine (Function.forall_update_iff g fun j x => x = .recorded true ∨ x = .done true →
      Names c (ps j) s).mpr ⟨?_, fun j _ => hf.named j⟩
    rintro (hx | hx) <;> cases hx
  · exact (Function.forall_update_iff g fun _ x => ∀ a, x ≠ .failed a).mpr
      ⟨fun _ hx => (by cases hx), fun j _ => hf.kept j⟩
  · exact hf.log (by simp [hgi, Phase.Added, enrols]) fun _ _ => rfl

theorem eq_of_added (hf : First c ps h g s) (hi : (g i).Active) {j : ι} (hj : (g j).Added) :
    j = i := by
  cases hg : g j with
  | idle | opened | counted => rw [hg] at hj; exact absurd hj id
  | stored a | recorded a => exact hf.one j i (by rw [hg]; trivial) hi
  | failed a => exact absurd hg (hf.kept j a)
  | done a =>
    rw [hg] at hj; obtain rfl : a = true := hj; exact absurd hi ((hf.closed j hg).2 i)

theorem advance (hf : First c ps h g s) (hi : (g i).Active)
    (hclaim : g' = .done true → s'.claim = false) (hfail : ∀ a, g' ≠ .failed a)
    (hnamed : g' = .recorded true ∨ g' = .done true → Names c (ps i) s')
    (hadd : g'.Added ↔ (g i).Added ∨ enrols i ev = true)
    (hev : ∀ j, j ≠ i → enrols j ev = false) :
    First c ps (h ++ [ev]) (Function.update g i g') s' := by
  have hne : ∀ j, j ≠ i → ¬ (g j).Active := fun j hj ha => hj (hf.one j i ha hi)
  have hdone : ∀ j, g j ≠ .done true := fun j hj => (hf.closed j hj).2 i hi
  have hA : ∀ j, (Function.update g i g' j).Active → j = i :=
    (Function.forall_update_iff g fun j x => x.Active → j = i).mpr
      ⟨fun _ => rfl, fun j hj ha => absurd ha (hne j hj)⟩
  have hD : ∀ j, (Function.update g i g' j).Added → j = i :=
    (Function.forall_update_iff g fun j x => x.Added → j = i).mpr
      ⟨fun _ => rfl, fun j _ ha => hf.eq_of_added hi ha⟩
  refine ⟨?_, ?_, ?_, ?_, ?_, hf.log hadd hev⟩
  · intro j l hj hl; exact (hA j hj).trans (hA l hl).symm
  · refine (Function.forall_update_iff g fun _ x => x = .done true → s'.claim = false ∧
      ∀ l, ¬ (Function.update g i g' l).Active).mpr ⟨?_, ?_⟩
    · intro hx
      refine ⟨hclaim hx, ?_⟩
      refine (Function.forall_update_iff g fun _ x => ¬ x.Active).mpr ⟨?_, hne⟩
      rw [hx]
      exact id
    · exact fun j _ hj => absurd hj (hdone j)
  · intro j l hj hl; exact (hD j hj).trans (hD l hl).symm
  · refine (Function.forall_update_iff g fun j x => x = .recorded true ∨ x = .done true →
      Names c (ps j) s').mpr ⟨hnamed, ?_⟩
    rintro j hj (hr | hr)
    · exact absurd (by rw [hr]; trivial) (hne j hj)
    · exact absurd hr (hdone j)
  · exact (Function.forall_update_iff g fun _ x => ∀ a, x ≠ .failed a).mpr
      ⟨hfail, fun j _ => hf.kept j⟩

theorem enrols_of_reads {o : Op} {r : Res o} (ho : o.Reads) (j : ι) :
    enrols j (⟨i, o, r⟩ : Event ι Op Res) = false := by
  cases o with
  | keysAdd k => exact absurd ho id
  | _ => rfl

theorem step {pub : Bytes} {name : String} (hf : First c ps h g s)
    (hps : ps i = .adopt pub name) (hmove : Move c ⟨"", .adopt pub name⟩ i s gi ev s' g')
    (hgi : g i = gi)
    (henter : ev.op = .claimOpen → s.claim = true → ∀ j, j ≠ i → ¬ (g j).Active)
    (hrecord : ∀ id err, ev ≠ ⟨i, .identityPut id, .error err⟩) :
    First c ps (h ++ [ev]) (Function.update g i g') s' := by
  cases hmove with
  | read ho _ =>
    exact hf.keep (by rw [hgi]; exact id) (by rw [hgi]) (fun _ => hgi) (hgi ▸ hf.kept i) (.inl rfl)
      rfl (enrols_of_reads ho)
  | enter hopen => exact hf.enter hgi hopen (henter rfl hopen)
  | look | giveUp | keyAddFails | enrolled | enrolFails | count | remove | removeFails =>
    exact hf.keep (by simp [hgi, Phase.Active]) (by simp [hgi, Phase.Added]) (by simp) (by simp)
      (.inl rfl) rfl fun _ => rfl
  | keyAdd hk => exact absurd rfl hk.1
  | enrol hk =>
    exact hf.advance (by rw [hgi]; trivial) (by simp) (by simp) (by simp)
      (by simp [Phase.Added, enrols]) fun j hj => by simp [enrols, hj.symm]
  | @record a id id' hkid =>
    obtain ⟨pub', name', hreq, hid⟩ := hkid
    cases hreq
    exact hf.advance (by rw [hgi]; trivial) (by simp) (by simp)
      (fun _ => ⟨id', pub, name, rfl, hps, hid⟩) (by simp [hgi, Phase.Added, enrols]) fun _ _ => rfl
  | recordFails => exact absurd rfl (hrecord _ _)
  | close =>
    refine hf.advance (by rw [hgi]; trivial) (fun _ => rfl) (by simp) ?_
      (by simp [hgi, Phase.Added, enrols]) fun _ _ => rfl
    rintro (hx | hx) <;> cases hx
    exact hf.named i (.inl hgi)

end First

theorem first_idle (s : State) : First c ps [] (fun _ => .idle) s where
  one _ _ h := absurd h id
  closed _ h := by cases h
  single _ _ h := absurd h id
  named _ h := by rcases h with h | h <;> cases h
  kept _ _ h := by cases h
  logged _ := by simp [Enrolled, Phase.Added]

/-- In every run in which the calls that see the window open come one at a time and adoptions are
recorded, one call at most enrols its key, and once it has returned the identity names that key. -/
theorem first_adopter (c : Codec) (ctl : Controller) (ps : ι → Party) (s : State)
    (w : List (ι × Env)) (hw : (adopters c ctl ps s).Allowed sem (OneAtATime ps) w) :
    (∀ i j, Enrolled ((adopters c ctl ps s).events sem w) i →
        Enrolled ((adopters c ctl ps s).events sem w) j → i = j) ∧
      ∀ i pub name, ps i = .adopt pub name → Enrolled ((adopters c ctl ps s).events sem w) i →
        (((adopters c ctl ps s).run sem w).thr i).next? = none →
          ∃ id, ((adopters c ctl ps s).run sem w).st.identity = some id ∧
            id.adoptedByKid = kidFromPubkey c pub := by
  obtain ⟨g, hf, hob⟩ := Pool.run_monitor (M := fun i => (ps i).monitor c)
    (P := fun h g p => First c ps h g p.st) (g := fun _ => Phase.idle) (by
      intro h g p i e o k hf hob hp hok
      have hobi := hp ▸ hob i
      rw [Pool.step_call hp]
      cases hps : ps i with
      | timer =>
        rw [hps] at hobi
        obtain ⟨hgi, rfl⟩ := hobi.1
        exact hf.keep (by simp [Party.monitor, Phase.Active])
          (by simp [hgi, Party.monitor, Phase.Added]) (by simp [Party.monitor])
          (by simp [Party.monitor]) (.inr rfl) rfl fun _ => rfl
      | adopt pub name =>
        rw [hps] at hobi
        refine hf.step hps (move_of_ok hobi.1 i e p.st) rfl ?_ ?_
        · intro ho hopen j hj
          refine not_active_of_settled (hob j) (hok.1 ?_ hopen j hj)
          rw [hp]
          exact congrArg some ho
        · intro id err hev
          obtain rfl : o = .identityPut id := congrArg Event.op hev
          have hfault := hok.2 (by rw [hp]; rfl)
          simp [sem, hfault] at hev)
    (fun j => (ps j).code_obeys c ctl) (first_idle s) hw
  refine ⟨fun i j hi hj => hf.single i j ((hf.logged i).mp hi) ((hf.logged j).mp hj), ?_⟩
  intro i pub name hps hi hret
  have hdone := done_of_returned (hps ▸ hob i) hret ((hf.logged i).mp hi) (hf.kept i)
  obtain ⟨id, pub', name', hid, hps', hkid⟩ := hf.named i (.inr hdone)
  rw [hps] at hps'
  cases hps'
  exact ⟨id, hid, hkid⟩

end

/-- A codec that tells keys apart by their first byte. -/
def firstByte : Codec :=
  { noCodec with
    sha256 := id
    b64urlEncode := fun b => if b.headD 0 = 1 then "kid-a" else "kid-b" }

/-- Nobody is enrolled and the claim window is open. -/
def unclaimed : State where
  keys := .empty
  identity := some ⟨"cap", "capsule-0001", 1, 0, ""⟩
  claim := true
  jti := fun _ => none
  firstBoot := none
  tls := fun _ => none

def annAndBob : Bool → Party
  | true => .adopt (List.replicate 32 1) "ann"
  | false => .adopt (List.replicate 32 2) "bob"

def noFault : Env := {}

/-- Ann adopts, then Bob comes too late. -/
def annFirst : List (Bool × Env) :=
  List.replicate 7 (true, noFault) ++ List.replicate 2 (false, noFault)

theorem first_adopter_ann :
    Enrolled ((adopters firstByte quietController annAndBob unclaimed).events sem annFirst) true ∧
      ∃ id,
        ((adopters firstByte quietController annAndBob unclaimed).run sem annFirst).st.identity =
          some id ∧ id.adoptedByKid = kidFromPubkey firstByte (List.replicate 32 1) :=
  ⟨by decide, (first_adopter firstByte quietController annAndBob unclaimed annFirst (by decide)).2
    true _ "ann" rfl (by decide) (by decide)⟩

/-- Both look while the window is open; Ann's call runs to its end, then Bob's. -/
def bothLook : List (Bool × Env) :=
  [(true, noFault), (false, noFault)] ++ List.replicate 6 (true, noFault) ++
    List.replicate 6 (false, noFault)

theorem two_adopters :
    unclaimed.keys.count = 0 ∧ unclaimed.claim = true ∧
      Enrolled ((adopters firstByte quietController annAndBob unclaimed).events sem bothLook) true ∧
      Enrolled ((adopters firstByte quietController annAndBob unclaimed).events sem bothLook)
        false ∧
      ((adopters firstByte quietController annAndBob unclaimed).run sem bothLook).st.keys.count =
        2 ∧
      ((adopters firstByte quietController annAndBob unclaimed).run sem bothLook).Done := by
  decide

end Capsule.Identity
