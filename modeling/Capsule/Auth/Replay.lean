import Capsule.Atomic.Pool
import Capsule.Auth.Token

/-!
# Capsule.Auth.Replay

Bearer tokens are to be single-use: `authorize` asks the `jti` cache whether a token is new, and a
sweeper beside it forgets what has expired. But `Verify` accepts a token for the clock skew beyond
its expiry, so a token can be forgotten before it has stopped being valid.

* `monitor`: what a call asks of the cache, and when. `Logged` says that the cache is what these
  questions make of it.
* `singleUse_iff`: in every interleaving of calls and sweepers, no `jti` is accepted twice exactly
  if no sweep forgets one that is still to be presented.
-/

namespace Capsule.Auth

open Atomic Identity Keyed

inductive Call where
  | authorize (fullMethod : String) (md : List Bytes)
  | sweeper (ticks : Nat)

variable (c : Codec) (a : Authenticator)

def Call.code : Call → Code (Option (Except Status String))
  | .authorize m md => do return some (← Auth.authorize c a m md)
  | .sweeper n => do
    sweepLoop n
    return none

/-- The `jti` a request's token carries. -/
def carriedJti (md : List Bytes) : Option String :=
  match splitN (bearer md) 46 3 with
  | [_, p1, _] =>
    match decodePayload c p1 with
    | .ok claims => some claims.jti
    | .error _ => none
  | _ => none

section System

variable {ι : Type}

/-- The calls before any of them has started, over an empty cache. -/
def start (s : State) (calls : ι → Call) : Pool ι Op Res State (Option (Except Status String)) :=
  ⟨{ s with jti := fun _ => none }, fun i => (calls i).code c a⟩

/-- The call went through the token path and succeeded. -/
def Accepted (calls : ι → Call) (p : Pool ι Op Res State (Option (Except Status String))) (i : ι)
    (jti : String) : Prop :=
  ∃ m md kid, calls i = .authorize m md ∧ ¬ a.Open m ∧ carriedJti c md = some jti ∧
    p.thr i = .ret (some (.ok kid))

def SingleUse (calls : ι → Call)
    (p : Pool ι Op Res State (Option (Except Status String))) : Prop :=
  ∀ i j jti, Accepted c a calls p i jti → Accepted c a calls p j jti → i = j

/-- What an operation asks of the cache. -/
def cacheInput (e : Event ι Op Res) : Option (Expiring.Input String Int64) :=
  match e.op with
  | .seenOrAdd jti exp => some (.see jti exp)
  | .sweep n => some (.sweep n)
  | _ => none

end System

inductive Phase where
  | idle
  | presented (jti : String) (seen : Bool)

def Phase.next (g : Phase) : (o : Op) → Res o → Phase
  | .seenOrAdd jti _, seen => .presented jti seen
  | _, _ => g

def monitor : Call → Monitor Op Res (Option (Except Status String)) Phase
  | .authorize m md =>
    { ok := fun g o => g = .idle ∧ match o with
        | .keysGet _ => True
        | .now => True
        | .seenOrAdd jti _ => ¬ a.Open m ∧ carriedJti c md = some jti
        | _ => False
      next := Phase.next
      fin := fun g r => ∀ jti, g = .presented jti false ↔
        ¬ a.Open m ∧ carriedJti c md = some jti ∧ ∃ kid, r = some (.ok kid) }
  | .sweeper _ =>
    { ok := fun g o => g = .idle ∧ match o with
        | .now => True
        | .sweep _ => True
        | _ => False
      next := Phase.next
      fin := fun g _ => g = .idle }

variable {c a}

theorem verify_obeys (m : String) (md : List Bytes) :
    (verify c (bearer md) a.capsuleID).Obeys
      ((monitor c a (.authorize m md)).post fun g r =>
        g = .idle ∧ ∀ claims, r = .ok claims → carriedJti c md = some claims.jti) .idle := by
  rw [verify]
  split
  · exact ⟨rfl, fun _ h => by cases h⟩
  · rename_i t ht
    refine ⟨⟨rfl, trivial⟩, fun k => ?_⟩
    show (verifyWith c a.capsuleID t (enrolledKey k)).Obeys _ Phase.idle
    cases enrolledKey k with
    | none => exact ⟨rfl, fun _ h => by cases h⟩
    | some pub =>
      rw [verifyWith]
      split
      · exact ⟨rfl, fun _ h => by cases h⟩
      · rename_i claims hclaims
        refine ⟨⟨rfl, trivial⟩, fun n => ?_⟩
        have hjti : carriedJti c md = some claims.jti := by
          rw [carriedJti, parseHeader_parts ht]; simp [checkSigned_payload hclaims]
        refine ⟨rfl, fun claims' h => ?_⟩
        rw [checkTimes_claims h]
        exact hjti

theorem sweepLoop_obeys (n k : Nat) :
    (sweepLoop k).Obeys ((monitor c a (.sweeper n)).post fun g _ => g = .idle) .idle := by
  induction k with
  | zero => rfl
  | succ k ih => exact ⟨⟨rfl, trivial⟩, fun _ => ⟨⟨rfl, trivial⟩, fun _ => ih⟩⟩

theorem code_obeys (call : Call) : (call.code c a).Obeys (monitor c a call) .idle := by
  cases call with
  | authorize m md =>
    rw [Call.code, authorize]
    split
    · rename_i hopen; simp [monitor, hopen]
    · rename_i hopen
      split
      · simp [monitor]
      · simp only [Prog.obeys_bind]
        refine (verify_obeys m md).mono ?_
        rintro g (e | claims) ⟨rfl, hjti⟩
        · simp [monitor]
        · refine ⟨⟨rfl, hopen, hjti claims rfl⟩, ?_⟩
          rintro (_ | _)
          · intro jti; rw [hjti claims rfl]; simp [Phase.next, monitor, hopen]
          · intro jti
            constructor
            · intro h; cases h
            · rintro ⟨_, _, _, h⟩; cases h
  | sweeper n =>
    simp only [Call.code, Prog.obeys_bind]
    exact (sweepLoop_obeys n n).mono fun g _ hg => hg

theorem monitor_next (call : Call) : (monitor c a call).next = Phase.next := by
  cases call <;> rfl

theorem monitor_ok_cases {call : Call} {g : Phase} {o : Op} (h : (monitor c a call).ok g o) :
    g = .idle ∧ ((∃ kid, o = .keysGet kid) ∨ o = .now ∨ (∃ n, o = .sweep n) ∨
      ∃ jti exp, o = .seenOrAdd jti exp) := by
  cases call with
  | authorize m md =>
    refine ⟨h.1, ?_⟩
    cases o <;> first | exact absurd h.2 id | simp
  | sweeper n =>
    refine ⟨h.1, ?_⟩
    cases o <;> first | exact absurd h.2 id | simp

section Run

variable {ι : Type}

/-- The cache inputs of a history. -/
def cacheLog (h : List (Event ι Op Res)) : List (Expiring.Input String Int64) :=
  h.filterMap cacheInput

/-- The cache is what its inputs make of it, and for each `jti` the calls that were told it is
new are as many as the times it was. -/
structure Logged (h : List (Event ι Op Res)) (g : ι → Phase)
    (p : Pool ι Op Res State (Option (Except Status String))) : Prop where
  cache : p.st.jti = (cacheLog h).foldl Expiring.step fun _ => none
  fresh : ∀ jti, ∃ l : List ι, l.Nodup ∧ (∀ i, i ∈ l ↔ g i = .presented jti false) ∧
    l.length = Expiring.freshCount jti (fun _ => none) (cacheLog h)

theorem cacheLog_append (h : List (Event ι Op Res)) (e : Event ι Op Res) :
    cacheLog (h ++ [e]) = cacheLog h ++ (cacheInput e).toList := by
  cases he : cacheInput e <;> simp [cacheLog, he]

section Step

variable {h : List (Event ι Op Res)} {g : ι → Phase}
  {p p' : Pool ι Op Res State (Option (Except Status String))} {i : ι} {o : Op} {r : Res o}

theorem Logged.frame (hL : Logged h g p) (hin : cacheInput ⟨i, o, r⟩ = none)
    (hst : p'.st.jti = p.st.jti) : Logged (h ++ [⟨i, o, r⟩]) g p' := by
  have hlog : cacheLog (h ++ [⟨i, o, r⟩]) = cacheLog h := by
    rw [cacheLog_append, hin]; exact List.append_nil _
  exact ⟨by rw [hst, hlog]; exact hL.cache, fun jti => by rw [hlog]; exact hL.fresh jti⟩

theorem Logged.sweep {n : Int64} {r : Res (.sweep n)} (hL : Logged h g p)
    (hst : p'.st.jti = Expiring.step p.st.jti (.sweep n)) :
    Logged (h ++ [⟨i, .sweep n, r⟩]) g p' := by
  have hlog : cacheLog (h ++ [⟨i, .sweep n, r⟩]) = cacheLog h ++ [.sweep n] := cacheLog_append h _
  refine ⟨?_, fun jti => ?_⟩
  · rw [hst, hlog, List.foldl_append, ← hL.cache]; rfl
  · obtain ⟨l, hnd, hmem, hlen⟩ := hL.fresh jti
    refine ⟨l, hnd, hmem, ?_⟩
    rw [hlog, Expiring.freshCount_append, hlen]
    rfl

variable [DecidableEq ι]

theorem Logged.seenOrAdd {jti : String} {exp : Int64} {seen : Res (.seenOrAdd jti exp)}
    (hL : Logged h g p) (hg : g i = .idle) (hseen : seen = (p.st.jti jti).isSome)
    (hst : p'.st.jti = Expiring.step p.st.jti (.see jti exp)) :
    Logged (h ++ [⟨i, .seenOrAdd jti exp, seen⟩])
      (Function.update g i (.presented jti seen)) p' := by
  have hlog : cacheLog (h ++ [⟨i, .seenOrAdd jti exp, seen⟩]) = cacheLog h ++ [.see jti exp] :=
    cacheLog_append h _
  refine ⟨?_, fun jti' => ?_⟩
  · rw [hst, hlog, List.foldl_append, ← hL.cache]; rfl
  · obtain ⟨l, hnd, hmem, hlen⟩ := hL.fresh jti'
    rw [hlog, Expiring.freshCount_append, ← hL.cache, ← hlen]
    have hi : i ∉ l := fun hi => by rw [hmem, hg] at hi; cases hi
    by_cases hnew : jti = jti' ∧ seen = false
    · -- the call joins those that were told the `jti` is new
      obtain ⟨rfl, rfl⟩ := hnew
      refine ⟨i :: l, List.nodup_cons.mpr ⟨hi, hnd⟩, fun j => ?_, ?_⟩
      · by_cases hj : j = i
        · subst hj; simp
        · simp [hj, hmem]
      · have : p.st.jti jti = none := by simpa using hseen.symm
        simp [Expiring.freshFor, this]
    · refine ⟨l, hnd, fun j => ?_, ?_⟩
      · by_cases hj : j = i
        · subst hj
          simp only [Function.update_self, hi, false_iff]
          intro hpres
          cases hpres
          exact hnew ⟨rfl, rfl⟩
        · rw [Function.update_of_ne hj, hmem]
      · have : Expiring.freshFor jti' p.st.jti (.see jti exp) = false := by
          by_cases he : jti = jti'
          · subst he
            have hs : seen = true := by simpa using fun h => hnew ⟨rfl, h⟩
            simp [Expiring.freshFor, ← hseen, hs]
          · simp [Expiring.freshFor, he]
        simp [this]

/-- The step lemma. -/
theorem Logged.step {call : Call} {k : Res o → Code (Option (Except Status String))}
    (hL : Logged h g p) (hp : p.thr i = .call o k) (hok : (monitor c a call).ok (g i) o) (e : Env) :
    Logged (h ++ [⟨i, o, (sem o e p.st).2⟩])
      (Function.update g i (Phase.next (g i) o (sem o e p.st).2)) (p.step sem (i, e)) := by
  rw [Pool.step_call hp]
  obtain ⟨hg, ⟨kid, rfl⟩ | rfl | ⟨n, rfl⟩ | ⟨jti, exp, rfl⟩⟩ := monitor_ok_cases hok
  · have hst : (sem (.keysGet kid) e p.st).1 = p.st := by
      simp only [sem]
      split <;> rfl
    rw [show Phase.next (g i) (.keysGet kid) _ = g i from rfl, Function.update_eq_self]
    exact hL.frame rfl (by rw [hst])
  · rw [show Phase.next (g i) .now _ = g i from rfl, Function.update_eq_self]
    exact hL.frame rfl rfl
  · rw [show Phase.next (g i) (.sweep n) _ = g i from rfl, Function.update_eq_self]
    exact hL.sweep rfl
  · exact hL.seenOrAdd hg rfl rfl

end Step

theorem accepted_iff {calls : ι → Call} {g : ι → Phase}
    {p : Pool ι Op Res State (Option (Except Status String))} {i : ι}
    (hob : (p.thr i).Obeys (monitor c a (calls i)) (g i)) (jti : String) :
    Accepted c a calls p i jti ↔ g i = .presented jti false := by
  constructor
  · rintro ⟨m, md, kid, hcall, hopen, hjti, hret⟩
    rw [hcall, hret] at hob
    exact (hob jti).mpr ⟨hopen, hjti, kid, rfl⟩
  · intro hg
    -- in this phase no operation is allowed any more
    cases hp : p.thr i with
    | call o k => rw [hp, hg] at hob; cases (monitor_ok_cases hob.1).1
    | ret r =>
      rw [hp] at hob
      cases hcall : calls i with
      | authorize m md =>
        rw [hcall] at hob
        obtain ⟨hopen, hjti, kid, rfl⟩ := (hob jti).mp hg
        exact ⟨m, md, kid, hcall, hopen, hjti, hp⟩
      | sweeper n => rw [hcall, hg] at hob; cases hob

theorem nodup_length_le_one_iff {l : List ι} (hl : l.Nodup) :
    l.length ≤ 1 ↔ ∀ i ∈ l, ∀ j ∈ l, i = j := by
  match l with
  | [] => simp
  | [x] => simp
  | x :: y :: t =>
    refine iff_of_false (by simp) fun h => ?_
    exact (List.nodup_cons.mp hl).1 (h x (by simp) y (by simp) ▸ List.mem_cons_self)

variable [DecidableEq ι]

theorem logged_run (s : State) (calls : ι → Call) (w : List (ι × Env)) :
    ∃ g, Logged ((start c a s calls).events sem w) g ((start c a s calls).run sem w) ∧
      ∀ i, (((start c a s calls).run sem w).thr i).Obeys (monitor c a (calls i)) (g i) := by
  refine Pool.run_monitor (M := fun i => monitor c a (calls i)) (g := fun _ => .idle) ?_
    (fun i => code_obeys (calls i)) ⟨rfl, fun jti => ⟨[], by simp, by simp, rfl⟩⟩
    (Pool.allowed_true _ w)
  intro h g p i e o k hL hob hp _
  have hok := hob i
  rw [hp, Prog.obeys_call] at hok
  rw [monitor_next]
  exact hL.step hp hok.1 e

/-- In every run of `authorize` calls and sweepers, no `jti` is accepted twice exactly when,
for the first verified presentation of each `jti`, every sweep before a later presentation of it
comes before that token's `exp`. -/
theorem singleUse_iff (c : Codec) (a : Authenticator) (s : State) (calls : ι → Call)
    (w : List (ι × Env)) :
    SingleUse c a calls ((start c a s calls).run sem w) ↔
      Expiring.Retained (cacheLog ((start c a s calls).events sem w)) := by
  obtain ⟨g, hL, hob⟩ := logged_run s calls w (c := c) (a := a)
  rw [← Expiring.freshCount_le_one_iff]
  have hfresh : ∀ jti, Expiring.freshCount jti (fun _ => none)
      (cacheLog ((start c a s calls).events sem w)) ≤ 1 ↔
      ∀ i j, g i = .presented jti false → g j = .presented jti false → i = j := by
    intro jti
    obtain ⟨l, hnd, hmem, hlen⟩ := hL.fresh jti
    rw [← hlen, nodup_length_le_one_iff hnd]
    simp only [hmem]
    exact ⟨fun h i j hi hj => h i hi j hj, fun h i hi j hj => h i j hi hj⟩
  simp only [SingleUse, accepted_iff (hob _), hfresh]
  exact ⟨fun h jti i j => h i j jti, fun h i j jti => h jti i j⟩

end Run

/-- The clock readings never go back. -/
def ClockForward {ι : Type} (w : List (ι × Env)) : Prop :=
  (w.map fun x => x.2.clock).Pairwise (· ≤ ·)

/-- A codec that knows one token: header `1`, payload `2`, signature `3`. -/
def oneToken : Codec where
  b64url := some
  b64urlEncode _ := "k"
  b64std _ := none
  headerJSON b := if b = [1] then some ⟨"EdDSA", "JWT", "k"⟩ else none
  claimsJSON b := if b = [2] then some ⟨"k", "cap", 1000, 1060, "j"⟩ else none
  bundleJSON _ := none
  sha256 := id
  ed25519Verify _ msg sig := msg = [1, 46, 2] ∧ sig = [3]
  uuidHead _ := none

def enrolled : State where
  keys := ⟨[⟨"k", List.replicate 32 0, "laptop", "", 1⟩], by simp⟩
  identity := none
  claim := false
  jti _ := none
  firstBoot := none
  tls _ := none

/-- Two calls with the same token, and a sweeper. -/
def twice : Fin 3 → Call
  | 0 => .authorize "/capsule.v1.IdentityService/WhoAmI" [bearerScheme ++ [1, 46, 2, 46, 3]]
  | 1 => .authorize "/capsule.v1.IdentityService/WhoAmI" [bearerScheme ++ [1, 46, 2, 46, 3]]
  | 2 => .sweeper 1

/-- The token of `exp` 1060 is accepted at 1061, swept at 1062 and accepted again at 1063. -/
def replaySchedule : List (Fin 3 × Env) :=
  [(0, { clock := 1061 }), (0, { clock := 1061 }), (0, { clock := 1061 }),
   (2, { clock := 1062 }), (2, { clock := 1062 }),
   (1, { clock := 1063 }), (1, { clock := 1063 }), (1, { clock := 1063 })]

theorem token_accepted_twice :
    ¬ ∀ (c : Codec) (a : Authenticator) (s : State) (calls : Fin 3 → Call)
        (w : List (Fin 3 × Env)), ClockForward w →
        SingleUse c a calls ((start c a s calls).run sem w) := by
  intro hall
  have h := hall oneToken ⟨"cap", false⟩ enrolled twice replaySchedule
    (by unfold ClockForward; decide)
  have hopen : ¬ Authenticator.Open ⟨"cap", false⟩ "/capsule.v1.IdentityService/WhoAmI" := by decide
  have h0 : Accepted oneToken ⟨"cap", false⟩ twice
      ((start oneToken ⟨"cap", false⟩ enrolled twice).run sem replaySchedule) 0 "j" :=
    ⟨_, _, "k", rfl, hopen, by decide, rfl⟩
  have h1 : Accepted oneToken ⟨"cap", false⟩ twice
      ((start oneToken ⟨"cap", false⟩ enrolled twice).run sem replaySchedule) 1 "j" :=
    ⟨_, _, "k", rfl, hopen, by decide, rfl⟩
  exact absurd (h 0 1 "j" h0 h1) (by decide)

end Capsule.Auth
