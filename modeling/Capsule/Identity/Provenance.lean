import Mathlib.Data.List.Induction
import Capsule.Atomic.Past
import Capsule.Identity.Boot

/-!
# Capsule.Identity.Provenance

Where the enrolled keys of a runtime capsule come from, over any number of boots with any RPCs.

* `Origin`: the three reasons to enrol a key: the ingest, an `Adopt` that saw the window open, or a
  `KeyAdd` whose token was signed by an enrolled key.
* `Traced`: the stage of a job tells what it did before; `traced_run` keeps this along a schedule.
* `rows_provenance`: every row is well-formed and entered for one of these reasons.
* `unverified_unchanged`: with the window closed, an RPC without a verified token changes nothing.
* `key_provenance`: both, in every run.
-/

namespace Capsule.Identity

open Atomic Auth Keyed

section

variable {ι : Type} [DecidableEq ι]

section Defs

variable (c : Codec) (b : Boot ι) (s : State) (w : List (ι × Env)) (i : ι)

/-- The call looked at the claim window while it was open. -/
def SawOpen : Prop := (b.start c s).Performed sem w i .claimOpen fun s _ => s.claim = true

/-- The call's token carries these claims, signed by the key it found enrolled under the token's
kid. -/
def Signed (md : List Bytes) (claims : Claims) : Prop :=
  ∃ t key pub, parseHeader c (bearer md) = .ok t ∧
    (b.start c s).Performed sem w i (.keysGet t.hdr.kid)
      (fun s _ => s.keys.get t.hdr.kid = some key) ∧
    parsePubkey key.pubkey = .ok pub ∧ checkSigned c b.capsuleID t pub = .ok claims

/-- The call read a clock within the times of the claims. -/
def Timely (claims : Claims) : Prop :=
  (b.start c s).Performed sem w i .now fun _ n => checkTimes claims n = .ok claims

/-- The call's token was verified, and presented for the first time, for the subject `sub`. -/
def Verified (md : List Bytes) (sub : String) : Prop :=
  ∃ claims, Signed c b s w i md claims ∧ Timely c b s w i claims ∧
    (b.start c s).Performed sem w i (.seenOrAdd claims.jti claims.exp)
      (fun s _ => s.jti claims.jti = none) ∧
    claims.sub = sub

/-- Why the job `i` may enrol the key `k` after the schedule `w`. -/
inductive Origin (k : AuthorizedKey) : Prop where
  | ingest (hjob : b.jobs i = .ingestFirstBoot)
  | adopt {md : List Bytes} {pub : Bytes} {name : String}
      (hjob : b.jobs i = .rpc md (.adopt pub name)) (hk : k.pubkey = pub)
      (hopen : SawOpen c b s w i)
  | keyAdd {md : List Bytes} {pub : Bytes} {name : String}
      (hjob : b.jobs i = .rpc md (.keyAdd pub name)) (hk : k.pubkey = pub)
      (hcaller : Verified c b s w i md k.addedByKid)

/-- The row appeared at a step of `w`, by a job that had a reason to enrol it. -/
def Entered (k : AuthorizedKey) : Prop :=
  ∃ w₁ i e w₂, w = w₁ ++ (i, e) :: w₂ ∧ k ∉ ((b.start c s).run sem w₁).st.keys.rows ∧
    k ∈ (((b.start c s).run sem w₁).step sem (i, e)).st.keys.rows ∧ Origin c b s w₁ i k

/-- What the stage of a job says about its past. -/
def Holds : Job → Stage → Prop
  | .rpc md _, .signed claims => Signed c b s w i md claims
  | .rpc md _, .timely claims => Signed c b s w i md claims ∧ Timely c b s w i claims
  | .rpc md req, .running caller g =>
    ((caller = "" ∧ ∃ pub name, req = .adopt pub name) ∨ Verified c b s w i md caller) ∧
      (g = .opened → SawOpen c b s w i)
  | _, _ => True

structure Traced (g : ι → Stage) : Prop where
  rows : ∀ k ∈ ((b.start c s).run sem w).st.keys.rows,
    k ∈ s.keys.rows ∨ (Formed c k ∧ Entered c b s w k)
  stages : ∀ i, Holds c b s w i (b.jobs i) (g i)
  adopts : ∀ i md pub name, b.jobs i = .rpc md (.adopt pub name) → ∃ ph, g i = .running "" ph

end Defs

variable {c : Codec} {b : Boot ι} {s : State} {w : List (ι × Env)} {i : ι} {md : List Bytes}

theorem Signed.append {claims : Claims} (h : Signed c b s w i md claims) (w' : List (ι × Env)) :
    Signed c b s (w ++ w') i md claims := by
  obtain ⟨t, key, pub, ht, hget, hpub, hclaims⟩ := h
  exact ⟨t, key, pub, ht, hget.append w', hpub, hclaims⟩

theorem Verified.append {sub : String} (h : Verified c b s w i md sub) (w' : List (ι × Env)) :
    Verified c b s (w ++ w') i md sub := by
  obtain ⟨claims, hsigned, htimely, hfresh, hsub⟩ := h
  exact ⟨claims, hsigned.append w', htimely.append w', hfresh.append w', hsub⟩

theorem Entered.append {k : AuthorizedKey} (h : Entered c b s w k) (w' : List (ι × Env)) :
    Entered c b s (w ++ w') k := by
  obtain ⟨w₁, i, e, w₂, rfl, hold, hnew, horigin⟩ := h
  exact ⟨w₁, i, e, w₂ ++ w', by simp, hold, hnew, horigin⟩

theorem Holds.append {job : Job} {g : Stage} (h : Holds c b s w i job g) (w' : List (ι × Env)) :
    Holds c b s (w ++ w') i job g := by
  cases job with
  | rpc md req =>
    cases g with
    | start | refused => trivial
    | signed claims => exact Signed.append h w'
    | timely claims => exact ⟨h.1.append w', h.2.append w'⟩
    | running caller ph =>
      exact ⟨h.1.imp_right fun hv => hv.append w', fun hg => (h.2 hg).append w'⟩
  | _ => trivial

theorem get_of_keysGet {kid : String} {e : Env} {st : State} {key : AuthorizedKey}
    (h : (sem (.keysGet kid) e st).2 = .ok key) : st.keys.get kid = some key := by
  simp only [sem] at h
  split at h <;> cases h
  assumption

theorem signedClaims_some {a : Authenticator} {k : Except Err AuthorizedKey} {claims : Claims}
    (h : signedClaims c a md k = some claims) :
    ∃ t key pub, parseHeader c (bearer md) = .ok t ∧ k = .ok key ∧
      parsePubkey key.pubkey = .ok pub ∧ checkSigned c a.capsuleID t pub = .ok claims := by
  unfold signedClaims at h
  cases ht : parseHeader c (bearer md) with
  | error e => rw [ht] at h; cases h
  | ok t =>
    rw [ht] at h
    cases k with
    | error e => cases h
    | ok key =>
      cases hp : parsePubkey key.pubkey with
      | error e => simp [enrolledKey, hp] at h
      | ok pub =>
        cases hs : checkSigned c a.capsuleID t pub with
        | error e => simp [enrolledKey, hp, hs, Except.toOption] at h
        | ok claims' =>
          simp only [enrolledKey, hp, hs, Except.toOption, Option.some.injEq] at h
          exact ⟨t, key, pub, rfl, rfl, hp, by rw [hs, h]⟩

theorem Holds.step {req : Request} {g : Stage} {o : Op} {k : Res o → Code (Option Reply)}
    (h : Holds c b s w i (.rpc md req) g)
    (hp : ((b.start c s).run sem w).thr i = .call o k)
    (hok : ((Job.rpc md req).monitor c b.auth).ok g o) (e : Env) :
    Holds c b s (w ++ [(i, e)]) i (.rpc md req)
      (((Job.rpc md req).monitor c b.auth).next g o
        (sem o e ((b.start c s).run sem w).st).2) := by
  cases g with
  | start =>
    cases o with
    | keysGet kid =>
      obtain ⟨t, ht, rfl⟩ := hok
      change Holds c b s _ i _ (.afterLookup (signedClaims c b.auth md
        (sem (.keysGet t.hdr.kid) e ((b.start c s).run sem w).st).2))
      cases hs : signedClaims c b.auth md
          (sem (.keysGet t.hdr.kid) e ((b.start c s).run sem w).st).2 with
      | none => trivial
      | some claims =>
        obtain ⟨t', key, pub, ht', hkey, hpub, hclaims⟩ := signedClaims_some hs
        obtain rfl : t = t' := by
          rw [ht] at ht'; cases ht'; rfl
        exact ⟨t, key, pub, ht, Pool.performed_last hp (get_of_keysGet hkey), hpub, hclaims⟩
    | _ => exact absurd hok id
  | signed claims =>
    cases o with
    | now =>
      change Holds c b s _ i _ (.afterClock claims (checkTimes claims e.clock))
      cases hn : checkTimes claims e.clock with
      | error err => trivial
      | ok claims' =>
        refine ⟨Signed.append h _, Pool.performed_last hp ?_⟩
        rw [checkTimes_claims hn] at hn
        exact hn
    | _ => exact absurd hok id
  | timely claims =>
    cases o with
    | seenOrAdd jti exp =>
      obtain ⟨rfl, rfl⟩ := hok
      change Holds c b s _ i _ (if (((b.start c s).run sem w).st.jti claims.jti).isSome = true
        then .refused else .running claims.sub .idle)
      split
      · trivial
      · rename_i hfresh
        refine ⟨.inr ⟨claims, h.1.append _, h.2.append _, Pool.performed_last hp ?_, rfl⟩, ?_⟩
        · simpa using hfresh
        · intro hg; cases hg
    | _ => exact absurd hok id
  | running caller ph =>
    refine ⟨(Holds.append h _).1, ?_⟩
    intro hopened
    rcases (move_of_ok hok i e ((b.start c s).run sem w).st).opened hopened with hph | ⟨rfl, hopen⟩
    · exact (h.2 hph).append _
    · exact Pool.performed_last hp hopen
  | refused => exact absurd hok (by cases o <;> exact id)

theorem rows_step {o : Op} {e : Env} {st : State} {k : AuthorizedKey}
    (hk : k ∈ (sem o e st).1.keys.rows) :
    k ∈ st.keys.rows ∨ ∃ k₀ t, o = .keysAdd k₀ ∧ k = { k₀ with addedAtUnix := t } ∧
      k ∉ st.keys.rows := by
  cases o with
  | keysAdd k₀ =>
    rcases sem_keysAdd k₀ e st with ⟨err, hs⟩ | ⟨t, keys, ht, hs⟩
    · rw [hs] at hk; exact .inl hk
    · rw [hs] at hk
      obtain ⟨hrows, hnew⟩ := Table.add_eq_some ht
      dsimp only at hk
      rw [hrows] at hk
      rcases List.mem_cons.mp hk with rfl | hk
      · exact .inr ⟨k₀, t, rfl, rfl, fun hmem => hnew (List.mem_map_of_mem hmem)⟩
      · exact .inl hk
  | keysDelete kid =>
    simp only [sem] at hk
    split at hk
    · exact .inl hk
    · exact .inl (Table.mem_del.mp hk).1
  | keysDeleteAll =>
    simp only [sem] at hk
    split at hk
    · exact .inl hk
    · cases hk
  | keysGet kid => rw [sem_keysGet_state] at hk; exact .inl hk
  | identityGet => rw [sem_identityGet_state] at hk; exact .inl hk
  | identityPut id | writeTLS f pem =>
    simp only [sem] at hk
    split at hk <;> exact .inl hk
  | renameFirstBoot | removeFirstBoot =>
    simp only [sem] at hk
    split at hk <;> exact .inl hk
  | _ => exact .inl hk

theorem Holds.origin {g : Stage} {k : AuthorizedKey} (h : Holds c b s w i (b.jobs i) g)
    (hok : ((b.jobs i).monitor c b.auth).ok g (.keysAdd k)) (t : Int64) :
    Formed c k ∧ Origin c b s w i { k with addedAtUnix := t } := by
  cases hjob : b.jobs i with
  | rpc md req =>
    rw [hjob] at h hok
    cases g with
    | running caller ph =>
      cases ph with
      | idle =>
        obtain ⟨hcaller, pub, name, t', rfl, hlen, rfl⟩ := hok
        refine ⟨⟨rfl, hlen⟩, .keyAdd hjob rfl (h.1.resolve_left ?_)⟩
        rintro ⟨rfl, -⟩
        exact hcaller rfl
      | opened =>
        obtain ⟨pub, name, name', t', rfl, hlen, rfl⟩ := hok
        exact ⟨⟨rfl, hlen⟩, .adopt hjob rfl (h.2 rfl)⟩
      | _ => exact absurd hok id
    | _ => exact absurd hok id
  | ingestFirstBoot => rw [hjob] at hok; exact ⟨hok.2.2, .ingest hjob⟩
  | ensureIdentity | wipeAuthOnDisk | timer | sweeper => rw [hjob] at hok; cases hok.2.1

variable {g : ι → Stage}

theorem Traced.step {o : Op} {k : Res o → Code (Option Reply)} (ht : Traced c b s w g)
    (hob : ∀ j, (((b.start c s).run sem w).thr j).Obeys ((b.jobs j).monitor c b.auth) (g j))
    (hp : ((b.start c s).run sem w).thr i = .call o k) (e : Env) :
    Traced c b s (w ++ [(i, e)]) (Function.update g i
      (((b.jobs i).monitor c b.auth).next (g i) o (sem o e ((b.start c s).run sem w).st).2)) := by
  have hok := hob i
  rw [hp] at hok
  have hstep : ((b.start c s).run sem (w ++ [(i, e)])).st =
      (sem o e ((b.start c s).run sem w).st).1 := by
    rw [Pool.run_snoc, Pool.step_call hp]
  refine ⟨?_, ?_, ?_⟩
  · intro x hx
    rw [hstep] at hx
    rcases rows_step hx with hx' | ⟨k₀, t, rfl, rfl, hnew⟩
    · exact (ht.rows x hx').imp_right fun ⟨hf, he⟩ => ⟨hf, he.append _⟩
    · obtain ⟨hformed, horigin⟩ := (ht.stages i).origin hok.1 t
      refine .inr ⟨hformed, w, i, e, [], rfl, hnew, ?_, horigin⟩
      rw [Pool.step_call hp]
      exact hx
  · refine (Function.forall_update_iff g fun j x => Holds c b s _ j (b.jobs j) x).mpr
      ⟨?_, fun j _ => (ht.stages j).append _⟩
    have hi := ht.stages i
    cases hjob : b.jobs i with
    | rpc md req => rw [hjob] at hi hok; exact hi.step hp hok.1 e
    | _ => trivial
  · refine (Function.forall_update_iff g fun j x => ∀ md pub name,
      b.jobs j = .rpc md (.adopt pub name) → ∃ ph, x = .running "" ph).mpr
      ⟨?_, fun j _ => ht.adopts j⟩
    intro md pub name hjob
    obtain ⟨ph, hph⟩ := ht.adopts i md pub name hjob
    rw [hjob, hph]
    exact ⟨_, rfl⟩

theorem Traced.idle {a : Option Reply} (ht : Traced c b s w g)
    (hp : ((b.start c s).run sem w).thr i = .ret a) (e : Env) : Traced c b s (w ++ [(i, e)]) g := by
  refine ⟨?_, fun j => (ht.stages j).append _, ht.adopts⟩
  intro x hx
  rw [Pool.run_snoc, Pool.step_ret hp] at hx
  exact (ht.rows x hx).imp_right fun ⟨hf, he⟩ => ⟨hf, he.append _⟩

theorem traced_start : Traced c b s [] fun i => (b.jobs i).first := by
  refine ⟨fun k hk => .inl hk, ?_, ?_⟩
  · intro i
    cases b.jobs i with
    | rpc md req =>
      cases req with
      | adopt pub name =>
        refine ⟨.inl ⟨rfl, pub, name, rfl⟩, ?_⟩
        intro hg
        cases hg
      | _ => trivial
    | _ => trivial
  · intro i md pub name hjob; rw [hjob]; exact ⟨.idle, rfl⟩

theorem traced_run (c : Codec) (b : Boot ι) (s : State) (w : List (ι × Env)) :
    ∃ g, Traced c b s w g ∧
      ∀ j, (((b.start c s).run sem w).thr j).Obeys ((b.jobs j).monitor c b.auth) (g j) := by
  have h := Pool.track (M := fun j => (b.jobs j).monitor c b.auth) (P := Traced c b s)
    (c := b.start c s) (fun w g i e o k ht hob hp => ht.step hob hp e)
    (fun w g i e a ht hp => ht.idle hp e) traced_start
    (fun j => job_obeys c b.ctl rfl (b.jobs j)) w
  simpa using h

/-! ## The window is closed -/

theorem claim_step {o : Op} {e : Env} {st : State} (h : st.claim = false) :
    (sem o e st).1.claim = false := by
  cases o with
  | claimClose => rfl
  | keysAdd k =>
    rcases sem_keysAdd k e st with ⟨err, hs⟩ | ⟨t, keys, -, hs⟩ <;> rw [hs] <;> exact h
  | keysGet kid => rw [sem_keysGet_state]; exact h
  | identityGet => rw [sem_identityGet_state]; exact h
  | keysDelete kid | keysDeleteAll | identityPut id | writeTLS f pem =>
    simp only [sem]
    split <;> exact h
  | renameFirstBoot | removeFirstBoot =>
    simp only [sem]
    split <;> exact h
  | _ => exact h

/-- The claim window is closed and no `Adopt` is past its look. -/
structure Quiet (c : Codec) (b : Boot ι) (s : State) (w : List (ι × Env)) (g : ι → Stage) :
    Prop where
  closed : ((b.start c s).run sem w).st.claim = false
  still : ∀ i md pub name, b.jobs i = .rpc md (.adopt pub name) →
    ∃ ph, g i = .running "" ph ∧ ¬ ph.Active

theorem Quiet.step {o : Op} {k : Res o → Code (Option Reply)} (hq : Quiet c b s w g)
    (hob : ∀ j, (((b.start c s).run sem w).thr j).Obeys ((b.jobs j).monitor c b.auth) (g j))
    (hp : ((b.start c s).run sem w).thr i = .call o k) (e : Env) :
    Quiet c b s (w ++ [(i, e)]) (Function.update g i
      (((b.jobs i).monitor c b.auth).next (g i) o (sem o e ((b.start c s).run sem w).st).2)) := by
  refine ⟨?_, ?_⟩
  · rw [Pool.run_snoc, Pool.step_call hp]; exact claim_step hq.closed
  · refine (Function.forall_update_iff g fun j x => ∀ md pub name,
      b.jobs j = .rpc md (.adopt pub name) → ∃ ph, x = .running "" ph ∧ ¬ ph.Active).mpr
      ⟨?_, fun j _ => hq.still j⟩
    intro md pub name hjob
    obtain ⟨ph, hph, hstill⟩ := hq.still i md pub name hjob
    have hok := hob i
    rw [hp, hjob, hph] at hok
    rw [hjob, hph]
    exact ⟨_, rfl, (move_of_ok hok.1 i e _).not_active hstill hq.closed⟩

theorem Quiet.idle {a : Option Reply} (hq : Quiet c b s w g)
    (hp : ((b.start c s).run sem w).thr i = .ret a) (e : Env) : Quiet c b s (w ++ [(i, e)]) g := by
  refine ⟨?_, hq.still⟩
  rw [Pool.run_snoc, Pool.step_ret hp]
  exact hq.closed

theorem not_active_of_settled_rpc {a : Authenticator} {req : Request} {p : Code (Option Reply)}
    {caller : String} {ph : Phase}
    (h : p.Obeys ((Job.rpc md req).monitor c a) (.running caller ph)) (hs : settled p = true) :
    ¬ ph.Active := by
  cases p with
  | ret r => exact h
  | call o k =>
    cases o with
    | claimOpen => exact not_active_of_look h.1
    | _ => cases hs

theorem unverified_step {req : Request} (ht : Traced c b s w g) (hq : Quiet c b s w g)
    (hob : ∀ j, (((b.start c s).run sem w).thr j).Obeys ((b.jobs j).monitor c b.auth) (g j))
    (hjob : b.jobs i = .rpc md req) (hno : ∀ sub, ¬ Verified c b s w i md sub) (e : Env) :
    (((b.start c s).run sem w).step sem (i, e)).st.keys = ((b.start c s).run sem w).st.keys ∧
      (((b.start c s).run sem w).step sem (i, e)).st.identity =
        ((b.start c s).run sem w).st.identity := by
  cases hp : ((b.start c s).run sem w).thr i with
  | ret r => rw [Pool.step_ret hp]; exact ⟨rfl, rfl⟩
  | call o k =>
    rw [Pool.step_call hp]
    have hok := hob i
    have hholds := ht.stages i
    rw [hp, hjob] at hok
    rw [hjob] at hholds
    cases hg : g i with
    | start =>
      rw [hg] at hok
      cases o with
      | keysGet kid => rw [sem_keysGet_state]; exact ⟨rfl, rfl⟩
      | _ => exact absurd hok.1 id
    | signed claims =>
      rw [hg] at hok
      cases o with
      | now => exact ⟨rfl, rfl⟩
      | _ => exact absurd hok.1 id
    | timely claims =>
      rw [hg] at hok
      cases o with
      | seenOrAdd jti exp => exact ⟨rfl, rfl⟩
      | _ => exact absurd hok.1 id
    | refused => rw [hg] at hok; exact absurd hok.1 (by cases o <;> exact id)
    | running caller ph =>
      rw [hg] at hok hholds
      rcases hholds.1 with ⟨rfl, pub, name, rfl⟩ | hv
      · obtain ⟨ph', hph, hstill⟩ := hq.still i md pub name hjob
        rw [hg] at hph
        cases hph
        exact (move_of_ok hok.1 i e _).unchanged rfl hstill
      · exact absurd hv (hno caller)

theorem life_append (boots : List (Boot ι)) (b : Boot ι) :
    life c (boots ++ [b]) = b.finish c (life c boots) := by
  simp [life]

theorem rows_provenance (c : Codec) (boots : List (Boot ι)) :
    ∀ k ∈ (life c boots).keys.rows, Formed c k ∧
      ∃ past b rest, boots = past ++ b :: rest ∧ Entered c b (life c past) b.schedule k := by
  induction boots using List.reverseRecOn with
  | nil => intro k hk; cases hk
  | append_singleton boots b ih =>
    intro k hk
    rw [life_append] at hk
    obtain ⟨g, ht, -⟩ := traced_run c b (life c boots) b.schedule
    rcases ht.rows k hk with hold | ⟨hformed, hentered⟩
    · obtain ⟨hformed, past, b', rest, rfl, hentered⟩ := ih k hold
      exact ⟨hformed, past, b', rest ++ [b], by simp, hentered⟩
    · exact ⟨hformed, boots, b, [], rfl, hentered⟩

theorem unverified_unchanged (c : Codec) (b : Boot ι) (s : State) (w : List (ι × Env))
    (hclosed : ((b.start c s).run sem w).st.claim = false)
    (hsettled : ∀ i md pub name, b.jobs i = .rpc md (.adopt pub name) →
      settled (((b.start c s).run sem w).thr i) = true)
    (w' : List (ι × Env)) (i : ι) (e : Env) (md : List Bytes) (req : Request)
    (hjob : b.jobs i = .rpc md req) (hno : ∀ sub, ¬ Verified c b s (w ++ w') i md sub) :
    (((b.start c s).run sem (w ++ w')).step sem (i, e)).st.keys =
        ((b.start c s).run sem (w ++ w')).st.keys ∧
      (((b.start c s).run sem (w ++ w')).step sem (i, e)).st.identity =
        ((b.start c s).run sem (w ++ w')).st.identity := by
  obtain ⟨g, ht, hob⟩ := traced_run c b s w
  have hq : Quiet c b s w g := by
    refine ⟨hclosed, ?_⟩
    intro j md pub name hj
    obtain ⟨ph, hph⟩ := ht.adopts j md pub name hj
    have hobj := hob j
    rw [hj, hph] at hobj
    exact ⟨ph, hph, not_active_of_settled_rpc hobj (hsettled j md pub name hj)⟩
  obtain ⟨g', ⟨ht', hq'⟩, hob'⟩ := Pool.track (M := fun j => (b.jobs j).monitor c b.auth)
    (P := fun w g => Traced c b s w g ∧ Quiet c b s w g)
    (fun w g i e o k h hob hp => ⟨h.1.step hob hp e, h.2.step hob hp e⟩)
    (fun w g i e a h hp => ⟨h.1.idle hp e, h.2.idle hp e⟩) ⟨ht, hq⟩ hob w'
  exact unverified_step ht' hq' hob' hjob hno e

/-- Over any number of boots: every enrolled key is well-formed and entered the table for one of the
three reasons; and in any boot, once the claim window is closed and no `Adopt` is past its look, a
step of an RPC whose token has not been verified changes neither store. -/
theorem key_provenance (c : Codec) (boots : List (Boot ι)) :
    (∀ k ∈ (life c boots).keys.rows, Formed c k ∧
      ∃ past b rest, boots = past ++ b :: rest ∧ Entered c b (life c past) b.schedule k) ∧
    ∀ (b : Boot ι) (w : List (ι × Env)),
      ((b.start c (life c boots)).run sem w).st.claim = false →
      (∀ i md pub name, b.jobs i = .rpc md (.adopt pub name) →
        settled (((b.start c (life c boots)).run sem w).thr i) = true) →
      ∀ w' i e md req, b.jobs i = .rpc md req →
        (∀ sub, ¬ Verified c b (life c boots) (w ++ w') i md sub) →
        (((b.start c (life c boots)).run sem (w ++ w')).step sem (i, e)).st.keys =
            ((b.start c (life c boots)).run sem (w ++ w')).st.keys ∧
          (((b.start c (life c boots)).run sem (w ++ w')).step sem (i, e)).st.identity =
            ((b.start c (life c boots)).run sem (w ++ w')).st.identity := by
  refine ⟨rows_provenance c boots, ?_⟩
  intro b w hclosed hsettled w' i e md req hjob hno
  exact unverified_unchanged c b (life c boots) w hclosed hsettled w' i e md req hjob hno

end

/-- Ann's key starts with 1; their one token is `1.2.3`, with payload `2` and signature `3`. -/
def annsToken : Codec where
  b64url := some
  b64urlEncode b := if b.headD 0 = 1 then "kid-a" else "kid-b"
  b64std _ := none
  headerJSON b := if b = [1] then some ⟨"EdDSA", "JWT", "kid-a"⟩ else none
  claimsJSON b := if b = [2] then some ⟨"kid-a", "cap", 1000, 1060, "j"⟩ else none
  bundleJSON _ := none
  sha256 := id
  ed25519Verify pub msg sig := pub.headD 0 = 1 ∧ msg = [1, 46, 2] ∧ sig = [3]
  uuidHead _ := none

def atThousand : Env := ⟨none, 1000, "cap"⟩

inductive Who where
  | capsuled
  | ann
  | annAgain
  deriving DecidableEq

/-- The identity is seeded, Ann adopts the capsule and enrols Bob's key. -/
def day : Boot Who where
  capsuleID := "cap"
  ctl := ⟨"", false⟩
  claim := true
  firstBoot := none
  jobs
    | .capsuled => .ensureIdentity
    | .ann => .rpc [] (.adopt (List.replicate 32 1) "ann")
    | .annAgain => .rpc [bearerScheme ++ [1, 46, 2, 46, 3]] (.keyAdd (List.replicate 32 2) "bob")
  schedule := List.replicate 4 (.capsuled, atThousand) ++ List.replicate 7 (.ann, atThousand) ++
    List.replicate 5 (.annAgain, atThousand)

def bobsKey : AuthorizedKey := ⟨"kid-b", List.replicate 32 2, "bob", "kid-a", 1000⟩

/-- The capsule is up again and somebody tries to enrol a key without a token. -/
def night : Boot Who where
  capsuleID := "cap"
  ctl := ⟨"", false⟩
  claim := false
  firstBoot := none
  jobs _ := .rpc [] (.keyAdd (List.replicate 32 3) "eve")
  schedule := []

theorem key_provenance_bob :
    bobsKey ∈ (life annsToken [day]).keys.rows ∧
      (∃ past b rest, [day] = past ++ b :: rest ∧
        Entered annsToken b (life annsToken past) b.schedule bobsKey) ∧
      (((night.start annsToken (life annsToken [day])).run sem []).step sem
          (.ann, atThousand)).st.keys =
        ((night.start annsToken (life annsToken [day])).run sem []).st.keys := by
  have h := key_provenance annsToken [day]
  have hbob : bobsKey ∈ (life annsToken [day]).keys.rows := by decide
  refine ⟨hbob, (h.1 bobsKey hbob).2, ?_⟩
  refine (h.2 night [] rfl (fun _ _ _ _ hjob => by cases hjob) [] .ann atThousand [] _ rfl ?_).1
  rintro sub ⟨claims, ⟨t, key, pub, ht, -⟩, -⟩
  cases ht

end Capsule.Identity
