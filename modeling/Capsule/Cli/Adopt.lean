import Capsule.Install.Session

/-!
# Capsule.Cli.Adopt

`capsulectl adopt` on the client's side: `runAdopt` of `cmd/capsulectl/identity.go`, with
`loadConfig`, `Save`, `loadPrivateKey` and `generatePrivateKey`. All contexts share one key.

Each function has a lemma with all its outcomes (`save_cases`, `generatePrivateKey_cases`,
`enroll_cases`); `prepare_ok_iff` says when `runAdopt` comes to the key.

* `Loses`: the key was read and is removed because the fingerprints differ, or `Stat` failed for it
  and another one is written over it before something else fails.
* `adopt_loses_nothing_iff`: a failed `adopt` keeps the contexts always, and the key exactly if
  neither is so.
-/

namespace Capsule.Cli.Adopt

open Install (Config Context)

/-- The file that a temporary file is to become. -/
inductive Target where
  | key
  | config
  deriving DecidableEq

/-- The calls that fail if the machine wants it. -/
inductive Site where
  | readConfig
  | statKey
  | readKey
  | mkdirKey
  | statKeyAgain
  | mkdirConfig
  | create (t : Target)
  | write (t : Target)
  | chmod (t : Target)
  | close (t : Target)
  | rename (t : Target)
  | removeTemp (t : Target)
  | openPub
  | writePub
  | removeKey
  deriving DecidableEq

/-- `config.yaml`, `operator.ed25519`, `operator.ed25519.pub` and the temporary files, the newest
first. -/
structure Disk where
  config : Option Bytes
  key : Option Bytes
  pub : Option Bytes
  temps : List Bytes

structure AdoptResponse where
  capsuleID : String
  kid : String
  tlsFingerprintSha256 : Bytes

inductive RpcErr where
  | status (failedPrecondition : Bool) (msg : String)
  | other (e : Err)

def RpcErr.err : RpcErr → Err
  | .status _ msg => .text msg
  | .other e => e

structure Env where
  configDir : Except Err String
  fault : Site → Option Err
  /-- The bytes that a failed write has written. -/
  written : Nat := 0
  captured : Except Err Bytes
  scanned : Except Err Bytes
  newKey : Except Err Bytes
  dial : Option Err
  adopt : Bytes → String → Except RpcErr AdoptResponse

/-- What the code calls that has no part in the files. -/
structure Lib where
  unmarshal : Bytes → Except Err Config
  marshal : Config → Except Err Bytes
  pemDecode : Bytes → Option Bytes
  pemEncode : Bytes → Bytes
  /-- `none` if the key is not an Ed25519 key. -/
  parsePKCS8 : Bytes → Except Err (Option Bytes)
  marshalPKCS8 : Bytes → Except Err Bytes
  pub : Bytes → Bytes
  pubPEM : Bytes → Bytes
  equalFold : Bytes → Bytes → Bool
  toLower : Bytes → Bytes

section Code

variable (lib : Lib) (e : Env)

def removeTemp (t : Target) (d : Disk) : Disk :=
  match e.fault (.removeTemp t) with
  | some _ => d
  | none => { d with temps := d.temps.tail }

/-- `CreateTemp`, `Write`, `Chmod` and `Close` of `Save` and `generatePrivateKey`. -/
def writeTemp (t : Target) (b : Bytes) (d : Disk) : Disk × Except Err Unit :=
  match e.fault (.create t) with
  | some x => (d, .error x)
  | none =>
    match e.fault (.write t) with
    | some x => (removeTemp e t { d with temps := b.take e.written :: d.temps }, .error x)
    | none =>
      match e.fault (.chmod t) with
      | some x => (removeTemp e t { d with temps := b :: d.temps }, .error x)
      | none =>
        match e.fault (.close t) with
        | some x => (removeTemp e t { d with temps := b :: d.temps }, .error x)
        | none => ({ d with temps := b :: d.temps }, .ok ())

def loadConfig (d : Disk) : Except Err Config :=
  match e.configDir with
  | .error x => .error x
  | .ok dir =>
    match e.fault .readConfig with
    | some x => .error (x.ctx ("read " ++ dir ++ "/config.yaml"))
    | none =>
      match d.config with
      | none => .ok ⟨"", fun _ => none⟩
      | some b => (lib.unmarshal b).mapError (Err.ctx ("parse " ++ dir ++ "/config.yaml"))

def save (cfg : Config) (d : Disk) : Disk × Except Err Unit :=
  match e.configDir with
  | .error x => (d, .error x)
  | .ok dir =>
    match e.fault .mkdirConfig with
    | some x => (d, .error (x.ctx ("mkdir " ++ dir)))
    | none =>
      match lib.marshal cfg with
      | .error x => (d, .error x)
      | .ok b =>
        match writeTemp e .config b d with
        | (d, .error x) => (d, .error x)
        | (d, .ok ()) =>
          match e.fault (.rename .config) with
          | some x => (d, .error x)
          | none => ({ d with config := d.temps.head?, temps := d.temps.tail }, .ok ())

def statKey (s : Site) (d : Disk) : Bool := e.fault s = none ∧ d.key.isSome

def loadPrivateKey (path : String) (d : Disk) : Except Err Bytes :=
  match e.fault .readKey, d.key with
  | some x, _ => .error (x.ctx ("read key " ++ path))
  | none, none => .error ((Err.text ("open " ++ path ++ ": no such file or directory")).ctx
      ("read key " ++ path))
  | none, some b =>
    match lib.pemDecode b with
    | none => .error (.text ("key " ++ path ++ ": no PEM block"))
    | some block =>
      match lib.parsePKCS8 block with
      | .error x => .error (x.ctx ("parse key " ++ path))
      | .ok none => .error (.text ("key " ++ path ++ " is not Ed25519"))
      | .ok (some priv) => .ok priv

def generatePrivateKey (path : String) (d : Disk) : Disk × Except Err Bytes :=
  match e.fault .mkdirKey with
  | some x => (d, .error x)
  | none =>
    if statKey e .statKeyAgain d then
      (d, .error (.text ("refusing to overwrite existing key at " ++ path)))
    else
      match e.newKey with
      | .error x => (d, .error x)
      | .ok priv =>
        match lib.marshalPKCS8 priv with
        | .error x => (d, .error x)
        | .ok der =>
          match writeTemp e .key (lib.pemEncode der) d with
          | (d, .error x) => (d, .error x)
          | (d, .ok ()) =>
            match e.fault (.rename .key) with
            | some x => (removeTemp e .key d, .error x)
            | none => ({ d with key := d.temps.head?, temps := d.temps.tail }, .ok priv)

/-- The key that is there, or a new one. -/
def operatorKey (path : String) (d : Disk) : Disk × Except Err Bytes :=
  if statKey e .statKey d then (d, loadPrivateKey lib e path d)
  else generatePrivateKey lib e path d

structure Flags where
  capsule : String := ""
  name : String := ""
  yes : Bool := false

def defaultContextName (addr : String) : String :=
  let host := (addr.toList.reverse.dropWhile (· ≠ ':')).tail.reverse
  if ':' ∈ addr.toList ∧ host ≠ [] then String.ofList host else addr

def Flags.target (fl : Flags) (addr : String) : String :=
  if fl.capsule = "" then addr else fl.capsule

def Flags.contextName (fl : Flags) (addr : String) : String :=
  if fl.name = "" then defaultContextName (fl.target addr) else fl.name

def confirm (fl : Flags) : Except Err Unit :=
  if fl.yes then .ok ()
  else
    match e.scanned with
    | .error _ => .error (.text "confirmation cancelled (claim window untouched)")
    | .ok got =>
      if lib.toLower (GoString.trimSpace got) = GoString.utf8 "yes" then .ok ()
      else .error (.text "confirmation declined (claim window untouched)")

def isClaimWindowClosed : RpcErr → Bool
  | .status failedPrecondition msg =>
    failedPrecondition && GoString.contains msg "adoption window closed"
  | .other _ => false

def writePub (pem : Bytes) (d : Disk) : Disk :=
  match e.fault .openPub, e.fault .writePub with
  | some _, _ => d
  | none, some _ => { d with pub := some (pem.take e.written) }
  | none, none => { d with pub := some pem }

/-- What `runAdopt` has settled when it comes to the key. -/
structure Ready where
  target : String
  contextName : String
  cfg : Config
  wire : Bytes
  keyPath : String

/-- `runAdopt` up to the key. -/
def prepare (addr : String) (fl : Flags) (d : Disk) : Except Err Ready :=
  let target := fl.target addr
  let contextName := fl.contextName addr
  if target = "" then .error (.text "adopt requires --capsule host:port")
  else
    match loadConfig lib e d with
    | .error x => .error x
    | .ok cfg =>
      match cfg.contexts contextName with
      | some existing =>
        .error (.text ("context " ++ GoString.quote contextName ++ " already exists (addr=" ++
          existing.addr ++ "); pick another --name or `capsulectl context rm " ++ contextName ++
          "` first"))
      | none =>
        match e.captured with
        | .error x => .error (x.ctx ("capture fingerprint from " ++ target))
        | .ok wire =>
          match confirm lib e fl with
          | .error x => .error x
          | .ok () =>
            match e.configDir with
            | .error x => .error x
            | .ok dir => .ok ⟨target, contextName, cfg, wire, dir ++ "/operator.ed25519"⟩

def Ready.adopted (r : Ready) (resp : AdoptResponse) : Config :=
  ⟨r.contextName, Function.update r.cfg.contexts r.contextName
    (some ⟨r.target, resp.capsuleID, GoString.ofBytes r.wire, r.keyPath⟩)⟩

/-- `runAdopt` from the second connection on. -/
def enroll (r : Ready) (priv : Bytes) (d : Disk) : Disk × Except Err Unit :=
  match e.dial with
  | some x => (d, .error (x.ctx ("dial " ++ r.target)))
  | none =>
    match e.adopt (lib.pub priv) r.contextName with
    | .error x =>
      if isClaimWindowClosed x then
        (writePub e (lib.pubPEM (lib.pub priv)) d, .error (x.err.ctx "adopt"))
      else (d, .error (x.err.ctx "adopt rpc"))
    | .ok resp =>
      if lib.equalFold r.wire resp.tlsFingerprintSha256 then
        match save lib e (r.adopted resp) d with
        | (d, .error x) => (d, .error (x.ctx "save config"))
        | (d, .ok ()) => (d, .ok ())
      else
        ({ d with key := if e.fault .removeKey = none then none else d.key },
          .error (.text ("tls fingerprint mismatch: wire=" ++ GoString.ofBytes r.wire ++
            " response=" ++ GoString.ofBytes resp.tlsFingerprintSha256 ++
            " — refusing to save context")))

def runAdopt (addr : String) (fl : Flags) (d : Disk) : Disk × Except Err Unit :=
  match prepare lib e addr fl d with
  | .error x => (d, .error x)
  | .ok r =>
    match operatorKey lib e r.keyPath d with
    | (d, .error x) => (d, .error x)
    | (d, .ok priv) => enroll lib e r priv d

end Code

/-! ## When what succeeds -/

section Conditions

variable (lib : Lib) (e : Env)

def Writes (t : Target) : Prop :=
  e.fault (.create t) = none ∧ e.fault (.write t) = none ∧ e.fault (.chmod t) = none ∧
    e.fault (.close t) = none

/-- `Save` succeeds. -/
structure Saves (cfg : Config) : Prop where
  dir : ∃ dir, e.configDir = .ok dir
  mkdir : e.fault .mkdirConfig = none
  marshal : ∃ b, lib.marshal cfg = .ok b
  writes : Writes e .config
  rename : e.fault (.rename .config) = none

/-- The key that is there can be read, and is `priv`. -/
structure Reads (old priv : Bytes) : Prop where
  stat : e.fault .statKey = none
  read : e.fault .readKey = none
  parse : ∃ block, lib.pemDecode old = some block ∧ lib.parsePKCS8 block = .ok (some priv)

/-- The new key `priv` is written, as `new`: `Stat` fails, because there is none or otherwise. -/
structure Generates (d : Disk) (priv new : Bytes) : Prop where
  mkdir : e.fault .mkdirKey = none
  again : e.fault .statKeyAgain ≠ none ∨ d.key = none
  key : e.newKey = .ok priv
  marshal : ∃ der, lib.marshalPKCS8 priv = .ok der ∧ lib.pemEncode der = new
  writes : Writes e .key
  rename : e.fault (.rename .key) = none

/-- `runAdopt` comes to the key. -/
structure Starts (addr : String) (fl : Flags) (d : Disk) (dir : String) (cfg : Config)
    (wire : Bytes) : Prop where
  target : fl.target addr ≠ ""
  dir : e.configDir = .ok dir
  read : e.fault .readConfig = none
  config : d.config = none ∧ cfg = ⟨"", fun _ => none⟩ ∨
    ∃ b, d.config = some b ∧ lib.unmarshal b = .ok cfg
  free : cfg.contexts (fl.contextName addr) = none
  wire : e.captured = .ok wire
  confirmed : fl.yes = true ∨
    ∃ got, e.scanned = .ok got ∧ lib.toLower (GoString.trimSpace got) = GoString.utf8 "yes"

/-- The fingerprint in the response is another one, and the key is removed. -/
def Drops (r : Ready) (priv : Bytes) : Prop :=
  e.dial = none ∧ e.fault .removeKey = none ∧
    ∃ resp, e.adopt (lib.pub priv) r.contextName = .ok resp ∧
      lib.equalFold r.wire resp.tlsFingerprintSha256 = false

/-- Something fails behind the key. -/
def Fails (r : Ready) (priv : Bytes) : Prop :=
  e.dial ≠ none ∨ (∃ x, e.adopt (lib.pub priv) r.contextName = .error x) ∨
    ∃ resp, e.adopt (lib.pub priv) r.contextName = .ok resp ∧
      (lib.equalFold r.wire resp.tlsFingerprintSha256 = false ∨ ¬ Saves lib e (r.adopted resp))

end Conditions

section Lemmas

variable {lib : Lib} {e : Env} {d : Disk}

theorem removeTemp_eq (e : Env) (t : Target) (d : Disk) :
    ∃ ts, removeTemp e t d = { d with temps := ts } := by
  unfold removeTemp
  split
  · exact ⟨d.temps, rfl⟩
  · exact ⟨d.temps.tail, rfl⟩

theorem writeTemp_cases (e : Env) (t : Target) (b : Bytes) (d : Disk) :
    Writes e t ∧ writeTemp e t b d = ({ d with temps := b :: d.temps }, .ok ()) ∨
      ¬ Writes e t ∧ ∃ ts x, writeTemp e t b d = ({ d with temps := ts }, .error x) := by
  have hremove : ∀ (ts : List Bytes) (x : Err), ∃ ts' x',
      (removeTemp e t { d with temps := ts }, Except.error x) =
        (({ d with temps := ts' }, .error x') : Disk × Except Err Unit) := by
    intro ts x
    obtain ⟨ts', h⟩ := removeTemp_eq e t { d with temps := ts }
    exact ⟨ts', x, by rw [h]⟩
  unfold writeTemp Writes
  split
  · rename_i x h
    exact .inr ⟨fun hw => Option.some_ne_none x (h.symm.trans hw.1), d.temps, x, rfl⟩
  · rename_i h₁
    split
    · rename_i x h
      exact .inr ⟨fun hw => Option.some_ne_none x (h.symm.trans hw.2.1), hremove _ x⟩
    · rename_i h₂
      split
      · rename_i x h
        exact .inr ⟨fun hw => Option.some_ne_none x (h.symm.trans hw.2.2.1), hremove _ x⟩
      · rename_i h₃
        split
        · rename_i x h
          exact .inr ⟨fun hw => Option.some_ne_none x (h.symm.trans hw.2.2.2), hremove _ x⟩
        · rename_i h₄; exact .inl ⟨⟨h₁, h₂, h₃, h₄⟩, rfl⟩

theorem save_cases (lib : Lib) (e : Env) (cfg : Config) (d : Disk) :
    Saves lib e cfg ∧ (∃ b, save lib e cfg d = ({ d with config := some b }, .ok ())) ∨
      ¬ Saves lib e cfg ∧ ∃ ts x, save lib e cfg d = ({ d with temps := ts }, .error x) := by
  cases hdir : e.configDir with
  | error x =>
    refine .inr ⟨fun h => ?_, d.temps, x, by simp only [save, hdir]⟩
    obtain ⟨dir, h⟩ := h.dir
    cases hdir.symm.trans h
  | ok dir =>
    cases hmkdir : e.fault .mkdirConfig with
    | some x =>
      exact .inr ⟨fun h => Option.some_ne_none x (hmkdir.symm.trans h.mkdir), d.temps,
        x.ctx ("mkdir " ++ dir), by simp only [save, hdir, hmkdir]⟩
    | none =>
      cases hb : lib.marshal cfg with
      | error x =>
        refine .inr ⟨fun h => ?_, d.temps, x, by simp only [save, hdir, hmkdir, hb]⟩
        obtain ⟨b, h⟩ := h.marshal
        cases hb.symm.trans h
      | ok b =>
        rcases writeTemp_cases e .config b d with ⟨hw, hrun⟩ | ⟨hw, ts, x, hrun⟩
        · cases hrename : e.fault (.rename .config) with
          | some x =>
            exact .inr ⟨fun h => Option.some_ne_none x (hrename.symm.trans h.rename),
              b :: d.temps, x, by simp only [save, hdir, hmkdir, hb, hrun, hrename]⟩
          | none =>
            exact .inl ⟨⟨⟨dir, hdir⟩, hmkdir, ⟨b, hb⟩, hw, hrename⟩, b,
              by simp only [save, hdir, hmkdir, hb, hrun, hrename, List.head?_cons, List.tail_cons]⟩
        · exact .inr ⟨fun h => hw h.writes, ts, x, by simp only [save, hdir, hmkdir, hb, hrun]⟩

theorem loadPrivateKey_ok_iff {old priv : Bytes} (hkey : d.key = some old) (path : String) :
    loadPrivateKey lib e path d = .ok priv ↔ e.fault .readKey = none ∧
      ∃ block, lib.pemDecode old = some block ∧ lib.parsePKCS8 block = .ok (some priv) := by
  unfold loadPrivateKey
  rw [hkey]
  constructor
  · intro h
    split at h
    · cases h
    · rename_i hnone; cases hnone
    · rename_i hread hold
      cases hold
      split at h
      · cases h
      · rename_i block hblock
        split at h
        · cases h
        · cases h
        · rename_i hparse; cases h; exact ⟨hread, block, hblock, hparse⟩
  · rintro ⟨hread, block, hblock, hparse⟩; simp only [hread, hblock, hparse]

theorem statKey_eq_false_iff {st : Site} :
    statKey e st d = false ↔ e.fault st ≠ none ∨ d.key = none := by
  unfold statKey
  rw [decide_eq_false_iff_not, not_and_or, Bool.not_eq_true, Option.isSome_eq_false_iff,
    Option.isNone_iff_eq_none]

theorem generatePrivateKey_cases (lib : Lib) (e : Env) (path : String) (d : Disk) :
    (∃ priv new, Generates lib e d priv new ∧
        generatePrivateKey lib e path d = ({ d with key := some new }, .ok priv)) ∨
      (∀ priv new, ¬ Generates lib e d priv new) ∧
        ∃ ts x, generatePrivateKey lib e path d = ({ d with temps := ts }, .error x) := by
  cases hmkdir : e.fault .mkdirKey with
  | some x =>
    exact .inr ⟨fun priv new h => Option.some_ne_none x (hmkdir.symm.trans h.mkdir), d.temps, x,
      by simp only [generatePrivateKey, hmkdir]⟩
  | none =>
    cases hstat : statKey e .statKeyAgain d with
    | true =>
      refine .inr ⟨fun priv new h => ?_, d.temps, _,
        by simp only [generatePrivateKey, hmkdir, hstat, if_true]; rfl⟩
      rw [statKey_eq_false_iff.mpr h.again] at hstat
      cases hstat
    | false =>
      have hagain := statKey_eq_false_iff.mp hstat
      cases hpriv : e.newKey with
      | error x =>
        exact .inr ⟨fun priv new h => (by cases hpriv.symm.trans h.key), d.temps, x,
          by simp only [generatePrivateKey, hmkdir, hstat, hpriv, Bool.false_eq_true, if_false]⟩
      | ok priv =>
        cases hder : lib.marshalPKCS8 priv with
        | error x =>
          refine .inr ⟨fun priv' new h => ?_, d.temps, x, by
            simp only [generatePrivateKey, hmkdir, hstat, hpriv, hder, Bool.false_eq_true,
              if_false]⟩
          cases hpriv.symm.trans h.key
          obtain ⟨der, h, -⟩ := h.marshal
          cases hder.symm.trans h
        | ok der =>
          rcases writeTemp_cases e .key (lib.pemEncode der) d with
            ⟨hw, hrun⟩ | ⟨hw, ts, x, hrun⟩
          · cases hrename : e.fault (.rename .key) with
            | some x =>
              obtain ⟨ts, hts⟩ := removeTemp_eq e .key
                { d with temps := lib.pemEncode der :: d.temps }
              refine .inr ⟨fun _ _ h => ?_, ts, x, ?_⟩
              · exact Option.some_ne_none x (hrename.symm.trans h.rename)
              · simp only [generatePrivateKey, hmkdir, hstat, hpriv, hder, hrun, hrename, hts,
                  Bool.false_eq_true, if_false]
            | none =>
              refine .inl ⟨priv, _, ⟨hmkdir, hagain, hpriv, ⟨der, hder, rfl⟩, hw, hrename⟩, ?_⟩
              simp only [generatePrivateKey, hmkdir, hstat, hpriv, hder, hrun, hrename,
                Bool.false_eq_true, if_false, List.head?_cons, List.tail_cons]
          · exact .inr ⟨fun priv' new h => hw h.writes, ts, x, by
              simp only [generatePrivateKey, hmkdir, hstat, hpriv, hder, hrun, Bool.false_eq_true,
                if_false]⟩

theorem loadConfig_ok_iff {cfg : Config} :
    loadConfig lib e d = .ok cfg ↔ (∃ dir, e.configDir = .ok dir) ∧ e.fault .readConfig = none ∧
      (d.config = none ∧ cfg = ⟨"", fun _ => none⟩ ∨
        ∃ b, d.config = some b ∧ lib.unmarshal b = .ok cfg) := by
  unfold loadConfig
  constructor
  · intro h
    split at h
    · cases h
    · rename_i dir hdir
      split at h
      · cases h
      · rename_i hread
        refine ⟨⟨dir, hdir⟩, hread, ?_⟩
        split at h
        · rename_i hnone; cases h; exact .inl ⟨hnone, rfl⟩
        · rename_i b hb
          refine .inr ⟨b, hb, ?_⟩
          cases hu : lib.unmarshal b with
          | error x => rw [hu] at h; cases h
          | ok c => rw [hu] at h; cases h; rfl
  · rintro ⟨⟨dir, hdir⟩, hread, ⟨hnone, rfl⟩ | ⟨b, hb, hu⟩⟩
    · simp only [hdir, hread, hnone]
    · simp only [hdir, hread, hb, hu, Except.mapError]

theorem confirm_ok_iff {fl : Flags} :
    confirm lib e fl = .ok () ↔ fl.yes = true ∨
      ∃ got, e.scanned = .ok got ∧ lib.toLower (GoString.trimSpace got) = GoString.utf8 "yes" := by
  unfold confirm
  constructor
  · intro h
    split at h
    · rename_i hyes; exact .inl hyes
    · split at h
      · cases h
      · rename_i got hgot
        split at h
        · rename_i hword; exact .inr ⟨got, hgot, hword⟩
        · cases h
  · rintro (hyes | ⟨got, hgot, hword⟩)
    · rw [if_pos hyes]
    · simp only [hgot, hword, if_true, ite_self]

/-- What `runAdopt` knows when it comes to the key. -/
def ready (addr : String) (fl : Flags) (dir : String) (cfg : Config) (wire : Bytes) : Ready :=
  ⟨fl.target addr, fl.contextName addr, cfg, wire, dir ++ "/operator.ed25519"⟩

theorem prepare_ok_iff {addr : String} {fl : Flags} {r : Ready} :
    prepare lib e addr fl d = .ok r ↔ ∃ dir cfg wire, Starts lib e addr fl d dir cfg wire ∧
      r = ready addr fl dir cfg wire := by
  unfold prepare
  constructor
  · intro h
    dsimp only at h
    split at h
    · cases h
    · rename_i htarget
      split at h
      · cases h
      · rename_i cfg hcfg
        obtain ⟨-, hread, hconfig⟩ := loadConfig_ok_iff.mp hcfg
        split at h
        · cases h
        · rename_i hfree
          split at h
          · cases h
          · rename_i wire hwire
            split at h
            · cases h
            · rename_i hconfirm
              split at h
              · cases h
              · rename_i dir hdir
                cases h
                exact ⟨dir, cfg, wire,
                  ⟨htarget, hdir, hread, hconfig, hfree, hwire, confirm_ok_iff.mp hconfirm⟩, rfl⟩
  · rintro ⟨dir, cfg, wire, h, rfl⟩
    have hcfg := loadConfig_ok_iff.mpr ⟨⟨dir, h.dir⟩, h.read, h.config⟩
    simp only [if_neg h.target, hcfg, h.free, h.wire, confirm_ok_iff.mpr h.confirmed, h.dir, ready]

theorem writePub_eq (e : Env) (pem : Bytes) (d : Disk) :
    ∃ pub, writePub e pem d = { d with pub := pub } := by
  unfold writePub
  split
  · exact ⟨d.pub, rfl⟩
  · exact ⟨_, rfl⟩
  · exact ⟨_, rfl⟩

theorem enroll_cases (lib : Lib) (e : Env) (r : Ready) (priv : Bytes) (d : Disk) :
    (¬ Fails lib e r priv ∧ ∃ d', enroll lib e r priv d = (d', .ok ())) ∨
      (Drops lib e r priv ∧ ∃ x, enroll lib e r priv d = ({ d with key := none }, .error x)) ∨
      (Fails lib e r priv ∧ ¬ Drops lib e r priv ∧
        ∃ pub ts x, enroll lib e r priv d = ({ d with pub := pub, temps := ts }, .error x)) := by
  cases hdial : e.dial with
  | some x =>
    refine .inr (.inr ⟨.inl (by simp [hdial]), fun h => ?_, d.pub, d.temps, _,
      by simp only [enroll, hdial]; rfl⟩)
    exact Option.some_ne_none x (hdial.symm.trans h.1)
  | none =>
    cases hadopt : e.adopt (lib.pub priv) r.contextName with
    | error x =>
      refine .inr (.inr ⟨.inr (.inl ⟨x, hadopt⟩), ?_, ?_⟩)
      · rintro ⟨-, -, resp, h, -⟩; cases hadopt.symm.trans h
      · obtain ⟨pub, hpub⟩ := writePub_eq e (lib.pubPEM (lib.pub priv)) d
        simp only [enroll, hdial, hadopt]
        split
        · exact ⟨pub, d.temps, _, by rw [hpub]⟩
        · exact ⟨d.pub, d.temps, _, rfl⟩
    | ok resp =>
      cases hfold : lib.equalFold r.wire resp.tlsFingerprintSha256 with
      | false =>
        have hfails : Fails lib e r priv := .inr (.inr ⟨resp, hadopt, .inl hfold⟩)
        by_cases hremove : e.fault .removeKey = none
        · refine .inr (.inl ⟨⟨hdial, hremove, resp, hadopt, hfold⟩, ?_⟩)
          simp only [enroll, hdial, hadopt, hfold, Bool.false_eq_true, if_false, if_pos hremove]
          exact ⟨_, rfl⟩
        · refine .inr (.inr ⟨hfails, fun h => hremove h.2.1, d.pub, d.temps, ?_⟩)
          simp only [enroll, hdial, hadopt, hfold, Bool.false_eq_true, if_false, if_neg hremove]
          exact ⟨_, rfl⟩
      | true =>
        rcases save_cases lib e (r.adopted resp) d with
          ⟨hsaves, b, hrun⟩ | ⟨hsaves, ts, x, hrun⟩
        · refine .inl ⟨?_, _, by simp only [enroll, hdial, hadopt, hfold, if_true, hrun]; rfl⟩
          rintro (h | ⟨x, h⟩ | ⟨resp', h, hnot⟩)
          · exact h hdial
          · cases hadopt.symm.trans h
          · cases hadopt.symm.trans h
            rcases hnot with hnot | hnot
            · cases hfold.symm.trans hnot
            · exact hnot hsaves
        · refine .inr (.inr ⟨.inr (.inr ⟨resp, hadopt, .inr hsaves⟩), ?_, d.pub, ts,
            x.ctx "save config", by simp only [enroll, hdial, hadopt, hfold, if_true, hrun]⟩)
          rintro ⟨-, -, resp', h, hnot⟩
          cases hadopt.symm.trans h
          cases hfold.symm.trans hnot

end Lemmas

/-! ## What a failed adopt loses -/

/-- The key is lost: it was read, and removed because the fingerprints differ; or `Stat` failed for
it, another one was written over it, and something failed after that. -/
def Loses (lib : Lib) (e : Env) (r : Ready) (d : Disk) (old : Bytes) : Prop :=
  (∃ priv, Reads lib e old priv ∧ Drops lib e r priv) ∨
    e.fault .statKey ≠ none ∧ ∃ priv new, Generates lib e d priv new ∧
      (Drops lib e r priv ∨ Fails lib e r priv ∧ new ≠ old)

/-- After an error the configuration is what it was, and so is a key that was there. -/
def Kept (d : Disk) (out : Disk × Except Err Unit) : Prop :=
  ∀ x, out.2 = .error x → out.1.config = d.config ∧ ∀ old, d.key = some old → out.1.key = some old

section Run

variable {lib : Lib} {e : Env} {d : Disk} {r : Ready} {old : Bytes}

theorem Drops.fails {priv : Bytes} (h : Drops lib e r priv) : Fails lib e r priv := by
  obtain ⟨-, -, resp, hadopt, hfold⟩ := h; exact .inr (.inr ⟨resp, hadopt, .inl hfold⟩)

theorem kept_enroll_iff (hkey : d.key = some old) (priv new : Bytes) :
    Kept d (enroll lib e r priv { d with key := some new }) ↔
      ¬ (Drops lib e r priv ∨ Fails lib e r priv ∧ new ≠ old) := by
  rcases enroll_cases lib e r priv { d with key := some new } with
    ⟨hfails, d', hrun⟩ | ⟨hdrops, x, hrun⟩ | ⟨hfails, hdrops, pub, ts, x, hrun⟩
  · rw [hrun]
    refine iff_of_true (fun x h => by cases h) ?_
    rintro (h | ⟨h, -⟩)
    · exact hfails h.fails
    · exact hfails h
  · rw [hrun]
    refine iff_of_false (fun h => ?_) (fun h => h (.inl hdrops))
    cases (h x rfl).2 old hkey
  · rw [hrun]
    constructor
    · rintro h (hd | ⟨-, hne⟩)
      · exact hdrops hd
      · exact hne (Option.some.inj ((h x rfl).2 old hkey))
    · intro h y _
      refine ⟨rfl, fun old' hold => ?_⟩
      by_contra hne
      refine h (.inr ⟨hfails, fun heq => hne ?_⟩)
      rw [← hold, hkey, heq]

theorem kept_error (ts : List Bytes) (x : Err) : Kept d ({ d with temps := ts }, .error x) :=
  fun _ _ => ⟨rfl, fun _ hold => hold⟩

variable {d' : Disk} {addr : String} {fl : Flags}

theorem runAdopt_of_key {priv : Bytes} (hprep : prepare lib e addr fl d = .ok r)
    (hop : operatorKey lib e r.keyPath d = (d', .ok priv)) :
    runAdopt lib e addr fl d = enroll lib e r priv d' := by
  simp only [runAdopt, hprep, hop]

theorem runAdopt_of_no_key {x : Err} (hprep : prepare lib e addr fl d = .ok r)
    (hop : operatorKey lib e r.keyPath d = (d', .error x)) :
    runAdopt lib e addr fl d = (d', .error x) := by
  simp only [runAdopt, hprep, hop]

theorem operatorKey_generates (lib : Lib) (h : e.fault .statKey ≠ none ∨ d.key = none)
    (path : String) :
    operatorKey lib e path d = generatePrivateKey lib e path d := by
  rw [operatorKey, statKey_eq_false_iff.mpr h, if_neg Bool.false_ne_true]

theorem kept_run_no_key (hkey : d.key = none) (hprep : prepare lib e addr fl d = .ok r) :
    Kept d (runAdopt lib e addr fl d) := by
  have hop := operatorKey_generates (e := e) lib (.inr hkey) r.keyPath
  rcases generatePrivateKey_cases lib e r.keyPath d with
    ⟨priv, new, -, hgen⟩ | ⟨-, ts, x, hgen⟩
  · rw [runAdopt_of_key hprep (hop.trans hgen)]
    intro x hx
    refine ⟨?_, fun old hold => by cases hkey.symm.trans hold⟩
    rcases enroll_cases lib e r priv { d with key := some new } with
      ⟨-, d', henroll⟩ | ⟨-, y, henroll⟩ | ⟨-, -, pub, ts, y, henroll⟩
    · rw [henroll] at hx; cases hx
    · rw [henroll]
    · rw [henroll]
  · rw [runAdopt_of_no_key hprep (hop.trans hgen)]; exact kept_error ts x

theorem kept_run_read_iff (hkey : d.key = some old) (hstat : e.fault .statKey = none)
    (hprep : prepare lib e addr fl d = .ok r) :
    Kept d (runAdopt lib e addr fl d) ↔ ¬ ∃ priv, Reads lib e old priv ∧ Drops lib e r priv := by
  have hsame : d = { d with key := some old } := by
    rw [← hkey]
  have hop : operatorKey lib e r.keyPath d = (d, loadPrivateKey lib e r.keyPath d) := by
    rw [operatorKey, if_pos]; simp [statKey, hstat, hkey]
  have hreads : ∀ priv, Reads lib e old priv ↔ loadPrivateKey lib e r.keyPath d = .ok priv := by
    intro priv
    rw [loadPrivateKey_ok_iff hkey]
    exact ⟨fun h => ⟨h.read, h.parse⟩, fun h => ⟨hstat, h.1, h.2⟩⟩
  simp only [hreads]
  cases hload : loadPrivateKey lib e r.keyPath d with
  | error x =>
    rw [hload] at hop
    rw [runAdopt_of_no_key hprep hop]
    refine iff_of_true (kept_error d.temps x) ?_
    rintro ⟨priv, h, -⟩
    cases h
  | ok priv =>
    rw [hload] at hop
    have henroll : Kept d (enroll lib e r priv { d with key := some old }) ↔ _ :=
      kept_enroll_iff hkey priv old
    rw [← hsame] at henroll
    rw [runAdopt_of_key hprep hop]
    refine henroll.trans (not_congr ⟨?_, ?_⟩)
    · rintro (h | ⟨-, h⟩)
      · exact ⟨priv, rfl, h⟩
      · exact absurd rfl h
    · rintro ⟨priv', h, hdrops⟩; cases h; exact .inl hdrops

theorem kept_run_generated_iff (hkey : d.key = some old) (hstat : e.fault .statKey ≠ none)
    (hprep : prepare lib e addr fl d = .ok r) :
    Kept d (runAdopt lib e addr fl d) ↔ ¬ ∃ priv new, Generates lib e d priv new ∧
      (Drops lib e r priv ∨ Fails lib e r priv ∧ new ≠ old) := by
  have hop := operatorKey_generates (d := d) lib (.inl hstat) r.keyPath
  rcases generatePrivateKey_cases lib e r.keyPath d with
    ⟨priv, new, hgen, hrun⟩ | ⟨hnot, ts, x, hrun⟩
  · rw [runAdopt_of_key hprep (hop.trans hrun), kept_enroll_iff hkey]
    refine not_congr ⟨fun h => ⟨priv, new, hgen, h⟩, ?_⟩
    rintro ⟨priv', new', hgen', h⟩
    -- the new key is the one that was drawn
    cases hgen.key.symm.trans hgen'.key
    obtain ⟨der, hder, rfl⟩ := hgen.marshal
    obtain ⟨der', hder', rfl⟩ := hgen'.marshal
    cases hder.symm.trans hder'
    exact h
  · rw [runAdopt_of_no_key hprep (hop.trans hrun)]
    refine iff_of_true (kept_error ts x) ?_
    rintro ⟨priv, new, hgen, -⟩
    exact hnot priv new hgen

theorem kept_run_iff (hkey : d.key = some old) (hprep : prepare lib e addr fl d = .ok r) :
    Kept d (runAdopt lib e addr fl d) ↔ ¬ Loses lib e r d old := by
  unfold Loses
  by_cases hstat : e.fault .statKey = none
  · refine (kept_run_read_iff hkey hstat hprep).trans (not_congr ⟨.inl, ?_⟩)
    rintro (h | ⟨h, -⟩)
    · exact h
    · exact absurd hstat h
  · refine (kept_run_generated_iff hkey hstat hprep).trans
      (not_congr ⟨fun h => .inr ⟨hstat, h⟩, ?_⟩)
    rintro (⟨priv, hreads, -⟩ | ⟨-, h⟩)
    · exact absurd hreads.stat hstat
    · exact h

end Run

/-- A failed `adopt` loses nothing, except where the fingerprints differ and a key that was there is
removed, and where a key was there that `Stat` did not find. -/
theorem adopt_loses_nothing_iff (lib : Lib) (e : Env) (addr : String) (fl : Flags) (d : Disk) :
    (∀ x, (runAdopt lib e addr fl d).2 = .error x →
        (runAdopt lib e addr fl d).1.config = d.config ∧
        ∀ old, d.key = some old → (runAdopt lib e addr fl d).1.key = some old) ↔
      ¬ ∃ old dir cfg wire, d.key = some old ∧ Starts lib e addr fl d dir cfg wire ∧
        Loses lib e (ready addr fl dir cfg wire) d old := by
  cases hprep : prepare lib e addr fl d with
  | error x =>
    have hrun : runAdopt lib e addr fl d = (d, .error x) := by
      simp only [runAdopt, hprep]
    rw [hrun]
    refine iff_of_true (kept_error d.temps x) ?_
    rintro ⟨old, dir, cfg, wire, -, hstarts, -⟩
    cases hprep.symm.trans (prepare_ok_iff.mpr ⟨dir, cfg, wire, hstarts, rfl⟩)
  | ok r =>
    obtain hkey | ⟨old, hkey⟩ := Option.eq_none_or_eq_some d.key
    · refine iff_of_true (kept_run_no_key hkey hprep) ?_
      rintro ⟨old, dir, cfg, wire, h, -⟩
      cases hkey.symm.trans h
    · refine (kept_run_iff hkey hprep).trans (not_congr ⟨?_, ?_⟩)
      · intro h
        obtain ⟨dir, cfg, wire, hstarts, rfl⟩ := prepare_ok_iff.mp hprep
        exact ⟨old, dir, cfg, wire, hkey, hstarts, h⟩
      · rintro ⟨old', dir, cfg, wire, hold, hstarts, h⟩
        cases hkey.symm.trans hold
        cases hprep.symm.trans (prepare_ok_iff.mpr ⟨dir, cfg, wire, hstarts, rfl⟩)
        exact h

/-- Keys are stored as they are, and the configuration has the context `lab1` with the key of the
operator. -/
def oneContext : Lib where
  unmarshal := fun _ => .ok ⟨"lab1", fun n =>
    if n = "lab1" then some ⟨"10.0.0.1:7443", "c1", "aa", "/etc/capsule/operator.ed25519"⟩
    else none⟩
  marshal := fun _ => .ok []
  pemDecode := some
  pemEncode := id
  parsePKCS8 := fun b => .ok (some b)
  marshalPKCS8 := .ok
  pub := id
  pubPEM := id
  equalFold := GoString.equalFold
  toLower := List.map GoString.lower

/-- Nothing fails, and the capsule says that its fingerprint is `b`, where it is `a`. -/
def otherFingerprint : Env where
  configDir := .ok "/etc/capsule"
  fault := fun _ => none
  captured := .ok [97]
  scanned := .ok (GoString.utf8 "yes")
  newKey := .ok [1]
  dial := none
  adopt := fun _ _ => .ok ⟨"c2", "kid", [98]⟩

/-- The key that `lab1` needs is removed. -/
theorem adopt_removes_shared_key :
    (runAdopt oneContext otherFingerprint "10.0.0.2:7443" {} ⟨some [0], some [7], none, []⟩).2 =
        .error (.text
          "tls fingerprint mismatch: wire=a response=b — refusing to save context") ∧
      (runAdopt oneContext otherFingerprint "10.0.0.2:7443" {}
        ⟨some [0], some [7], none, []⟩).1.key = none := by
  decide +kernel

end Capsule.Cli.Adopt
