import Capsule.Store.Types

/-!
# Capsule.Workloads.Argv

The command line of a workload: the options that the container driver builds the process from, and
`buildOCIPayload` of the firecracker driver. Both start from the `Entrypoint` and `Cmd` of the image
and let `command` and `args` of the spec override them. `kubernetesArgv` is the rule they are to
follow.

* `containerArgv_eq_iff`, `buildOCIPayload_argv_iff`: when each of them follows it.
* `commandLines_agree_iff`: both do, unless `args` alone meet an image with an entrypoint or
  `command` alone one with a `Cmd`.
-/

namespace Capsule.Workloads.Argv

/-- The `config` object of an image's configuration. -/
structure ImageConfig where
  cmd : List String
  entrypoint : List String
  env : List String
  workingDir : String

/-- `ContainerSpec`, the fields the command line is made of. -/
structure ContainerSpec where
  command : List String
  args : List String

def processArgs (spec : ContainerSpec) : List String :=
  if spec.command ≠ [] then spec.command ++ spec.args else spec.args

/-- The `oci.SpecOpts` that set the arguments of the process. -/
inductive SpecOpt where
  | withImageConfig (cfg : ImageConfig)
  | withProcessArgs (args : List String)

def SpecOpt.apply (_ : List String) : SpecOpt → List String
  | .withImageConfig cfg => cfg.entrypoint ++ cfg.cmd
  | .withProcessArgs args => args

/-- The options of `EnsureRunning`; those after them leave the arguments alone. -/
def specOpts (image : ImageConfig) (spec : ContainerSpec) : List SpecOpt :=
  [.withImageConfig image] ++
    if 0 < (processArgs spec).length then [.withProcessArgs (processArgs spec)] else []

/-- The arguments of the process that containerd creates. -/
def containerArgv (image : ImageConfig) (spec : ContainerSpec) : List String :=
  (specOpts image spec).foldl SpecOpt.apply []

/-- `MicroVMSpec`, the fields the payload is made of; `env` in the order in which Go goes through
the map. -/
structure MicroVMSpec where
  command : List String
  args : List String
  env : List (String × String)

structure OCIPayload where
  command : List String
  env : List String
  cwd : String

/-- An image in containerd's content store, as its configuration is read: the descriptor, the blob
and the JSON in it. -/
structure Image where
  name : String
  config : Except Err String
  readContent : String → Except Err Bytes
  unmarshal : Bytes → Except Err ImageConfig

def Image.readConfig (img : Image) : Except Err ImageConfig := do
  let cfgDesc ← img.config.mapError (Err.ctx "image config descriptor")
  let raw ← img.readContent cfgDesc
  (img.unmarshal raw).mapError (Err.ctx "parse image config")

def buildOCIPayload (img : Image) (spec : MicroVMSpec) : Except Err OCIPayload := do
  let cfg ← img.readConfig
  let entrypoint := if spec.command ≠ [] then spec.command else cfg.entrypoint
  let cmd := if spec.args ≠ [] then spec.args else cfg.cmd
  let argv := entrypoint ++ cmd
  if argv = [] then .error (.text ("image " ++ img.name ++ " has no entrypoint or cmd"))
  else .ok ⟨argv, cfg.env ++ spec.env.map (fun kv => kv.1 ++ "=" ++ kv.2), cfg.workingDir⟩

/-- `Command` stands for the image's `Entrypoint` and `Args` for its `Cmd`, which an own `Command`
drops. -/
def kubernetesArgv (image : ImageConfig) (command args : List String) : List String :=
  (if command ≠ [] then command else image.entrypoint) ++
    if args ≠ [] then args else if command = [] then image.cmd else []

theorem containerArgv_eq (image : ImageConfig) (spec : ContainerSpec) :
    containerArgv image spec =
      if processArgs spec = [] then image.entrypoint ++ image.cmd else processArgs spec := by
  unfold containerArgv specOpts
  by_cases h : processArgs spec = []
  · simp [h, SpecOpt.apply]
  · simp [h, List.length_pos_iff, SpecOpt.apply]

theorem containerArgv_eq_iff (image : ImageConfig) (command args : List String) :
    containerArgv image ⟨command, args⟩ = kubernetesArgv image command args ↔
      ¬ (command = [] ∧ args ≠ [] ∧ image.entrypoint ≠ []) := by
  rw [containerArgv_eq]
  cases command with
  | nil => cases args <;> simp [processArgs, kubernetesArgv]
  | cons c command => cases args <;> simp [processArgs, kubernetesArgv]

theorem buildOCIPayload_ok {img : Image} {cfg : ImageConfig} (hcfg : img.readConfig = .ok cfg)
    (spec : MicroVMSpec) {argv : List String}
    (hargv : argv = (if spec.command ≠ [] then spec.command else cfg.entrypoint) ++
      if spec.args ≠ [] then spec.args else cfg.cmd) :
    (∀ p, buildOCIPayload img spec = .ok p → p.command = argv) ∧
      (argv ≠ [] → ∃ p, buildOCIPayload img spec = .ok p) := by
  subst hargv
  simp only [buildOCIPayload, hcfg, bind, Except.bind]
  constructor
  · intro p h
    rw [ite_eq_iff] at h
    obtain ⟨-, h⟩ | ⟨-, h⟩ := h
    · cases h
    · cases h; rfl
  · intro hne; exact ⟨_, if_neg hne⟩

theorem buildOCIPayload_argv_iff {img : Image} {cfg : ImageConfig} (hcfg : img.readConfig = .ok cfg)
    (command args : List String) (env : List (String × String)) :
    (∀ p, buildOCIPayload img ⟨command, args, env⟩ = .ok p →
      p.command = kubernetesArgv cfg command args) ↔
      ¬ (command ≠ [] ∧ args = [] ∧ cfg.cmd ≠ []) := by
  obtain ⟨hsome, hmust⟩ := buildOCIPayload_ok hcfg ⟨command, args, env⟩ rfl
  constructor
  · rintro hall ⟨hcommand, rfl, hcmd⟩
    obtain ⟨p, hp⟩ := hmust (by simp [hcommand])
    have heq := (hsome p hp).symm.trans (hall p hp)
    simp [kubernetesArgv, hcommand, hcmd] at heq
  · intro hnot p hp
    rw [hsome p hp]
    cases command with
    | nil => cases args <;> simp [kubernetesArgv]
    | cons c command =>
      cases args with
      | nil => simpa [kubernetesArgv] using hnot
      | cons a args => simp [kubernetesArgv]

/-- Both command lines are those of the rule, unless `args` alone meet an image with an entrypoint
or `command` alone one with a `Cmd`. -/
theorem commandLines_agree_iff {img : Image} {cfg : ImageConfig} (hcfg : img.readConfig = .ok cfg)
    (command args : List String) (env : List (String × String)) :
    (containerArgv cfg ⟨command, args⟩ = kubernetesArgv cfg command args ∧
      ∀ p, buildOCIPayload img ⟨command, args, env⟩ = .ok p →
        p.command = kubernetesArgv cfg command args) ↔
      ¬ (command = [] ∧ args ≠ [] ∧ cfg.entrypoint ≠ []) ∧
        ¬ (command ≠ [] ∧ args = [] ∧ cfg.cmd ≠ []) :=
  and_congr (containerArgv_eq_iff cfg command args) (buildOCIPayload_argv_iff hcfg command args env)

/-- An image whose configuration is read without an error. -/
def Image.holding (cfg : ImageConfig) : Image where
  name := "docker.io/library/redis:7"
  config := .ok "sha256:0"
  readContent _ := .ok []
  unmarshal _ := .ok cfg

def redis : ImageConfig := ⟨["redis-server"], ["docker-entrypoint.sh"], [], "/data"⟩

/-- `command` and `args` both given. -/
theorem commandLines_agree_given :
    containerArgv redis ⟨["redis-server"], ["--port", "7000"]⟩ =
        kubernetesArgv redis ["redis-server"] ["--port", "7000"] ∧
      ∀ p, buildOCIPayload (.holding redis) ⟨["redis-server"], ["--port", "7000"], []⟩ = .ok p →
        p.command = kubernetesArgv redis ["redis-server"] ["--port", "7000"] :=
  (commandLines_agree_iff rfl _ _ _).mpr (by decide)

/-- A container with `args` alone runs them without the entrypoint, and a microVM with `command`
alone passes it the image's `Cmd`. -/
theorem commandLines_differ :
    (¬ ∀ (image : ImageConfig) (command args : List String),
      containerArgv image ⟨command, args⟩ = kubernetesArgv image command args) ∧
    ¬ ∀ (image : ImageConfig) (command args : List String) (p : OCIPayload),
      buildOCIPayload (.holding image) ⟨command, args, []⟩ = .ok p →
        p.command = kubernetesArgv image command args := by
  constructor
  · intro hall
    exact absurd (hall redis [] ["redis-server", "--port", "7000"]) (by decide)
  · intro hall
    have hcfg : (Image.holding redis).readConfig = .ok redis := rfl
    exact (buildOCIPayload_argv_iff hcfg ["redis-cli"] [] []).mp (hall redis _ _) (by decide)

end Capsule.Workloads.Argv
