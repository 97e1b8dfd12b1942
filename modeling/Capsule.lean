import Capsule.Store.Schema
import Capsule.Update.ConfirmRace
import Capsule.Update.Tentative
import Capsule.Update.Versions
import Capsule.Update.Pushes
import Capsule.Update.Rollback
import Capsule.Update.Producer
import Capsule.Update.Rejected
import Capsule.Auth.Replay
import Capsule.Auth.Certificate
import Capsule.Auth.Mint
import Capsule.Identity.Revocation
import Capsule.Identity.Failures
import Capsule.Identity.Serve
import Capsule.Install.CopyPartition
import Capsule.Boot.InstallerMode
import Capsule.Boot.Perm
import Capsule.Workloads.DeletedRow
import Capsule.Workloads.DesiredState
import Capsule.Workloads.OneInstance
import Capsule.Workloads.Wake
import Capsule.Workloads.Tick
import Capsule.Workloads.DeleteFinal
import Capsule.Cp.RoundTrip
import Capsule.Workloads.Rootfs
import Capsule.Workloads.Argv
import Capsule.Workloads.CniPaired
import Capsule.Workloads.Restart
import Capsule.Workloads.Upload
import Capsule.Workloads.SeekTail
import Capsule.Workloads.Adapters
import Capsule.Workloads.LogsFollow
import Capsule.Guest.Grace
import Capsule.Guest.ExecLock
import Capsule.Guest.Follow
import Capsule.Guest.ExecOutput
import Capsule.Volumes.Maintenance
import Capsule.Volumes.Stranded
import Capsule.Volumes.Drives
import Capsule.Volumes.Apply
import Capsule.Cli.Flags
import Capsule.Cli.Adopt
import Capsule.Supervise
import Capsule.Auth.Fingerprint
import Capsule.Workloads.Environment
import Capsule.Workloads.PrefixedWriter
import Capsule.Mdns
