import OwlzopsMapper.Scoring.Isolation
import OwlzopsMapper.Fleet.Run
import OwlzopsMapper.Fleet.Resume
import OwlzopsMapper.Fleet.Snapshots
import OwlzopsMapper.Compare.Change
import OwlzopsMapper.Compare.Reordered
import OwlzopsMapper.Compare.Block
import OwlzopsMapper.Compare.Host
import OwlzopsMapper.Compare.Network
import OwlzopsMapper.Compare.Containers
import OwlzopsMapper.Compare.Security
import OwlzopsMapper.Compare.Accounts
import OwlzopsMapper.Compare.Persistence
import OwlzopsMapper.Compare.Report
import OwlzopsMapper.Compare.Coverage
import OwlzopsMapper.Compare.Multi
import OwlzopsMapper.Compare.Compromise
import OwlzopsMapper.Rust.Lines
import OwlzopsMapper.Scanners.GhostPid
import OwlzopsMapper.Lib.Interchange
import OwlzopsMapper.Scanners.KernelModules
import OwlzopsMapper.Scoring.Reproducible
import OwlzopsMapper.Scoring.Surroundings
import OwlzopsMapper.Ssh.Staging
import OwlzopsMapper.Ssh.Teardown
import OwlzopsMapper.Scanners.Provenance
import OwlzopsMapper.SafeIo
import OwlzopsMapper.Scanners.Pam
import OwlzopsMapper.Rust.Ip
import OwlzopsMapper.Scanners.ProcNet
import OwlzopsMapper.Arithmetic
import OwlzopsMapper.Scoring.Conventions
import OwlzopsMapper.Scanners.PublishedPorts
import OwlzopsMapper.Scanners.Passwd
import OwlzopsMapper.Libc.Glob
import OwlzopsMapper.Scanners.ExecProvenance
import OwlzopsMapper.Scanners.LdSoConf
import OwlzopsMapper.Scanners.Ldconfig
import OwlzopsMapper.Scanners.PamScan
import OwlzopsMapper.Scanners.SameFile
import OwlzopsMapper.ChildRegistry
import OwlzopsMapper.KnownHosts
import OwlzopsMapper.Compare.Hardening
import OwlzopsMapper.Signing
import OwlzopsMapper.SshConfig
import OwlzopsMapper.Scanners.AuthorizedKeys
import OwlzopsMapper.Scanners.Sudoers
import OwlzopsMapper.ExecTrust
import OwlzopsMapper.Fleet.Admission
import OwlzopsMapper.Scanners.SudoersWalk
import OwlzopsMapper.Scanners.SystemdHardening
import OwlzopsMapper.Scanners.MemoryMaps
import OwlzopsMapper.Scanners.DeepMemory
import OwlzopsMapper.VerdictCache
import OwlzopsMapper.Lib.FirstWins
import OwlzopsMapper.Scanners.LibraryInjection
import OwlzopsMapper.Scanners.LibraryScan
import OwlzopsMapper.Scanners.DeepDemotion
import OwlzopsMapper.Scanners.CachedVerdicts
import OwlzopsMapper.Rust.Hex
import OwlzopsMapper.Scanners.Capabilities
import OwlzopsMapper.Scanners.SocketTables
import OwlzopsMapper.Lib.Interleaving
import OwlzopsMapper.Scanners.ReverseShell
import OwlzopsMapper.Lib.CappedBuffer
import OwlzopsMapper.Rust.Utf8
import OwlzopsMapper.Sanitize
import OwlzopsMapper.Ssh.RemoteScan
import OwlzopsMapper.Ssh.HostPort
import OwlzopsMapper.Scanners.ScanBounds
import OwlzopsMapper.Lib.Words
import OwlzopsMapper.Rust.Decimal
import OwlzopsMapper.Scanners.ProcTime
import OwlzopsMapper.Scanners.Ftrace
import OwlzopsMapper.Scanners.FileCapabilities
import OwlzopsMapper.Lib.Allowance
import OwlzopsMapper.Scanners.FsInventory
import OwlzopsMapper.Rust.Words
import OwlzopsMapper.Scanners.Preload
import OwlzopsMapper.Exporters.SheetNames
import OwlzopsMapper.Scanners.ListeningPorts
import OwlzopsMapper.Lib.Climb
import OwlzopsMapper.Snapshot
import OwlzopsMapper.Compare.Appearance
import OwlzopsMapper.Compare.Privileges
import OwlzopsMapper.Scanners.AccountHygiene
import OwlzopsMapper.Scanners.RootOnly
import OwlzopsMapper.Lib.Pieces
import OwlzopsMapper.Scanners.SudoersDefaults
import OwlzopsMapper.Scanners.SudoersLines
import OwlzopsMapper.Scanners.SshdFallback
import OwlzopsMapper.Lib.Escape
import OwlzopsMapper.Scanners.Mounts
import OwlzopsMapper.KnownHosts.Verify
import OwlzopsMapper.KnownHosts.Pin
import OwlzopsMapper.Lib.SealedLog
import OwlzopsMapper.CoverageSink
import OwlzopsMapper.Lib.Retry
import OwlzopsMapper.Fleet.RemoteHost
import OwlzopsMapper.KnownHosts.Offer
import OwlzopsMapper.Ssh.Probe
import OwlzopsMapper.Secrets
import OwlzopsMapper.Lib.NamedRecords
import OwlzopsMapper.Scanners.Dlp
import OwlzopsMapper.Scanners.MountNamespace
import OwlzopsMapper.Lib.Groups
import OwlzopsMapper.Runner.Attribution
import OwlzopsMapper.Scanners.Ebpf
import OwlzopsMapper.Scanners.CapabilityAudit
import OwlzopsMapper.Signing.Envelope
import OwlzopsMapper.Scanners.SudoersTokens
import OwlzopsMapper.Scanners.SudoersLayout
import OwlzopsMapper.Runner.LocalScan
