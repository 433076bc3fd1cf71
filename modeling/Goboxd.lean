import Goboxd.Cmd.Main
import Goboxd.Api.Playground
import Goboxd.Proofs.NoLostWakeup
import Goboxd.Proofs.UidExclusive
import Goboxd.Proofs.ShutdownSweep
import Goboxd.Proofs.FileNames
import Goboxd.Proofs.OutputVerdict
import Goboxd.Proofs.PipeWedge
import Goboxd.Proofs.OomDetection
import Goboxd.Proofs.CpuAuthority
import Goboxd.Proofs.RunResults
import Goboxd.Proofs.ResponseTests
import Goboxd.Proofs.ResponseStatus
import Goboxd.Proofs.AcceptedTests
import Goboxd.Proofs.AdmissionSafety
import Goboxd.Proofs.InfraClassified
import Goboxd.Proofs.RunFaults
import Goboxd.Proofs.ClientGone
import Goboxd.Proofs.ClientBytes
import Goboxd.Proofs.FlagAllowlists
import Goboxd.Proofs.PlaygroundPath
import Goboxd.Proofs.UidBudget
import Goboxd.Proofs.ParallelRefines
import Goboxd.Proofs.InfoLimits
import Goboxd.Proofs.SeccompAdditive
import Goboxd.Proofs.CpuVerdict
import Goboxd.Proofs.SignalVerdict
import Goboxd.Proofs.TenantIndependence
import Goboxd.Proofs.OomAttribution
import Goboxd.Proofs.RateBound
import Goboxd.Proofs.RateClients
import Goboxd.Proofs.MetricsSnapshots
import Goboxd.Proofs.RunsCounted
import Goboxd.Proofs.LastError
import Goboxd.Proofs.TestIsolation
import Goboxd.Proofs.SeedTemplate
import Goboxd.Proofs.SeedConfined
import Goboxd.Proofs.RegistryReload
import Goboxd.Proofs.LoadUsable
import Goboxd.Proofs.PolicyText
import Goboxd.Proofs.PoolRuns
import Goboxd.Proofs.PathGuards
import Goboxd.Buildinfo
import Goboxd.Proofs.VersionOrder
import Goboxd.Proofs.ProbeHandshake
import Goboxd.Proofs.SharedFiles
import Goboxd.Proofs.ReadyzFresh
import Goboxd.Proofs.ServiceDrains
import Goboxd.Proofs.AccessLog
