import O2Fabric.Core.Reduce.Reading
import O2Fabric.Core.Job.Submit.Recovered
import O2Fabric.Core.Quorum.Composed
import O2Fabric.Core.Placement.Room
import O2Fabric.Net.Agent.Slots
import O2Fabric.Net.Agent.Custody
import O2Fabric.Net.Agent.Disclosure
import O2Fabric.Net.Agent.Unrevealed
import O2Fabric.Net.Agent.Combining
import O2Fabric.Net.ReduceSovereign.Verified
import O2Fabric.Net.ReduceJob.Receipt
import O2Fabric.Net.Rpc.Correlation
import O2Fabric.Net.ReduceJob.Residency
import O2Fabric.Core.Executor.Safety
import O2Fabric.Libp2p.SendGate.Events
import O2Fabric.Libp2p.Inbound
import O2Fabric.Net.Discovery
import O2Fabric.Libp2p.PeerVerifier.Sound
import O2Fabric.Libp2p.DhtProviderAnnouncer
import O2Fabric.Cloudflare.HostedEnrolment.ReservedLane
import O2Fabric.Cloudflare.HostedIdentity
import O2Fabric.Node.IdentityStore.MintedOnce
import O2Fabric.Browser.IdbIdentityStore
import O2Fabric.Node.SovereignCids
import O2Fabric.Core.SignedNameResolver.Authority
import O2Fabric.Cloudflare.BankFunnel.CountedOnce
import O2Fabric.Cloudflare.RelayBanking
import O2Fabric.Core.EnrollmentAuthority.SingleUse
import O2Fabric.Core.EnrollmentAuthority.OneOperator
import O2Fabric.Core.X509.SignedRegion
import O2Fabric.Core.X509.Distinguished
import O2Fabric.Core.X509.Exhausted
import O2Fabric.Core.EnrollmentAuthority.IssuedVerifies
import O2Fabric.Net.Agent.NamedRefusal
import O2Fabric.Core.Discovery.Accounted
import O2Fabric.Core.SignedStatements
import O2Fabric.Core.Placement.Exhaustive
import O2Fabric.Net.Block.Collapse
import O2Fabric.Net.Protocol.Commitments
import O2Fabric.Core.Discovery.ExtensionOrder
import O2Fabric.Core.Job.Submit.Reported
import O2Fabric.Core.Job.Submit.Distinct
import O2Fabric.Core.Naming.FileForm
import O2Fabric.Core.StartOutcome.Report
import O2Fabric.Aot.WasiExecutor
import O2Fabric.Libp2p.DhtRecordSweep
import O2Fabric.Aot.Elf.Exact
import O2Fabric.Demo.Pi
import O2Fabric.Demo.Primes.Exact
import O2Fabric.Demo.Colouring
import O2Fabric.Libp2p.CertificateRenewal
import O2Fabric.Browser.IdbIssuance
import O2Fabric.Browser.KillSwitch
import O2Fabric.Browser.DialPlan
import O2Fabric.Node.FsBlockstore
import O2Fabric.Cloudflare.DoDatastore
import O2Fabric.Libp2p.DhtRecordIndex
