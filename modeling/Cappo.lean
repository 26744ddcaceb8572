import Cappo.CapabilityMount.Correctness.Attenuation
import Cappo.CapabilityMount.Correctness.Correspondence
import Cappo.CapabilityMount.Correctness.Finality
import Cappo.CapabilityMount.Correctness.Reconciling
import Cappo.CapabilityMount.Correctness.RecordIds
import Cappo.CapabilityMount.Correctness.Refusals
import Cappo.CapabilityMount.Correctness.StartClaims
import Cappo.Execution.Correctness.Revocations
import Cappo.Execution.SandboxFile
import Cappo.Gateway.Correctness
import Cappo.Governance.Correctness.Policies
import Cappo.Identity.Correctness
import Cappo.InboundTruth.Correctness
import Cappo.Ledger.Correctness.AuditRecords
import Cappo.Ledger.Correctness.Tampering
import Cappo.Merkle.Proofs
import Cappo.P5.Correctness.Proofs
import Cappo.Payment.Correctness
import Cappo.Providers.Correctness.Breaker
import Cappo.Providers.Correctness.Failover
import Cappo.Providers.Correctness.Freshness
import Cappo.Refinery.Outbox
import Cappo.VdbC1.Correctness.Envelopes
import Cappo.VdbC1.Correctness.ExactlyOnce
import Cappo.VdbC1.Correctness.FinalHistory
import Cappo.VdbC1.Correctness.Rejections
import Cappo.VdbC1.Correctness.TornTail
import Cappo.VdbC1.Correctness.Uniqueness
import Cappo.VdbC1.Correctness.WitnessedExport
