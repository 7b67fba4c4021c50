import XChainHub.Consensus.Pbft.Agreement
import XChainHub.CrossChain.Dex.Limits
import XChainHub.Anchor.CheckpointEngine.OnePayload
import XChainHub.Anchor.Publisher.AttestRound
import XChainHub.Anchor.Publisher.AtMostOnce
import XChainHub.Attestation.BatchPublisher.AtMostOnce
import XChainHub.Attestation.Publisher.OkEntries
import XChainHub.CrossChain.Bridge.NeverBack
import XChainHub.CrossChain.Bridge.CoSign
import XChainHub.Governance.Agreement
import XChainHub.Oracle.PriceAggregator.LandingClock
import XChainHub.Oracle.PriceAggregator.Fenced
import XChainHub.Attestation.ResponseMirror.Converge
import XChainHub.Attestation.Round.ResponsibleSet
import XChainHub.Attestation.ResponseMirror.Covered
import XChainHub.Anchor.Publisher.ArchiveSeq
import XChainHub.CrossChain.ListShare.Folds
import XChainHub.CrossChain.Attest.Backed
import XChainHub.Consensus.FullNodeChallengeRound.Equivocation
import XChainHub.CrossChain.Call.NeverBack
import XChainHub.Validators.ProviderRegistry.FunctionOfBlock
import XChainHub.CrossChain.RelayRows.Verifies
import XChainHub.CrossChain.Snapshots.InFlight
import XChainHub.Consensus.Pbft.ViewChanges
import XChainHub.CrossChain.Pbft.Evidence
import XChainHub.CrossChain.Pbft.CommitLock
import XChainHub.Peers.Gossip.Replays
import XChainHub.Providers.EffectorSpend.Survives
import XChainHub.Anchor.Publisher.AttestSlot
import XChainHub.Anchor.AnchorProofBinding
import XChainHub.Anchor.RewardTracker.OneRow
import XChainHub.Oracle.Consensus.Aligned
import XChainHub.Oracle.Consensus.Binds
import XChainHub.Attestation.Relay.Compaction
import XChainHub.Anchor.ReorgHandler.OncePerReorg
import XChainHub.Anchor.Publisher.RewardJournal.Mirrored
import XChainHub.Anchor.Publisher.ArchiveTrim
import XChainHub.Anchor.Publisher.FoldSizing
import XChainHub.Oracle.Publisher.PublishPass
import XChainHub.Oracle.Publisher.Reconcile
import XChainHub.Oracle.Publisher.Wire
import XChainHub.Validators.SlashDetector
import XChainHub.Consensus.Retraction.NeverLost
import XChainHub.CrossChain.Bridge.NoDeficit
import XChainHub.Peers.HubDb.Margins
import XChainHub.Validators.StakeShare.Margin
import XChainHub.Lib.AdmissionHeight
import XChainHub.Oracle.Consensus.Middles
import XChainHub.CrossChain.Snapshots.Membership
import XChainHub.Peers.HubDb.PeerCatchup
import XChainHub.Governance.LastVote
