import NexusNode.Program.Proc
import NexusNode.Program.Retry
import NexusNode.Program.Run
import NexusNode.Program.Steps
import NexusNode.Program.Records
import NexusNode.Program.Ranking
import NexusNode.Program.Machine
import NexusNode.Program.Json
import NexusNode.Program.JsonText
import NexusNode.Program.Streak
import NexusNode.Program.Replica
import NexusNode.Program.Divergence
import NexusNode.Program.WireFormat
import NexusNode.Program.WireParser
import NexusNode.Program.WireSchema
import NexusNode.Program.Backoff
import NexusNode.Program.Trim
import NexusNode.Evm.Types
import NexusNode.Evm.Config
import NexusNode.Evm.Engine
import NexusNode.Evm.Keeper
import NexusNode.Evm.Genesis
import NexusNode.Evm.Codec
import NexusNode.Evm.Wire
import NexusNode.Evm.Finalize
import NexusNode.Evm.Prepare
import NexusNode.Evm.Calls
import NexusNode.Evm.Polling
import NexusNode.Evm.Retrying
import NexusNode.Evm.Deadline
import NexusNode.Evm.Messages
import NexusNode.Lib.Jwt
import NexusNode.App.Proposal
import NexusNode.App.Votes
import NexusNode.App.Agreement
import NexusNode.App.BlockSize
import NexusNode.App.Chain
import NexusNode.App.Versions
import NexusNode.App.Readiness
import NexusNode.App.PeerStatus
import NexusNode.App.PeerLag
import NexusNode.App.LagVerdict
import NexusNode.App.ReadyEndpoint
import NexusNode.App.Block
import NexusNode.App.FinalizeBlock
import NexusNode.App.Network
import NexusNode.App.Progress
import NexusNode.App.Divergence
import NexusNode.App.ExecutionClock
import NexusNode.App.Upgrade
import NexusNode.App.Webhook
import NexusNode.Reth.Forks
import NexusNode.App.ForkAlignment
import NexusNode.GlobalFee.Params
import NexusNode.GlobalFee.Ante
import NexusNode.GlobalFee.Export
import NexusNode.App.Ante
import NexusNode.Staking.State
import NexusNode.Staking.Hooks
import NexusNode.Staking.Plan
import NexusNode.Staking.Removal
import NexusNode.Staking.Failure
import NexusNode.Staking.Shares
import NexusNode.Staking.Pools
import NexusNode.Staking.Reconcile
import NexusNode.Staking.PowerIndex
import NexusNode.Staking.Permanence
import NexusNode.Staking.RemovalEffect
import NexusNode.Staking.HookConfig
import NexusNode.Staking.Creation
import NexusNode.Staking.Addition
import NexusNode.Staking.HookLoading
import NexusNode.Staking.ActiveSet
import NexusNode.Staking.SetUpdates
import NexusNode.Staking.EndBlockOrder
import NexusNode.Staking.Tracking
import NexusNode.Staking.ZeroHeight
import NexusNode.App.Export
