import OmniDoer.Verification.Redactor.LabelledSecrets
import OmniDoer.Verification.Approval.ScopeBinding
import OmniDoer.Verification.Approval.ConsumeOnce
import OmniDoer.Verification.Requests.SettledStable
import OmniDoer.Verification.Server.EnvelopeBinding
import OmniDoer.Verification.Takeover.Resume
import OmniDoer.Verification.Challenge.TypedOnce
import OmniDoer.Verification.Broker.SameOriginForm
import OmniDoer.Verification.Audit.Interleaving
import OmniDoer.Verification.Auth.SignedSession
import OmniDoer.Verification.SecureChannel.AssociatedData
import OmniDoer.Verification.Pairing.UsesBounded
import OmniDoer.Verification.Queues.ClaimedOnce
import OmniDoer.Verification.Chat.InFlight
import OmniDoer.Verification.Takeover.FreshInput
import OmniDoer.Verification.Heartbeat.Settings
import OmniDoer.Verification.ApplyPatch.Covered
import OmniDoer.Verification.TurnDiff.PatchTurns
import OmniDoer.Verification.Shell.Words
import OmniDoer.Verification.ExecPolicy.Amendment
import OmniDoer.Verification.Permissions.Preapproved
import OmniDoer.Verification.Conversation.Pairs
import OmniDoer.Verification.Conversation.Agreement
import OmniDoer.Verification.GitCredentials.Prompts
import OmniDoer.Verification.Orchestrator.Consent
import OmniDoer.Verification.Orchestrator.SessionApprovals
import OmniDoer.Verification.Vault.Credentials
import OmniDoer.Verification.RateLimit.Window
import OmniDoer.Verification.Permissions.Order
import OmniDoer.Verification.Permissions.Changes
import OmniDoer.Verification.Output.Truncation
import OmniDoer.Verification.AgentControl.Limits
import OmniDoer.Verification.Output.HeadTail
