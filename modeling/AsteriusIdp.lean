import AsteriusIdp.Federation.ChainSound
import AsteriusIdp.Issuance.Delegation
import AsteriusIdp.Store.Withdrawal
import AsteriusIdp.Token.Rotation
import AsteriusIdp.Token.Device
import AsteriusIdp.Replay.Ledger
import AsteriusIdp.AgentTask.Cascade
import AsteriusIdp.AgentTask.Approval
import AsteriusIdp.Consent.Merge
import AsteriusIdp.Claims.Release
import AsteriusIdp.Keys.Rewrap
import AsteriusIdp.Sessions.Lifetime
import AsteriusIdp.Entitlements.Approval
import AsteriusIdp.Audit.Trail
import AsteriusIdp.Outbox.Progress
import AsteriusIdp.Keys.Grace
import AsteriusIdp.Http.SignatureSound
import AsteriusIdp.Policy.Remedy
import AsteriusIdp.Authorize.Decision
import AsteriusIdp.Policy.Search
import AsteriusIdp.Federation.MergeOrder
import AsteriusIdp.Issuance.Narrowing
import AsteriusIdp.Replay.ClaimTimes
import AsteriusIdp.Claims.Verified
import AsteriusIdp.Keys.ClientCache
import AsteriusIdp.Sessions.Passkeys
import AsteriusIdp.Scim.Groups
import AsteriusIdp.Limits
import AsteriusIdp.Scim.Lifecycle
import AsteriusIdp.Replay.Uri
import AsteriusIdp.Ssf.Poll
import AsteriusIdp.Ssf.Subject
