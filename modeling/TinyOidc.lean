import TinyOidc.Lib.Table
import TinyOidc.Lib.Ranking
import TinyOidc.Lib.Machine
import TinyOidc.Lib.Threads
import TinyOidc.Lib.Ensures
import TinyOidc.Lib.UriText
import TinyOidc.Lib.Ledger
import TinyOidc.Lib.Batches
import TinyOidc.Lib.Chunks
import TinyOidc.Lib.Worklist
import TinyOidc.Util.Text
import TinyOidc.User.Schema
import TinyOidc.User.Storage
import TinyOidc.User.Object
import TinyOidc.User.Calls
import TinyOidc.User.Changes
import TinyOidc.User.Commits
import TinyOidc.User.Origins
import TinyOidc.User.Lifecycle
import TinyOidc.User.Refresh
import TinyOidc.User.ReuseWindow
import TinyOidc.User.Revocation
import TinyOidc.User.Expiry
import TinyOidc.User.Codes
import TinyOidc.User.Beside
import TinyOidc.User.Destruction
import TinyOidc.User.Passkeys
import TinyOidc.User.Grants
import TinyOidc.User.Holder
import TinyOidc.Token.Claims
import TinyOidc.Token.Endpoint
import TinyOidc.Admin.Auth
import TinyOidc.User.FamilyOrigins
import TinyOidc.User.FamilyCap
import TinyOidc.Client.Records
import TinyOidc.Client.Recreation
import TinyOidc.Client.Handlers
import TinyOidc.Client.Secrets
import TinyOidc.Interaction.StateMachine
import TinyOidc.Interaction.Object
import TinyOidc.Interaction.World
import TinyOidc.Interaction.Login
import TinyOidc.Interaction.Flow
import TinyOidc.Interaction.Protocol
import TinyOidc.Interaction.LoginProtocol
import TinyOidc.Interaction.WriteProtocol
import TinyOidc.Interaction.Grounding
import TinyOidc.Interaction.Closure
import TinyOidc.Interaction.FlowProtocol
import TinyOidc.Interaction.Runs
import TinyOidc.Interaction.Life
import TinyOidc.Interaction.OneCode
import TinyOidc.Interaction.FailedCompletion
import TinyOidc.Interaction.GrantFrame
import TinyOidc.Interaction.Challenges
import TinyOidc.Interaction.ChallengeUse
import TinyOidc.Interaction.ConsentCoverage
import TinyOidc.Account.Directory
import TinyOidc.Account.World
import TinyOidc.Account.Groups
import TinyOidc.Account.GroupChanges
import TinyOidc.Account.MembershipCalls
import TinyOidc.Account.Memberships
import TinyOidc.Account.Profiles
import TinyOidc.Account.Administration
import TinyOidc.Account.Maintenance
import TinyOidc.Account.VerifiedEmails
import TinyOidc.Account.Statuses
import TinyOidc.Account.Creation
import TinyOidc.Account.Deletion
import TinyOidc.Account.Listings
import TinyOidc.Account.CreationInFlight
import TinyOidc.Identity.Deployment
import TinyOidc.Identity.Protocol
import TinyOidc.Identity.Stores
import TinyOidc.Identity.Ownership
import TinyOidc.Me.LoginMethods
import TinyOidc.Keys.Keystore
import TinyOidc.Keys.Retirement
import TinyOidc.Keys.KeyCalls
import TinyOidc.Keys.LastActive
import TinyOidc.Keys.Roles
import TinyOidc.Admin.Administrators
import TinyOidc.Env.Settings
import TinyOidc.Env.SettingsPatch
import TinyOidc.Cache.Loads
import TinyOidc.Cache.Slots
import TinyOidc.Cache.Records
import TinyOidc.Cache.Invalidation
import TinyOidc.Crypto.SecretBox
import TinyOidc.Federation.Upstreams
import TinyOidc.Federation.UpstreamCalls
import TinyOidc.Federation.Rekey
import TinyOidc.Federation.Metadata
import TinyOidc.Interaction.Linking
import TinyOidc.Keys.Rekeying
import TinyOidc.Federation.Rekeying
import TinyOidc.Oidc.Authorize
import TinyOidc.Account.ProfilePatches
import TinyOidc.Account.GroupAdmin
import TinyOidc.Account.GroupNames
import TinyOidc.Account.BatchCreation
import TinyOidc.Registration.Deployment
import TinyOidc.Registration.AllOrNothing
import TinyOidc.Registration.Refusals
import TinyOidc.User.CodeRows
import TinyOidc.Interaction.RequestSources
import TinyOidc.Interaction.SourceProtocol
import TinyOidc.Oidc.RegisteredCodes
import TinyOidc.Lib.Recency
import TinyOidc.Cache.RecordAges
import TinyOidc.User.Refusals
import TinyOidc.User.SessionIdle
import TinyOidc.Lib.ByteText
import TinyOidc.Util.Base64Url
import TinyOidc.Util.Uuid
import TinyOidc.Lib.Aead
import TinyOidc.Crypto.Envelope
import TinyOidc.Oidc.Handles
import TinyOidc.Account.Import
import TinyOidc.Account.Addressable
import TinyOidc.Account.ImportComparison
import TinyOidc.Token.AccessTokens
import TinyOidc.Oidc.RedirectUris
import TinyOidc.Oidc.ClientAuth
import TinyOidc.Admin.CompleteListings
import TinyOidc.Audit.ArchiveListing
import TinyOidc.Queue.Settlement
import TinyOidc.Router.RateLimit
import TinyOidc.Account.Reimport
import TinyOidc.Lib.Rewrites
import TinyOidc.Mirror.Stores
import TinyOidc.Mirror.Reindex
import TinyOidc.Mirror.Rebuilding
import TinyOidc.Mirror.Statuses
import TinyOidc.Mirror.Repair
import TinyOidc.Lib.Patterns
import TinyOidc.Lib.JsonValues
import TinyOidc.Audit.Catalog
import TinyOidc.Audit.Redact
import TinyOidc.Audit.Scrubbing
import TinyOidc.Audit.Emission
import TinyOidc.User.SessionMoves
import TinyOidc.User.Announced
import TinyOidc.Logout.Backchannel
import TinyOidc.Logout.Attempts
import TinyOidc.Logout.Deliveries
import TinyOidc.Logout.Conservation
import TinyOidc.Lib.Embedding
import TinyOidc.Logout.Endings
import TinyOidc.Logout.Forwarding
import TinyOidc.Logout.Notified
import TinyOidc.Client.Registry
import TinyOidc.Invitation.Requests
import TinyOidc.Invitation.Protocol
import TinyOidc.Invitation.Bootstrap
import TinyOidc.Invitation.Use
import TinyOidc.Lib.Freshness
import TinyOidc.User.AuthTimes
import TinyOidc.Interaction.AuthProtocol
import TinyOidc.Interaction.AuthFlow
import TinyOidc.Interaction.ForcedLogin
import TinyOidc.Interaction.Reauthentication
import TinyOidc.Interaction.SessionEnds
