import Marketplace.Lib.Prog
import Marketplace.Lib.ReadCommitted
import Marketplace.Lib.Service
import Marketplace.Lib.Alone
import Marketplace.Lib.Faultless
import Marketplace.Lib.TwoRuns
import Marketplace.Lib.Atomic
import Marketplace.Lib.GivesUp
import Marketplace.Lib.Discipline
import Marketplace.Lib.Journal
import Marketplace.Lib.Checked
import Marketplace.Lib.Table
import Marketplace.Lib.Text
import Marketplace.Lib.Words
import Marketplace.Lib.Like
import Marketplace.Lib.Sniff
import Marketplace.Lib.Decimal
import Marketplace.Lib.Nginx
import Marketplace.Lib.Uuid
import Marketplace.Lib.Paging
import Marketplace.Lib.JsonText
import Marketplace.Lib.Codec
import Marketplace.Common
import Marketplace.Incoming
import Marketplace.Events.Outbox
import Marketplace.Events.Broker
import Marketplace.Events.Relay
import Marketplace.Events.Delivery
import Marketplace.Events.Drain
import Marketplace.Request.ItemKey
import Marketplace.Request.Names
import Marketplace.Request.Store
import Marketplace.Request.Statements
import Marketplace.Request.Service
import Marketplace.Request.Demand
import Marketplace.Request.Safety
import Marketplace.Request.OfferCounts
import Marketplace.Request.DerivedStatus
import Marketplace.Request.Announce
import Marketplace.Request.Refusals
import Marketplace.Request.Search
import Marketplace.Request.Media
import Marketplace.Request.Httpx
import Marketplace.Request.Pictures
import Marketplace.Offers.Store
import Marketplace.Offers.Service
import Marketplace.Offers.Session
import Marketplace.Offers.Lifecycle
import Marketplace.Offers.Routes
import Marketplace.Offers.Bodies
import Marketplace.Offers.Anonymity
import Marketplace.Offers.Schemas
import Marketplace.Offers.Payload
import Marketplace.Offers.Labels
import Marketplace.Offers.Race
import Marketplace.Offers.Counting
import Marketplace.Offers.OneLive
import Marketplace.Admin.Store
import Marketplace.Admin.Service
import Marketplace.Admin.Exposure
import Marketplace.Admin.Audit
import Marketplace.Admin.Lookups
import Marketplace.Admin.AllOrNothing
import Marketplace.Notification.Schemas
import Marketplace.Notification.Store
import Marketplace.Notification.Service
import Marketplace.Notification.Session
import Marketplace.Notification.ExactlyOnce
import Marketplace.Notification.Inbox
import Marketplace.Notification.Reports
import Marketplace.Notification.Marking
import Marketplace.System.Acceptance
import Marketplace.System.Envelopes
import Marketplace.System.Platform
import Marketplace.System.Approval
import Marketplace.System.Revocation
import Marketplace.System.Convergence
import Marketplace.System.Twins
import Marketplace.System.Gateway
import Marketplace.Auth.Jwt
import Marketplace.Auth.Store
import Marketplace.Auth.Service
import Marketplace.Auth.Session
import Marketplace.Auth.Commits
import Marketplace.Auth.Operations
import Marketplace.Auth.Rotation
import Marketplace.Auth.Logout
import Marketplace.System.Verifiers
import Marketplace.Frontend.AuthSlice
import Marketplace.Frontend.Client
import Marketplace.Frontend.Tab
import Marketplace.Frontend.SessionEnd
import Marketplace.Frontend.Exchange
import Marketplace.Frontend.Slices
import Marketplace.Frontend.Handover
import Marketplace.Frontend.Suggestions
import Marketplace.System.RefreshExchange
import Marketplace.System.Badge
import Marketplace.System.BodyReaders
import Marketplace.Lib.Refine
import Marketplace.Lib.Known
import Marketplace.Request.Board
import Marketplace.Request.Linear
import Marketplace.Lib.UniqueKeys
import Marketplace.Accounts.Registry
import Marketplace.Accounts.Store
import Marketplace.Accounts.Service
import Marketplace.Accounts.Linear
import Marketplace.Lib.Told
import Marketplace.Lib.Routes
import Marketplace.System.Identity
import Marketplace.System.Doors
import Marketplace.System.Entry
import Marketplace.System.Issued
import Marketplace.System.Authority
import Marketplace.Offers.Changes
import Marketplace.System.References
