import ChatApi.Client.Session
import ChatApi.Limit.Session
import ChatApi.Proofs.Limit.Budget
import ChatApi.Proofs.Limit.Chart
import ChatApi.Proofs.Limit.Course
import ChatApi.Proofs.Limit.Fold
import ChatApi.Proofs.Limit.Block
import ChatApi.Proofs.Limit.Places
import ChatApi.Proofs.Limit.Probe
import ChatApi.Proofs.Cache.Feed
import ChatApi.Proofs.Limit.Pace
import ChatApi.Proofs.Cache.Mirror
import ChatApi.Proofs.Cache.Listing
import ChatApi.Proofs.Limit.Solo
import ChatApi.Proofs.Client.Move
import ChatApi.Proofs.Client.Pursuit
import ChatApi.Proofs.Client.Alone
import ChatApi.Proofs.Client.Execution
import ChatApi.Proofs.Limit.Closing
import ChatApi.Proofs.Limit.Reopen
import ChatApi.Proofs.Limit.Redirect
import ChatApi.Proofs.Limit.Converge
import ChatApi.Proofs.Limit.Apart
import ChatApi.Proofs.Limit.Exempt
import ChatApi.Proofs.Limit.Watch
import ChatApi.Proofs.Limit.Wakeup
import ChatApi.Proofs.Limit.Custody
import ChatApi.Proofs.Client.Cancel
import ChatApi.Proofs.Json.Octets
import ChatApi.Proofs.Json.Tokens
import ChatApi.Proofs.Json.Spell
import ChatApi.Proofs.Json.Laws
import ChatApi.Proofs.Model.Records
import ChatApi.Proofs.Json.Source
import ChatApi.Proofs.Model.Replies
import ChatApi.Proofs.Model.RoundTrip
import ChatApi.Proofs.Client.Tally
import ChatApi.Proofs.Client.Failure
import ChatApi.Proofs.Client.Timeout
import ChatApi.Proofs.Limit.Lapse
import ChatApi.Proofs.Limit.Template
import ChatApi.Proofs.Limit.Substitution
import ChatApi.Proofs.Client.Route
import ChatApi.Proofs.Model.Merge
import ChatApi.Proofs.Cache.Absorb
import ChatApi.Proofs.Client.Handles
import ChatApi.Proofs.Client.Horizon
import ChatApi.Proofs.Limit.Phase
import ChatApi.Proofs.Limit.Patience
import ChatApi.Proofs.Client.Detail
import ChatApi.Proofs.Client.Backoff
import ChatApi.Proofs.Client.GivenUp
import ChatApi.Proofs.Limit.Unbroken
