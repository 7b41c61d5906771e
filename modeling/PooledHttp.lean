import PooledHttp.Simulation.Step
import PooledHttp.Proofs.Pool.Forgetting
import PooledHttp.Proofs.Client.Retrying
import PooledHttp.Proofs.Client.Reuse
import PooledHttp.Proofs.Client.Shutdown
import PooledHttp.Proofs.Pool.Deciding
import PooledHttp.Proofs.Pool.Counts
import PooledHttp.Proofs.Pool.Histories
import PooledHttp.Proofs.Pool.Counters
import PooledHttp.Proofs.Pool.Idling
import PooledHttp.Proofs.Client.Expiry
import PooledHttp.Proofs.Client.Waiting
import PooledHttp.Proofs.Text.Pieces
import PooledHttp.Proofs.Uri.Authority
import PooledHttp.Proofs.Route.Destination
import PooledHttp.Proofs.Route.Printing
import PooledHttp.Proofs.Client.Preparing
import PooledHttp.Proofs.Route.Spelling
import PooledHttp.Proofs.Pool.Aging
import PooledHttp.Proofs.Pool.Deadlines
import PooledHttp.Proofs.Pool.Undoing
import PooledHttp.Proofs.Header.Announcements
import PooledHttp.Proofs.Header.Lines
import PooledHttp.Proofs.Dial.Limits
import PooledHttp.Proofs.Client.Inactivity
import PooledHttp.Proofs.Client.SentHeader
import PooledHttp.Proofs.Pool.Maintaining
import PooledHttp.Proofs.Pool.Alone
import PooledHttp.Proofs.Pool.Searching
import PooledHttp.Proofs.Client.Rejecting
import PooledHttp.Proofs.Config.Decoding
import PooledHttp.Proofs.Dial.Fallback
