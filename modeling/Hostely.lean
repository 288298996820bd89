import Hostely.Lib.Runs
import Hostely.Lib.Text
import Hostely.Lib.Json
import Hostely.Lib.Ledger
import Hostely.Lib.Topological
import Hostely.Lib.Recency
import Hostely.Lib.Base64url
import Hostely.Lib.SortedMap
import Hostely.Lib.Locks
import Hostely.Lib.Index
import Hostely.Lib.HttpHead
import Hostely.Lib.Optimum
import Hostely.Lib.Generations
import Hostely.Lib.Sorting
import Hostely.Services.Manager
import Hostely.Services.Cli
import Hostely.Inference.Llama
import Hostely.Inference.Session
import Hostely.Inference.Server
import Hostely.Inference.Loops
import Hostely.Inference.Generation
import Hostely.Inference.Ownership
import Hostely.Inference.Mirror
import Hostely.Inference.Admission
import Hostely.Inference.Reuse
import Hostely.Inference.Answer
import Hostely.Inference.Stops
import Hostely.Inference.Cuts
import Hostely.Inference.Messages
import Hostely.Inference.Anthropic
import Hostely.Inference.Completions
import Hostely.Inference.Sse
import Hostely.Inference.Pieces
import Hostely.Inference.StreamText
import Hostely.Inference.Lru
import Hostely.Inference.Positions
import Hostely.Inference.Failures
import Hostely.Inference.ServeLock
import Hostely.Apps.Compose
import Hostely.Apps.State
import Hostely.Apps.App
import Hostely.Apps.Reconcile
import Hostely.Apps.Truth
import Hostely.Apps.Orphans
import Hostely.Apps.Idempotent
import Hostely.Apps.Listing
import Hostely.Apps.Columns
import Hostely.Apps.Topo
import Hostely.Apps.Order
import Hostely.Apps.Yaml
import Hostely.Apps.LoadCompose
import Hostely.Apps.Layout
import Hostely.Apps.RoundTrip
import Hostely.Apps.Quoting
import Hostely.Apps.Interpolation
import Hostely.Apps.Splitting
import Hostely.Apps.Nesting
import Hostely.Apps.Blocks
import Hostely.Apps.FlowLists
import Hostely.Apps.Ports
import Hostely.Apps.PortSpecs
import Hostely.Apps.Confined
import Hostely.Apps.Volumes
import Hostely.Apps.Bounds
import Hostely.Tunnel.Frame
import Hostely.Tunnel.Bounds
import Hostely.Tunnel.Mux
import Hostely.Tunnel.Fifo
import Hostely.Tunnel.Relock
import Hostely.Tunnel.Accept
import Hostely.Tunnel.Teardown
import Hostely.Tunnel.Pump
import Hostely.Tunnel.Delivery
import Hostely.Tunnel.Forwarding
import Hostely.Tunnel.Registry
import Hostely.Tunnel.Relay
import Hostely.Tunnel.Hello
import Hostely.Tunnel.Public
import Hostely.Tunnel.Ids
import Hostely.Exposure.Acme
import Hostely.Exposure.Router
import Hostely.Exposure.Certs
import Hostely.Exposure.Routes
import Hostely.Exposure.Edits
import Hostely.Exposure.Saving
import Hostely.Exposure.Containers
import Hostely.Exposure.Request
import Hostely.Exposure.Reading
import Hostely.Exposure.Bodies
import Hostely.Exposure.Agreement
import Hostely.Exposure.Responses
import Hostely.Exposure.Spelling
import Hostely.Exposure.Domains
import Hostely.Exposure.NatPmp
import Hostely.Exposure.Unmap
import Hostely.Exposure.Dns
import Hostely.Exposure.Issue
import Hostely.Exposure.Release
import Hostely.Exposure.Throws
import Hostely.Exposure.Validated
import Hostely.Top.Rates
import Hostely.Top.Sample
import Hostely.Top.Rows
import Hostely.Top.Refresh
import Hostely.Top.Panels
import Hostely.Top.Render
import Hostely.Top.Screen
import Hostely.Top.Keys
import Hostely.Top.Cells
import Hostely.Top.Ordering
import Hostely.Models.Registry
import Hostely.Models.Pull
import Hostely.Models.Integrity
import Hostely.Models.Siblings
import Hostely.Models.Operands
import Hostely.Models.Sizes
import Hostely.Log.Logger
import Hostely.Log.History
import Hostely.Log.Limit
import Hostely.Cli.Args
import Hostely.Cli.Spellings
import Hostely.Cli.Flags
import Hostely.Lib.Tagged
import Hostely.Tunnel.Quiet
import Hostely.Tunnel.Peers
import Hostely.Tunnel.Coherent
import Hostely.Tunnel.Streams
import Hostely.Inference.Requests
import Hostely.Tunnel.Handshake
import Hostely.Models.Resolve
import Hostely.Cli.Run
import Hostely.Exposure.Records
import Hostely.Models.Fit
import Hostely.Apps.Overview
import Hostely.Cli.Expose
import Hostely.Tunnel.Carrying
import Hostely.Tunnel.Passage
