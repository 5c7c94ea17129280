import UpdateFramework.Client.ClientId
import UpdateFramework.Client.Closing
import UpdateFramework.Client.Confinement
import UpdateFramework.Client.CurrentVersion
import UpdateFramework.Client.Installation
import UpdateFramework.Client.Internal
import UpdateFramework.Client.Locked
import UpdateFramework.Client.Release
import UpdateFramework.Client.Retry
import UpdateFramework.Client.TableFaults
import UpdateFramework.Client.TableFrame
import UpdateFramework.Client.TableOrder
import UpdateFramework.Collections.Roster
import UpdateFramework.Common.ConfigLines
import UpdateFramework.Common.Framing
import UpdateFramework.Common.LogRecord
import UpdateFramework.Common.LogRing
import UpdateFramework.Common.Registry
import UpdateFramework.Common.Sha256Digest
import UpdateFramework.Common.Stats
import UpdateFramework.Common.Threadpool
import UpdateFramework.Common.Transfer
import UpdateFramework.Libc.Apart
import UpdateFramework.Libc.Appending
import UpdateFramework.Libc.Opened
import UpdateFramework.Process.Chronicle
import UpdateFramework.Process.Crossing
import UpdateFramework.Process.Exchange
import UpdateFramework.Process.Interruption
import UpdateFramework.Process.Leads
import UpdateFramework.Server.ActiveClients
import UpdateFramework.Server.Advertised
import UpdateFramework.Server.Announced
import UpdateFramework.Server.Bookkeeping
import UpdateFramework.Server.Books
import UpdateFramework.Server.Checksum
import UpdateFramework.Server.Hold
import UpdateFramework.Server.Identity
import UpdateFramework.Server.Publication
import UpdateFramework.Server.Records
import UpdateFramework.Server.Request
import UpdateFramework.Server.Shutdown
import UpdateFramework.Server.World
import UpdateFramework.System.Agreement
import UpdateFramework.System.Attempt
import UpdateFramework.System.Buffers
import UpdateFramework.System.Candid
import UpdateFramework.System.Clicks
import UpdateFramework.System.Climb
import UpdateFramework.System.Download
import UpdateFramework.System.Faithful
import UpdateFramework.System.Fleet
import UpdateFramework.System.Healing
import UpdateFramework.System.Holding
import UpdateFramework.System.Lockout
import UpdateFramework.System.Newer
import UpdateFramework.System.Offer
import UpdateFramework.System.Partial
import UpdateFramework.System.Pausing
import UpdateFramework.System.Resume
import UpdateFramework.System.Service
import UpdateFramework.System.Sides
import UpdateFramework.System.Stream
import UpdateFramework.System.Transparency
import UpdateFramework.System.Turns
import UpdateFramework.System.Versions
