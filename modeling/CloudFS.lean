import CloudFS.Machinery.Bytes
import CloudFS.Machinery.Posix.Stat
import CloudFS.Machinery.Posix.Fs
import CloudFS.Machinery.Posix.Laws
import CloudFS.Machinery.Posix.Confined
import CloudFS.Client.Cloud
import CloudFS.Client.Lock
import CloudFS.Machinery.Machine
import CloudFS.Machinery.Loop
import CloudFS.Client.Retry
import CloudFS.Machinery.Table
import CloudFS.Client.Ops
import CloudFS.Session.Calm
import CloudFS.Session.Confine
import CloudFS.Session.Run
import CloudFS.Session.Local
import CloudFS.Session.Transfer
import CloudFS.Session.Isolation
import CloudFS.Placement.Phase
import CloudFS.Placement.PlainFs
import CloudFS.Placement.Step
import CloudFS.Placement.Invariant
import CloudFS.Placement.Refinement
import CloudFS.Clients.Shared
import CloudFS.Clients.Handles
import CloudFS.Clients.Locking
import CloudFS.Machinery.Gf2
import CloudFS.Dedup.Msb
import CloudFS.Dedup.Polynomial
import CloudFS.Machinery.Bits
import CloudFS.Dedup.Lsb
import CloudFS.Dedup.Rabin
import CloudFS.Dedup.Fingerprint
import CloudFS.Machinery.Greedy
import CloudFS.Dedup.Segments
import CloudFS.Dedup.Resync
import CloudFS.Dedup.Reset
import CloudFS.Clients.Readers
import CloudFS.Clients.LockHistory
import CloudFS.Outcomes.StoppedRelease
import CloudFS.Outcomes.FailedOpen
import CloudFS.Outcomes.PartialUnlink
import CloudFS.Outcomes.Truncate
import CloudFS.Machinery.CInt
import CloudFS.Requests.Transfer
import CloudFS.Requests.ErrorDetails
import CloudFS.Requests.Listing
import CloudFS.Mount.Arguments
import CloudFS.Session.Leaves
import CloudFS.Mount.Threshold
import CloudFS.Mount.Readdir
import CloudFS.Outcomes.Times
import CloudFS.Outcomes.Edits
import CloudFS.Machinery.Posix.Limits
import CloudFS.Outcomes.Mode
import CloudFS.Outcomes.LongNames
import CloudFS.Versions.Refinement
import CloudFS.Machinery.Xdr
import CloudFS.Client.LockMessage
import CloudFS.Machinery.Ring
import CloudFS.Tool.Growbuffer
import CloudFS.Tool.PutObject
import CloudFS.Tool.GetObject
import CloudFS.Tool.ListBucket
import CloudFS.Machinery.Scan
import CloudFS.Tool.Acl
import CloudFS.Tool.AclBuffer
import CloudFS.Dedup.Example
import CloudFS.Versions.Ledger
import CloudFS.Versions.Updates
