import Quorum.Address
import Quorum.Ascending
import Quorum.Binary.Error
import Quorum.Binary.Format
import Quorum.Bytes
import Quorum.Command.Basic
import Quorum.Completion
import Quorum.Gzip
import Quorum.Deflate.Bits
import Quorum.Deflate.Compress
import Quorum.Deflate.Huffman
import Quorum.Deflate.Inflate
import Quorum.Deflate.Token
import Quorum.Disk.Basic
import Quorum.Disk.Path
import Quorum.Disk.Slot
import Quorum.Except
import Quorum.Failure
import Quorum.Group
import Quorum.Host.Basic
import Quorum.Host.Bootstrap
import Quorum.Host.Start
import Quorum.Logging
import Quorum.Main
import Quorum.Node.Basic
import Quorum.Node.Dialogue
import Quorum.Node.Queue
import Quorum.Node.Session
import Quorum.Node.Submission
import Quorum.Peer.Basic
import Quorum.Replica.Answer
import Quorum.Replica.Basic
import Quorum.Replica.Leadership
import Quorum.Replication.Entry
import Quorum.Replication.LogId
import Quorum.Replication.Request
import Quorum.Service.Call
import Quorum.Service.Channel
import Quorum.Service.Registry
import Quorum.Service.Route
import Quorum.Settings.Basic
import Quorum.Settings.Document
import Quorum.Settings.Fault
import Quorum.Settings.Options
import Quorum.StateMachine.Basic
import Quorum.StateMachine.Memory
import Quorum.Storage.Error
import Quorum.Storage.Layout
import Quorum.Storage.Log
import Quorum.Storage.Store
import Quorum.Text.Reading
import Quorum.Text.Quoted
import Quorum.Text.Utf8
import Quorum.Toml.Document
import Quorum.Toml.Number
import Quorum.Toml.Quoted
import Quorum.Toml.Record
import Quorum.Toml.Scan
import Quorum.Toml.Table
import Quorum.Wire.Field
import Quorum.Wire.Message
import Quorum.Wire.Schema
import Quorum.Wire.Varint
import Quorum.Proofs.Binary.RoundTrip
import Quorum.Proofs.Binary.Stored
import Quorum.Proofs.Binary.Truncation
import Quorum.Proofs.Binary.Exchanged
import Quorum.Proofs.Storage.Files
import Quorum.Proofs.Storage.Run
import Quorum.Proofs.Storage.Effect
import Quorum.Proofs.Storage.Durable
import Quorum.Proofs.Storage.Restart
import Quorum.Proofs.Storage.Recovery
import Quorum.Proofs.Storage.InterruptedPurge
import Quorum.Proofs.Deflate.RoundTrip
import Quorum.Proofs.Command.Entry
import Quorum.Proofs.Wire.RoundTrip
import Quorum.Proofs.Wire.LastValue
import Quorum.Proofs.Storage.FailedInstall
import Quorum.Proofs.Storage.Overlap
import Quorum.Proofs.Storage.PurgeCovered
import Quorum.Proofs.Storage.Seamless
import Quorum.Proofs.Storage.Transfer
import Quorum.Proofs.Storage.Overtaken
import Quorum.Proofs.Storage.Settled
import Quorum.Proofs.Node.Course
import Quorum.Proofs.Node.Submission
import Quorum.Proofs.Service.Exchange
import Quorum.Proofs.Node.Network
import Quorum.Proofs.Node.Queue
import Quorum.Proofs.Stepping
import Quorum.Proofs.Host.Stores
import Quorum.Proofs.StateMachine.Redelivery
import Quorum.Proofs.StateMachine.Tally
import Quorum.Proofs.Storage.Batch
import Quorum.Proofs.Command.Damage
import Quorum.Proofs.Settings.Timing
import Quorum.Proofs.Peer.Canonical
import Quorum.Proofs.Host.Refusal
import Quorum.Proofs.Settings.Finished
import Quorum.Proofs.Host.Confined
import Quorum.Proofs.Storage.PurgePoint
import Quorum.Proofs.Host.Rollback
import Quorum.Proofs.Storage.RecordFile
import Quorum.Proofs.Node.Retry
