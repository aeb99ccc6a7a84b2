import MiniEthNode.BlockBuilder.Model
import MiniEthNode.BlockBuilder.Session
import MiniEthNode.BlockBuilder.Setup
import MiniEthNode.Execution.Affordable
import MiniEthNode.Execution.BlockIndex
import MiniEthNode.Execution.Cached
import MiniEthNode.Execution.ClosedForm
import MiniEthNode.Execution.Executor
import MiniEthNode.Execution.Failure
import MiniEthNode.Execution.Journal
import MiniEthNode.Execution.Pipeline
import MiniEthNode.Execution.Provider
import MiniEthNode.Execution.Providers
import MiniEthNode.Execution.Rollback
import MiniEthNode.Execution.StateBinding
import MiniEthNode.Execution.StateRoot
import MiniEthNode.Execution.Totality
import MiniEthNode.Execution.Transfer
import MiniEthNode.Format.Grammar
import MiniEthNode.Format.Rlp
import MiniEthNode.Format.Stream
import MiniEthNode.Host
import MiniEthNode.Networking.CircularWait
import MiniEthNode.Networking.ClientMain
import MiniEthNode.Networking.Codec
import MiniEthNode.Networking.Completion
import MiniEthNode.Networking.Confirmation
import MiniEthNode.Networking.Connection
import MiniEthNode.Networking.Consistency
import MiniEthNode.Networking.Detailed
import MiniEthNode.Networking.Disconnect
import MiniEthNode.Networking.EndToEnd
import MiniEthNode.Networking.Forwarding
import MiniEthNode.Networking.Frames
import MiniEthNode.Networking.Gossip
import MiniEthNode.Networking.Handshake
import MiniEthNode.Networking.Manager
import MiniEthNode.Networking.Message
import MiniEthNode.Networking.Node
import MiniEthNode.Networking.Registration
import MiniEthNode.Networking.Replies
import MiniEthNode.Networking.Requests
import MiniEthNode.Networking.Routing
import MiniEthNode.Networking.Serving
import MiniEthNode.Networking.Shutdown
import MiniEthNode.Networking.Submission
import MiniEthNode.Networking.TestClient
import MiniEthNode.Networking.Traffic
import MiniEthNode.Networking.Turns
import MiniEthNode.Networking.Wire
import MiniEthNode.Processor.Atomicity
import MiniEthNode.Processor.Chain
import MiniEthNode.Processor.Convergence
import MiniEthNode.Processor.Drain
import MiniEthNode.Processor.Gas
import MiniEthNode.Processor.InPlace
import MiniEthNode.Processor.Ledger
import MiniEthNode.Processor.Lookup
import MiniEthNode.Processor.Metrics
import MiniEthNode.Processor.Model
import MiniEthNode.Processor.Payments
import MiniEthNode.Processor.Queue
import MiniEthNode.Processor.Rejection
import MiniEthNode.Processor.Replay
import MiniEthNode.Processor.Replica
import MiniEthNode.Processor.Run
import MiniEthNode.Processor.Stepwise
import MiniEthNode.Processor.Totality
import MiniEthNode.Radix.Composition
import MiniEthNode.Radix.Insert
import MiniEthNode.Radix.Tree
import MiniEthNode.RlpCodec.Canonical
import MiniEthNode.RlpCodec.Decodable
import MiniEthNode.RlpCodec.Decoder
import MiniEthNode.RlpCodec.Encoder
import MiniEthNode.RlpCodec.Reencoding
import MiniEthNode.RlpCodec.RoundTrip
import MiniEthNode.RlpCodec.Sign
import MiniEthNode.RlpCodec.Signing
import MiniEthNode.RlpCodec.SigningBinding
import MiniEthNode.RlpCodec.Traits
import MiniEthNode.Rust.Cache
import MiniEthNode.Rust.HashMap
import MiniEthNode.Rust.Integer
import MiniEthNode.Rust.Outcome
import MiniEthNode.Rust.Relation
import MiniEthNode.Rust.Task
import MiniEthNode.Trie.Binding
import MiniEthNode.Trie.Contents
import MiniEthNode.Trie.Encoding
import MiniEthNode.Trie.Insertion
import MiniEthNode.Trie.Node
import MiniEthNode.Trie.NormalForm
import MiniEthNode.Trie.Root
import MiniEthNode.Trie.Specification
import MiniEthNode.Types.Hex
import MiniEthNode.Types.Primitive
import MiniEthNode.Types.Transaction
