import CommonTrace.Event.Attributes
import CommonTrace.Main
import CommonTrace.Proofs.Bits.Operations
import CommonTrace.Proofs.Bits.Reading
import CommonTrace.Proofs.Bits.Terminated
import CommonTrace.Proofs.Compact.Reading
import CommonTrace.Proofs.Decoding.Conformance
import CommonTrace.Proofs.Decoding.Effects
import CommonTrace.Proofs.Decoding.Growth
import CommonTrace.Proofs.Decoding.Layout
import CommonTrace.Proofs.Decoding.Locality
import CommonTrace.Proofs.Decoding.Parts
import CommonTrace.Proofs.Decoding.Registering
import CommonTrace.Proofs.Dump.Summary
import CommonTrace.Proofs.Event.Flattening
import CommonTrace.Proofs.Event.Reading
import CommonTrace.Proofs.Lexical.Decoder
import CommonTrace.Proofs.Lexical.Mirroring
import CommonTrace.Proofs.Lexical.Roots
import CommonTrace.Proofs.Packet.Appending
import CommonTrace.Proofs.Packet.Building
import CommonTrace.Proofs.Packet.Content
import CommonTrace.Proofs.Packet.Growing
import CommonTrace.Proofs.Packet.Search
import CommonTrace.Proofs.Packet.Source
import CommonTrace.Proofs.Packet.Trailing
import CommonTrace.Proofs.Schema.Checking
import CommonTrace.Proofs.Scope.Forest
import CommonTrace.Proofs.Stream.Ahead
import CommonTrace.Proofs.Stream.Ending
import CommonTrace.Proofs.Stream.Independence
import CommonTrace.Proofs.Stream.Losses
import CommonTrace.Proofs.Stream.Repositioning
import CommonTrace.Proofs.Stream.Resolving
import CommonTrace.Proofs.Stream.Seeking
import CommonTrace.Proofs.Stream.Timestamps
import CommonTrace.Proofs.Ticks.Reading
import CommonTrace.Proofs.Trace.Forgetting
import CommonTrace.Proofs.Trace.Merge
import CommonTrace.Proofs.Trace.Queueing
import CommonTrace.Proofs.Trace.Retiring
