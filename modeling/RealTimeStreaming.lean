import RealTimeStreaming.Demo.Description
import RealTimeStreaming.Demo.Stage
import RealTimeStreaming.Random.ChaCha
import RealTimeStreaming.Main
import RealTimeStreaming.Request.Arithmetic
import RealTimeStreaming.Request.Slot
import RealTimeStreaming.Service
import RealTimeStreaming.Session.Message
import RealTimeStreaming.Session.Script
import RealTimeStreaming.Sharing
import RealTimeStreaming.Wire.SinkScript
import RealTimeStreaming.Proofs.H264.Reassembly
import RealTimeStreaming.Proofs.Session.Backlog
import RealTimeStreaming.Proofs.Session.Messages
import RealTimeStreaming.Proofs.Wire.Output
import RealTimeStreaming.Proofs.Wire.Torn
import RealTimeStreaming.Proofs.Rtp.Numbering
import RealTimeStreaming.Proofs.H264.Splitting
import RealTimeStreaming.Proofs.H264.PictureClock
import RealTimeStreaming.Proofs.H264.Retries
import RealTimeStreaming.Proofs.Audio.SampleCount
import RealTimeStreaming.Proofs.Streams.Sharing
import RealTimeStreaming.Proofs.Demo.Starts
import RealTimeStreaming.Proofs.Session.Rejection
import RealTimeStreaming.Proofs.Request.Widening
import RealTimeStreaming.Proofs.Session.Oversize
import RealTimeStreaming.Proofs.Request.HeaderTable
import RealTimeStreaming.Proofs.Session.KeepAlive
import RealTimeStreaming.Proofs.Request.Waiting
import RealTimeStreaming.Proofs.Request.Clean
import RealTimeStreaming.Proofs.Request.Overflow
import RealTimeStreaming.Proofs.Session.Turns
import RealTimeStreaming.Proofs.Session.Protocol
import RealTimeStreaming.Proofs.Wire.Smooth
import RealTimeStreaming.Proofs.H264.Joining
import RealTimeStreaming.Proofs.Text.Case
import RealTimeStreaming.Proofs.Transport.Grammar
import RealTimeStreaming.Proofs.Transport.Edits
import RealTimeStreaming.Proofs.Transport.Written
import RealTimeStreaming.Proofs.Demo.Setup
import RealTimeStreaming.Proofs.Demo.Pacing
import RealTimeStreaming.Proofs.Demo.Stopping
import RealTimeStreaming.Proofs.Streams.Deliveries
import RealTimeStreaming.Proofs.Demo.Describing
import RealTimeStreaming.Proofs.Server.Lifecycle
import RealTimeStreaming.Proofs.Server.Restarts
import RealTimeStreaming.Proofs.Session.Sightings
import RealTimeStreaming.Proofs.Request.Slots
import RealTimeStreaming.Proofs.Request.LineBound
import RealTimeStreaming.Proofs.Rtp.Clock
