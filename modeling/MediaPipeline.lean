import MediaPipeline.Audio.Renderer
import MediaPipeline.Clock
import MediaPipeline.Config.Source
import MediaPipeline.Decoder
import MediaPipeline.Pipeline.Clients
import MediaPipeline.Script.Engine
import MediaPipeline.Script.Player
import MediaPipeline.Script.Simulation
import MediaPipeline.Script.Tasks
import MediaPipeline.Script.Threads
import MediaPipeline.Proofs.Time.Double
import MediaPipeline.Video.Renderer
import MediaPipeline.Worker.Decode
import MediaPipeline.Worker.Demux
import MediaPipeline.Worker.Monitor
import MediaPipeline.Proofs.FrameBuffer.Adding
import MediaPipeline.Proofs.FrameBuffer.Removing
import MediaPipeline.Proofs.FrameBuffer.History
import MediaPipeline.Proofs.FrameBuffer.Numbered
import MediaPipeline.Proofs.FrameBuffer.LastWrite
import MediaPipeline.Proofs.FrameBuffer.MaximalRuns
import MediaPipeline.Proofs.Decoding.Output
import MediaPipeline.Proofs.Decoding.Cursor
import MediaPipeline.Proofs.Audio.Tape
import MediaPipeline.Proofs.Audio.Resync
import MediaPipeline.Proofs.Demuxing.KeyFrames
import MediaPipeline.Proofs.Monitor.SeekInPoll
import MediaPipeline.Proofs.Playback.PlayedTime
import MediaPipeline.Proofs.Playback.Bounds
import MediaPipeline.Proofs.Playback.Steady
import MediaPipeline.Proofs.Demuxing.Outcomes
import MediaPipeline.Proofs.FrameBuffer.Lookup
import MediaPipeline.Proofs.Decoding.InOrder
import MediaPipeline.Proofs.Decoding.FirstFrames
import MediaPipeline.Proofs.Decoding.SeekTarget
import MediaPipeline.Proofs.Decoding.Flushing
import MediaPipeline.Proofs.Decoding.Gapless
import MediaPipeline.Proofs.Decoding.Ownership
import MediaPipeline.Proofs.Audio.Aligned
import MediaPipeline.Proofs.Segments.Records
import MediaPipeline.Proofs.Sync.Deadlock
import MediaPipeline.Proofs.Tasks.Handles
import MediaPipeline.Proofs.Tasks.IdleWaits
import MediaPipeline.Proofs.Sync.Parking
import MediaPipeline.Proofs.Monitor.Stopping
import MediaPipeline.Proofs.Playback.Intent
import MediaPipeline.Proofs.Playback.Broadcast
import MediaPipeline.Proofs.FrameBuffer.LatestKeyFrame
import MediaPipeline.Proofs.FrameBuffer.Remaining
import MediaPipeline.Proofs.FrameBuffer.CutRuns
import MediaPipeline.Proofs.FrameBuffer.Bounds
import MediaPipeline.Proofs.FrameBuffer.Overlaps
import MediaPipeline.Proofs.Demuxing.Backpressure
import MediaPipeline.Proofs.Playback.Registrations
import MediaPipeline.Proofs.FrameBuffer.Walking
import MediaPipeline.Proofs.Time.Intersection
import MediaPipeline.Proofs.Time.Differences
import MediaPipeline.Proofs.FrameBuffer.Counting
import MediaPipeline.Proofs.FrameBuffer.Nearest
import MediaPipeline.Proofs.Audio.Planar
import MediaPipeline.Proofs.Video.Quality
import MediaPipeline.Proofs.Tasks.Order
import MediaPipeline.Proofs.Tasks.Cancelling
import MediaPipeline.Proofs.Segments.Tiling
import MediaPipeline.Proofs.Sync.Cycles
import MediaPipeline.Proofs.Tasks.Draining
import MediaPipeline.Proofs.Audio.Asking
