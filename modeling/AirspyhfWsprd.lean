import AirspyhfWsprd.Library.CText
import AirspyhfWsprd.Library.CharBuffer
import AirspyhfWsprd.Library.FloatValue
import AirspyhfWsprd.Library.Wire
import AirspyhfWsprd.Library.Ipfix
import AirspyhfWsprd.Library.Printf
import AirspyhfWsprd.Library.Scanf
import AirspyhfWsprd.Library.PrintedText
import AirspyhfWsprd.Library.RoundedInteger
import AirspyhfWsprd.Library.JsonText
import AirspyhfWsprd.Library.Probing
import AirspyhfWsprd.Library.ProbedSet
import AirspyhfWsprd.Library.UrlQuery
import AirspyhfWsprd.Library.RingBuffer
import AirspyhfWsprd.Library.StampTable
import AirspyhfWsprd.Library.Transition
import AirspyhfWsprd.Library.Decimation
import AirspyhfWsprd.Library.MergeUnique
import AirspyhfWsprd.Library.Ranking
import AirspyhfWsprd.Library.ThresholdSearch
import AirspyhfWsprd.Library.Scatter
import AirspyhfWsprd.Library.Tokens
import AirspyhfWsprd.Receiver.Decimator
import AirspyhfWsprd.Receiver.Resampler
import AirspyhfWsprd.Receiver.SampleQueue
import AirspyhfWsprd.Receiver.Capture
import AirspyhfWsprd.Receiver.Threads
import AirspyhfWsprd.Receiver.QueueSafety
import AirspyhfWsprd.Receiver.SnapshotCoherence
import AirspyhfWsprd.Receiver.SampleTime
import AirspyhfWsprd.Receiver.ZeroFill
import AirspyhfWsprd.Receiver.FrameHandover
import AirspyhfWsprd.Ft8.CallsignTable
import AirspyhfWsprd.Ft8.CallsignLifetime
import AirspyhfWsprd.Ft8.CallsignSoundness
import AirspyhfWsprd.Ft8.MessageFields
import AirspyhfWsprd.Ft8.Message
import AirspyhfWsprd.Ft8.ReportFields
import AirspyhfWsprd.Ft8.FrameDecoding
import AirspyhfWsprd.Jt9.Station
import AirspyhfWsprd.Jt9.DecodeLine
import AirspyhfWsprd.Jt9.TransmitterCall
import AirspyhfWsprd.Ft8.ReportCallsign
import AirspyhfWsprd.Jt9.MergeResults
import AirspyhfWsprd.Jt9.SenderAgreement
import AirspyhfWsprd.Jt9.MergedMessages
import AirspyhfWsprd.Psk.Packet
import AirspyhfWsprd.Psk.PacketDecoding
import AirspyhfWsprd.Psk.Reporter
import AirspyhfWsprd.Psk.ReporterQueue
import AirspyhfWsprd.Psk.ReporterLoss
import AirspyhfWsprd.Psk.ReporterDuplicates
import AirspyhfWsprd.Psk.ReporterRetry
import AirspyhfWsprd.Psk.PacketHistory
import AirspyhfWsprd.Psk.ReporterTemplates
import AirspyhfWsprd.Wspr.ReportUrl
import AirspyhfWsprd.Wspr.UrlFields
import AirspyhfWsprd.Wspr.Reporter
import AirspyhfWsprd.Wspr.ReporterQueue
import AirspyhfWsprd.Wspr.ReporterBackoff
import AirspyhfWsprd.Wspr.SpotFile
import AirspyhfWsprd.Wspr.SpotRoundTrip
import AirspyhfWsprd.Wspr.PostedSpots
import AirspyhfWsprd.Wspr.Convolution
import AirspyhfWsprd.Wspr.Fano
import AirspyhfWsprd.Wspr.FanoSearch
import AirspyhfWsprd.Wspr.FanoDecoding
import AirspyhfWsprd.Wspr.FanoSafety
import AirspyhfWsprd.Wspr.Interleave
import AirspyhfWsprd.Wspr.CallsignHash
import AirspyhfWsprd.Wspr.CallPacking
import AirspyhfWsprd.Wspr.CallPrefix
import AirspyhfWsprd.Wspr.Unpacking
import AirspyhfWsprd.Wspr.ChannelSymbols
import AirspyhfWsprd.Wspr.MessageRoundTrip
import AirspyhfWsprd.Wspr.ChannelDecoding
import AirspyhfWsprd.Wspr.HeardStations
import AirspyhfWsprd.Bands.HopPlan
import AirspyhfWsprd.Bands.HopPlanBuffer
import AirspyhfWsprd.Bands.HopSchedule
import AirspyhfWsprd.Bands.Advisor
import AirspyhfWsprd.Bands.AdviceSafety
import AirspyhfWsprd.Bands.AdvisorRows
import AirspyhfWsprd.Bands.PlanOutputs
import AirspyhfWsprd.Bands.HopLoop
import AirspyhfWsprd.Bands.MonitorText
import AirspyhfWsprd.Bands.MonitorCounting
import AirspyhfWsprd.Bands.MonitorRanking
import AirspyhfWsprd.Bands.ResponseBuffer
import AirspyhfWsprd.Psk.ReportFrequency
import AirspyhfWsprd.Health.Server
import AirspyhfWsprd.Health.Response
import AirspyhfWsprd.Health.Request
