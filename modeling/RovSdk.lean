import RovSdk.ByteWords
import RovSdk.ListSlices
import RovSdk.GreedyScan
import RovSdk.ProtocolBytes
import RovSdk.FrameFormat
import RovSdk.StreamParser
import RovSdk.Packets
import RovSdk.FrameRecognizer
import RovSdk.ParserSessions
import RovSdk.GreedySelection
import RovSdk.PacketRoundtrip
import RovSdk.StreamDelivery
import RovSdk.Resynchronisation
import RovSdk.FrameLink
import RovSdk.LinkConservation
import RovSdk.ValidatorAgreement
import RovSdk.UdpChannel
import RovSdk.PeerRule
import RovSdk.PeerHistory
import RovSdk.Deadlines
import RovSdk.TypedUdpReceive
import RovSdk.BitPolynomial
import RovSdk.ShiftRegister
import RovSdk.CrcPolynomial
import RovSdk.TransmissionErrors
import RovSdk.PythonValues
import RovSdk.SchemaLayout
import RovSdk.GoldenGenerator
import RovSdk.ProtocolSchema
import RovSdk.GoldenAgreement
import RovSdk.CrcRemainder
import RovSdk.HandleUse
import RovSdk.SerialChannel
import RovSdk.SerialPort
import RovSdk.ChannelDescriptors
import RovSdk.SerialLine
import RovSdk.LineDelivery
import RovSdk.BufferBound
import RovSdk.ReadAttempts
import RovSdk.LongTimeouts
import RovSdk.TypedStreamReceive
import RovSdk.CheckedAccess
import RovSdk.MemorySafety
import RovSdk.Results
import RovSdk.SchemaValidator
import RovSdk.CodeGenerator
import RovSdk.FrameLayouts
import RovSdk.GeneratorContext
import RovSdk.GeneratedStructs
import RovSdk.GoldenFrames
import RovSdk.SchemaSufficiency
import RovSdk.HeaderConstants
import RovSdk.DatagramRuns
import RovSdk.AddressLearning
import RovSdk.DatagramNetwork
import RovSdk.NetworkTraffic
import RovSdk.NetworkAuthenticity
import RovSdk.SchemaDiagnostics
import RovSdk.ArtifactAgreement
import RovSdk.StagedWrites
import RovSdk.GoldenHeader
import RovSdk.GeneratorRuns
import RovSdk.GoldenJson
import RovSdk.JsonText
import RovSdk.MessageText
import RovSdk.PublishedGolden
import RovSdk.PublishedHeaders
import RovSdk.SourceNames
import RovSdk.SourceTokens
import RovSdk.HeaderText
import RovSdk.HeaderReader
