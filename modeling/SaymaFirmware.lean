import SaymaFirmware.Theorems.Routing
import SaymaFirmware.Theorems.Configuration
import SaymaFirmware.Theorems.Drained
import SaymaFirmware.Theorems.ValidFrames
import SaymaFirmware.Theorems.ReceivePath
import SaymaFirmware.Theorems.TransmitPath
import SaymaFirmware.Theorems.StartOrder
import SaymaFirmware.Theorems.LinkAgreement
import SaymaFirmware.Theorems.RtmCoherence
import SaymaFirmware.Theorems.BodyIntegrity
import SaymaFirmware.Theorems.RetryContract
import SaymaFirmware.Theorems.Calibration
import SaymaFirmware.Theorems.ScanReport
import SaymaFirmware.Theorems.PhyFailure
import SaymaFirmware.Theorems.RequestOnly
import SaymaFirmware.Theorems.RequestLine
import SaymaFirmware.Theorems.HeapSafety
import SaymaFirmware.Theorems.TimerDeadlines
import SaymaFirmware.Theorems.TimerPeriodic
import SaymaFirmware.Theorems.QueueOrder
import SaymaFirmware.Theorems.QueueWakeups
import SaymaFirmware.Theorems.ChecksumAgree
import SaymaFirmware.Theorems.TcpDelivery
import SaymaFirmware.Theorems.TcpChecksums
import SaymaFirmware.Theorems.TcpReception
