import FdoUefi.Main
import FdoUefi.Theorems.AntiRollback
import FdoUefi.Theorems.Artifact
import FdoUefi.Theorems.Bmo
import FdoUefi.Theorems.Boot
import FdoUefi.Theorems.CertCoverage
import FdoUefi.Theorems.Chainload
import FdoUefi.Theorems.CipherSuite
import FdoUefi.Theorems.Conversation
import FdoUefi.Theorems.CounterLaws
import FdoUefi.Theorems.Csr
import FdoUefi.Theorems.DelegateChain
import FdoUefi.Theorems.Di
import FdoUefi.Theorems.DiCapture
import FdoUefi.Theorems.Dns
import FdoUefi.Theorems.EnvelopePayload
import FdoUefi.Theorems.FirmwareBounds
import FdoUefi.Theorems.FirmwareSound
import FdoUefi.Theorems.Fragmentation
import FdoUefi.Theorems.FrontEnds
import FdoUefi.Theorems.HeaderAgree
import FdoUefi.Theorems.HttpRequests
import FdoUefi.Theorems.InfoDelivery
import FdoUefi.Theorems.InfoTranscript
import FdoUefi.Theorems.InlineTransfer
import FdoUefi.Theorems.Life
import FdoUefi.Theorems.LowS
import FdoUefi.Theorems.MessageBounds
import FdoUefi.Theorems.MessageDemands
import FdoUefi.Theorems.MinRevision
import FdoUefi.Theorems.NvReaders
import FdoUefi.Theorems.PathLength
import FdoUefi.Theorems.ReadBack
import FdoUefi.Theorems.Resolver
import FdoUefi.Theorems.ReusePermission
import FdoUefi.Theorems.RoundTrip
import FdoUefi.Theorems.RvRevision
import FdoUefi.Theorems.RvUrl
import FdoUefi.Theorems.Scope
import FdoUefi.Theorems.ServiceInfo
import FdoUefi.Theorems.SessionIvs
import FdoUefi.Theorems.SetupCheck
import FdoUefi.Theorems.SignedContexts
import FdoUefi.Theorems.SkipItems
import FdoUefi.Theorems.Termination
import FdoUefi.Theorems.To2
import FdoUefi.Theorems.TpmCommands
import FdoUefi.Theorems.TpmNvLimit
import FdoUefi.Theorems.TpmRandom
import FdoUefi.Theorems.TpmRefinement
import FdoUefi.Theorems.TpmResponses
import FdoUefi.Theorems.Truncation
import FdoUefi.Theorems.UefiPost
import FdoUefi.Theorems.UndefinedKeys
import FdoUefi.Theorems.Voucher
import FdoUefi.Theorems.VoucherFetch
