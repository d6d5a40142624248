import EmailServer.Library.Program
import EmailServer.Library.Interleaving
import EmailServer.Library.Inevitable
import EmailServer.Library.Locking
import EmailServer.Library.Bytes
import EmailServer.Library.FileSystem
import EmailServer.Library.LexicalPath
import EmailServer.Library.FileNaming
import EmailServer.Library.History
import EmailServer.Library.Trace
import EmailServer.Library.FixedWindow
import EmailServer.Library.Expiring
import EmailServer.Library.Ledger
import EmailServer.Library.TextSearch
import EmailServer.Library.Base64
import EmailServer.Library.Yaml
import EmailServer.Library.Codec
import EmailServer.Library.Occurrences
import EmailServer.Library.Substitution
import EmailServer.Library.Chasing
import EmailServer.Library.Cursor
import EmailServer.Library.FirstFinding
import EmailServer.Storage.AtomicWrite
import EmailServer.Storage.MailStore
import EmailServer.Storage.Mailboxes
import EmailServer.Storage.Durability
import EmailServer.Storage.Overwrite
import EmailServer.Storage.Confinement
import EmailServer.Queue.MailQueue
import EmailServer.Queue.RetryWorker
import EmailServer.Queue.Workers
import EmailServer.Queue.Calls
import EmailServer.Queue.Conservation
import EmailServer.Queue.Lease
import EmailServer.Queue.Fetching
import EmailServer.Queue.Draining
import EmailServer.Queue.Payload
import EmailServer.Queue.Envelope
import EmailServer.Smtp.Session
import EmailServer.Core.ConfigLoader
import EmailServer.Core.ConnectionManager
import EmailServer.Core.AppLifecycle
import EmailServer.Core.Startup
import EmailServer.Core.ShutdownCoordinator
import EmailServer.Core.Shutdown
import EmailServer.Core.ShutdownRuns
import EmailServer.Core.OrderlyShutdown
import EmailServer.Core.MainProgram
import EmailServer.Core.ProgramEnd
import EmailServer.Smtp.Commands
import EmailServer.Smtp.Steps
import EmailServer.Smtp.Moves
import EmailServer.Smtp.Envelope
import EmailServer.Smtp.StoredHeaders
import EmailServer.Smtp.Authentication
import EmailServer.Smtp.Backpressure
import EmailServer.Smtp.TlsPolicy
import EmailServer.Smtp.Body
import EmailServer.Smtp.CircuitBreaker
import EmailServer.Smtp.Runs
import EmailServer.Smtp.Framing
import EmailServer.Smtp.Delivery
import EmailServer.Smtp.Transcript
import EmailServer.Smtp.Transactions
import EmailServer.Smtp.Greeting
import EmailServer.Core.AddressLimit
import EmailServer.Core.RateLimiter
import EmailServer.Core.AuthThrottle
import EmailServer.Imap.ImapServer
import EmailServer.Imap.Admissions
import EmailServer.Core.InputValidator
import EmailServer.Imap.ImapSession
import EmailServer.Imap.Login
import EmailServer.Imap.FlagsIndex
import EmailServer.Imap.SavedFlags
import EmailServer.Imap.SessionRun
import EmailServer.Imap.Sockets
import EmailServer.Imap.SocketOwners
import EmailServer.Core.TlsEntries
import EmailServer.Smtp.SmtpServer
import EmailServer.Smtp.Slots
import EmailServer.Delivery.SmtpClient
import EmailServer.Delivery.Outcome
import EmailServer.Delivery.EhloReply
import EmailServer.Delivery.Settlement
import EmailServer.Delivery.Transfer
import EmailServer.Delivery.Stuffing
import EmailServer.Delivery.Segmentation
import EmailServer.Auth.DistributedAuthManager
import EmailServer.Auth.DistributedRuns
import EmailServer.Auth.CachedUsers
import EmailServer.Auth.SessionLifetime
import EmailServer.Auth.SessionUser
import EmailServer.Auth.ActiveSessions
import EmailServer.Mime.MimeDecoder
import EmailServer.Mime.MimeParser
import EmailServer.Mime.TransferDecoding
import EmailServer.Mime.Multipart
import EmailServer.Auth.PasswordHash
import EmailServer.Auth.AuthManager
import EmailServer.Auth.Migration
import EmailServer.Auth.UsersFile
import EmailServer.Auth.FailedLoad
import EmailServer.Auth.Hashed
import EmailServer.Auth.Verification
import EmailServer.Auth.DistributedLoad
import EmailServer.Smtp.Identity
import EmailServer.Auth.Interchange
import EmailServer.AntiSpam.DkimCanon
import EmailServer.AntiSpam.Dkim
import EmailServer.AntiSpam.DkimAgreement
import EmailServer.AntiSpam.DkimBody
import EmailServer.AntiSpam.RelaxedBody
import EmailServer.AntiSpam.HeaderSelection
import EmailServer.AntiSpam.HeaderFolding
import EmailServer.AntiSpam.TagLookup
import EmailServer.AntiSpam.DmarcEvaluator
import EmailServer.AntiSpam.Alignment
import EmailServer.AntiSpam.PolicyDiscovery
import EmailServer.AntiSpam.Spf
import EmailServer.AntiSpam.SpfVerdict
import EmailServer.AntiSpam.SpfLookups
import EmailServer.AntiSpam.SpfSyntax
import EmailServer.AntiSpam.ForeignRecords
import EmailServer.AntiSpam.SpfMacro
import EmailServer.Dns.DnsPacket
import EmailServer.Dns.DnsResolver
import EmailServer.Dns.Decompression
import EmailServer.Dns.PacketBounds
import EmailServer.Dns.QueryNames
import EmailServer.ThreatIntel.SenderReputation
import EmailServer.ThreatIntel.Updates
import EmailServer.ThreatIntel.HashFindings
import EmailServer.Virus.SandboxEngine
import EmailServer.Virus.Analysis
import EmailServer.Ha.HaController
import EmailServer.Ha.Leadership
import EmailServer.Ha.Reports
import EmailServer.Ha.Cluster
import EmailServer.Ha.SharedQueue
import EmailServer.Ha.Deliveries
import EmailServer.Auth.AuditLog
import EmailServer.Policy.AttachmentPolicy
import EmailServer.Spam.SpamEngine
import EmailServer.Library.Spelling
import EmailServer.Imap.LoginArguments
import EmailServer.Mime.EncodedText
import EmailServer.Library.WriteThrough
import EmailServer.Virus.VerdictStores
import EmailServer.Mime.FileNames
import EmailServer.Dns.Responses
import EmailServer.Policy.DoubleExtension
import EmailServer.Mime.Accumulator
import EmailServer.Mime.Partition
import EmailServer.Library.Sanitizing
import EmailServer.Core.Sanitizers
import EmailServer.Storage.UserDirectories
import EmailServer.Library.Cascade
import EmailServer.Core.Logger
import EmailServer.Core.LogRotation
import EmailServer.Library.DurableCalls
import EmailServer.Storage.Folders
import EmailServer.Storage.Retention
import EmailServer.Imap.Dialogue
import EmailServer.Smtp.Dialogue
import EmailServer.Delivery.Relay
import EmailServer.Smtp.Admissions
