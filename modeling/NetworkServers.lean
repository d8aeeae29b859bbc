import NetworkServers.Http.QueueFifo
import NetworkServers.Http.QueueResize
import NetworkServers.Http.QueueLocks
import NetworkServers.Http.QueueProducers
import NetworkServers.Http.QueueWaiters
import NetworkServers.Http.PoolShutdown
import NetworkServers.Http.PoolQueue
import NetworkServers.Http.MainChain
import NetworkServers.Http.ParseThreads
import NetworkServers.Http.RequestHead
import NetworkServers.Http.RequestRoundTrip
import NetworkServers.Http.RequestRobust
import NetworkServers.Library.Tokens
import NetworkServers.Http.Response
import NetworkServers.Http.HeaderTable
import NetworkServers.Http.ResponseDecoding
import NetworkServers.Http.Main
import NetworkServers.Phase2.Sessions
import NetworkServers.Phase2.Revocation
import NetworkServers.Phase2.Passwords
import NetworkServers.Phase2.Responses
import NetworkServers.Phase2.Workers
import NetworkServers.Phase2.Pipelining
import NetworkServers.Phase2.Segments
import NetworkServers.Phase2.StaticFiles
import NetworkServers.Phase2.LongPoll
import NetworkServers.Phase2.ChatHistory
import NetworkServers.Chat.Server
import NetworkServers.Chat.Sockets
import NetworkServers.Chat.ReturnedClient
import NetworkServers.Chat.OwnClient
import NetworkServers.Chat.TotalOrder
import NetworkServers.Chat.Client
import NetworkServers.Chat.Names
import NetworkServers.Chat.Buffers
import NetworkServers.Phase2.Cluster
import NetworkServers.Phase2.Interference
import NetworkServers.Phase2.GptPrompt
import NetworkServers.Phase2.Visitor
import NetworkServers.Phase2.Downloads
import NetworkServers.Phase2.ParseRoundTrip
import NetworkServers.Phase2.Redirects
import NetworkServers.Phase2.HeaderLines
import NetworkServers.Phase2.Replacement
import NetworkServers.Phase2.PostedMessages
import NetworkServers.Phase2.UserMap
import NetworkServers.Phase2.StoreFiles
import NetworkServers.Http.EnqueueSteps
import NetworkServers.Http.Middlewares
import NetworkServers.Http.StaticContainment
import NetworkServers.Http.TextBuffers
import NetworkServers.Http.BodyOwnership
import NetworkServers.SocketChat.Sockets
import NetworkServers.SocketChat.Lines
import NetworkServers.SocketChat.NameGate
import NetworkServers.SocketChat.Conversation
import NetworkServers.Library.Utf8Encoding
import NetworkServers.Library.Json
import NetworkServers.Library.JsonParsing
import NetworkServers.Library.JsonRoundTrip
import NetworkServers.Http.RequestNormalForm
import NetworkServers.Http.RequestMemory
import NetworkServers.Http.RequestLeaks
