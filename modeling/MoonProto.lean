import MoonProto.Client.SessionClose
import MoonProto.Client.OldCiphertext
import MoonProto.Client.SlicedTransfer
import MoonProto.Client.SlicedLink
import MoonProto.State.SeqRingCursor
import MoonProto.State.TradesRecovery
import MoonProto.State.OrderLifecycle
import MoonProto.Client.RetryBudget
import MoonProto.Client.Batching
import MoonProto.Client.ServerRestart
import MoonProto.State.MiniCandles
import MoonProto.State.SessionReplica
import MoonProto.State.BalanceOrder
import MoonProto.State.OrderBookCache
import MoonProto.State.OrderBookMerge
import MoonProto.State.SeqRingTime
import MoonProto.Compression.RleLZ
import MoonProto.Client.SlicedRetry
import MoonProto.Transport.Packet
import MoonProto.Commands.TradesSections
import MoonProto.State.StratsCache
import MoonProto.Commands.ChunkedResponse
import MoonProto.Ntp
import MoonProto.ApiPending
