import InfiniteEvm.Store.Branching
import InfiniteEvm.Precompiles.CallLimit
import InfiniteEvm.PreciseBank.Genesis
import InfiniteEvm.PreciseBank.Reserve
import InfiniteEvm.Mempool.Exclusivity
import InfiniteEvm.Precompiles.LongAddresses
import InfiniteEvm.Precompiles.Conservation
import InfiniteEvm.VM.Permissions
import InfiniteEvm.VM.GenesisRoundTrip
import InfiniteEvm.VM.Flushing
import InfiniteEvm.VM.Fees
import InfiniteEvm.FeeMarket.Law
import InfiniteEvm.Ante.MinGasPrice
import InfiniteEvm.Ante.Routing
import InfiniteEvm.EIP712.Binding
import InfiniteEvm.Precompiles.Transfers
import InfiniteEvm.Erc20.Escrow
import InfiniteEvm.Mempool.Partition
import InfiniteEvm.Mempool.Offers
import InfiniteEvm.Mempool.Isolation
import InfiniteEvm.Mempool.HeightSync
import InfiniteEvm.Rpc.Lookups
import InfiniteEvm.Rpc.FilterRanges
import InfiniteEvm.Erc20.GenesisRoundTrip
import InfiniteEvm.Mempool.ReapList
import InfiniteEvm.Erc20.Names
import InfiniteEvm.Mempool.InsertQueue
