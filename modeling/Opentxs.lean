import Opentxs.Blockchain.Mempool
import Opentxs.HeaderOracle.Ancestry
import Opentxs.HeaderOracle.Synchronization
import Opentxs.Wallet.Reservations
import Opentxs.Wallet.Finalizing
import Opentxs.Wallet.Maturity
import Opentxs.Wallet.IndexConsistency
import Opentxs.Wallet.OrderIndependence
import Opentxs.Spend.Ending
import Opentxs.Spend.Meaning
import Opentxs.Subchain.Epochs
import Opentxs.Subchain.Reorgs
import Opentxs.BlockOracle.Cache
import Opentxs.BlockOracle.Downloads
import Opentxs.BlockOracle.Verification
import Opentxs.Reorg.Barrier
import Opentxs.Trading.Sizes
import Opentxs.Trading.StopOrders
import Opentxs.Trading.Balances
import Opentxs.Trading.NumList
import Opentxs.Bitcoin.Templates
import Opentxs.Bitcoin.Builders
import Opentxs.Rlp.Hostile
import Opentxs.Rlp.Roundtrip
import Opentxs.Recurring.Charges
import Opentxs.Cron.Bookkeeping
import Opentxs.Subchain.Elements
import Opentxs.Subchain.ScanBatch
import Opentxs.Subaccount.Allocating
import Opentxs.FilterOracle.Deliveries
import Opentxs.FilterOracle.Startup
import Opentxs.Consensus.Ledger
import Opentxs.Consensus.Promises
import Opentxs.Consensus.Resolving
import Opentxs.Consensus.Resync
import Opentxs.Display.Roundtrip
import Opentxs.Spend.Assembly
import Opentxs.Bitcoin.Blocks
