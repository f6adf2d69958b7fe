import Siip.Pallet.Ownership
import Siip.Pallet.ReverseLookup
import Siip.Pallet.WellFormed
import Siip.Pallet.AddressLookup
import Siip.Pallet.Outcome
import Siip.Pallet.Noninterference
import Siip.Pallet.Journal
import Siip.Pallet.AddressText
import Siip.Runtime.Inflation
import Siip.Runtime.RewardMiner
import Siip.Consensus.Threshold
import Siip.Consensus.Miner
import Siip.Proxy.PushBack
import Siip.Proxy.ChunkLoop
import Siip.Proxy.Stall
import Siip.Proxy.Truncation
import Siip.Proxy.HopByHop
import Siip.Proxy.Tunnel
import Siip.Proxy.Relay
import Siip.Proxy.UrlText
import Siip.Proxy.Browse
import Siip.Proxy.Resolver
import Siip.Proxy.Scrape
import Siip.Proxy.Threads
import Siip.Proxy.HeaderFormat
import Siip.Proxy.ForwardFormat
import Siip.Proxy.Handle
import Siip.Client.Scripts
import Siip.Client.TypeRegistry
import Siip.Proxy.TrustOnFirstUse
import Siip.Pallet.History
import Siip.Pallet.Raw
import Siip.Ui.Form
import Siip.Ui.Lookup
